import Mathlib.Algebra.Order.BigOperators.Group.List
import Bulletin.Thread.Maintain

/-! # Weights of entities

What the threads of a pass project onto the entities: never less than nothing, and never more
for a signal against a thread.
-/

namespace Bulletin

/-! ## One thread -/

def ThreadState.factor : ThreadState → ℚ
  | .active => 1
  | .dormant => 1 / 4
  | .archived => 0

def weightShare (thread : ThreadState × ℚ × List String) (e : String) : ℚ :=
  thread.2.2.count e * (max thread.2.1 0 * thread.1.factor / thread.2.2.length)

theorem ThreadState.factor_nonneg (state : ThreadState) : 0 ≤ state.factor := by
  cases state <;> simp [factor]

theorem weightShare_nonneg {thread : ThreadState × ℚ × List String} {e : String} :
    0 ≤ weightShare thread e := by
  unfold weightShare
  have hfactor := thread.1.factor_nonneg
  positivity

theorem weightShare_mono {state : ThreadState} {low high : ℚ} {entities : List String} {e : String}
    (h : max low 0 ≤ max high 0) :
    weightShare (state, low, entities) e ≤ weightShare (state, high, entities) e := by
  unfold weightShare
  have hfactor := state.factor_nonneg
  dsimp only
  gcongr

theorem getD_addShares (entities : List String) (share : ℚ)
    (weights : Std.ExtTreeMap String ℚ compare) (e : String) :
    (entities.foldl (fun weights e =>
      weights.insert e (weights.getD e (Score.lit 0) + share)) weights).getD e 0 =
        weights.getD e 0 + entities.count e * share := by
  have hsum := Buckets.getD_foldl_add id (fun _ => share) entities weights e
  have hcount : (entities.filter fun x => id x = e).length = entities.count e := by
    simp [List.count_eq_length_filter, beq_eq_decide]
  rw [List.map_const', List.sum_replicate, hcount, nsmul_eq_mul] at hsum
  simpa [Score.lit] using hsum

theorem getD_addThread {state : ThreadState} {affinity factor : ℚ} {entities : List String}
    {weights after : Std.ExtTreeMap String ℚ compare} (hfactor : state.factor = factor)
    (hskip : entities = [] ∨ affinity ≤ 0 → after = weights)
    (hadd : entities ≠ [] → 0 < affinity → after = entities.foldl (fun weights e =>
      weights.insert e (weights.getD e (Score.lit 0) +
        affinity * factor / Score.lit entities.length)) weights) (e : String) :
    after.getD e 0 = weights.getD e 0 + weightShare (state, affinity, entities) e := by
  unfold weightShare
  dsimp only
  rw [hfactor]
  by_cases hempty : entities = []
  · rw [hskip (Or.inl hempty)]
    simp [hempty]
  · rcases le_or_gt affinity 0 with hneg | hpos
    · rw [hskip (Or.inr hneg)]
      simp [max_eq_right hneg]
    · have hlength : (Score.lit entities.length : ℚ) = entities.length := by simp [Score.lit]
      rw [hadd hempty hpos, max_eq_left hpos.le, hlength]
      exact getD_addShares _ _ _ _

theorem partialCmp_zero_of_nonpos {x : ℚ} (h : x ≤ 0) :
    Score.partialCmp x (Score.lit 0) = some .lt ∨ Score.partialCmp x (Score.lit 0) = some .eq := by
  rcases h.lt_or_eq with hlt | heq
  · exact Or.inl (by simpa [Score.partialCmp, Score.lit, compare_lt_iff_lt] using hlt)
  · exact Or.inr (by simpa [Score.partialCmp, Score.lit, compare_eq_iff_eq] using heq)

theorem partialCmp_zero_of_pos {x : ℚ} (h : 0 < x) :
    Score.partialCmp x (Score.lit 0) = some .gt := by
  simpa [Score.partialCmp, Score.lit, compare_gt_iff_gt] using h

theorem projectWeights_getD (threads : List (ThreadState × ℚ × List String)) (e : String) :
    (projectWeights threads).getD e 0 = (threads.map (weightShare · e)).sum := by
  unfold projectWeights
  induction threads using List.reverseRecOn with
  | nil => simp
  | append_singleton threads thread ih =>
      obtain ⟨state, affinity, entities⟩ := thread
      rw [List.foldl_append, List.foldl_cons, List.foldl_nil, List.map_append, List.sum_append,
        ← ih]
      simp only [List.map_cons, List.map_nil, List.sum_singleton]
      cases state with
      | archived => simp [weightShare, ThreadState.factor]
      | active =>
          have hfactor : ThreadState.factor .active = Score.lit 1 := by
            simp [ThreadState.factor, Score.lit]
          refine getD_addThread hfactor ?_ ?_ e
          · intro hskip
            rcases hskip with hempty | hneg
            · simp [hempty]
            · rcases partialCmp_zero_of_nonpos hneg with hcmp | hcmp <;> simp [hcmp]
          · intro hempty hpos
            simp [hempty, partialCmp_zero_of_pos hpos]
      | dormant =>
          have hfactor : ThreadState.factor .dormant = Score.lit (1 / 4) := by
            simp [ThreadState.factor, Score.lit]
          refine getD_addThread hfactor ?_ ?_ e
          · intro hskip
            rcases hskip with hempty | hneg
            · simp [hempty]
            · rcases partialCmp_zero_of_nonpos hneg with hcmp | hcmp <;> simp [hcmp]
          · intro hempty hpos
            simp [hempty, partialCmp_zero_of_pos hpos]

theorem projectWeights_nonneg {threads : List (ThreadState × ℚ × List String)} {e : String} :
    0 ≤ (projectWeights threads).getD e 0 := by
  rw [projectWeights_getD]
  apply List.sum_nonneg
  intro x hx
  obtain ⟨thread, _, rfl⟩ := List.mem_map.mp hx
  exact weightShare_nonneg

/-! ## One signal against a thread -/

theorem clamp_mono {low high max' : ℚ} (h : low ≤ high) :
    max (clamp low (Score.lit 0) max') 0 ≤ max (clamp high (Score.lit 0) max') 0 := by
  have hlit : (Score.lit 0 : ℚ) = 0 := by simp [Score.lit]
  have hlt : ∀ x y : ℚ, Score.lt x y = true ↔ x < y := by
    intro x y
    simp [Score.lt, Score.partialCmp, compare_lt_iff_lt]
  have hgt : ∀ x y : ℚ, Score.gt x y = true ↔ y < x := by
    intro x y
    simp [Score.gt, Score.partialCmp, compare_gt_iff_gt]
  unfold clamp
  rw [hlit]
  simp only [hlt, hgt]
  split_ifs <;> grind

section Pass

variable {candidates : List (List String)} {resolution : Resolution} {sources : List StorySource}
  {prior : List (ThreadRow ℚ)} {since now : DateTime} {cfg : MaintenanceConfig ℚ}

theorem careFor_cons_le {care : List (ThreadCare ℚ)} {c : ThreadCare ℚ} (h : c.delta ≤ 0)
    (id : Option Uuid) (absorb : List Uuid) :
    careFor (c :: care) id absorb ≤ careFor care id absorb := by
  rw [careFor_eq_ids, careFor_eq_ids]
  apply List.sum_le_sum
  intro id _
  rw [List.filter_cons]
  split
  · simpa using h
  · exact le_refl _

theorem scoredAffinity_mono {row : Option (ThreadRow ℚ)} {stories : Nat} {low high : ℚ}
    (h : low ≤ high) : max (scoredAffinity row stories low since now cfg) 0 ≤
      max (scoredAffinity row stories high since now cfg) 0 := by
  unfold scoredAffinity decayAffinity
  apply clamp_mono
  show _ + _ ≤ _ + _
  gcongr

def passWeights (candidates : List (List String)) (resolution : Resolution)
    (sources : List StorySource) (prior : List (ThreadRow ℚ)) (care : List (ThreadCare ℚ))
    (since now : DateTime) (cfg : MaintenanceConfig ℚ) : Std.ExtTreeMap String ℚ compare :=
  projectWeights ((maintainUpserts candidates resolution sources prior care since now cfg).map
    fun u => (u.state, u.affinity, u.entities))

theorem passWeights_cons_le {care : List (ThreadCare ℚ)} {c : ThreadCare ℚ} (h : c.delta ≤ 0)
    (e : String) :
    (passWeights candidates resolution sources prior (c :: care) since now cfg).getD e 0 ≤
      (passWeights candidates resolution sources prior care since now cfg).getD e 0 := by
  unfold passWeights maintainUpserts
  rw [projectWeights_getD, projectWeights_getD]
  simp only [List.map_append, List.map_map, List.sum_append]
  apply add_le_add
  · apply List.sum_le_sum
    intro m _
    exact weightShare_mono (scoredAffinity_mono (careFor_cons_le h _ _))
  · apply List.sum_le_sum
    intro t _
    exact weightShare_mono (scoredAffinity_mono (careFor_cons_le h _ _))

end Pass

end Bulletin
