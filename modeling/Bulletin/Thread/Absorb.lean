import Mathlib.Algebra.BigOperators.Ring.List
import Bulletin.Thread.Stable

/-! # Affinity across a merge

A thread that absorbs others takes their care signals, and scores from the affinity of its own row
alone. So what had been built up in the rows it absorbs is gone, unless that was nothing.
-/

namespace Bulletin

section Absorb

variable (prior : List (ThreadRow ℚ)) (sources : List StorySource) (care : List (ThreadCare ℚ))
  (since now : DateTime) (cfg : MaintenanceConfig ℚ)

/-- The affinity of a thread before the pass. -/
def priorAffinity (id : Uuid) : ℚ := ((prior.find? (·.id = id)).map (·.affinity)).getD 0

def decayed (affinity : ℚ) : ℚ :=
  affinity * SelectScore.powHalf
    ((Score.lit (Max.max (numSeconds (max (now - since) 0)) 0) : ℚ) /
      Score.lit (Max.max (numSeconds cfg.horizons.affinityHalfLife) 1))

def engagement (entities : List String) : ℚ :=
  cfg.engagementWeight * newStories entities sources since

/-- The affinity that the pass computes for an upsert, before it is clamped. -/
def unclampedAffinity (u : ThreadUpsert ℚ) : ℚ :=
  decayed since now cfg (u.id.elim 0 (priorAffinity prior)) +
    (careFor care u.id u.absorb + engagement sources since cfg u.entities)

/-- What its own row and the rows it absorbs amount to. -/
def investedAffinity (u : ThreadUpsert ℚ) : ℚ :=
  (u.ids.map fun id => decayed since now cfg (priorAffinity prior id)).sum +
    ((u.ids.map fun id => ((care.filter (·.threadId = id)).map (·.delta)).sum).sum +
      engagement sources since cfg u.entities)

/-- Every upsert has the affinity invested in all the threads it is made of. -/
def AffinityKept (upserts : List (ThreadUpsert ℚ)) : Prop :=
  ∀ u ∈ upserts, u.affinity =
      clamp (unclampedAffinity prior sources care since now cfg u) (Score.lit 0) cfg.affinityMax ∧
    unclampedAffinity prior sources care since now cfg u =
      investedAffinity prior sources care since now cfg u

instance (upserts : List (ThreadUpsert ℚ)) :
    Decidable (AffinityKept prior sources care since now cfg upserts) :=
  inferInstanceAs (Decidable (∀ u ∈ upserts, _ ∧ _))

end Absorb

/-! ## What the pass computes -/

section Pass

variable {candidates : List (List String)} {resolution : Resolution} {sources : List StorySource}
  {prior : List (ThreadRow ℚ)} {care : List (ThreadCare ℚ)} {since now : DateTime}
  {cfg : MaintenanceConfig ℚ}

theorem powHalfLinear_pos {x : ℚ} : 0 < powHalfLinear x := by
  have hlt : x - ⌊x⌋ < 1 := by
    have hfloor := Int.lt_floor_add_one x
    linarith
  have hrest : 0 < 1 - (x - ⌊x⌋) / 2 := by linarith
  exact mul_pos (zpow_pos (by norm_num) _) hrest

theorem decayed_sum (ids : List Uuid) (affinity : Uuid → ℚ) :
    (ids.map fun id => decayed since now cfg (affinity id)).sum =
      decayed since now cfg (ids.map affinity).sum := by
  unfold decayed
  rw [List.sum_map_mul_right]

theorem decayed_eq_zero {affinity : ℚ} : decayed since now cfg affinity = 0 ↔ affinity = 0 := by
  unfold decayed
  rw [mul_eq_zero, or_iff_left]
  exact powHalfLinear_pos.ne'

theorem priorAffinity_of_mem (hids : (prior.map (·.id)).Nodup) {t : ThreadRow ℚ} (ht : t ∈ prior) :
    priorAffinity prior t.id = t.affinity := by
  unfold priorAffinity
  cases hfind : prior.find? (·.id = t.id) with
  | none =>
      have hnone := List.find?_eq_none.mp hfind t ht
      simp at hnone
  | some t' =>
      have hid : t'.id = t.id := by simpa using List.find?_some hfind
      obtain rfl := List.inj_on_of_nodup_map hids (List.mem_of_find?_eq_some hfind) ht hid
      rfl

theorem maintainUpserts_unclamped (hids : (prior.map (·.id)).Nodup) {u : ThreadUpsert ℚ}
    (hu : u ∈ maintainUpserts candidates resolution sources prior care since now cfg) :
    u.affinity =
      clamp (unclampedAffinity prior sources care since now cfg u)
        (Score.lit 0) cfg.affinityMax := by
  rcases List.mem_append.mp hu with hin | hin
  · obtain ⟨m, _, rfl⟩ := List.mem_map.mp hin
    cases hwinner : m.winner with
    | none => simp [buildUpsert, scoredAffinity, decayAffinity, unclampedAffinity, decayed,
        engagement, Score.lit, SelectScore.narrow]
    | some w => simp [buildUpsert, scoredAffinity, decayAffinity, unclampedAffinity, decayed,
        engagement, Score.lit, SelectScore.narrow, priorAffinity]
  · obtain ⟨t, ht, rfl⟩ := List.mem_map.mp hin
    have hprior := priorAffinity_of_mem hids (List.mem_of_mem_filter ht)
    simp [buildUpsert, scoredAffinity, decayAffinity, unclampedAffinity, decayed,
        engagement, Score.lit, SelectScore.narrow, hprior]

theorem invested_eq_iff (u : ThreadUpsert ℚ) :
    unclampedAffinity prior sources care since now cfg u =
        investedAffinity prior sources care since now cfg u ↔
      (u.absorb.map (priorAffinity prior)).sum = 0 := by
  have hids : (u.ids.map fun id => decayed since now cfg (priorAffinity prior id)).sum =
      decayed since now cfg (u.id.elim 0 (priorAffinity prior)) +
        decayed since now cfg (u.absorb.map (priorAffinity prior)).sum := by
    unfold ThreadUpsert.ids
    rw [List.map_append, List.sum_append, decayed_sum, decayed_sum]
    cases u.id <;> simp
  unfold unclampedAffinity investedAffinity
  rw [careFor_eq_ids, hids]
  have hzero := @decayed_eq_zero since now cfg (u.absorb.map (priorAffinity prior)).sum
  rw [← hzero]
  constructor
  · intro h
    simp only [ThreadUpsert.ids] at h
    linarith
  · intro h
    simp only [ThreadUpsert.ids]
    rw [h]
    ring

theorem affinityKept_iff {upserts : List (ThreadUpsert ℚ)}
    (hclamped : ∀ u ∈ upserts, u.affinity =
      clamp (unclampedAffinity prior sources care since now cfg u) (Score.lit 0) cfg.affinityMax) :
    AffinityKept prior sources care since now cfg upserts ↔
      ∀ u ∈ upserts, (u.absorb.map (priorAffinity prior)).sum = 0 := by
  constructor
  · intro h u hu
    exact (invested_eq_iff u).mp (h u hu).2
  · intro h u hu
    exact ⟨hclamped u hu, (invested_eq_iff u).mpr (h u hu)⟩

theorem maintainUpserts_absorb_iff {P : List Uuid → Prop} (hnil : P []) :
    (∀ u ∈ maintainUpserts candidates resolution sources prior care since now cfg, P u.absorb) ↔
      ∀ m ∈ mapCommunitiesToThreads candidates (prior.map (·.asExisting)) cfg.matchThreshold,
        P m.absorb := by
  unfold maintainUpserts
  dsimp only
  simp only [List.mem_append, List.mem_map]
  constructor
  · intro h m hm
    exact h _ (Or.inl ⟨m, hm, rfl⟩)
  · intro h u hu
    rcases hu with ⟨m, hm, rfl⟩ | ⟨t, _, rfl⟩
    · exact h m hm
    · exact hnil

/-- A pass keeps the affinity of the threads it merges when those absorbed had none. -/
theorem affinity_kept_iff (candidates : List (List String)) (resolution : Resolution)
    (sources : List StorySource) (prior : List (ThreadRow ℚ)) (care : List (ThreadCare ℚ))
    (since now : DateTime) (cfg : MaintenanceConfig ℚ) (hids : (prior.map (·.id)).Nodup) :
    AffinityKept prior sources care since now cfg
        (maintainUpserts candidates resolution sources prior care since now cfg) ↔
      ∀ m ∈ mapCommunitiesToThreads candidates (prior.map (·.asExisting)) cfg.matchThreshold,
        (m.absorb.map (priorAffinity prior)).sum = 0 := by
  rw [affinityKept_iff fun u hu => maintainUpserts_unclamped hids hu]
  exact @maintainUpserts_absorb_iff candidates resolution sources prior care since now cfg
    (fun absorb => (absorb.map (priorAffinity prior)).sum = 0) rfl

end Pass

/-- The third thread goes to the first, and its affinity goes nowhere. -/
theorem affinity_kept_iff_overlapping :
    AffinityKept overlappingThreads [] [] 0 5 (MaintenanceConfig.default ℚ)
        (maintainUpserts twoCommunities {} [] overlappingThreads [] 0 5
          (MaintenanceConfig.default ℚ)) ↔
      ∀ m ∈ mapCommunitiesToThreads twoCommunities (overlappingThreads.map (·.asExisting))
        (MaintenanceConfig.default ℚ).matchThreshold,
        (m.absorb.map (priorAffinity overlappingThreads)).sum = 0 :=
  affinity_kept_iff twoCommunities {} [] overlappingThreads [] 0 5 (MaintenanceConfig.default ℚ)
    (by decide)

theorem absorbed_affinity_lost :
    ¬ AffinityKept overlappingThreads [] [] 0 5 (MaintenanceConfig.default ℚ)
      (maintainUpserts twoCommunities {} [] overlappingThreads [] 0 5
        (MaintenanceConfig.default ℚ)) := by
  decide +kernel

end Bulletin
