import Bulletin.Link.Reasons

/-! # What constraints mean

A must-link forces a strong edge and a cannot-link drops a scored one, before the guarded passes run
over what is left. So a chain of must-links holds whatever else was recorded, and a cannot-link is
the deletion of one edge and of nothing more.
-/

namespace Bulletin

open GuardedMerge

variable {n : Nat} {F : Type}

/-! ## Recorded constraints -/

/-- Constraints built up by `must` and `cannot`. -/
inductive LinkConstraints.Recorded : LinkConstraints → Prop where
  | empty : Recorded {}
  | must {c : LinkConstraints} (a b : Uuid) : Recorded c → Recorded (c.must a b)
  | cannot {c : LinkConstraints} (a b : Uuid) : Recorded c → Recorded (c.cannot a b)

theorem LinkConstraints.key_cases (a b : Uuid) :
    key a b = toLex (a, b) ∨ key a b = toLex (b, a) := by
  unfold key
  split
  · exact Or.inl rfl
  · exact Or.inr rfl

theorem LinkConstraints.key_key (a b : Uuid) :
    key (ofLex (key a b)).1 (ofLex (key a b)).2 = key a b := by
  rcases key_cases a b with h | h
  · rw [h]
    exact h
  · rw [h, key_comm]
    exact h

theorem LinkConstraints.Recorded.key_eq {c : LinkConstraints} (h : c.Recorded) {a b : Uuid}
    (hab : toLex (a, b) ∈ c.mustLink) : key a b = toLex (a, b) := by
  induction h with
  | empty => exact absurd hab Std.ExtTreeSet.not_mem_empty
  | must x y _ ih =>
      rcases Std.ExtTreeSet.mem_insert.mp hab with heq | hab
      · have hkey := key_key x y
        rw [Std.LawfulEqCmp.eq_of_compare heq] at hkey
        exact hkey
      · exact ih hab
  | cannot x y _ ih => exact ih hab

section Slice

variable (clusters : Fin n → LinkCluster) (c : LinkConstraints)

def MustLinked (i j : Fin n) : Prop :=
  LinkConstraints.key (clusters i).id (clusters j).id ∈ c.mustLink

def CannotLinked (i j : Fin n) : Prop :=
  LinkConstraints.key (clusters i).id (clusters j).id ∈ c.cannotLink

def LinkConstraints.allow (pair : Uuid ×ₗ Uuid) : LinkConstraints :=
  { c with cannotLink := c.cannotLink.erase pair }

/-- Two records say the same of the clusters of the slice. -/
structure AgreeOnSlice (c c' : LinkConstraints) : Prop where
  must : ∀ i j, toLex ((clusters i).id, (clusters j).id) ∈ c.mustLink ↔
    toLex ((clusters i).id, (clusters j).id) ∈ c'.mustLink
  cannot : ∀ i j, toLex ((clusters i).id, (clusters j).id) ∈ c.cannotLink ↔
    toLex ((clusters i).id, (clusters j).id) ∈ c'.cannotLink

end Slice

/-- What the constraints of a run do to its stories. -/
structure ConstraintsMean [Score F] (clusters : Fin n → LinkCluster) (prior : List PriorMember)
    (tuning : LinkTuning F) : Prop where
  /-- The ends of a chain of must-links are in one story. -/
  must : ∀ i j, Relation.ReflTransGen (MustLinked clusters tuning.constraints) i j → ∀ mint,
    ∃ story ∈ (linkWith clusters prior tuning mint).stories,
      (clusters i).id ∈ story.members ∧ (clusters j).id ∈ story.members
  /-- A cannot-link makes the components those of the scored edges without the one it names. -/
  cannot : ∀ i j, CannotLinked clusters tuning.constraints i j →
    linkComponents clusters prior tuning = components clusters
      (applyConstraints
        ((scoreEdges clusters tuning.entityWeights).filter fun e =>
          pairId clusters e ≠ LinkConstraints.key (clusters i).id (clusters j).id)
        clusters
        (tuning.constraints.allow (LinkConstraints.key (clusters i).id (clusters j).id))) prior
  /-- Unless it is a must-link as well, its clusters are together by a chain of other edges only. -/
  chain : ∀ i j, CannotLinked clusters tuning.constraints i j →
    ¬ MustLinked clusters tuning.constraints i j → ∀ mint,
    ∀ story ∈ (linkWith clusters prior tuning mint).stories,
      (clusters i).id ∈ story.members → (clusters j).id ∈ story.members →
      Relation.EqvGen (fun k l => ∃ e ∈ linkEdges clusters tuning, e.ends = (k, l) ∧
        pairId clusters e ≠ LinkConstraints.key (clusters i).id (clusters j).id) i j
  /-- What is recorded of clusters outside the slice changes nothing. -/
  outside : ∀ c', AgreeOnSlice clusters tuning.constraints c' → ∀ mint,
    linkWith clusters prior { tuning with constraints := c' } mint =
      linkWith clusters prior tuning mint

/-! ## Forced edges -/

section Forced

variable [Score F] {clusters : Fin n → LinkCluster}

def Forces (es : List (Edge n F)) (ends : Fin n × Fin n) : Prop :=
  ∃ e ∈ es, e.strong = true ∧ e.ends = ends

theorem forceEdge_forces (a b : Fin n) (es : List (Edge n F)) :
    Forces (forceEdge a b es) (a, b) := by
  induction es with
  | nil => exact ⟨mustEdge a b, List.mem_singleton_self _, rfl, rfl⟩
  | cons x rest ih =>
      by_cases hx : x.ends = (a, b)
      · rw [forceEdge_cons_hit hx]
        exact ⟨mustEdge a b, List.mem_cons_self, rfl, rfl⟩
      · rw [forceEdge_cons_miss hx]
        obtain ⟨e, he, hforced⟩ := ih
        exact ⟨e, List.mem_cons_of_mem _ he, hforced⟩

theorem Forces.forceEdge {es : List (Edge n F)} {ends : Fin n × Fin n} (h : Forces es ends)
    (a b : Fin n) : Forces (forceEdge a b es) ends := by
  obtain ⟨e, he, hstrong, hends⟩ := h
  by_cases hab : ends = (a, b)
  · subst hab
    exact forceEdge_forces a b es
  · refine ⟨e, ?_, hstrong, hends⟩
    induction es with
    | nil => cases he
    | cons x rest ih =>
        by_cases hx : x.ends = (a, b)
        · rw [forceEdge_cons_hit hx]
          rcases List.mem_cons.mp he with rfl | he
          · exact absurd (hends.symm.trans hx) hab
          · exact List.mem_cons_of_mem _ he
        · rw [forceEdge_cons_miss hx]
          rcases List.mem_cons.mp he with rfl | he
          · exact List.mem_cons_self
          · exact List.mem_cons_of_mem _ (ih he)

theorem Forces.applyMust {es : List (Edge n F)} {ends : Fin n × Fin n} (h : Forces es ends)
    (pair : Uuid ×ₗ Uuid) : Forces (applyMust clusters es pair) ends := by
  unfold Bulletin.applyMust
  split
  · split
    · exact h
    · exact h.forceEdge _ _
  · exact h

theorem Forces.foldl {es : List (Edge n F)} {ends : Fin n × Fin n} (h : Forces es ends)
    (pairs : List (Uuid ×ₗ Uuid)) : Forces (pairs.foldl (Bulletin.applyMust clusters) es) ends := by
  induction pairs generalizing es with
  | nil => exact h
  | cons pair rest ih => exact ih (h.applyMust pair)

theorem linkEdges_forces (hids : Function.Injective fun i => (clusters i).id)
    {tuning : LinkTuning F} {i j : Fin n} (h : MustLinked clusters tuning.constraints i j)
    (hij : i ≠ j) : Forces (linkEdges clusters tuning) (min i j, max i j) := by
  have happly : ∀ es : List (Edge n F), Forces (applyMust clusters es
      (LinkConstraints.key (clusters i).id (clusters j).id)) (min i j, max i j) := by
    intro es
    have hfound : ∀ k, indexOf clusters (clusters k).id = some k :=
      fun k => (indexOf_eq_some_iff hids).mpr rfl
    unfold applyMust
    rcases LinkConstraints.key_cases (clusters i).id (clusters j).id with hkey | hkey
    · simp only [hkey, ofLex_toLex, hfound, if_neg hij]
      exact forceEdge_forces _ _ es
    · simp only [hkey, ofLex_toLex, hfound, if_neg (Ne.symm hij)]
      rw [min_comm i j, max_comm i j]
      exact forceEdge_forces _ _ es
  obtain ⟨before, after, hpairs⟩ := List.append_of_mem (Std.ExtTreeSet.mem_toList.mpr h)
  unfold linkEdges applyConstraints
  rw [hpairs, List.foldl_append, List.foldl_cons]
  exact (happly _).foldl after

theorem linked_of_mustLinked (hids : Function.Injective fun i => (clusters i).id)
    {prior : List PriorMember} {tuning : LinkTuning F} {i j : Fin n}
    (h : Relation.ReflTransGen (MustLinked clusters tuning.constraints) i j) :
    linked clusters (linkEdges clusters tuning) prior i j := by
  induction h with
  | refl => exact Setoid.refl' _ i
  | @tail k l _ hkl ih =>
      refine Setoid.trans' _ ih ?_
      by_cases hne : k = l
      · subst hne
        exact Setoid.refl' _ k
      rw [linked_eq]
      refine le_guardedMerge _ _ _ ?_
      obtain ⟨e, he, hstrong, hends⟩ := linkEdges_forces hids hkl hne
      have hjoined : stronglyLinked (linkEdges clusters tuning) e.ends.1 e.ends.2 :=
        joinAll_joins (List.mem_map_of_mem (List.mem_filter.mpr ⟨he, hstrong⟩)) ⊥
      rw [hends] at hjoined
      rcases le_total k l with hle | hle
      · rwa [min_eq_left hle, max_eq_right hle] at hjoined
      · rw [min_eq_right hle, max_eq_left hle] at hjoined
        exact Setoid.symm' _ hjoined

end Forced

/-! ## Dropped edges -/

section Dropped

variable [Score F] {clusters : Fin n → LinkCluster} {tuning : LinkTuning F}

theorem linkEdges_allow {pair : Uuid ×ₗ Uuid} (h : pair ∈ tuning.constraints.cannotLink) :
    linkEdges clusters tuning = applyConstraints
      ((scoreEdges clusters tuning.entityWeights).filter fun e => pairId clusters e ≠ pair)
      clusters (tuning.constraints.allow pair) := by
  unfold linkEdges applyConstraints LinkConstraints.allow
  rw [List.filter_filter]
  congr 1
  refine List.filter_congr ?_
  intro e _
  by_cases hpair : pairId clusters e = pair
  · simp [hpair, Std.ExtTreeSet.mem_iff_contains.mp h]
  · have hne : compare pair (pairId clusters e) ≠ .eq :=
      fun heq => hpair (Std.LawfulEqCmp.eq_of_compare heq).symm
    simp [Std.ExtTreeSet.contains_erase, hpair, hne]

/-- The edge of a cannot-linked pair is not in the run, unless a must-link forced it. -/
theorem pairId_ne_of_cannotLinked (hrecorded : tuning.constraints.Recorded) {i j : Fin n}
    (hcannot : CannotLinked clusters tuning.constraints i j)
    (hmust : ¬ MustLinked clusters tuning.constraints i j) {e : Edge n F}
    (he : e ∈ linkEdges clusters tuning) :
    pairId clusters e ≠ LinkConstraints.key (clusters i).id (clusters j).id := by
  intro hpair
  rcases linkEdges_source he with ⟨_, hfree⟩ | ⟨k, l, _, hkl, rfl⟩
  · exact hfree (hpair ▸ hcannot)
  · have hkey : pairId clusters (mustEdge (min k l) (max k l) : Edge n F) =
        LinkConstraints.key (clusters k).id (clusters l).id := by
      show LinkConstraints.key (clusters (min k l)).id (clusters (max k l)).id = _
      rcases le_total k l with hle | hle
      · rw [min_eq_left hle, max_eq_right hle]
      · rw [min_eq_right hle, max_eq_left hle, LinkConstraints.key_comm]
    refine hmust ?_
    unfold MustLinked
    rw [← hpair, hkey, hrecorded.key_eq hkl]
    exact hkl

theorem eqvGen_of_linked {prior : List PriorMember} {i j : Fin n}
    (h : linked clusters (linkEdges clusters tuning) prior i j) :
    Relation.EqvGen (fun k l => ∃ e ∈ linkEdges clusters tuning, e.ends = (k, l)) i j := by
  rw [linked_eq] at h
  let s : Setoid (Fin n) := Relation.EqvGen.setoid
    fun k l => ∃ e ∈ linkEdges clusters tuning, e.ends = (k, l)
  have hedge : ∀ e ∈ linkEdges clusters tuning, s e.ends.1 e.ends.2 :=
    fun e he => Relation.EqvGen.rel _ _ ⟨e, he, rfl⟩
  have hle : guardedMerge (deliveredLabel clusters prior)
      ((weakEdges (linkEdges clusters tuning)).map Edge.ends)
      (stronglyLinked (linkEdges clusters tuning)) ≤ s := by
    refine guardedMerge_le_of (joinAll_le_iff.mpr ⟨bot_le, ?_⟩) ?_
    · intro p hp
      obtain ⟨e, he, rfl⟩ := List.mem_map.mp hp
      exact hedge e (List.mem_filter.mp he).1
    · intro p hp _
      obtain ⟨e, he, rfl⟩ := List.mem_map.mp hp
      exact hedge e (mem_weakEdges.mp he).1
  exact hle h

end Dropped

/-! ## Constraints on other clusters -/

section Outside

variable [Score F] {clusters : Fin n → LinkCluster}

def InSlice (clusters : Fin n → LinkCluster) (pair : Uuid ×ₗ Uuid) : Prop :=
  ∃ i j, pair = toLex ((clusters i).id, (clusters j).id)

instance (clusters : Fin n → LinkCluster) : DecidablePred (InSlice clusters) :=
  fun _ => inferInstanceAs (Decidable (∃ _ _, _))

theorem applyMust_outside {es : List (Edge n F)} {pair : Uuid ×ₗ Uuid}
    (h : ¬ InSlice clusters pair) : applyMust clusters es pair = es := by
  unfold applyMust
  split
  · rename_i i j hi hj
    refine absurd ⟨i, j, ?_⟩ h
    rw [id_of_indexOf hi, id_of_indexOf hj]
    rfl
  · rfl

theorem foldl_applyMust_filter (pairs : List (Uuid ×ₗ Uuid)) (es : List (Edge n F)) :
    pairs.foldl (applyMust clusters) es =
      (pairs.filter fun pair => InSlice clusters pair).foldl (applyMust clusters) es := by
  induction pairs generalizing es with
  | nil => rfl
  | cons pair rest ih =>
      by_cases hin : InSlice clusters pair
      · rw [List.filter_cons_of_pos (by simpa using hin), List.foldl_cons, List.foldl_cons, ih]
      · rw [List.filter_cons_of_neg (by simpa using hin), List.foldl_cons,
          applyMust_outside hin, ih]

theorem filter_toList_eq {s t : Std.ExtTreeSet (Uuid ×ₗ Uuid) compare}
    (h : ∀ i j, toLex ((clusters i).id, (clusters j).id) ∈ s ↔
      toLex ((clusters i).id, (clusters j).id) ∈ t) :
    (s.toList.filter fun pair => InSlice clusters pair) =
      t.toList.filter fun pair => InSlice clusters pair := by
  refine Buckets.eq_of_ordered (Std.ExtTreeSet.ordered_toList.filter _)
    (Std.ExtTreeSet.ordered_toList.filter _) ?_
  intro pair
  rw [List.mem_filter, List.mem_filter, Std.ExtTreeSet.mem_toList, Std.ExtTreeSet.mem_toList]
  refine and_congr_left fun hin => ?_
  obtain ⟨i, j, rfl⟩ := of_decide_eq_true hin
  exact h i j

theorem applyConstraints_agree {c c' : LinkConstraints} (h : AgreeOnSlice clusters c c')
    (es : List (Edge n F)) : applyConstraints es clusters c' = applyConstraints es clusters c := by
  unfold applyConstraints
  rw [foldl_applyMust_filter, foldl_applyMust_filter c.mustLink.toList, filter_toList_eq h.must]
  congr 1
  refine List.filter_congr ?_
  intro e _
  have hiff : pairId clusters e ∈ c'.cannotLink ↔ pairId clusters e ∈ c.cannotLink := by
    unfold pairId
    rcases LinkConstraints.key_cases (clusters e.a).id (clusters e.b).id with hkey | hkey
    · rw [hkey]
      exact (h.cannot e.a e.b).symm
    · rw [hkey]
      exact (h.cannot e.b e.a).symm
  simp [hiff]

end Outside

/-! ## All of it -/

/-- Must-links hold along chains, a cannot-link deletes one edge, and constraints on other clusters
change nothing. -/
theorem link_constraints_mean [Score F] (clusters : Fin n → LinkCluster)
    (hids : Function.Injective fun i => (clusters i).id) (prior : List PriorMember)
    (tuning : LinkTuning F) (hrecorded : tuning.constraints.Recorded) :
    ConstraintsMean clusters prior tuning where
  must := by
    intro i j h mint
    have hij := @linked_of_mustLinked n F _ clusters hids prior tuning i j h
    obtain ⟨_, story, hstory, _, hi⟩ := exists_placed prior tuning mint i
    obtain ⟨ms, _, _, hmember, hcomponent, _⟩ := story_component hids hstory
    refine ⟨story, hstory, hi, (hmember j).mpr ?_⟩
    exact (hcomponent i ((hmember i).mp hi) j).mpr hij
  cannot := by
    intro i j h
    unfold linkComponents
    rw [linkEdges_allow h]
  chain := by
    intro i j hcannot hmust mint story hstory hi hj
    obtain ⟨k, l, hk, hl, hkl⟩ := linked_of_mem_story hstory hi hj
    obtain rfl := hids hk
    obtain rfl := hids hl
    refine (eqvGen_of_linked hkl).mono ?_
    intro a b hab
    obtain ⟨e, he, hends⟩ := hab
    exact ⟨e, he, hends, pairId_ne_of_cannotLinked hrecorded hcannot hmust he⟩
  outside := by
    intro c' hagree mint
    have hedges : linkEdges clusters { tuning with constraints := c' } =
        linkEdges clusters tuning :=
      applyConstraints_agree hagree _
    unfold linkWith linkComponents
    rw [hedges]

/-- One pair is told to be together across two delivered stories, another to be apart. -/
def correctedTuning : LinkTuning ℚ where
  constraints := (({} : LinkConstraints).must 1 3).cannot 1 2

theorem link_constraints_mean_corrected :
    ConstraintsMean fusedClusters fusedPrior correctedTuning :=
  link_constraints_mean fusedClusters (by decide) fusedPrior correctedTuning
    (.cannot 1 2 (.must 1 3 .empty))

end Bulletin
