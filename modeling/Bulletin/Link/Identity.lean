import Bulletin.Link.LinkWith

/-! # Story identity as a function of the prior assignment

A prior id is either kept by one story or merged away into one. The second part
fails when a story splits over several components and none of them keeps its id:
each of them then records its own merge.
-/

namespace Bulletin

variable {n : Nat}

/-- Identity forwarding is a function: current ids are distinct, each prior id with a
current cluster is kept or merged but not both, it is merged at most once, and the
survivor of a merge is a story that holds a former cluster of the loser. -/
structure ForwardsUniquely (clusters : Fin n → LinkCluster) (prior : List PriorMember)
    (out : Assignment) : Prop where
  distinct : (out.stories.map (·.id)).Nodup
  accounted : ∀ P, (∃ i, (priorStory prior)[(clusters i).id]? = some P) →
    Xor (P ∈ out.stories.map (·.id)) (P ∈ out.merges.map (·.loser))
  single : (out.merges.map (·.loser)).Nodup
  anchored : ∀ m ∈ out.merges, ∃ story ∈ out.stories, story.id = m.survivor ∧
    ∃ c ∈ story.members, (priorStory prior)[c]? = some m.loser

/-- No prior id carried by two components is left without a component that keeps it. -/
def SplitsKept (clusters : Fin n → LinkCluster) (components : Components n)
    (prior : List PriorMember) : Prop :=
  ∀ (P : Uuid) (j k : Nat) (v w : List Uuid), j ≠ k →
    (wants clusters components prior)[j]? = some v →
    (wants clusters components prior)[k]? = some w → P ∈ v → P ∈ w →
    ∃ i, Claim.Keeps (wants clusters components prior) i P

section Identity

variable {clusters : Fin n → LinkCluster} {components : Components n} {prior : List PriorMember}
  {reasons : Fin n → Option String} {mint : Nat → Uuid}

theorem exists_wanting (hpart : components.Partitions) {i : Fin n} {P : Uuid}
    (hP : (priorStory prior)[(clusters i).id]? = some P) :
    ∃ (k : Nat) (ms : Members n), (orderedComponents clusters components)[k]? = some ms ∧
      P ∈ componentPriorIds clusters prior ms := by
  obtain ⟨k, ms, hk, hi⟩ := exists_position hpart i
  exact ⟨k, ms, hk, mem_componentPriorIds.mpr ⟨i, hi, hP⟩⟩

theorem mem_story_ids {P : Uuid} :
    P ∈ (forwardIds clusters components prior reasons mint).stories.map (·.id) ↔
      P ∈ survivors clusters components prior mint := stories_ids_perm.mem_iff

/-- A wanted id is a current id or the loser of a merge, never both. -/
theorem kept_or_merged (hmint : FreshMint mint prior) (hpart : components.Partitions) {P : Uuid}
    (hP : ∃ i, (priorStory prior)[(clusters i).id]? = some P) :
    Xor (P ∈ (forwardIds clusters components prior reasons mint).stories.map (·.id))
      (P ∈ (forwardIds clusters components prior reasons mint).merges.map (·.loser)) := by
  obtain ⟨i, hi⟩ := hP
  obtain ⟨k, ms, hk, hwant⟩ := exists_wanting hpart hi
  have hw : ∃ w ∈ wants clusters components prior, P ∈ w :=
    ⟨_, List.mem_map_of_mem (List.mem_of_getElem? hk), hwant⟩
  rw [mem_story_ids, mem_survivors_iff hmint hw]
  by_cases hkept : ∃ j, Claim.Keeps (wants clusters components prior) j P
  · refine Or.inl ⟨hkept, ?_⟩
    intro hmem
    obtain ⟨m, hm, rfl⟩ := List.mem_map.mp hmem
    obtain ⟨_, _, _, _, _, hnone⟩ := (mem_merges hmint).mp hm
    obtain ⟨j, hj⟩ := hkept
    exact hnone j hj
  · refine Or.inr ⟨?_, hkept⟩
    obtain ⟨s, hs⟩ := exists_survivor prior mint hk
    refine List.mem_map.mpr ⟨⟨P, s⟩, (mem_merges hmint).mpr ⟨k, ms, hk, hs, hwant, ?_⟩, rfl⟩
    intro j hj
    exact hkept ⟨j, hj⟩

theorem merge_anchored (hmint : FreshMint mint prior) {m : Merge}
    (hm : m ∈ (forwardIds clusters components prior reasons mint).merges) :
    ∃ story ∈ (forwardIds clusters components prior reasons mint).stories,
      story.id = m.survivor ∧ ∃ c ∈ story.members, (priorStory prior)[c]? = some m.loser := by
  obtain ⟨k, ms, hk, hs, hid, _⟩ := (mem_merges hmint).mp hm
  obtain ⟨i, hi, hP⟩ := mem_componentPriorIds.mp hid
  exact ⟨_, mem_stories.mpr ⟨k, ms, m.survivor, hk, hs, rfl⟩, rfl, (clusters i).id,
    mem_members.mpr ⟨i, hi, rfl⟩, hP⟩

theorem absorbed_losers (claimed : Finset Uuid) (entry : List Uuid × Uuid) :
    (absorbed claimed entry).map (·.loser) =
      entry.1.filter fun id => id ≠ entry.2 ∧ id ∉ claimed := by
  simp [absorbed, Function.comp_def]

/-- Losers are distinct exactly when every split id is kept somewhere: two
components that carry an id no one keeps both record a merge of it. -/
theorem losers_nodup_iff (hmint : FreshMint mint prior) :
    ((forwardIds clusters components prior reasons mint).merges.map (·.loser)).Nodup ↔
      SplitsKept clusters components prior := by
  constructor
  · intro hnodup P j k v w hjk hv hw hPv hPw
    by_contra hnone
    rw [not_exists] at hnone
    rw [wants_getElem?, Option.map_eq_some_iff] at hv hw
    obtain ⟨msj, hj, rfl⟩ := hv
    obtain ⟨msk, hk, rfl⟩ := hw
    obtain ⟨s, hs⟩ := exists_survivor prior mint hj
    obtain ⟨t, ht⟩ := exists_survivor prior mint hk
    have hms : (⟨P, s⟩ : Merge) ∈ (forwardIds clusters components prior reasons mint).merges :=
      (mem_merges hmint).mpr ⟨j, msj, hj, hs, hPv, hnone⟩
    have hmt : (⟨P, t⟩ : Merge) ∈ (forwardIds clusters components prior reasons mint).merges :=
      (mem_merges hmint).mpr ⟨k, msk, hk, ht, hPw, hnone⟩
    have heq := List.inj_on_of_nodup_map hnodup hms hmt rfl
    obtain rfl : s = t := congrArg Merge.survivor heq
    have hlt := (List.getElem?_eq_some_iff.mp hs).1
    exact hjk ((List.getElem?_inj hlt (survivors_nodup hmint)).mp (hs.trans ht.symm))
  · intro hkept
    have hsort := (List.perm_insertionSort (fun x y => mergeOrder x y ≠ .gt)
      (((wants clusters components prior).zip (survivors clusters components prior mint)).flatMap
        (absorbed (claimSurvivors mint 0 ∅ (wants clusters components prior)).2))).map (·.loser)
    refine hsort.nodup_iff.mpr ?_
    simp only [List.map_flatMap, absorbed_losers]
    refine List.nodup_flatMap.mpr ⟨?_, ?_⟩
    · intro entry hentry
      have hw := (List.of_mem_zip hentry).1
      exact ((wants_sorted _ hw).imp ne_of_lt).filter _
    · refine List.pairwise_iff_getElem.mpr ?_
      intro j k hj hk hjk P hPj hPk
      simp only [List.getElem_zip, List.mem_filter, ne_eq, decide_eq_true_eq] at hPj hPk
      rw [List.length_zip, lt_inf_iff] at hj hk
      have hwj := List.getElem?_eq_getElem hj.1
      have hwk := List.getElem?_eq_getElem hk.1
      obtain ⟨i, hi⟩ := hkept P j k _ _ (Nat.ne_of_lt hjk) hwj hwk hPj.1 hPk.1
      have hclaimed := @mem_claimSurvivors_snd mint 0 ∅ (wants clusters components prior) P
      have hmem := List.mem_of_getElem? (survivors_of_keeps hmint hi)
      exact hPj.2.2 (hclaimed.mpr (Or.inr hmem))

/-- Identity forwarding is a function exactly when every id carried by two
components is kept by one. -/
theorem forwardIds_unique_iff (reasons : Fin n → Option String) (hpart : components.Partitions)
    (hmint : FreshMint mint prior) :
    ForwardsUniquely clusters prior (forwardIds clusters components prior reasons mint) ↔
      SplitsKept clusters components prior := by
  constructor
  · intro h
    exact (losers_nodup_iff hmint).mp h.single
  · intro h
    exact
      { distinct := stories_ids_perm.nodup_iff.mpr (survivors_nodup hmint)
        accounted := fun P hP => kept_or_merged hmint hpart hP
        single := (losers_nodup_iff hmint).mpr h
        anchored := fun m hm => merge_anchored hmint hm }

end Identity

/-! ## A story split between two older ones -/

/-- Story 20 holds clusters 2 and 4, which now belong with the older stories 10 and 15. -/
def splitClusters : Fin 4 → LinkCluster :=
  ![feedCluster 1 ["cve:a"] 0, feedCluster 2 ["cve:a"] 0, feedCluster 3 ["cve:b"] 0,
    feedCluster 4 ["cve:b"] 0]

def splitPrior : List PriorMember :=
  [⟨1, 10, false⟩, ⟨2, 20, false⟩, ⟨3, 15, false⟩, ⟨4, 20, false⟩]

theorem splitPrior_fresh : FreshMint (mintFrom 100) splitPrior := mintFrom_fresh (by decide)

theorem forwardIds_unique_iff_split :
    ForwardsUniquely splitClusters splitPrior
        (linkWith splitClusters splitPrior ({} : LinkTuning ℚ) (mintFrom 100)) ↔
      SplitsKept splitClusters (linkComponents splitClusters splitPrior ({} : LinkTuning ℚ))
        splitPrior :=
  forwardIds_unique_iff _ (components_splits _ _ _).partitions splitPrior_fresh

/-- Story 20 is merged into both 10 and 15. -/
theorem split_loser_merged_twice :
    FreshMint (mintFrom 100) splitPrior ∧
      ¬ ForwardsUniquely splitClusters splitPrior
        (linkWith splitClusters splitPrior ({} : LinkTuning ℚ) (mintFrom 100)) := by
  refine ⟨splitPrior_fresh, ?_⟩
  intro h
  have hmerges : (linkWith splitClusters splitPrior ({} : LinkTuning ℚ) (mintFrom 100)).merges =
      [⟨20, 10⟩, ⟨20, 15⟩] := by decide +kernel
  have hsingle := h.single
  rw [hmerges] at hsingle
  simp at hsingle

end Bulletin
