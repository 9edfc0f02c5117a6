import Bulletin.Link.LinkWith

/-! # Where a cluster ends up

Each cluster of a run is placed in one story, and two clusters share a story
exactly when they are linked. Everything said about stories over several runs goes
through `Placed`.
-/

namespace Bulletin

variable {n : Nat}

/-- Cluster `c` is a member of the story `s` of an assignment. -/
def Placed (out : Assignment) (c s : Uuid) : Prop :=
  ∃ story ∈ out.stories, story.id = s ∧ c ∈ story.members

/-! ## Components as sets of cluster ids -/

section IdSets

variable {clusters : Fin n → LinkCluster} {components : Components n} {prior : List PriorMember}
  {mint : Nat → Uuid}

def Members.idSet (clusters : Fin n → LinkCluster) (ms : Members n) : Finset Uuid :=
  (ms.toList.map fun i => (clusters i).id).toFinset

theorem mem_idSet {ms : Members n} {c : Uuid} :
    c ∈ ms.idSet clusters ↔ ∃ i ∈ ms.toList, (clusters i).id = c := by
  simp [Members.idSet]

def idSets (clusters : Fin n → LinkCluster) (components : Components n) : List (Finset Uuid) :=
  (orderedComponents clusters components).map (Members.idSet clusters)

def Before (S T : Finset Uuid) : Prop := ∃ a ∈ S, ∀ b ∈ T, a < b

theorem Before.asymm {S T : Finset Uuid} (h : Before S T) : ¬ Before T S := by
  obtain ⟨a, ha, hab⟩ := h
  rintro ⟨b, hb, hba⟩
  exact lt_asymm (hab b hb) (hba a ha)

theorem minId_mem (ms : Members n) : ms.minId clusters ∈ ms.idSet clusters := by
  unfold Members.minId Members.idSet
  rw [List.mem_toFinset]
  exact List.min_mem _

theorem minId_le {ms : Members n} {c : Uuid} (h : c ∈ ms.idSet clusters) :
    ms.minId clusters ≤ c := by
  unfold Members.minId
  rw [Members.idSet, List.mem_toFinset] at h
  exact List.min_le_of_mem h

theorem idSets_before (hids : Function.Injective fun i => (clusters i).id)
    (hpart : components.Partitions) : (idSets clusters components).Pairwise Before := by
  unfold idSets
  rw [List.pairwise_map, List.pairwise_iff_getElem]
  intro j k hj hk hjk
  have hsorted : (orderedComponents clusters components).Pairwise
      fun x y => x.minId clusters ≤ y.minId clusters := List.pairwise_insertionSort _ _
  have hle := List.pairwise_iff_getElem.mp hsorted j k hj hk hjk
  refine ⟨_, minId_mem _, ?_⟩
  intro b hb
  refine lt_of_le_of_ne (le_trans hle (minId_le hb)) ?_
  intro heq
  obtain ⟨i, hi, hib⟩ := mem_idSet.mp hb
  obtain ⟨i', hi', hib'⟩ := mem_idSet.mp
    (@minId_mem _ clusters (orderedComponents clusters components)[j])
  obtain rfl : i' = i := hids (hib'.trans (heq.trans hib.symm))
  have hpos := position_unique hpart (List.getElem?_eq_getElem hj) (List.getElem?_eq_getElem hk)
    hi' hi
  omega

theorem mem_idSets {r : Setoid (Fin n)} (hsplits : components.Splits r) {S : Finset Uuid} :
    S ∈ idSets clusters components ↔ ∃ i, ∀ c, c ∈ S ↔ ∃ j, r i j ∧ (clusters j).id = c := by
  unfold idSets
  rw [List.mem_map]
  constructor
  · intro h
    obtain ⟨ms, hms, rfl⟩ := h
    obtain ⟨entry, hentry, rfl⟩ := mem_orderedComponents.mp hms
    obtain ⟨i, hi⟩ := List.exists_mem_of_ne_nil _ entry.2.nonempty
    refine ⟨i, ?_⟩
    intro c
    rw [mem_idSet]
    exact exists_congr fun j => and_congr_left fun _ => hsplits.same entry hentry i hi j
  · intro h
    obtain ⟨i, hi⟩ := h
    obtain ⟨k, ms, hk, him⟩ := @exists_position _ clusters _ hsplits.partitions i
    have hms := List.mem_of_getElem? hk
    obtain ⟨entry, hentry, rfl⟩ := mem_orderedComponents.mp hms
    refine ⟨entry.2, hms, ?_⟩
    ext c
    rw [hi, mem_idSet]
    exact exists_congr fun j => and_congr_left fun _ => hsplits.same entry hentry i him j

theorem componentPriorIds_congr {m : Nat} {clusters' : Fin m → LinkCluster} {ms : Members n}
    {ms' : Members m} (h : ms.idSet clusters = ms'.idSet clusters') :
    componentPriorIds clusters prior ms = componentPriorIds clusters' prior ms' := by
  have hmem : ∀ P, P ∈ componentPriorIds clusters prior ms ↔
      ∃ c ∈ ms.idSet clusters, (priorStory prior)[c]? = some P := by
    intro P
    simp [mem_componentPriorIds, mem_idSet]
  have hmem' : ∀ P, P ∈ componentPriorIds clusters' prior ms' ↔
      ∃ c ∈ ms'.idSet clusters', (priorStory prior)[c]? = some P := by
    intro P
    simp [mem_componentPriorIds, mem_idSet]
  have hs := @componentPriorIds_sorted _ clusters prior ms
  have hs' := @componentPriorIds_sorted _ clusters' prior ms'
  refine hs.eq_of_mem_iff hs' ?_
  intro P
  rw [hmem, hmem', h]

theorem wants_congr {m : Nat} {clusters' : Fin m → LinkCluster} {components' : Components m}
    (h : idSets clusters components = idSets clusters' components') :
    wants clusters components prior = wants clusters' components' prior := by
  unfold idSets at h
  unfold wants
  refine List.ext_getElem? ?_
  intro k
  have hk := congrArg (fun l : List (Finset Uuid) => l[k]?) h
  simp only [List.getElem?_map] at hk ⊢
  cases hms : (orderedComponents clusters components)[k]? with
  | none =>
      rw [hms] at hk
      cases hms' : (orderedComponents clusters' components')[k]? with
      | none => rfl
      | some ms' => rw [hms'] at hk; cases hk
  | some ms =>
      rw [hms] at hk
      cases hms' : (orderedComponents clusters' components')[k]? with
      | none => rw [hms'] at hk; cases hk
      | some ms' =>
          rw [hms'] at hk
          rw [Option.map_some, Option.map_some, componentPriorIds_congr (Option.some.inj hk)]

/-! ## Assignments with the same components -/

variable {m : Nat} {clusters' : Fin m → LinkCluster} {components' : Components m}
  {mint' : Nat → Uuid} {reasons : Fin n → Option String} {reasons' : Fin m → Option String}

theorem placed_iff_idSets {c s : Uuid} :
    Placed (forwardIds clusters components prior reasons mint) c s ↔
      ∃ (k : Nat) (S : Finset Uuid), (idSets clusters components)[k]? = some S ∧ c ∈ S ∧
        (survivors clusters components prior mint)[k]? = some s := by
  constructor
  · intro h
    obtain ⟨story, hstory, rfl, hc⟩ := h
    obtain ⟨k, ms, s, hk, hs, rfl⟩ := mem_stories.mp hstory
    refine ⟨k, ms.idSet clusters, ?_, mem_idSet.mpr (mem_members.mp hc), hs⟩
    rw [idSets, List.getElem?_map, hk, Option.map_some]
  · intro h
    obtain ⟨k, S, hk, hc, hs⟩ := h
    rw [idSets, List.getElem?_map, Option.map_eq_some_iff] at hk
    obtain ⟨ms, hk, rfl⟩ := hk
    exact ⟨_, mem_stories.mpr ⟨k, ms, s, hk, hs, rfl⟩, rfl, mem_members.mpr (mem_idSet.mp hc)⟩

theorem grouped_iff_idSets (hmint : FreshMint mint prior) {c d : Uuid} :
    (∃ s, Placed (forwardIds clusters components prior reasons mint) c s ∧
      Placed (forwardIds clusters components prior reasons mint) d s) ↔
      ∃ S ∈ idSets clusters components, c ∈ S ∧ d ∈ S := by
  constructor
  · intro h
    obtain ⟨s, hc, hd⟩ := h
    obtain ⟨k, S, hk, hcS, hs⟩ := placed_iff_idSets.mp hc
    obtain ⟨k', S', hk', hdS, hs'⟩ := placed_iff_idSets.mp hd
    have hlt := (List.getElem?_eq_some_iff.mp hs).1
    obtain rfl : k = k' := (List.getElem?_inj hlt (survivors_nodup hmint)).mp (hs.trans hs'.symm)
    obtain rfl := Option.some.inj (hk.symm.trans hk')
    exact ⟨S, List.mem_of_getElem? hk, hcS, hdS⟩
  · intro h
    obtain ⟨S, hS, hc, hd⟩ := h
    obtain ⟨k, hk⟩ := List.mem_iff_getElem?.mp hS
    have hk' := hk
    rw [idSets, List.getElem?_map, Option.map_eq_some_iff] at hk'
    obtain ⟨ms, hms, _⟩ := hk'
    obtain ⟨s, hs⟩ := exists_survivor prior mint hms
    exact ⟨s, placed_iff_idSets.mpr ⟨k, S, hk, hc, hs⟩, placed_iff_idSets.mpr ⟨k, S, hk, hd, hs⟩⟩

/-- A prior id sits where the rule keeps it, whatever would be minted. -/
theorem forwarded_iff_idSets (hmint : FreshMint mint prior) {c s : Uuid}
    (hs : ∃ p ∈ prior, p.storyId = s) :
    Placed (forwardIds clusters components prior reasons mint) c s ↔
      ∃ (k : Nat) (S : Finset Uuid), (idSets clusters components)[k]? = some S ∧ c ∈ S ∧
        Claim.Keeps (wants clusters components prior) k s := by
  rw [placed_iff_idSets]
  refine exists_congr fun k => exists_congr fun S => and_congr_right fun _ =>
    and_congr_right fun _ => ?_
  constructor
  · intro h
    rcases survivors_spec hmint h with hkeep | ⟨⟨j, hj⟩, _⟩
    · exact hkeep
    · obtain ⟨p, hp, hps⟩ := hs
      exact absurd (hj.symm.trans hps.symm) (hmint.unused j p hp)
  · exact survivors_of_keeps hmint

theorem flatMap_zip_congr {α β γ : Type} {f g : α × β → List γ} {l : List α} {v w : List β}
    (hlen : v.length = w.length)
    (h : ∀ (k : Nat) a b c, l[k]? = some a → v[k]? = some b → w[k]? = some c →
      f (a, b) = g (a, c)) :
    (l.zip v).flatMap f = (l.zip w).flatMap g := by
  induction l generalizing v w with
  | nil => rfl
  | cons a l ih =>
      cases v with
      | nil =>
          cases w with
          | nil => rfl
          | cons c w => cases hlen
      | cons b v =>
          cases w with
          | nil => cases hlen
          | cons c w =>
              rw [List.zip_cons_cons, List.zip_cons_cons, List.flatMap_cons, List.flatMap_cons,
                h 0 a b c rfl rfl rfl]
              refine congrArg _ (ih (Nat.succ.inj hlen) ?_)
              intro k x y z hx hy hz
              exact h (k + 1) x y z hx hy hz

/-- Merges are recorded under prior ids only, so they do not see the minted ones. -/
theorem absorbed_congr (hmint : FreshMint mint prior) (hmint' : FreshMint mint' prior)
    (hwants : wants clusters components prior = wants clusters' components' prior) {k : Nat}
    {w : List Uuid} {s s' : Uuid} (hw : (wants clusters components prior)[k]? = some w)
    (hs : (survivors clusters components prior mint)[k]? = some s)
    (hs' : (survivors clusters' components' prior mint')[k]? = some s') :
    absorbed (claimSurvivors mint 0 ∅ (wants clusters components prior)).2 (w, s) =
      absorbed (claimSurvivors mint' 0 ∅ (wants clusters' components' prior)).2 (w, s') := by
  have hkept : ∀ P ∈ w, (P ∈ (claimSurvivors mint 0 ∅ (wants clusters components prior)).2 ↔
      ∃ j, Claim.Keeps (wants clusters components prior) j P) := by
    intro P hP
    rw [mem_claimSurvivors_snd, ← mem_survivors_iff hmint ⟨w, List.mem_of_getElem? hw, hP⟩]
    simp [survivors]
  have hkept' : ∀ P ∈ w, (P ∈ (claimSurvivors mint' 0 ∅ (wants clusters' components' prior)).2 ↔
      ∃ j, Claim.Keeps (wants clusters components prior) j P) := by
    intro P hP
    rw [hwants] at hw ⊢
    rw [mem_claimSurvivors_snd, ← mem_survivors_iff hmint' ⟨w, List.mem_of_getElem? hw, hP⟩]
    simp [survivors]
  by_cases hkeep : ∃ P, Claim.Keeps (wants clusters components prior) k P
  · obtain ⟨P, hP⟩ := hkeep
    obtain rfl : s = P := Option.some.inj (hs.symm.trans (survivors_of_keeps hmint hP))
    have hP' := hP
    rw [hwants] at hP'
    obtain rfl : s' = s := Option.some.inj (hs'.symm.trans (survivors_of_keeps hmint' hP'))
    unfold absorbed
    refine congrArg _ (List.filter_congr ?_)
    intro Q hQ
    rw [decide_eq_decide, hkept Q hQ, hkept' Q hQ]
  · have hall : ∀ P ∈ w, ∃ j, Claim.Keeps (wants clusters components prior) j P := by
      intro P hP
      by_contra hnone
      rw [not_exists] at hnone
      obtain ⟨Q, _, hQ⟩ := Claim.exists_keeps hw hP fun j _ => hnone j
      exact hkeep ⟨Q, hQ⟩
    have hempty : ∀ (claimed : Finset Uuid) (t : Uuid), (∀ P ∈ w, P ∈ claimed) →
        absorbed claimed (w, t) = [] := by
      intro claimed t hin
      unfold absorbed
      rw [List.filter_eq_nil_iff.mpr ?_, List.map_nil]
      intro P hP
      simp [hin P hP]
    rw [hempty _ s fun P hP => (hkept P hP).mpr (hall P hP),
      hempty _ s' fun P hP => (hkept' P hP).mpr (hall P hP)]

theorem merges_congr (hmint : FreshMint mint prior) (hmint' : FreshMint mint' prior)
    (hwants : wants clusters components prior = wants clusters' components' prior) :
    (forwardIds clusters' components' prior reasons' mint').merges =
      (forwardIds clusters components prior reasons mint).merges := by
  have hlen : (survivors clusters components prior mint).length =
      (survivors clusters' components' prior mint').length := by
    rw [survivors_length, survivors_length, hwants]
  have hflat := flatMap_zip_congr hlen
    fun k w s s' (hw : (wants clusters components prior)[k]? = some w) hs hs' =>
      absorbed_congr hmint hmint' hwants hw hs hs'
  unfold survivors at hflat
  unfold forwardIds
  dsimp only
  rw [← hwants] at hflat ⊢
  exact congrArg _ hflat.symm

end IdSets

/-! ## Placement -/

section Placement

variable {F : Type} [Score F] {clusters : Fin n → LinkCluster} {prior : List PriorMember}
  {tuning : LinkTuning F} {mint : Nat → Uuid}

theorem placed_iff_position (hids : Function.Injective fun i => (clusters i).id) {i : Fin n}
    {s : Uuid} :
    Placed (linkWith clusters prior tuning mint) (clusters i).id s ↔
      ∃ (k : Nat) (ms : Members n),
        (orderedComponents clusters (linkComponents clusters prior tuning))[k]? = some ms ∧
        i ∈ ms.toList ∧
        (survivors clusters (linkComponents clusters prior tuning) prior mint)[k]? = some s := by
  constructor
  · intro h
    obtain ⟨story, hstory, rfl, hc⟩ := h
    obtain ⟨k, ms, s, hk, hs, rfl⟩ := mem_stories.mp hstory
    obtain ⟨j, hj, hji⟩ := mem_members.mp hc
    exact ⟨k, ms, hk, hids hji ▸ hj, hs⟩
  · intro h
    obtain ⟨k, ms, hk, hi, hs⟩ := h
    exact ⟨_, mem_stories.mpr ⟨k, ms, s, hk, hs, rfl⟩, rfl, mem_members.mpr ⟨i, hi, rfl⟩⟩

theorem placed_cluster {c s : Uuid} (h : Placed (linkWith clusters prior tuning mint) c s) :
    ∃ i, (clusters i).id = c := by
  obtain ⟨story, hstory, _, hc⟩ := h
  obtain ⟨_, _, _, _, _, rfl⟩ := mem_stories.mp hstory
  obtain ⟨i, _, hi⟩ := mem_members.mp hc
  exact ⟨i, hi⟩

theorem exists_placed (prior : List PriorMember) (tuning : LinkTuning F) (mint : Nat → Uuid)
    (i : Fin n) : ∃ s, Placed (linkWith clusters prior tuning mint) (clusters i).id s := by
  have hpart := (components_splits clusters (linkEdges clusters tuning) prior).partitions
  obtain ⟨k, ms, hk, hi⟩ := @exists_position _ clusters _ hpart i
  obtain ⟨s, hs⟩ := exists_survivor prior mint hk
  exact ⟨s, _, mem_stories.mpr ⟨k, ms, s, hk, hs, rfl⟩, rfl, mem_members.mpr ⟨i, hi, rfl⟩⟩

theorem placed_unique (hids : Function.Injective fun i => (clusters i).id) {c s t : Uuid}
    (hs : Placed (linkWith clusters prior tuning mint) c s)
    (ht : Placed (linkWith clusters prior tuning mint) c t) : s = t := by
  obtain ⟨i, rfl⟩ := placed_cluster hs
  obtain ⟨j, ms, hj, hi, hs⟩ := (placed_iff_position hids).mp hs
  obtain ⟨k, ms', hk, hi', ht⟩ := (placed_iff_position hids).mp ht
  have hpart := (components_splits clusters (linkEdges clusters tuning) prior).partitions
  obtain rfl := position_unique hpart hj hk hi hi'
  exact Option.some.inj (hs.symm.trans ht)

/-- Two clusters share a story exactly when they are linked. -/
theorem placed_iff_linked (hids : Function.Injective fun i => (clusters i).id)
    (hmint : FreshMint mint prior) {i j : Fin n} {s : Uuid}
    (hi : Placed (linkWith clusters prior tuning mint) (clusters i).id s) :
    Placed (linkWith clusters prior tuning mint) (clusters j).id s ↔
      linked clusters (linkEdges clusters tuning) prior i j := by
  have hsplits := components_splits clusters (linkEdges clusters tuning) prior
  obtain ⟨k, ms, hk, him, hs⟩ := (placed_iff_position hids).mp hi
  obtain ⟨entry, hentry, rfl⟩ := mem_orderedComponents.mp (List.mem_of_getElem? hk)
  rw [← hsplits.same entry hentry i him j]
  constructor
  · intro hj
    obtain ⟨k', ms', hk', hjm, hs'⟩ := (placed_iff_position hids).mp hj
    have hlt := (List.getElem?_eq_some_iff.mp hs).1
    obtain rfl : k = k' :=
      (List.getElem?_inj hlt (survivors_nodup hmint)).mp (hs.trans hs'.symm)
    obtain rfl := Option.some.inj (hk.symm.trans hk')
    exact hjm
  · intro hj
    exact (placed_iff_position hids).mpr ⟨k, entry.2, hk, hj, hs⟩

end Placement

end Bulletin
