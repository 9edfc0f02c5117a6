import Bulletin.Link.Placement

/-! # Recomputing from one's own output

The prior assignment read back from a run labels that run's components. A second
run over the same clusters repeats the first exactly when every weak edge the
first one left unjoined has a delivered story kept on both sides.
-/

namespace Bulletin

open GuardedMerge

variable {n : Nat} {F : Type} [Score F]

/-- The prior assignment a run leaves: each cluster in its story, a story delivered
when its id was delivered before. -/
def readBack (prior : List PriorMember) (out : Assignment) : List PriorMember :=
  out.stories.flatMap fun story =>
    story.members.map fun c => ⟨c, story.id, decide (story.id ∈ deliveredStories prior)⟩

def secondPrior (clusters : Fin n → LinkCluster) (prior : List PriorMember)
    (tuning : LinkTuning F) (mint : Nat → Uuid) : List PriorMember :=
  readBack prior (linkWith clusters prior tuning mint)

/-- Two assignments place every cluster alike, and the second merges nothing. -/
def Repeats (first second : Assignment) : Prop :=
  (∀ c s, Placed second c s ↔ Placed first c s) ∧ second.merges = []

/-- The component of `i` keeps the id of a delivered prior story. -/
def KeepsDelivered (clusters : Fin n → LinkCluster) (prior : List PriorMember)
    (tuning : LinkTuning F) (i : Fin n) : Prop :=
  ∃ (k : Nat) (ms : Members n) (P : Uuid),
    (orderedComponents clusters (linkComponents clusters prior tuning))[k]? = some ms ∧
    i ∈ ms.toList ∧ Claim.Keeps (wants clusters (linkComponents clusters prior tuning) prior) k P ∧
    P ∈ deliveredStories prior

section ReadBack

variable {clusters : Fin n → LinkCluster} {prior : List PriorMember} {tuning : LinkTuning F}
  {mint : Nat → Uuid}

theorem mem_readBack {out : Assignment} {p : PriorMember} :
    p ∈ readBack prior out ↔ (∃ story ∈ out.stories, p.clusterId ∈ story.members ∧
      p.storyId = story.id ∧ p.delivered = decide (story.id ∈ deliveredStories prior)) := by
  simp only [readBack, List.mem_flatMap, List.mem_map]
  constructor
  · intro h
    obtain ⟨story, hstory, c, hc, rfl⟩ := h
    exact ⟨story, hstory, hc, rfl, rfl⟩
  · intro h
    obtain ⟨story, hstory, hc, hs, hd⟩ := h
    refine ⟨story, hstory, p.clusterId, hc, ?_⟩
    cases p
    simp only at hs hd
    rw [hs, hd]

theorem priorStory_readBack (hids : Function.Injective fun i => (clusters i).id) {c s : Uuid} :
    (priorStory (secondPrior clusters prior tuning mint))[c]? = some s ↔
      Placed (linkWith clusters prior tuning mint) c s := by
  have hplaced : ∀ t, (priorStory (secondPrior clusters prior tuning mint))[c]? =
      some t → Placed (linkWith clusters prior tuning mint) c t := by
    intro t ht
    obtain ⟨p, hp, rfl, rfl⟩ := priorStory_mem ht
    obtain ⟨story, hstory, hc, hs, _⟩ := mem_readBack.mp hp
    exact ⟨story, hstory, hs.symm, hc⟩
  constructor
  · exact hplaced s
  · intro h
    obtain ⟨story, hstory, rfl, hc⟩ := h
    have hrow : ⟨c, story.id, decide (story.id ∈ deliveredStories prior)⟩ ∈
        secondPrior clusters prior tuning mint :=
      mem_readBack.mpr ⟨story, hstory, hc, rfl, rfl⟩
    have hsome := priorStory_isSome.mpr ⟨_, hrow, rfl⟩
    obtain ⟨t, ht⟩ := Option.isSome_iff_exists.mp hsome
    rw [ht, placed_unique hids (hplaced t ht) ⟨story, hstory, rfl, hc⟩]

theorem mem_deliveredStories_readBack {out : Assignment} {s : Uuid} :
    s ∈ deliveredStories (readBack prior out) ↔
      s ∈ deliveredStories prior ∧ ∃ c, Placed out c s := by
  rw [mem_deliveredStories]
  constructor
  · intro h
    obtain ⟨p, hp, hd, rfl⟩ := h
    obtain ⟨story, hstory, hc, hs, hflag⟩ := mem_readBack.mp hp
    rw [hd, hs] at *
    exact ⟨of_decide_eq_true hflag.symm, p.clusterId, story, hstory, rfl, hc⟩
  · intro h
    obtain ⟨hs, c, story, hstory, rfl, hc⟩ := h
    exact ⟨⟨c, story.id, decide (story.id ∈ deliveredStories prior)⟩,
      mem_readBack.mpr ⟨story, hstory, hc, rfl, rfl⟩, decide_eq_true hs, rfl⟩

/-- The label of an index on the second run is its story of the first, if delivered. -/
theorem mem_label_readBack (hids : Function.Injective fun i => (clusters i).id) {i : Fin n}
    {s : Uuid} :
    s ∈ deliveredLabel clusters (secondPrior clusters prior tuning mint) i ↔
      Placed (linkWith clusters prior tuning mint) (clusters i).id s ∧
        s ∈ deliveredStories prior := by
  show s ∈ (deliveredOf _ (clusters i).id : Set Uuid) ↔ _
  rw [Finset.mem_coe, mem_deliveredOf, priorStory_readBack hids, secondPrior,
    mem_deliveredStories_readBack]
  constructor
  · intro h
    exact ⟨h.1, h.2.1⟩
  · intro h
    exact ⟨h.1, h.2, _, h.1⟩

theorem labelsClasses_readBack (hids : Function.Injective fun i => (clusters i).id)
    (hmint : FreshMint mint prior) :
    LabelsClasses (deliveredLabel clusters (secondPrior clusters prior tuning mint))
      (linked clusters (linkEdges clusters tuning) prior) where
  alike := by
    intro i j hij
    ext s
    rw [mem_label_readBack hids, mem_label_readBack hids]
    constructor
    · intro h
      exact ⟨(placed_iff_linked hids hmint h.1).mpr hij, h.2⟩
    · intro h
      exact ⟨(placed_iff_linked hids hmint h.1).mpr (Setoid.symm' _ hij), h.2⟩
  apart := by
    intro i j hij
    refine Set.disjoint_left.mpr ?_
    intro s hi hj
    have hi' := ((mem_label_readBack hids).mp hi).1
    have hj' := ((mem_label_readBack hids).mp hj).1
    exact hij ((placed_iff_linked hids hmint hi').mp hj')

/-- A label is left on the component of an index exactly when it keeps a delivered id. -/
theorem label_nonempty_iff (hids : Function.Injective fun i => (clusters i).id)
    (hmint : FreshMint mint prior) {i : Fin n} :
    (deliveredLabel clusters (secondPrior clusters prior tuning mint) i).Nonempty ↔
      KeepsDelivered clusters prior tuning i := by
  constructor
  · intro h
    obtain ⟨s, hs⟩ := h
    obtain ⟨hplaced, hdelivered⟩ := (mem_label_readBack hids).mp hs
    obtain ⟨k, ms, hk, hi, hsur⟩ := (placed_iff_position hids).mp hplaced
    refine ⟨k, ms, s, hk, hi, ?_, hdelivered⟩
    rcases survivors_spec hmint hsur with hkeep | ⟨⟨j, hj⟩, _⟩
    · exact hkeep
    · obtain ⟨p, hp, _, hps⟩ := mem_deliveredStories.mp hdelivered
      exact absurd (hj.symm.trans hps.symm) (hmint.unused j p hp)
  · intro h
    obtain ⟨k, ms, P, hk, hi, hkeep, hdelivered⟩ := h
    have hplaced := (@placed_iff_position _ _ _ _ _ _ mint hids _ _).mpr
      ⟨k, ms, hk, hi, survivors_of_keeps hmint hkeep⟩
    exact ⟨P, (mem_label_readBack hids).mpr ⟨hplaced, hdelivered⟩⟩

end ReadBack

/-! ## The second run -/

section Second

variable {clusters : Fin n → LinkCluster} {prior : List PriorMember} {tuning : LinkTuning F}
  {mint mint' : Nat → Uuid}

theorem eq_singleton_of_sorted {l : List Uuid} {s : Uuid} (hsorted : l.Pairwise (· < ·))
    (hmem : s ∈ l) (hall : ∀ t ∈ l, t = s) : l = [s] := by
  cases l with
  | nil => cases hmem
  | cons a rest =>
      cases rest with
      | nil => rw [hall a List.mem_cons_self]
      | cons b rest =>
          have hlt := (List.pairwise_cons.mp hsorted).1 b List.mem_cons_self
          rw [hall a (by simp), hall b (by simp)] at hlt
          exact absurd hlt (lt_irrefl s)

/-- On the second run a component that was one on the first wants its story id and
nothing else. -/
theorem second_wants (hids : Function.Injective fun i => (clusters i).id)
    (hmint : FreshMint mint prior)
    (hsame : linked clusters (linkEdges clusters tuning) (secondPrior clusters prior tuning mint) =
      linked clusters (linkEdges clusters tuning) prior)
    {k : Nat} {ms : Members n} {i : Fin n} {s : Uuid}
    (hk : (orderedComponents clusters (linkComponents clusters
      (secondPrior clusters prior tuning mint) tuning))[k]? = some ms)
    (hi : i ∈ ms.toList) (hs : Placed (linkWith clusters prior tuning mint) (clusters i).id s) :
    componentPriorIds clusters (secondPrior clusters prior tuning mint) ms = [s] := by
  have hsplits := components_splits clusters (linkEdges clusters tuning)
    (secondPrior clusters prior tuning mint)
  obtain ⟨entry, hentry, rfl⟩ := mem_orderedComponents.mp (List.mem_of_getElem? hk)
  refine eq_singleton_of_sorted (componentPriorIds_sorted entry.2) ?_ ?_
  · exact mem_componentPriorIds.mpr ⟨i, hi, (priorStory_readBack hids).mpr hs⟩
  · intro t ht
    obtain ⟨j, hj, hjt⟩ := mem_componentPriorIds.mp ht
    have hij := (hsplits.same entry hentry i hi j).mp hj
    rw [hsame] at hij
    have hjs := (placed_iff_linked hids hmint hs).mpr hij
    exact placed_unique hids ((priorStory_readBack hids).mp hjt) hjs

theorem second_keeps (hids : Function.Injective fun i => (clusters i).id)
    (hmint : FreshMint mint prior)
    (hsame : linked clusters (linkEdges clusters tuning) (secondPrior clusters prior tuning mint) =
      linked clusters (linkEdges clusters tuning) prior)
    {k : Nat} {ms : Members n} {i : Fin n} {s : Uuid}
    (hk : (orderedComponents clusters (linkComponents clusters
      (secondPrior clusters prior tuning mint) tuning))[k]? = some ms)
    (hi : i ∈ ms.toList) (hs : Placed (linkWith clusters prior tuning mint) (clusters i).id s) :
    Claim.Keeps (wants clusters (linkComponents clusters (secondPrior clusters prior tuning mint)
      tuning) (secondPrior clusters prior tuning mint)) k s := by
  have hsplits := components_splits clusters (linkEdges clusters tuning)
    (secondPrior clusters prior tuning mint)
  have hwant := second_wants hids hmint hsame hk hi hs
  refine Claim.keeps_iff.mpr ⟨⟨[s], ?_, by simp, ?_⟩, ?_⟩
  · rw [wants_getElem?, hk, Option.map_some, hwant]
  · intro b hb hlt
    rw [List.mem_singleton.mp hb] at hlt
    exact absurd hlt (lt_irrefl s)
  · intro j hj hkeep
    obtain ⟨w, hw, hsw⟩ := hkeep.wanted
    rw [wants_getElem?, Option.map_eq_some_iff] at hw
    obtain ⟨ms', hms', rfl⟩ := hw
    obtain ⟨i', hi', hprior⟩ := mem_componentPriorIds.mp hsw
    have hlinked := (placed_iff_linked hids hmint hs).mp ((priorStory_readBack hids).mp hprior)
    rw [← hsame] at hlinked
    obtain ⟨entry, hentry, rfl⟩ := mem_orderedComponents.mp (List.mem_of_getElem? hk)
    have hmem := (hsplits.same entry hentry i hi i').mpr hlinked
    have heq := position_unique hsplits.partitions hms' hk hi' hmem
    omega

theorem repeats_iff_linked (hids : Function.Injective fun i => (clusters i).id)
    (hmint : FreshMint mint prior)
    (hmint' : FreshMint mint' (secondPrior clusters prior tuning mint)) :
    Repeats (linkWith clusters prior tuning mint)
        (linkWith clusters (secondPrior clusters prior tuning mint) tuning mint') ↔
      linked clusters (linkEdges clusters tuning) (secondPrior clusters prior tuning mint) =
        linked clusters (linkEdges clusters tuning) prior := by
  constructor
  · intro h
    ext i j
    obtain ⟨s, hs⟩ := @exists_placed _ _ _ clusters prior tuning mint i
    rw [← placed_iff_linked hids hmint hs, ← placed_iff_linked hids hmint' ((h.1 _ s).mpr hs), h.1]
  · intro hsame
    refine ⟨?_, ?_⟩
    · have hkept : ∀ c s, Placed (linkWith clusters prior tuning mint) c s →
          Placed (linkWith clusters (secondPrior clusters prior tuning mint) tuning mint') c s := by
        intro c s hs
        obtain ⟨i, rfl⟩ := placed_cluster hs
        have hpart := (components_splits clusters (linkEdges clusters tuning)
          (secondPrior clusters prior tuning mint)).partitions
        obtain ⟨k, ms, hk, hi⟩ := @exists_position _ clusters _ hpart i
        exact (placed_iff_position hids).mpr ⟨k, ms, hk, hi,
          survivors_of_keeps hmint' (second_keeps hids hmint hsame hk hi hs)⟩
      intro c s
      constructor
      · intro h
        obtain ⟨i, rfl⟩ := placed_cluster h
        obtain ⟨t, ht⟩ := @exists_placed _ _ _ clusters prior tuning mint i
        rwa [placed_unique hids h (hkept _ t ht)]
      · exact hkept c s
    · refine List.eq_nil_iff_forall_not_mem.mpr ?_
      intro m hm
      obtain ⟨k, ms, hk, _, hid, hnone⟩ := (mem_merges hmint').mp hm
      obtain ⟨i, hi, hprior⟩ := mem_componentPriorIds.mp hid
      exact hnone k (second_keeps hids hmint hsame hk hi ((priorStory_readBack hids).mp hprior))

/-- A recompute repeats its own output exactly when each weak edge left unjoined
lies between two components that both keep the id of a delivered story. -/
theorem recompute_repeats_iff (hids : Function.Injective fun i => (clusters i).id)
    (hmint : FreshMint mint prior)
    (hmint' : FreshMint mint' (secondPrior clusters prior tuning mint)) :
    Repeats (linkWith clusters prior tuning mint)
        (linkWith clusters (secondPrior clusters prior tuning mint) tuning mint') ↔
      ∀ e ∈ linkEdges clusters tuning, e.strong = false →
        ¬ linked clusters (linkEdges clusters tuning) prior e.a e.b →
          KeepsDelivered clusters prior tuning e.a ∧ KeepsDelivered clusters prior tuning e.b := by
  rw [repeats_iff_linked hids hmint hmint']
  have hlabels : LabelsClasses (deliveredLabel clusters (secondPrior clusters prior tuning mint))
      (linked clusters (linkEdges clusters tuning) prior) := labelsClasses_readBack hids hmint
  rw [linked_eq] at hlabels
  have hagain := guardedMerge_again_iff hlabels
  rw [← linked_eq, ← linked_eq] at hagain
  rw [hagain]
  constructor
  · intro h e he hweak hcross
    have hpair := h e.ends (List.mem_map_of_mem (mem_weakEdges.mpr ⟨he, hweak⟩)) hcross
    exact ⟨(label_nonempty_iff hids hmint).mp hpair.1, (label_nonempty_iff hids hmint).mp hpair.2⟩
  · intro h p hp hcross
    obtain ⟨e, he, rfl⟩ := List.mem_map.mp hp
    obtain ⟨hmem, hweak⟩ := mem_weakEdges.mp he
    have hpair := h e hmem hweak hcross
    exact ⟨(label_nonempty_iff hids hmint).mpr hpair.1, (label_nonempty_iff hids hmint).mpr hpair.2⟩

end Second

/-! ## A delivered story whose part lost its id -/

/-- Clusters 1 and 2 were delivered as story 10 and cluster 3 as story 20. Nothing
links 1 and 2 any more, and 2 shares two tokens with 3. -/
def peeledClusters : Fin 3 → LinkCluster :=
  ![feedCluster 1 ["repo:x"] 0, feedCluster 2 ["repo:y", "person:z"] 0,
    feedCluster 3 ["repo:y", "person:z"] 0]

def peeledPrior : List PriorMember := [⟨1, 10, true⟩, ⟨2, 10, true⟩, ⟨3, 20, true⟩]

theorem peeledPrior_fresh : FreshMint (mintFrom 100) peeledPrior := mintFrom_fresh (by decide)

theorem peeled_secondPrior :
    secondPrior peeledClusters peeledPrior ({} : LinkTuning ℚ) (mintFrom 100) =
      [⟨1, 10, true⟩, ⟨3, 20, true⟩, ⟨2, 100, false⟩] := by decide +kernel

theorem peeledSecond_fresh : FreshMint (mintFrom 200)
    (secondPrior peeledClusters peeledPrior ({} : LinkTuning ℚ) (mintFrom 100)) := by
  rw [peeled_secondPrior]
  exact mintFrom_fresh (by decide)

theorem peeledClusters_ids : Function.Injective fun i => (peeledClusters i).id := by decide

theorem recompute_repeats_iff_peeled :
    Repeats (linkWith peeledClusters peeledPrior ({} : LinkTuning ℚ) (mintFrom 100))
        (linkWith peeledClusters
          (secondPrior peeledClusters peeledPrior ({} : LinkTuning ℚ) (mintFrom 100))
          ({} : LinkTuning ℚ) (mintFrom 200)) ↔
      ∀ e ∈ linkEdges peeledClusters ({} : LinkTuning ℚ), e.strong = false →
        ¬ linked peeledClusters (linkEdges peeledClusters ({} : LinkTuning ℚ)) peeledPrior e.a e.b →
          KeepsDelivered peeledClusters peeledPrior ({} : LinkTuning ℚ) e.a ∧
            KeepsDelivered peeledClusters peeledPrior ({} : LinkTuning ℚ) e.b :=
  recompute_repeats_iff peeledClusters_ids peeledPrior_fresh peeledSecond_fresh

/-- The second run merges the peeled cluster into story 20. -/
theorem peeled_cluster_moves :
    FreshMint (mintFrom 100) peeledPrior ∧
      FreshMint (mintFrom 200)
        (secondPrior peeledClusters peeledPrior ({} : LinkTuning ℚ) (mintFrom 100)) ∧
      ¬ Repeats (linkWith peeledClusters peeledPrior ({} : LinkTuning ℚ) (mintFrom 100))
        (linkWith peeledClusters
          (secondPrior peeledClusters peeledPrior ({} : LinkTuning ℚ) (mintFrom 100))
          ({} : LinkTuning ℚ) (mintFrom 200)) := by
  refine ⟨peeledPrior_fresh, peeledSecond_fresh, ?_⟩
  intro h
  have hmerges : (linkWith peeledClusters
      (secondPrior peeledClusters peeledPrior ({} : LinkTuning ℚ) (mintFrom 100))
      ({} : LinkTuning ℚ) (mintFrom 200)).merges = [⟨100, 20⟩] := by decide +kernel
  have hnil := h.2
  rw [hmerges] at hnil
  cases hnil

end Bulletin
