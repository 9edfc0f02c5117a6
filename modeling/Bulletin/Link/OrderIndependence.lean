import Bulletin.Link.Equivariance
import Bulletin.Link.Placement

/-! # Linking a reordered slice

The order of the slice enters a run only through the tie-break of equally scored
weak edges. Where no tie is reordered next to two delivered stories, the reordered
run yields the same stories, ids and merges.
-/

namespace Bulletin

open GuardedMerge

variable {n : Nat} {F : Type} [LinearOrder F] [ExactScore F]

/-! ## The weak order -/

theorem weakOrder_ne_gt {x y : Edge n F} :
    weakOrder x y ≠ .gt ↔
      y.score < x.score ∨ (y.score = x.score ∧ toLex x.ends ≤ toLex y.ends) := by
  unfold weakOrder
  rw [ExactScore.partialCmp_eq, Option.getD_some]
  rcases lt_trichotomy y.score x.score with h | h | h
  · rw [compare_lt_iff_lt.mpr h]
    simp [h]
  · rw [compare_eq_iff_eq.mpr h, Ordering.then]
    have hends : compare (toLex (x.a, x.b)) (toLex (y.a, y.b)) ≠ .gt ↔
        toLex x.ends ≤ toLex y.ends := by
      rw [ne_eq, compare_gt_iff_gt, not_lt]
      rfl
    simp [h, hends]
  · rw [compare_gt_iff_gt.mpr h]
    simp [Ordering.then, not_lt_of_gt h, ne_of_gt h]

instance : Std.Total fun x y : Edge n F => weakOrder x y ≠ .gt where
  total := by
    intro x y
    simp only [weakOrder_ne_gt]
    rcases lt_trichotomy x.score y.score with h | h | h
    · exact Or.inr (Or.inl h)
    · rcases le_total (toLex x.ends) (toLex y.ends) with hle | hle
      · exact Or.inl (Or.inr ⟨h.symm, hle⟩)
      · exact Or.inr (Or.inr ⟨h, hle⟩)
    · exact Or.inl (Or.inl h)

instance : IsTrans (Edge n F) fun x y => weakOrder x y ≠ .gt where
  trans := by
    intro x y z hxy hyz
    rw [weakOrder_ne_gt] at hxy hyz ⊢
    rcases hxy with hxy | ⟨hxy, hle⟩
    · rcases hyz with hyz | ⟨hyz, _⟩
      · exact Or.inl (lt_trans hyz hxy)
      · exact Or.inl (hyz ▸ hxy)
    · rcases hyz with hyz | ⟨hyz, hle'⟩
      · exact Or.inl (hxy ▸ hyz)
      · exact Or.inr ⟨hyz.trans hxy, le_trans hle hle'⟩

theorem weakEdges_sorted (es : List (Edge n F)) :
    (weakEdges es).Pairwise fun x y => weakOrder x y ≠ .gt :=
  List.pairwise_insertionSort _ _

/-! ## Ties that matter -/

/-- The partition made by all edges of a run, with no guard. -/
def edgeGraph (clusters : Fin n → LinkCluster) (tuning : LinkTuning F) : Setoid (Fin n) :=
  joinAll ((linkEdges clusters tuning).map Edge.ends) ⊥

/-- The connected part of `x` holds clusters of two distinct delivered stories. -/
def Contested (clusters : Fin n → LinkCluster) (prior : List PriorMember) (tuning : LinkTuning F)
    (x : Fin n) : Prop :=
  ∃ y z P Q, edgeGraph clusters tuning x y ∧ edgeGraph clusters tuning x z ∧
    P ∈ deliveredLabel clusters prior y ∧ Q ∈ deliveredLabel clusters prior z ∧ P ≠ Q

/-- Equally scored weak edges of one contested part stand in the same order by their
endpoints after the slice is reordered. -/
def TiesKeepOrder (clusters : Fin n → LinkCluster) (prior : List PriorMember)
    (tuning : LinkTuning F) (σ : Equiv.Perm (Fin n)) : Prop :=
  ∀ e ∈ linkEdges clusters tuning, ∀ f ∈ linkEdges clusters tuning,
    e.strong = false → f.strong = false → e.score = f.score →
    Contested clusters prior tuning e.a → edgeGraph clusters tuning e.a f.a →
    toLex e.ends ≤ toLex f.ends → toLex (e.rename σ.symm).ends ≤ toLex (f.rename σ.symm).ends

section Linked

variable {clusters : Fin n → LinkCluster} {prior : List PriorMember} {tuning : LinkTuning F}
  {σ : Equiv.Perm (Fin n)}

omit [LinearOrder F] [ExactScore F] in
theorem Edge.rename_rename_symm {e : Edge n F} (h : e.a ≤ e.b) :
    (e.rename σ.symm).rename σ = e := e.rename_symm σ.symm h

omit [LinearOrder F] [ExactScore F] in
theorem EdgesMatch.mem_iff {es es' : List (Edge n F)} (h : EdgesMatch σ es' es) {f : Edge n F} :
    f ∈ es ↔ ∃ e ∈ es', e.rename σ = f := by
  constructor
  · intro hf
    have hle := h.simple.ordered f hf
    refine ⟨f.rename σ.symm, (h.mem _ (f.rename_ordered σ.symm)).mpr ?_,
      Edge.rename_rename_symm hle⟩
    rwa [Edge.rename_rename_symm hle]
  · intro hex
    obtain ⟨e, he, rfl⟩ := hex
    exact (h.mem e (h.simple'.ordered e he)).mp he

omit [LinearOrder F] [ExactScore F] in
theorem rename_ends (e : Edge n F) :
    (e.rename σ).ends = e.ends.map σ σ ∨ (e.rename σ).ends = (e.ends.map σ σ).swap := by
  unfold Edge.rename Edge.ends
  rcases le_total (σ e.a) (σ e.b) with h | h
  · left
    simp [h]
  · right
    simp [h]

omit [LinearOrder F] [ExactScore F] in
theorem SimpleEdges.eq_of_ends {es : List (Edge n F)} (h : SimpleEdges es) {e f : Edge n F}
    (he : e ∈ es) (hf : f ∈ es) (heq : e.ends = f.ends) : e = f :=
  List.inj_on_of_nodup_map h.nodup he hf heq

theorem linkEdges_matches (hids : Function.Injective fun i => (clusters i).id)
    (σ : Equiv.Perm (Fin n)) (tuning : LinkTuning F) :
    EdgesMatch σ (linkEdges (clusters ∘ σ) tuning) (linkEdges clusters tuning) :=
  linkEdges_match hids ExactScore.plus_comm σ tuning

theorem stronglyLinked_comap (hids : Function.Injective fun i => (clusters i).id) :
    stronglyLinked (linkEdges (clusters ∘ σ) tuning) =
      (stronglyLinked (linkEdges clusters tuning)).comap σ := by
  have hmatch := linkEdges_matches hids σ tuning
  have hbot : (⊥ : Setoid (Fin n)) = (⊥ : Setoid (Fin n)).comap σ := by
    ext x y
    exact σ.injective.eq_iff.symm
  have hcomap := joinAll_comap σ
    ((strongEdges (linkEdges (clusters ∘ σ) tuning)).map Edge.ends) ⊥
  rw [← hbot, List.map_map] at hcomap
  refine hcomap.trans (congrArg _ ?_)
  refine (joinAll_map_swap _ _ (fun e => rename_ends e)).trans ?_
  refine joinAll_congr ?_
  intro p
  simp only [List.mem_map, strongEdges, List.mem_filter]
  constructor
  · intro h
    obtain ⟨e, ⟨he, hstrong⟩, rfl⟩ := h
    exact ⟨e.rename σ, ⟨hmatch.mem_iff.mpr ⟨e, he, rfl⟩, hstrong⟩, rfl⟩
  · intro h
    obtain ⟨f, ⟨hf, hstrong⟩, rfl⟩ := h
    obtain ⟨e, he, rfl⟩ := hmatch.mem_iff.mp hf
    exact ⟨e, ⟨he, hstrong⟩, rfl⟩

theorem Contested.of_edgeGraph {x y : Fin n} (h : Contested clusters prior tuning x)
    (hxy : edgeGraph clusters tuning x y) : Contested clusters prior tuning y := by
  obtain ⟨u, v, P, Q, hu, hv, hP, hQ, hne⟩ := h
  exact ⟨u, v, P, Q, Setoid.trans' _ (Setoid.symm' _ hxy) hu,
    Setoid.trans' _ (Setoid.symm' _ hxy) hv, hP, hQ, hne⟩

theorem weakEdges_nodup {es : List (Edge n F)} (h : SimpleEdges es) : (weakEdges es).Nodup :=
  (List.perm_insertionSort _ _).nodup_iff.mpr ((h.nodup.of_map _).filter _)

/-- The weak edges of the slice are the renamed weak edges of the reordered slice. -/
theorem weakEdges_perm (hids : Function.Injective fun i => (clusters i).id) :
    (weakEdges (linkEdges clusters tuning)).Perm
      ((weakEdges (linkEdges (clusters ∘ σ) tuning)).map (Edge.rename σ)) := by
  have hmatch := linkEdges_matches hids σ tuning
  refine (List.perm_ext_iff_of_nodup (weakEdges_nodup hmatch.simple) ?_).mpr ?_
  · refine List.Nodup.map_on ?_ (weakEdges_nodup hmatch.simple')
    intro e he f hf heq
    have hle := hmatch.simple'.ordered e (mem_weakEdges.mp he).1
    have hle' := hmatch.simple'.ordered f (mem_weakEdges.mp hf).1
    rw [← e.rename_symm σ hle, heq, f.rename_symm σ hle']
  · intro f
    rw [mem_weakEdges, hmatch.mem_iff, List.mem_map]
    constructor
    · intro h
      obtain ⟨⟨e, he, rfl⟩, hweak⟩ := h
      exact ⟨e, mem_weakEdges.mpr ⟨he, hweak⟩, rfl⟩
    · intro h
      obtain ⟨e, he, rfl⟩ := h
      exact ⟨⟨e, (mem_weakEdges.mp he).1, rfl⟩, (mem_weakEdges.mp he).2⟩

/-- With the ties of a contested part in order, renaming keeps its weak edges sorted. -/
theorem rename_sorted (hids : Function.Injective fun i => (clusters i).id)
    (hties : TiesKeepOrder clusters prior tuning σ) {x : Fin n}
    (hx : Contested clusters prior tuning x) {e f : Edge n F}
    (he : e ∈ linkEdges (clusters ∘ σ) tuning) (hf : f ∈ linkEdges (clusters ∘ σ) tuning)
    (hew : e.strong = false) (hfw : f.strong = false)
    (hxe : edgeGraph clusters tuning x (e.rename σ).a)
    (hxf : edgeGraph clusters tuning x (f.rename σ).a) (hef : weakOrder e f ≠ .gt) :
    weakOrder (e.rename σ) (f.rename σ) ≠ .gt := by
  have hmatch := linkEdges_matches hids σ tuning
  rw [weakOrder_ne_gt] at hef ⊢
  rcases hef with hlt | ⟨hscore, hends⟩
  · exact Or.inl hlt
  · refine Or.inr ⟨hscore, ?_⟩
    rcases le_total (toLex (e.rename σ).ends) (toLex (f.rename σ).ends) with hle | hge
    · exact hle
    · have hback := hties (f.rename σ) (hmatch.mem_iff.mpr ⟨f, hf, rfl⟩) (e.rename σ)
        (hmatch.mem_iff.mpr ⟨e, he, rfl⟩) hfw hew hscore (hx.of_edgeGraph hxf)
        (Setoid.trans' _ (Setoid.symm' _ hxf) hxe) hge
      rw [f.rename_symm σ (hmatch.simple'.ordered f hf),
        e.rename_symm σ (hmatch.simple'.ordered e he)] at hback
      have heq := hmatch.simple'.eq_of_ends he hf (toLex_inj.mp (le_antisymm hends hback))
      rw [heq]

/-- Inside a contested part, and with the ties there in order, the weak edges come
in one sequence whichever slice they were read from. -/
theorem weakEdges_filter_eq (hids : Function.Injective fun i => (clusters i).id)
    (hties : TiesKeepOrder clusters prior tuning σ) {x : Fin n}
    (hx : Contested clusters prior tuning x) (K : Fin n → Bool)
    (hK : ∀ i, K i = true ↔ edgeGraph clusters tuning x i) :
    (weakEdges (linkEdges clusters tuning)).filter (fun e => K e.a) =
      ((weakEdges (linkEdges (clusters ∘ σ) tuning)).map (Edge.rename σ)).filter fun e => K e.a := by
  have hmatch := linkEdges_matches hids σ tuning
  refine ((weakEdges_perm hids).filter _).eq_of_pairwise ?_
    ((weakEdges_sorted (linkEdges clusters tuning)).filter _) ?_
  · intro e f he hf hef hfe
    have hemem := (mem_weakEdges.mp (List.mem_of_mem_filter he)).1
    have hfmem := (mem_weakEdges.mp
      ((weakEdges_perm hids).mem_iff.mpr (List.mem_of_mem_filter hf))).1
    rw [weakOrder_ne_gt] at hef hfe
    rcases hef with hlt | ⟨heq, hends⟩
    · rcases hfe with hlt' | ⟨heq', _⟩
      · exact absurd hlt' (lt_asymm hlt)
      · exact absurd hlt (by rw [heq']; exact lt_irrefl _)
    · rcases hfe with hlt' | ⟨_, hends'⟩
      · exact absurd hlt' (by rw [heq]; exact lt_irrefl _)
      · exact hmatch.simple.eq_of_ends hemem hfmem (toLex_inj.mp (le_antisymm hends hends'))
  · rw [List.pairwise_filter, List.pairwise_map]
    refine (weakEdges_sorted (linkEdges (clusters ∘ σ) tuning)).imp_of_mem ?_
    intro e f he hf hef hKe hKf
    obtain ⟨hemem, hew⟩ := mem_weakEdges.mp he
    obtain ⟨hfmem, hfw⟩ := mem_weakEdges.mp hf
    exact rename_sorted hids hties hx hemem hfmem hew hfw ((hK _).mp hKe) ((hK _).mp hKf) hef

open Classical in
theorem linked_comap (hids : Function.Injective fun i => (clusters i).id)
    (hties : TiesKeepOrder clusters prior tuning σ) :
    linked (clusters ∘ σ) (linkEdges (clusters ∘ σ) tuning) prior =
      (linked clusters (linkEdges clusters tuning) prior).comap σ := by
  have hlabel : deliveredLabel (clusters ∘ σ) prior = deliveredLabel clusters prior ∘ σ := rfl
  rw [linked_eq, linked_eq, hlabel, stronglyLinked_comap hids, guardedMerge_comap, List.map_map]
  refine congrArg _ ?_
  refine (guardedMerge_map_swap _ _ _ (fun e => rename_ends e)).trans ?_
  have hedge : ∀ e ∈ linkEdges clusters tuning, edgeGraph clusters tuning e.a e.b :=
    fun e he => joinAll_joins (List.mem_map_of_mem he) ⊥
  have hbase : stronglyLinked (linkEdges clusters tuning) ≤ edgeGraph clusters tuning := by
    refine joinAll_le_iff.mpr ⟨bot_le, ?_⟩
    intro p hp
    obtain ⟨e, he, rfl⟩ := List.mem_map.mp hp
    exact hedge e (List.mem_of_mem_filter he)
  refine Eq.symm (guardedMerge_order ?_ hbase ?_ ?_)
  · intro p
    have hperm : (weakEdges (linkEdges clusters tuning)).Perm
        ((weakEdges (linkEdges (clusters ∘ σ) tuning)).map (Edge.rename σ)) := weakEdges_perm hids
    have hends := hperm.map Edge.ends
    rw [List.map_map] at hends
    exact hends.mem_iff
  · intro p hp
    obtain ⟨e, he, rfl⟩ := List.mem_map.mp hp
    exact hedge e (mem_weakEdges.mp he).1
  · intro x
    by_cases hx : Contested clusters prior tuning x
    · right
      have hfilter := weakEdges_filter_eq hids hties hx
        (fun i => decide (edgeGraph clusters tuning x i)) (fun i => decide_eq_true_iff)
      have hends := congrArg (List.map Edge.ends) hfilter
      rw [List.filter_map, List.map_map] at hends
      rw [List.filter_map, List.filter_map]
      exact hends
    · left
      intro y z P Q hy hz hP hQ
      by_contra hne
      exact hx ⟨y, z, P, Q, hy, hz, hP, hQ, hne⟩

theorem idSets_eq (hids : Function.Injective fun i => (clusters i).id)
    (hties : TiesKeepOrder clusters prior tuning σ) :
    idSets (clusters ∘ σ) (linkComponents (clusters ∘ σ) prior tuning) =
      idSets clusters (linkComponents clusters prior tuning) := by
  have hsplits := components_splits clusters (linkEdges clusters tuning) prior
  have hsplits' := components_splits (clusters ∘ σ) (linkEdges (clusters ∘ σ) tuning) prior
  have hbefore := idSets_before hids hsplits.partitions
  have hids' : Function.Injective fun i => ((clusters ∘ σ) i).id := hids.comp σ.injective
  have hbefore' := idSets_before hids' hsplits'.partitions
  have hasymm : Std.Asymm Before := ⟨fun _ _ hST => hST.asymm⟩
  refine hbefore'.eq_of_mem_iff hbefore ?_
  intro S
  refine (mem_idSets hsplits').trans (Iff.trans ?_ (mem_idSets hsplits).symm)
  rw [linked_comap hids hties]
  have hclass : ∀ i c, (∃ j, ((linked clusters (linkEdges clusters tuning) prior).comap σ) i j ∧
      ((clusters ∘ σ) j).id = c) ↔
      ∃ j, linked clusters (linkEdges clusters tuning) prior (σ i) j ∧ (clusters j).id = c := by
    intro i c
    exact σ.exists_congr_left.trans (exists_congr fun j => by simp [Setoid.comap_rel])
  simp only [hclass]
  exact σ.exists_congr_left.trans (exists_congr fun i => by simp)

end Linked

/-! ## The reordered run -/

/-- Two assignments group the clusters alike, use the same prior ids for them and
record the same merges. -/
structure SameUpToMint (prior : List PriorMember) (first second : Assignment) : Prop where
  grouped : ∀ c d, (∃ s, Placed second c s ∧ Placed second d s) ↔
    ∃ s, Placed first c s ∧ Placed first d s
  forwarded : ∀ c s, (∃ p ∈ prior, p.storyId = s) → (Placed second c s ↔ Placed first c s)
  merged : second.merges = first.merges

/-- A reordered slice links to the same stories, prior ids and merges, as long as the
tied weak edges of every contested part keep their order. -/
theorem linkWith_reordered {clusters : Fin n → LinkCluster} {prior : List PriorMember}
    {tuning : LinkTuning F} {σ : Equiv.Perm (Fin n)} {mint mint' : Nat → Uuid}
    (hids : Function.Injective fun i => (clusters i).id) (hmint : FreshMint mint prior)
    (hmint' : FreshMint mint' prior) (hties : TiesKeepOrder clusters prior tuning σ) :
    SameUpToMint prior (linkWith clusters prior tuning mint)
      (linkWith (clusters ∘ σ) prior tuning mint') := by
  have hsets := idSets_eq hids hties
  have hwants : wants (clusters ∘ σ) (linkComponents (clusters ∘ σ) prior tuning) prior =
      wants clusters (linkComponents clusters prior tuning) prior := wants_congr hsets
  refine ⟨?_, ?_, ?_⟩
  · intro c d
    refine (grouped_iff_idSets hmint').trans ((grouped_iff_idSets hmint).trans ?_).symm
    rw [hsets]
  · intro c s hs
    refine (forwarded_iff_idSets hmint' hs).trans ((forwarded_iff_idSets hmint hs).trans ?_).symm
    rw [hsets, hwants]
  · exact merges_congr hmint hmint' hwants.symm

/-- Cluster 2 shares one token with each of two delivered stories, equally scored. -/
def bridgedClusters : Fin 3 → LinkCluster :=
  ![feedCluster 1 ["repo:x"] 0, feedCluster 2 ["repo:x", "repo:y"] 0, feedCluster 3 ["repo:y"] 0]

def bridgedPrior : List PriorMember := [⟨1, 10, true⟩, ⟨3, 20, true⟩]

theorem bridgedPrior_fresh : FreshMint (mintFrom 100) bridgedPrior := mintFrom_fresh (by decide)

/-- Two clusters with one weak edge between them, and two with a strong one. -/
def untiedClusters : Fin 4 → LinkCluster :=
  ![feedCluster 1 ["repo:x", "person:z"] 0, feedCluster 2 ["repo:x", "person:z"] 0,
    feedCluster 3 ["cve:a"] 0, feedCluster 4 ["cve:a"] 0]

theorem untiedClusters_edges :
    (linkEdges untiedClusters ({} : LinkTuning ℚ)).map (fun e => (e.strong, e.ends)) =
      [(false, (0, 1)), (true, (2, 3))] := by decide +kernel

theorem linkWith_reordered_untied :
    SameUpToMint bridgedPrior
      (linkWith untiedClusters bridgedPrior ({} : LinkTuning ℚ) (mintFrom 100))
      (linkWith (untiedClusters ∘ Equiv.swap 0 3) bridgedPrior ({} : LinkTuning ℚ)
        (mintFrom 200)) := by
  refine linkWith_reordered (by decide) bridgedPrior_fresh (mintFrom_fresh (by decide)) ?_
  have hone : ∀ e ∈ linkEdges untiedClusters ({} : LinkTuning ℚ), e.strong = false →
      e.ends = (0, 1) := by
    intro e he hweak
    have hmem := List.mem_map_of_mem (f := fun e : Edge 4 ℚ => (e.strong, e.ends)) he
    rw [untiedClusters_edges, hweak] at hmem
    simpa using hmem
  intro e he f hf hew hfw _ _ _ _
  have heq : e.ends = f.ends := (hone e he hew).trans (hone f hf hfw).symm
  obtain ⟨ha, hb⟩ := Prod.mk.inj heq
  unfold Edge.rename Edge.ends
  rw [ha, hb]

/-- Read in the opposite order, the bridge joins the other delivered story. -/
theorem bridge_follows_order :
    FreshMint (mintFrom 100) bridgedPrior ∧
      ¬ SameUpToMint bridgedPrior
        (linkWith bridgedClusters bridgedPrior ({} : LinkTuning ℚ) (mintFrom 100))
        (linkWith (bridgedClusters ∘ Equiv.swap 0 2) bridgedPrior ({} : LinkTuning ℚ)
          (mintFrom 100)) := by
  refine ⟨bridgedPrior_fresh, ?_⟩
  intro h
  have hfirst : ∃ story ∈ (linkWith bridgedClusters bridgedPrior ({} : LinkTuning ℚ)
      (mintFrom 100)).stories, story.id = 10 ∧ 2 ∈ story.members := by decide +kernel
  have hsecond : ¬ ∃ story ∈ (linkWith (bridgedClusters ∘ Equiv.swap 0 2) bridgedPrior
      ({} : LinkTuning ℚ) (mintFrom 100)).stories, story.id = 10 ∧ 2 ∈ story.members := by
    decide +kernel
  exact hsecond ((h.forwarded 2 10 ⟨⟨1, 10, true⟩, by decide, rfl⟩).mpr hfirst)

end Bulletin
