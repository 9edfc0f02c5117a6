import Bulletin.Link.Forwarding
import Bulletin.Link.Scoring

/-! # Linking, end to end

`linkWith` strings the stages together. The result here is the asymmetric merge
guard of one run: whatever the weak edges do, two delivered prior stories share an
output story only through strong connections.
-/

namespace Bulletin

open GuardedMerge

variable {n : Nat} {F : Type} [Score F]

/-! ## Link reasons -/

/-- Per cluster, the rank of its best edge so far and that edge's reason. -/
structure BestEdges (n : Nat) (F : Type) where
  best : Fin n → Option (Bool × F)
  reason : Fin n → Option String

/-- A strong edge outranks a weak one, then the higher score wins. -/
def beats (best : Option (Bool × F)) (e : Edge n F) : Bool :=
  match best with
  | none => true
  | some (s, sc) => (e.strong && !s) || (e.strong == s && Score.gt e.score sc)

def BestEdges.offer (st : BestEdges n F) (e : Edge n F) (i : Fin n) : BestEdges n F :=
  if beats (st.best i) e then
    { best := Function.update st.best i (some (e.strong, e.score))
      reason := Function.update st.reason i (some e.reason) }
  else st

def componentRoots (components : Components n) : Fin n → Nat :=
  components.toList.foldl
    (fun root entry => entry.2.toList.foldl
      (fun root i => Function.update root i entry.1.val) root)
    fun _ => 0

/-- Each cluster's strongest edge inside its own component. -/
def memberReasons (edges : List (Edge n F)) (components : Components n) : Fin n → Option String :=
  let root := componentRoots components
  let st := (edges.filter fun e => root e.a = root e.b).foldl
    (fun (st : BestEdges n F) e => [e.a, e.b].foldl (fun st i => st.offer e i) st)
    ⟨fun _ => none, fun _ => none⟩
  st.reason

/-! ## The run -/

/-- The edges of a run: the scored ones under the subscriber's constraints. -/
def linkEdges (clusters : Fin n → LinkCluster) (tuning : LinkTuning F) : List (Edge n F) :=
  applyConstraints (scoreEdges clusters tuning.entityWeights) clusters tuning.constraints

def linkComponents (clusters : Fin n → LinkCluster) (prior : List PriorMember)
    (tuning : LinkTuning F) : Components n :=
  components clusters (linkEdges clusters tuning) prior

/-- Link a slice of clusters, forwarding ids from the prior assignment. -/
def linkWith (clusters : Fin n → LinkCluster) (prior : List PriorMember) (tuning : LinkTuning F)
    (mint : Nat → Uuid) : Assignment :=
  forwardIds clusters (linkComponents clusters prior tuning) prior
    (memberReasons (linkEdges clusters tuning) (linkComponents clusters prior tuning)) mint

def link (F : Type) [Score F] (clusters : Fin n → LinkCluster) (prior : List PriorMember)
    (mint : Nat → Uuid) : Assignment :=
  linkWith clusters prior ({} : LinkTuning F) mint

def feedCluster (id : Uuid) (entities : List String) (eventTime : DateTime) : LinkCluster where
  id := id
  entities := entities
  firstEventTime := eventTime
  lastEventTime := eventTime
  source := .rss
  eventCount := 1
  contentDepth := .longform
  maxSeverity := none
  isOwnPrivate := false

/-! ## The asymmetric guard of one run -/

/-- Some row of the prior assignment gives the story as delivered. -/
def DeliveredPrior (prior : List PriorMember) (P : Uuid) : Prop :=
  ∃ p ∈ prior, p.delivered = true ∧ p.storyId = P

/-- Cluster `c` is in the prior story `P`. -/
def OwnedBy (prior : List PriorMember) (P c : Uuid) : Prop :=
  ∃ p ∈ prior, p.clusterId = c ∧ p.storyId = P

/-- A strong or must-link edge of the run joins two indices. -/
def StrongEdge (clusters : Fin n → LinkCluster) (tuning : LinkTuning F) (i j : Fin n) : Prop :=
  ∃ e ∈ linkEdges clusters tuning, e.strong = true ∧ e.a = i ∧ e.b = j

/-- Two delivered prior stories with clusters in one component of the strong edges. -/
structure StrongMeet (clusters : Fin n → LinkCluster) (prior : List PriorMember)
    (tuning : LinkTuning F) (D E : Uuid) : Prop where
  left : DeliveredPrior prior D
  right : DeliveredPrior prior E
  meet : ∃ i j, Relation.EqvGen (StrongEdge clusters tuning) i j ∧
    OwnedBy prior D (clusters i).id ∧ OwnedBy prior E (clusters j).id

theorem priorStory_eq_some_iff {prior : List PriorMember}
    (hprior : (prior.map (·.clusterId)).Nodup) {c s : Uuid} :
    (priorStory prior)[c]? = some s ↔ OwnedBy prior s c := by
  constructor
  · exact priorStory_mem
  · intro h
    obtain ⟨p, hp, rfl, rfl⟩ := h
    have hsome := priorStory_isSome.mpr ⟨p, hp, rfl⟩
    obtain ⟨s, hs⟩ := Option.isSome_iff_exists.mp hsome
    obtain ⟨q, hq, hqc, rfl⟩ := priorStory_mem hs
    rw [hs, List.inj_on_of_nodup_map hprior hq hp hqc]

theorem mem_deliveredLabel {clusters : Fin n → LinkCluster} {prior : List PriorMember}
    (hprior : (prior.map (·.clusterId)).Nodup) {i : Fin n} {P : Uuid} :
    P ∈ deliveredLabel clusters prior i ↔
      OwnedBy prior P (clusters i).id ∧ DeliveredPrior prior P := by
  show P ∈ (deliveredOf prior (clusters i).id : Set Uuid) ↔ _
  rw [Finset.mem_coe, mem_deliveredOf, priorStory_eq_some_iff hprior, mem_deliveredStories]
  rfl

theorem stronglyLinked_iff {clusters : Fin n → LinkCluster} {tuning : LinkTuning F} {i j : Fin n} :
    stronglyLinked (linkEdges clusters tuning) i j ↔
      Relation.EqvGen (StrongEdge clusters tuning) i j := by
  have hedge : ∀ e ∈ (strongEdges (linkEdges clusters tuning)).map Edge.ends,
      StrongEdge clusters tuning e.1 e.2 := by
    intro p hp
    obtain ⟨e, he, rfl⟩ := List.mem_map.mp hp
    obtain ⟨hmem, hstrong⟩ := List.mem_filter.mp he
    exact ⟨e, hmem, hstrong, rfl, rfl⟩
  constructor
  · intro h
    have hle : stronglyLinked (linkEdges clusters tuning) ≤
        Relation.EqvGen.setoid (StrongEdge clusters tuning) := by
      refine joinAll_le_iff.mpr ⟨bot_le, ?_⟩
      intro p hp
      exact Relation.EqvGen.rel _ _ (hedge p hp)
    exact hle h
  · intro h
    induction h with
    | rel x y hxy =>
        obtain ⟨e, he, hstrong, rfl, rfl⟩ := hxy
        exact joinAll_joins (List.mem_map_of_mem (List.mem_filter.mpr ⟨he, hstrong⟩)) ⊥
    | refl x => exact Setoid.refl' _ x
    | symm x y _ ih => exact Setoid.symm' _ ih
    | trans x y z _ _ ih₁ ih₂ => exact Setoid.trans' _ ih₁ ih₂

theorem linked_of_mem_story {clusters : Fin n → LinkCluster} {prior : List PriorMember}
    {tuning : LinkTuning F} {mint : Nat → Uuid} {story : LinkedStory} {c d : Uuid}
    (hstory : story ∈ (linkWith clusters prior tuning mint).stories)
    (hc : c ∈ story.members) (hd : d ∈ story.members) :
    ∃ i j, (clusters i).id = c ∧ (clusters j).id = d ∧
      linked clusters (linkEdges clusters tuning) prior i j := by
  obtain ⟨k, ms, s, hms, _, rfl⟩ := mem_stories.mp hstory
  obtain ⟨i, hi, rfl⟩ := mem_members.mp hc
  obtain ⟨j, hj, rfl⟩ := mem_members.mp hd
  obtain ⟨entry, hentry, rfl⟩ := mem_orderedComponents.mp (List.mem_of_getElem? hms)
  have hsplits := components_splits clusters (linkEdges clusters tuning) prior
  exact ⟨i, j, rfl, rfl, (hsplits.same entry hentry i hi j).mp hj⟩

/-- Delivered prior stories of linked clusters meet through strong edges, by way of other
delivered prior stories. -/
theorem linked_meet {clusters : Fin n → LinkCluster} {prior : List PriorMember}
    (hprior : (prior.map (·.clusterId)).Nodup) {tuning : LinkTuning F} {i j : Fin n} {P Q : Uuid}
    (hij : linked clusters (linkEdges clusters tuning) prior i j)
    (hP : P ∈ deliveredLabel clusters prior i) (hQ : Q ∈ deliveredLabel clusters prior j) :
    Relation.ReflTransGen (StrongMeet clusters prior tuning) P Q := by
  have hlabel : ∀ {k R}, R ∈ deliveredLabel clusters prior k ↔
      OwnedBy prior R (clusters k).id ∧ DeliveredPrior prior R := mem_deliveredLabel hprior
  have hchain := (Chained.self (deliveredLabel clusters prior)
    (stronglyLinked (linkEdges clusters tuning))).guardedMerge
      ((weakEdges (linkEdges clusters tuning)).map Edge.ends)
  rw [← linked_eq] at hchain
  refine Relation.ReflTransGen.mono ?_ P Q (hchain i j P Q hij hP hQ)
  intro D E hmeet
  obtain ⟨a, b, hab, hD, hE⟩ := hmeet
  obtain ⟨hDa, hDd⟩ := hlabel.mp hD
  obtain ⟨hEb, hEd⟩ := hlabel.mp hE
  exact ⟨hDd, hEd, a, b, stronglyLinked_iff.mp hab, hDa, hEb⟩

/-- Two delivered prior stories with current clusters in one output story are
joined by a chain of delivered prior stories that meet through strong edges. -/
theorem delivered_stories_meet_strongly {clusters : Fin n → LinkCluster} {prior : List PriorMember}
    (hprior : (prior.map (·.clusterId)).Nodup) (tuning : LinkTuning F) (mint : Nat → Uuid)
    {story : LinkedStory} (hstory : story ∈ (linkWith clusters prior tuning mint).stories)
    {P Q c d : Uuid} (hP : DeliveredPrior prior P) (hQ : DeliveredPrior prior Q)
    (hc : c ∈ story.members) (hd : d ∈ story.members)
    (hPc : OwnedBy prior P c) (hQd : OwnedBy prior Q d) :
    Relation.ReflTransGen (StrongMeet clusters prior tuning) P Q := by
  obtain ⟨i, j, rfl, rfl, hij⟩ := linked_of_mem_story hstory hc hd
  exact linked_meet hprior hij ((mem_deliveredLabel hprior).mpr ⟨hPc, hP⟩)
    ((mem_deliveredLabel hprior).mpr ⟨hQd, hQ⟩)

/-- Three stories fused by an advisory id and a feed link, all delivered before. -/
def fusedClusters : Fin 4 → LinkCluster :=
  ![feedCluster 1 ["cve:a"] 0, feedCluster 2 ["cve:a"] 0, feedCluster 3 ["url:b"] 0,
    feedCluster 4 ["url:b", "cve:a"] 0]

def fusedPrior : List PriorMember := [⟨1, 10, true⟩, ⟨2, 20, true⟩, ⟨3, 30, true⟩]

def fusedStory : LinkedStory where
  id := 10
  clusters := [⟨1, some "shared cve:a"⟩, ⟨2, some "shared cve:a"⟩, ⟨3, some "shared url:b"⟩,
    ⟨4, some "shared cve:a"⟩]
  firstEventTime := 0
  lastEventTime := 0
  eventCount := 4
  sourceDiversity := 1
  contentDepth := .longform
  maxSeverity := none
  hasPrivate := false

theorem delivered_stories_meet_strongly_fused :
    Relation.ReflTransGen (StrongMeet fusedClusters fusedPrior ({} : LinkTuning ℚ)) 10 30 := by
  have hstory : fusedStory ∈ (linkWith fusedClusters fusedPrior ({} : LinkTuning ℚ)
      fun k => 100 + k).stories := by decide +kernel
  have first : (⟨1, 10, true⟩ : PriorMember) ∈ fusedPrior := by decide
  have third : (⟨3, 30, true⟩ : PriorMember) ∈ fusedPrior := by decide
  have hone : 1 ∈ fusedStory.members := by decide
  have hthree : 3 ∈ fusedStory.members := by decide
  exact delivered_stories_meet_strongly (by decide) {} (fun k => 100 + k) hstory
    ⟨_, first, rfl, rfl⟩ ⟨_, third, rfl, rfl⟩ hone hthree ⟨_, first, rfl, rfl⟩ ⟨_, third, rfl, rfl⟩

end Bulletin
