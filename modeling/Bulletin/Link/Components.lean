import Mathlib.Data.List.Sort
import Bulletin.Core.Buckets
import Bulletin.Core.DisjointSet
import Bulletin.Core.GuardedMerge
import Bulletin.Link.Model

/-! # Components under the asymmetric guard

Strong edges join anything. Weak edges follow, strongest first, and one is
skipped when it would join components that carry different delivered stories and
share none. `linked_eq` relates the two loops to the guarded merge of a partition.
-/

namespace Bulletin

open DisjointSet GuardedMerge

variable {n : Nat} {F : Type} [Score F]

/-! ## The prior assignment -/

/-- The prior story of each cluster; a later row for the same cluster wins. -/
def priorStory (prior : List PriorMember) : Std.ExtTreeMap Uuid Uuid compare :=
  Buckets.collect (·.clusterId) (fun _ p => p.storyId) prior ∅

def deliveredStories (prior : List PriorMember) : Finset Uuid :=
  ((prior.filter (·.delivered)).map (·.storyId)).toFinset

/-- The delivered prior story of a cluster as a set of at most one id. -/
def deliveredOf (prior : List PriorMember) (clusterId : Uuid) : Finset Uuid :=
  match (priorStory prior)[clusterId]? with
  | some s => if s ∈ deliveredStories prior then {s} else ∅
  | none => ∅

theorem mem_deliveredStories {prior : List PriorMember} {s : Uuid} :
    s ∈ deliveredStories prior ↔ ∃ p ∈ prior, p.delivered = true ∧ p.storyId = s := by
  simp [deliveredStories, and_assoc]

theorem mem_deliveredOf {prior : List PriorMember} {c s : Uuid} :
    s ∈ deliveredOf prior c ↔ (priorStory prior)[c]? = some s ∧ s ∈ deliveredStories prior := by
  unfold deliveredOf
  cases h : (priorStory prior)[c]? with
  | none => simp
  | some t =>
      by_cases ht : t ∈ deliveredStories prior
      · simp only [if_pos ht, Finset.mem_singleton, Option.some.injEq]
        constructor
        · intro hs
          exact ⟨hs.symm, hs ▸ ht⟩
        · intro hs
          exact hs.1.symm
      · simp only [if_neg ht, Finset.notMem_empty, Option.some.injEq, false_iff, not_and]
        intro hts
        rwa [← hts]

theorem priorStory_getElem? (prior : List PriorMember) (c : Uuid) :
    (priorStory prior)[c]? =
      ((prior.filter fun p => p.clusterId = c).getLast?).map (·.storyId) := by
  rw [priorStory, Buckets.collect_getElem?]
  exact Buckets.gather_overwrite _ _

theorem priorStory_mem {prior : List PriorMember} {c s : Uuid}
    (h : (priorStory prior)[c]? = some s) : ∃ p ∈ prior, p.clusterId = c ∧ p.storyId = s := by
  rw [priorStory_getElem?, Option.map_eq_some_iff] at h
  obtain ⟨p, hp, hs⟩ := h
  have hmem := List.mem_filter.mp (List.mem_of_getLast? hp)
  exact ⟨p, hmem.1, by simpa using hmem.2, hs⟩

theorem priorStory_isSome {prior : List PriorMember} {c : Uuid} :
    (priorStory prior)[c]?.isSome ↔ ∃ p ∈ prior, p.clusterId = c := by
  rw [priorStory, Buckets.collect_getElem?, Buckets.gather_isSome]
  simp

/-! ## The forest -/

/-- The forest over cluster indices, each root carrying the delivered prior
stories of its component. -/
abbrev UnionFind (n : Nat) := Forest (Fin n) (Finset Uuid)

/-- Whether joining `a` and `b` would merge two different delivered stories. The
two searches halve paths, so the forest comes back too. -/
def mergesDistinctDelivered (uf : UnionFind n) (a b : Fin n) : Bool × UnionFind n :=
  let ra := uf.find a
  let rb := ra.2.find b
  if ra.1 = rb.1 then (false, rb.2)
  else
    let da := rb.2.payload ra.1
    let db := rb.2.payload rb.1
    (da ≠ ∅ ∧ db ≠ ∅ ∧ Disjoint da db, rb.2)

def strongStep (uf : UnionFind n) (e : Edge n F) : UnionFind n := uf.union e.a e.b

/-- A weak edge joins unless the guard refuses it. -/
def weakStep (uf : UnionFind n) (e : Edge n F) : UnionFind n :=
  let guard := mergesDistinctDelivered uf e.a e.b
  if guard.1 then guard.2 else guard.2.union e.a e.b

def weakOrder (x y : Edge n F) : Ordering :=
  ((Score.partialCmp y.score x.score).getD .eq).then
    (compare (toLex (x.a, x.b)) (toLex (y.a, y.b)))

def weakEdges (edges : List (Edge n F)) : List (Edge n F) :=
  (edges.filter fun e => !e.strong).insertionSort fun x y => weakOrder x y ≠ .gt

theorem mem_weakEdges {edges : List (Edge n F)} {e : Edge n F} :
    e ∈ weakEdges edges ↔ e ∈ edges ∧ e.strong = false := by
  simp [weakEdges, List.mem_insertionSort]

def strongEdges (edges : List (Edge n F)) : List (Edge n F) := edges.filter (·.strong)

section Components

variable (clusters : Fin n → LinkCluster) (edges : List (Edge n F)) (prior : List PriorMember)

def unionFind : UnionFind n :=
  let start : UnionFind n := Forest.init fun i => deliveredOf prior (clusters i).id
  (weakEdges edges).foldl weakStep ((strongEdges edges).foldl strongStep start)

def Members.push (entry : Option (Members n)) (i : Fin n) : Members n :=
  match entry with
  | none => ⟨[i], by simp⟩
  | some ms => ⟨ms.toList ++ [i], by simp⟩

def Members.sorted (ms : Members n) : Members n :=
  ⟨ms.toList.insertionSort (· ≤ ·), by
    intro h
    have hlen := congrArg List.length h
    rw [List.length_insertionSort, List.length_nil, List.length_eq_zero_iff] at hlen
    exact ms.nonempty hlen⟩

/-- File every index under the root its search returns. -/
def collectComponents (uf : UnionFind n) : List (Fin n) → Components n → Components n
  | [], comps => comps
  | i :: rest, comps =>
      let r := uf.find i
      collectComponents r.2 rest (comps.alter r.1 fun entry => some (Members.push entry i))

/-- The connected components, as a map from root to members. -/
def components : Components n :=
  (collectComponents (unionFind clusters edges prior) (List.finRange n) ∅).map
    fun _ ms => ms.sorted

end Components

/-! ## Refinement of the guarded merge -/

/-- The delivered prior story of the cluster at an index, as a label of that index. -/
def deliveredLabel (clusters : Fin n → LinkCluster) (prior : List PriorMember) (i : Fin n) :
    Set Uuid := ↑(deliveredOf prior (clusters i).id)

def Edge.ends (e : Edge n F) : Fin n × Fin n := (e.a, e.b)

def stronglyLinked (edges : List (Edge n F)) : Setoid (Fin n) :=
  joinAll ((strongEdges edges).map Edge.ends) ⊥

/-- Two indices end in one component. -/
def linked (clusters : Fin n → LinkCluster) (edges : List (Edge n F)) (prior : List PriorMember) :
    Setoid (Fin n) := (unionFind clusters edges prior).classes

theorem classes_union (uf : UnionFind n) (a b : Fin n) :
    (uf.union a b).classes = join uf.classes a b := by
  ext x y
  exact uf.union_same a b x y

theorem carried_classes {uf : UnionFind n} {load : Fin n → Finset Uuid} (h : uf.Carries load)
    (a : Fin n) :
    carried (fun i => (load i : Set Uuid)) uf.classes a = ↑(uf.payload (uf.root a)) := by
  ext s
  rw [h a]
  simp [carried, Finset.mem_sup, Forest.classes_iff, Forest.Same]

theorem mergesDistinctDelivered_snd (uf : UnionFind n) (a b : Fin n) :
    (mergesDistinctDelivered uf a b).2 = ((uf.find a).2.find b).2 := by
  unfold mergesDistinctDelivered
  dsimp only
  split <;> rfl

theorem mergesDistinctDelivered_fst {uf : UnionFind n} {load : Fin n → Finset Uuid}
    (h : uf.Carries load) (a b : Fin n) :
    (mergesDistinctDelivered uf a b).1 = true ↔
      Blocked (fun i => (load i : Set Uuid)) uf.classes a b := by
  unfold Blocked
  rw [carried_classes h, carried_classes h]
  unfold mergesDistinctDelivered
  simp only [Forest.find_fst, Forest.find_root, Forest.find_payload]
  by_cases hab : uf.root a = uf.root b
  · simp only [if_pos hab, Bool.false_eq_true, false_iff]
    rintro ⟨⟨s, hs⟩, _, hd⟩
    rw [← hab] at hd
    exact Set.disjoint_left.mp hd hs hs
  · simp [if_neg hab, Finset.nonempty_iff_ne_empty]

omit [Score F] in
theorem foldl_strongStep (load : Fin n → Finset Uuid) (es : List (Edge n F)) {uf : UnionFind n}
    (h : uf.Carries load) :
    (es.foldl strongStep uf).classes = joinAll (es.map Edge.ends) uf.classes ∧
      (es.foldl strongStep uf).Carries load := by
  induction es generalizing uf with
  | nil => exact ⟨rfl, h⟩
  | cons e es ih =>
      have hstep := ih (Forest.union_carries h e.a e.b)
      rw [classes_union] at hstep
      exact hstep

omit [Score F] in
theorem weakStep_spec {load : Fin n → Finset Uuid} {uf : UnionFind n} (h : uf.Carries load)
    (e : Edge n F) :
    (weakStep uf e).classes = guardedJoin (fun i => (load i : Set Uuid)) uf.classes e.a e.b ∧
      (weakStep uf e).Carries load := by
  have hguard := mergesDistinctDelivered_fst h e.a e.b
  have hafter : (mergesDistinctDelivered uf e.a e.b).2.Carries load := by
    rw [mergesDistinctDelivered_snd]
    exact Forest.find_carries (Forest.find_carries h _) _
  have hclasses : (mergesDistinctDelivered uf e.a e.b).2.classes = uf.classes := by
    rw [mergesDistinctDelivered_snd]
    unfold Forest.classes
    rw [Forest.find_root, Forest.find_root]
  unfold weakStep
  dsimp only
  by_cases hb : Blocked (fun i => (load i : Set Uuid)) uf.classes e.a e.b
  · rw [if_pos (hguard.mpr hb), guardedJoin_of_blocked hb]
    exact ⟨hclasses, hafter⟩
  · rw [if_neg (mt hguard.mp hb), guardedJoin_of_not_blocked hb, classes_union, hclasses]
    exact ⟨rfl, Forest.union_carries hafter _ _⟩

omit [Score F] in
theorem foldl_weakStep (load : Fin n → Finset Uuid) (es : List (Edge n F)) {uf : UnionFind n}
    (h : uf.Carries load) :
    (es.foldl weakStep uf).classes =
      guardedMerge (fun i => (load i : Set Uuid)) (es.map Edge.ends) uf.classes := by
  induction es generalizing uf with
  | nil => rfl
  | cons e es ih =>
      obtain ⟨hclasses, hcarries⟩ := weakStep_spec h e
      rw [List.foldl_cons, ih hcarries, hclasses]
      rfl

theorem linked_eq (clusters : Fin n → LinkCluster) (edges : List (Edge n F))
    (prior : List PriorMember) :
    linked clusters edges prior =
      guardedMerge (deliveredLabel clusters prior) ((weakEdges edges).map Edge.ends)
        (stronglyLinked edges) := by
  have hinit := Forest.init_carries fun i => deliveredOf prior (clusters i).id
  obtain ⟨hstrong, hcarries⟩ := foldl_strongStep _ (strongEdges edges) hinit
  have hbot : (Forest.init fun i => deliveredOf prior (clusters i).id).classes = ⊥ := by
    ext x y
    rw [Forest.classes_iff]
    unfold Forest.Same
    rw [Forest.init_root, Forest.init_root]
    rfl
  rw [hbot] at hstrong
  unfold linked unionFind
  dsimp only
  rw [foldl_weakStep _ _ hcarries, hstrong]
  rfl

/-! ## The component map -/

theorem collectComponents_eq (uf : UnionFind n) (is : List (Fin n)) (comps : Components n) :
    collectComponents uf is comps = Buckets.collect uf.root Members.push is comps := by
  induction is generalizing uf comps with
  | nil => rfl
  | cons i is ih =>
      have hfind := Forest.find_fst uf i
      have hroot := Forest.find_root uf i
      simp only [collectComponents, ih, hfind, hroot]
      rfl

theorem gather_push_toList (is : List (Fin n)) (entry : Option (Members n)) (ms : Members n)
    (h : Buckets.gather Members.push is entry = some ms) :
    ms.toList = ((entry.map (·.toList)).getD []) ++ is := by
  induction is generalizing entry with
  | nil => simp [show entry = some ms from h]
  | cons i is ih =>
      rw [ih _ h]
      cases entry with
      | none => simp [Members.push]
      | some old => simp [Members.push]

theorem sorted_filter_finRange (p : Fin n → Bool) :
    ((List.finRange n).filter p).insertionSort (· ≤ ·) = (List.finRange n).filter p := by
  have hpairs : (List.finRange n).Pairwise (· ≤ ·) :=
    (List.pairwise_lt_finRange n).imp fun h => le_of_lt h
  exact (hpairs.filter p).insertionSort_eq

/-- A component is the list of all indices of its root, and each root of an index has one. -/
theorem components_getElem? (clusters : Fin n → LinkCluster) (edges : List (Edge n F))
    (prior : List PriorMember) (r : Fin n) (ms : Members n) :
    (components clusters edges prior)[r]? = some ms ↔
      ms.toList = (List.finRange n).filter fun i =>
        (unionFind clusters edges prior).root i = r := by
  unfold components
  rw [Std.ExtTreeMap.getElem?_map, collectComponents_eq, Buckets.collect_getElem?,
    Std.ExtTreeMap.getElem?_empty]
  cases h : Buckets.gather Members.push
      ((List.finRange n).filter fun i => (unionFind clusters edges prior).root i = r) none with
  | none =>
      have hempty : ((List.finRange n).filter fun i =>
          (unionFind clusters edges prior).root i = r) = [] := by
        by_contra hne
        have hsome := (Buckets.gather_isSome Members.push _ none).mpr (Or.inl hne)
        rw [h] at hsome
        cases hsome
      rw [hempty]
      simpa using ms.nonempty
  | some all =>
      have hall := gather_push_toList _ none all h
      simp only [Option.map_none, Option.getD_none, List.nil_append] at hall
      have hsorted : all.sorted.toList = all.toList := by
        show all.toList.insertionSort (· ≤ ·) = all.toList
        rw [hall]
        exact sorted_filter_finRange _
      rw [Option.map_some, Option.some.injEq, ← hall, ← hsorted]
      constructor
      · intro heq
        rw [heq]
      · intro heq
        cases ms
        cases hs : all.sorted
        rw [hs] at heq
        cases heq
        rfl

/-- The components are the classes of a partition, each listed once. -/
structure Components.Splits (components : Components n) (r : Setoid (Fin n)) : Prop where
  same : ∀ entry ∈ components.toList, ∀ i ∈ entry.2.toList, ∀ j, j ∈ entry.2.toList ↔ r i j
  partitions : components.Partitions

theorem components_splits (clusters : Fin n → LinkCluster) (edges : List (Edge n F))
    (prior : List PriorMember) :
    (components clusters edges prior).Splits (linked clusters edges prior) := by
  have hmem : ∀ entry ∈ (components clusters edges prior).toList, ∀ i,
      i ∈ entry.2.toList ↔ (unionFind clusters edges prior).root i = entry.1 := by
    intro entry hentry i
    have hget := Std.ExtTreeMap.mem_toList_iff_getElem?_eq_some.mp hentry
    rw [(components_getElem? clusters edges prior entry.1 entry.2).mp hget]
    simp
  have hnodup : ∀ entry ∈ (components clusters edges prior).toList, entry.2.toList.Nodup := by
    intro entry hentry
    have hget := Std.ExtTreeMap.mem_toList_iff_getElem?_eq_some.mp hentry
    rw [(components_getElem? clusters edges prior entry.1 entry.2).mp hget]
    exact (List.nodup_finRange n).filter _
  constructor
  · intro entry hentry i hi j
    rw [hmem entry hentry] at hi ⊢
    show _ ↔ (unionFind clusters edges prior).root i = (unionFind clusters edges prior).root j
    rw [hi, eq_comm]
  · refine (List.perm_ext_iff_of_nodup ?_ (List.nodup_finRange n)).mpr ?_
    · refine List.nodup_flatMap.mpr ⟨hnodup, ?_⟩
      refine (Std.ExtTreeMap.distinct_keys_toList).imp_of_mem ?_
      intro x y hx hy hne i hix hiy
      rw [hmem x hx] at hix
      rw [hmem y hy] at hiy
      exact hne (by rw [← hix, ← hiy]; exact Std.ReflCmp.compare_self)
    · intro i
      simp only [List.mem_flatMap, List.mem_finRange, iff_true]
      have hroot : (List.finRange n).filter (fun j => (unionFind clusters edges prior).root j =
          (unionFind clusters edges prior).root i) ≠ [] := by
        refine List.ne_nil_of_mem (a := i) ?_
        simp
      have hget := (components_getElem? clusters edges prior _ ⟨_, hroot⟩).mpr rfl
      refine ⟨_, Std.ExtTreeMap.mem_toList_iff_getElem?_eq_some.mpr hget, ?_⟩
      simp

end Bulletin
