import Mathlib.Data.List.Destutter
import Mathlib.Data.Prod.Lex
import Mathlib.Data.String.Basic
import Bulletin.Core.Buckets
import Bulletin.Core.Sweep
import Bulletin.Thread.Model

/-! # Communities

A maintenance pass finds its candidate threads as the communities of a co-occurrence graph. Each
node takes over the label that weighs most among its neighbours, in place and in the order of the
nodes, so a label can travel far in one sweep.
-/

namespace Bulletin

open Sweep

/-! ## The graph -/

/-- Nodes and weighted undirected edges, as their maps list them. -/
structure CoGraph (F : Type) where
  nodes : List String
  edges : List ((String × String) × F)

abbrev Labels := Std.ExtTreeMap String String compare

section Graph

variable {F : Type}

def CoGraph.halfEdges (graph : CoGraph F) : List (String × String × F) :=
  graph.edges.flatMap fun e => [(e.1.1, e.1.2, e.2), (e.1.2, e.1.1, e.2)]

/-- The nodes, and the ends of edges that are no nodes. -/
def CoGraph.vertices (graph : CoGraph F) : List String :=
  graph.nodes ++ graph.halfEdges.map (·.1)

/-- The other ends of a node's edges, with the weights. -/
def CoGraph.neighbors (graph : CoGraph F) (n : String) : List (String × F) :=
  (graph.halfEdges.filter (·.1 = n)).map (·.2)

def CoGraph.Adjacent (graph : CoGraph F) (a b : String) : Prop :=
  ∃ w, (b, w) ∈ graph.neighbors a

def CoGraph.Connected (graph : CoGraph F) : String → String → Prop :=
  Relation.ReflTransGen graph.Adjacent

def seedLabels (graph : CoGraph F) : Labels :=
  Buckets.collect id (fun entry n => entry.getD n) graph.vertices ∅

def adjacency (graph : CoGraph F) : Std.ExtTreeMap String (List (String × F)) compare :=
  Buckets.collect (·.1) (fun entry e => entry.getD [] ++ [e.2]) graph.halfEdges ∅

end Graph

/-! ## Co-occurrence -/

structure CoOccurrenceItem where
  entities : List String
  time : DateTime

def spineOf (entities : List String) : List String :=
  entities.insertionSort (· ≤ ·) |>.destutter (· ≠ ·)

section CoOccurrence

variable {F : Type} [SelectScore F]

def cliqueEdges (weight : F) : List String → List ((String ×ₗ String) × F)
  | [] => []
  | a :: rest => rest.map (fun b => (toLex (a, b), weight)) ++ cliqueEdges weight rest

/-- Each item adds a clique over its tokens; older ones weigh less. -/
def coOccurrence (items : List CoOccurrenceItem) (now : DateTime) (halfLife : Int) : CoGraph F :=
  let recency (item : CoOccurrenceItem) : F :=
    SelectScore.narrow (SelectScore.powHalf (Score.lit (max (numSeconds (now - item.time)) 0) /
      Score.lit (max (numSeconds halfLife) 1)))
  let edges : Std.ExtTreeMap (String ×ₗ String) F compare :=
    Buckets.collect (·.1) (fun entry e => entry.getD (Score.lit 0) + e.2)
      (items.flatMap fun item => cliqueEdges (recency item) (spineOf item.entities)) ∅
  { nodes := spineOf (items.flatMap (·.entities))
    edges := edges.toList.map fun e => (ofLex e.1, e.2) }

end CoOccurrence

/-! ## Label propagation -/

section Propagation

variable {F : Type} [Score F]

/-- What a node's own label weighs; small, to break ties only. -/
def selfWeight : F := Score.lit (1 / 1000)

/-- The label of the node and those of its neighbours, each with what it weighs. `none` is a
panic. -/
def votes (label : Labels) (n : String) (neighbors : List (String × F)) :
    Option (List (String × F)) :=
  label[n]?.bind fun own =>
    (neighbors.mapM fun nb => label[nb.1]?.map fun lbl => (lbl, nb.2)).map fun cast =>
      (own, selfWeight) :: cast

def tally (cast : List (String × F)) : Std.ExtTreeMap String F compare :=
  Buckets.collect (·.1) (fun entry vote => entry.getD (Score.lit 0) + vote.2) cast ∅

/-- A node takes over the label that weighs most; a node without edges keeps its own. -/
def adopt (adj : Std.ExtTreeMap String (List (String × F)) compare) (label : Labels) (n : String) :
    Option (Labels × Bool) :=
  match adj[n]? with
  | none => some (label, false)
  | some neighbors =>
      (votes label n neighbors).bind fun cast =>
        match firstBest Score.ge (tally cast).toList with
        | none => some (label, false)
        | some best => label[n]?.map fun own =>
            if own ≠ best.1 then (label.insert n best.1, true) else (label, false)

/-- The sweeps over the nodes, and whether one that changed nothing was the last. -/
def propagate (graph : CoGraph F) (maxIters : Nat) : Option (Labels × Bool) :=
  settle (adopt (adjacency graph)) (seedLabels graph).keys maxIters (seedLabels graph)

def labelPropagation (graph : CoGraph F) (maxIters : Nat) : Option Labels :=
  (propagate graph maxIters).map (·.1)

end Propagation

/-- The nodes of each label, ascending, where these are enough. -/
def communitiesToCandidates (labels : Labels) (minSize : Nat) : List (List String) :=
  let byLabel : Std.ExtTreeMap String (List String) compare :=
    Buckets.collect (·.2) (fun entry node => entry.getD [] ++ [node.1]) labels.toList ∅
  (byLabel.toList.map (·.2)).filter fun members => minSize ≤ members.length

/-! ## What a node sees -/

section Sees

variable {F : Type} {graph : CoGraph F} {a b n : String}

theorem CoGraph.mem_neighbors {w : F} : (b, w) ∈ graph.neighbors a ↔
    ((a, b), w) ∈ graph.edges ∨ ((b, a), w) ∈ graph.edges := by
  unfold CoGraph.neighbors CoGraph.halfEdges
  simp only [List.mem_map, List.mem_filter, List.mem_flatMap, decide_eq_true_eq]
  constructor
  · rintro ⟨half, ⟨⟨e, he, hhalf⟩, rfl⟩, heq⟩
    rcases List.mem_pair.mp hhalf with rfl | rfl
    · obtain ⟨rfl, rfl⟩ := Prod.mk.inj heq
      exact Or.inl he
    · obtain ⟨rfl, rfl⟩ := Prod.mk.inj heq
      exact Or.inr he
  · rintro (he | he)
    · exact ⟨(a, b, w), ⟨⟨_, he, List.mem_cons_self⟩, rfl⟩, rfl⟩
    · exact ⟨(a, b, w), ⟨⟨_, he, List.mem_cons_of_mem _ List.mem_cons_self⟩, rfl⟩, rfl⟩

theorem CoGraph.Adjacent.symm (h : graph.Adjacent a b) : graph.Adjacent b a := by
  obtain ⟨w, hw⟩ := h
  exact ⟨w, CoGraph.mem_neighbors.mpr (CoGraph.mem_neighbors.mp hw).symm⟩

theorem CoGraph.Connected.symm (h : graph.Connected a b) : graph.Connected b a := by
  induction h with
  | refl => exact Relation.ReflTransGen.refl
  | tail _ hstep ih => exact Relation.ReflTransGen.head hstep.symm ih

theorem CoGraph.Adjacent.mem_vertices (h : graph.Adjacent a b) : b ∈ graph.vertices := by
  obtain ⟨w, hw⟩ := h.symm
  obtain ⟨half, hhalf, _⟩ := List.mem_map.mp hw
  obtain ⟨hin, hfrom⟩ := List.mem_filter.mp hhalf
  exact List.mem_append_right _ (List.mem_map.mpr ⟨half, hin, of_decide_eq_true hfrom⟩)

theorem CoGraph.Connected.mem_vertices (h : graph.Connected a b) (ha : a ∈ graph.vertices) :
    b ∈ graph.vertices := by
  rcases Relation.ReflTransGen.cases_tail h with rfl | ⟨c, _, hc⟩
  · exact ha
  · exact hc.mem_vertices

theorem adjacency_getElem? : (adjacency graph)[n]? =
    if graph.neighbors n = [] then none else some (graph.neighbors n) := by
  unfold adjacency CoGraph.neighbors
  rw [Buckets.collect_push (·.1) fun e : String × String × F => e.2]

theorem seedLabels_getElem? :
    (seedLabels graph)[n]? = if n ∈ graph.vertices then some n else none := by
  have hkeep : ∀ (xs : List String) (y : String),
      Buckets.gather (fun entry n => entry.getD n) xs (some y) = some y := by
    intro xs
    induction xs with
    | nil => exact fun _ => rfl
    | cons x xs ih => exact fun y => ih y
  unfold seedLabels
  rw [Buckets.collect_getElem?, Std.ExtTreeMap.getElem?_empty]
  cases hsame : graph.vertices.filter fun x => id x = n with
  | nil =>
      have hnot : n ∉ graph.vertices := fun hin =>
        List.filter_eq_nil_iff.mp hsame n hin (by simp)
      rw [if_neg hnot]
      rfl
  | cons x xs =>
      have hx : x ∈ graph.vertices.filter fun x => id x = n := by
        rw [hsame]
        exact List.mem_cons_self
      obtain ⟨hin, hxn⟩ := List.mem_filter.mp hx
      obtain rfl : x = n := of_decide_eq_true hxn
      rw [if_pos hin]
      exact hkeep xs x

end Sees

/-! ## Votes -/

section Votes

variable {F : Type} [LinearOrder F] [ExactScore F] {label : Labels} {n l : String}
  {neighbors cast : List (String × F)}

def weightOf (cast : List (String × F)) (l : String) : F :=
  ((cast.filter (·.1 = l)).map (·.2)).foldl (· + ·) (Score.lit 0)

theorem tally_getElem? : (tally cast)[l]? =
    if l ∈ cast.map (·.1) then some (weightOf cast l) else none := by
  have hfold : ∀ (xs : List (String × F)) (entry : Option F),
      (Buckets.gather (fun entry vote => entry.getD (Score.lit 0) + vote.2) xs entry).getD
        (Score.lit 0) = (xs.map (·.2)).foldl (· + ·) (entry.getD (Score.lit 0)) := by
    intro xs
    induction xs with
    | nil => exact fun _ => rfl
    | cons x xs ih => exact fun entry => ih _
  have hmem : cast.filter (·.1 = l) = [] ↔ l ∉ cast.map (·.1) := by
    simp only [List.filter_eq_nil_iff, decide_eq_true_eq, List.mem_map, not_exists, not_and]
  unfold tally weightOf
  rw [Buckets.collect_empty _ _ _ _ (Score.lit 0), hfold]
  simp only [hmem, ite_not]
  rfl

/-- The label that is taken over weighs most, and is the smallest of those that do. -/
theorem firstBest_tally (hne : cast ≠ []) :
    ∃ best, firstBest Score.ge (tally cast).toList = some best ∧
    best.1 ∈ cast.map (·.1) ∧ ∀ vote ∈ cast, weightOf cast vote.1 ≤ weightOf cast best.1 ∧
      (weightOf cast vote.1 = weightOf cast best.1 → best.1 ≤ vote.1) := by
  have hentry : ∀ e, e ∈ (tally cast).toList ↔ e.1 ∈ cast.map (·.1) ∧ e.2 = weightOf cast e.1 := by
    intro e
    rw [Std.ExtTreeMap.mem_toList_iff_getElem?_eq_some, tally_getElem?]
    split
    · rename_i hin
      simp [hin, eq_comm]
    · rename_i hout
      simp [hout]
  have hsorted : (tally cast).toList.Pairwise fun x y => compare x.1 y.1 = .lt :=
    Std.ExtTreeMap.ordered_keys_toList
  have hfull : (tally cast).toList ≠ [] := by
    obtain ⟨vote, hvote⟩ := List.exists_mem_of_ne_nil _ hne
    have hkey : vote.1 ∈ cast.map (·.1) := List.mem_map_of_mem hvote
    exact List.ne_nil_of_mem ((hentry (vote.1, weightOf cast vote.1)).mpr ⟨hkey, rfl⟩)
  obtain ⟨best, hbest, hmem, hgreatest⟩ :=
    firstBest_spec (fun x y => Score.ge_iff) (hsorted.imp fun h => compare_lt_iff_lt.mp h) hfull
  obtain ⟨hin, hweight⟩ := (hentry best).mp hmem
  refine ⟨best, hbest, hin, fun vote hvote => ?_⟩
  have hkey : vote.1 ∈ cast.map (·.1) := List.mem_map_of_mem hvote
  have hvotes := hgreatest (vote.1, weightOf cast vote.1) ((hentry _).mpr ⟨hkey, rfl⟩)
  rwa [hweight] at hvotes

/-- Where every label is there, the node votes for its own and each neighbour for its. -/
theorem votes_spec {own : String} (hown : label[n]? = some own)
    (hneighbors : ∀ nb ∈ neighbors, ∃ l, label[nb.1]? = some l) :
    ∃ cast, votes label n neighbors = some ((own, selfWeight) :: cast) ∧
      ∀ vote ∈ cast, ∃ nb ∈ neighbors, label[nb.1]? = some vote.1 := by
  have hcast : ∃ cast : List (String × F),
      neighbors.mapM (fun nb => label[nb.1]?.map fun lbl => (lbl, nb.2)) = some cast ∧
        ∀ vote ∈ cast, ∃ nb ∈ neighbors, label[nb.1]? = some vote.1 := by
    induction neighbors with
    | nil => exact ⟨[], rfl, by simp⟩
    | cons nb rest ih =>
        obtain ⟨l, hl⟩ := hneighbors nb List.mem_cons_self
        obtain ⟨cast, hcast, hfrom⟩ := ih fun x hx => hneighbors x (List.mem_cons_of_mem nb hx)
        refine ⟨(l, nb.2) :: cast, ?_, List.forall_mem_cons.mpr ⟨?_, ?_⟩⟩
        · rw [List.mapM_cons, hl, hcast]
          rfl
        · exact ⟨nb, List.mem_cons_self, hl⟩
        · intro vote hvote
          obtain ⟨x, hx, hlabel⟩ := hfrom vote hvote
          exact ⟨x, List.mem_cons_of_mem nb hx, hlabel⟩
  obtain ⟨cast, hcast, hfrom⟩ := hcast
  refine ⟨cast, ?_, hfrom⟩
  unfold votes
  rw [hown, Option.bind_some, hcast]
  rfl

end Votes

/-! ## The invariant of the sweeps -/

/-- Exactly the vertices have a label; it is one of their own component, and their own where they
have no edges. -/
structure Labelled {F : Type} (graph : CoGraph F) (label : Labels) : Prop where
  present : ∀ n, (∃ l, label[n]? = some l) ↔ n ∈ graph.vertices
  near : ∀ n l, label[n]? = some l → graph.Connected n l
  alone : ∀ n ∈ graph.vertices, graph.neighbors n = [] → label[n]? = some n

section Labelled

variable {F : Type} [LinearOrder F] [ExactScore F] {graph : CoGraph F} {label label' : Labels}
  {n : String}

omit [LinearOrder F] [ExactScore F] in
theorem labelled_seedLabels : Labelled graph (seedLabels graph) where
  present n := by simp [seedLabels_getElem?]
  near n l h := by
    rw [seedLabels_getElem?] at h
    split at h
    · obtain rfl := Option.some.inj h
      exact Relation.ReflTransGen.refl
    · cases h
  alone n hn _ := by rw [seedLabels_getElem?, if_pos hn]

theorem adopt_spec (h : Labelled graph label) (hn : n ∈ graph.vertices) :
    ∃ own cast best, label[n]? = some own ∧ votes label n (graph.neighbors n) = some cast ∧
      (best = own ∨ ∃ nb ∈ graph.neighbors n, label[nb.1]? = some best) ∧
      (∀ vote ∈ cast, weightOf cast vote.1 ≤ weightOf cast best ∧
        (weightOf cast vote.1 = weightOf cast best → best ≤ vote.1)) ∧
      adopt (adjacency graph) label n =
        some (if own ≠ best then (label.insert n best, true) else (label, false)) := by
  obtain ⟨own, hown⟩ := (h.present n).mpr hn
  have hneighbors : ∀ nb ∈ graph.neighbors n, ∃ l, label[nb.1]? = some l := fun nb hnb =>
    (h.present nb.1).mpr (CoGraph.Adjacent.mem_vertices ⟨nb.2, hnb⟩)
  obtain ⟨cast, hvotes, hfrom⟩ := votes_spec hown hneighbors
  by_cases hnone : graph.neighbors n = []
  · have hcast : cast = [] := by
      refine List.eq_nil_iff_forall_not_mem.mpr fun vote hvote => ?_
      obtain ⟨nb, hnb, _⟩ := hfrom vote hvote
      simp [hnone] at hnb
    subst hcast
    refine ⟨own, _, own, hown, hvotes, Or.inl rfl, by simp, ?_⟩
    unfold adopt
    rw [adjacency_getElem?, if_pos hnone, if_neg (not_not_intro rfl)]
  · obtain ⟨best, hbest, hin, hgreatest⟩ :=
      firstBest_tally (List.cons_ne_nil (own, selfWeight) cast)
    refine ⟨own, _, best.1, hown, hvotes, ?_, hgreatest, ?_⟩
    · obtain ⟨vote, hvote, heq⟩ := List.mem_map.mp hin
      rcases List.mem_cons.mp hvote with rfl | hvote
      · exact Or.inl heq.symm
      · exact Or.inr (heq ▸ hfrom vote hvote)
    · unfold adopt
      rw [adjacency_getElem?, if_neg hnone]
      dsimp only
      rw [hvotes, Option.bind_some, hbest]
      dsimp only
      rw [hown]
      rfl

omit [LinearOrder F] [ExactScore F] in
theorem labelled_insert {best : String} (h : Labelled graph label) (hn : n ∈ graph.vertices)
    (hsome : graph.neighbors n ≠ []) (hbest : graph.Connected n best) :
    Labelled graph (label.insert n best) where
  present m := by
    rw [Std.ExtTreeMap.getElem?_insert]
    by_cases hm : n = m
    · subst hm
      simpa using hn
    · simpa [hm] using h.present m
  near m l hl := by
    rw [Std.ExtTreeMap.getElem?_insert] at hl
    split at hl
    · rename_i hm
      obtain rfl := Std.LawfulEqCmp.eq_of_compare hm
      obtain rfl := Option.some.inj hl
      exact hbest
    · exact h.near m l hl
  alone m hm hnone := by
    have hne : ¬ compare n m = .eq := fun heq =>
      hsome (Std.LawfulEqCmp.eq_of_compare heq ▸ hnone)
    rw [Std.ExtTreeMap.getElem?_insert, if_neg hne]
    exact h.alone m hm hnone

theorem adopt_labelled (h : Labelled graph label) (hn : n ∈ graph.vertices) :
    ∃ label' changed, adopt (adjacency graph) label n = some (label', changed) ∧
      Labelled graph label' := by
  obtain ⟨own, cast, best, hown, _, hseen, _, hadopt⟩ := adopt_spec h hn
  rw [hadopt]
  by_cases hchange : own ≠ best
  · rw [if_pos hchange]
    refine ⟨_, _, rfl, ?_⟩
    obtain ⟨nb, hnb, hlabel⟩ := hseen.resolve_left hchange.symm
    have hstep : graph.Adjacent n nb.1 := ⟨nb.2, hnb⟩
    exact labelled_insert h hn (List.ne_nil_of_mem hnb)
      (Relation.ReflTransGen.head hstep (h.near nb.1 best hlabel))
  · rw [if_neg hchange]
    exact ⟨_, _, rfl, h⟩

theorem adopt_unchanged {adj : Std.ExtTreeMap String (List (String × F)) compare}
    (h : adopt adj label n = some (label', false)) : label' = label := by
  unfold adopt at h
  split at h
  · exact (Prod.mk.inj (Option.some.inj h)).1.symm
  · obtain ⟨cast, _, h⟩ := Option.bind_eq_some_iff.mp h
    split at h
    · exact (Prod.mk.inj (Option.some.inj h)).1.symm
    · obtain ⟨own, _, h⟩ := Option.map_eq_some_iff.mp h
      split at h
      · cases (Prod.mk.inj h).2
      · exact (Prod.mk.inj h).1.symm

end Labelled

/-! ## Candidates -/

def community (labels : Labels) (l : String) : List String :=
  (labels.toList.filter (·.2 = l)).map (·.1)

section Candidates

variable {labels : Labels} {minSize : Nat} {n l : String}

theorem mem_community : n ∈ community labels l ↔ labels[n]? = some l := by
  unfold community
  simp only [List.mem_map, List.mem_filter, decide_eq_true_eq]
  constructor
  · rintro ⟨entry, ⟨hentry, rfl⟩, rfl⟩
    exact Std.ExtTreeMap.mem_toList_iff_getElem?_eq_some.mp hentry
  · intro h
    exact ⟨(n, l), ⟨Std.ExtTreeMap.mem_toList_iff_getElem?_eq_some.mpr h, rfl⟩, rfl⟩

theorem nodup_community : (community labels l).Nodup := by
  have hkeys : (labels.toList.map (·.1)).Nodup := by
    rw [Std.ExtTreeMap.map_fst_toList_eq_keys]
    exact Std.ExtTreeMap.nodup_keys
  exact hkeys.sublist (List.filter_sublist.map _)

theorem candidates_spec : ∃ large : List String, large.Nodup ∧
    communitiesToCandidates labels minSize = large.map (community labels) ∧
    ∀ l, l ∈ large ↔ community labels l ≠ [] ∧ minSize ≤ (community labels l).length := by
  let byLabel : Std.ExtTreeMap String (List String) compare :=
    Buckets.collect (·.2) (fun entry node => entry.getD [] ++ [node.1]) labels.toList ∅
  have hentry : ∀ l, byLabel[l]? =
      if community labels l = [] then none else some (community labels l) := by
    intro l
    unfold community byLabel
    rw [Buckets.collect_push (·.2) fun node : String × String => node.1]
  have hmembers : ∀ e ∈ byLabel.toList, e.2 = community labels e.1 := by
    intro e he
    have hget := Std.ExtTreeMap.mem_toList_iff_getElem?_eq_some.mp he
    rw [hentry] at hget
    split at hget
    · cases hget
    · exact (Option.some.inj hget).symm
  refine ⟨byLabel.keys.filter fun l => minSize ≤ (community labels l).length,
    Std.ExtTreeMap.nodup_keys.sublist List.filter_sublist, ?_, ?_⟩
  · have hvalues : byLabel.toList.map (·.2) = byLabel.keys.map (community labels) := by
      rw [← Std.ExtTreeMap.map_fst_toList_eq_keys, List.map_map]
      exact List.map_congr_left hmembers
    show (byLabel.toList.map (·.2)).filter (fun members => minSize ≤ members.length) = _
    rw [hvalues, List.filter_map]
    rfl
  · intro l
    have hkey : l ∈ byLabel.keys ↔ community labels l ≠ [] := by
      rw [Std.ExtTreeMap.mem_keys, ← Std.ExtTreeMap.isSome_getElem?_iff_mem, hentry]
      split <;> simp [*]
    rw [List.mem_filter, hkey, decide_eq_true_eq]

end Candidates

/-! ## Soundness -/

/-- Label propagation labels every vertex with a vertex of its component, and isolated ones
with themselves. Where it settles, each label weighs most among those its node sees and is
the smallest of these. The candidates are disjoint, large enough, and cover the nodes of the
large communities. -/
theorem communities_sound {F : Type} [LinearOrder F] [ExactScore F] (graph : CoGraph F)
    (maxIters : Nat) :
    (∃ (labels : Labels) (settled : Bool), propagate graph maxIters = some (labels, settled) ∧
      labelPropagation graph maxIters = some labels ∧
      (∀ n : String, (∃ l : String, labels[n]? = some l) ↔ n ∈ graph.vertices) ∧
      (∀ n l : String, labels[n]? = some l → l ∈ graph.vertices) ∧
      (∀ n m l : String, labels[n]? = some l → labels[m]? = some l → graph.Connected n m) ∧
      (∀ n ∈ graph.vertices, graph.neighbors n = [] → labels[n]? = some n) ∧
      (settled = true → ∀ n l : String, labels[n]? = some l →
        ∃ cast, votes labels n (graph.neighbors n) = some cast ∧
          ∀ vote ∈ cast, weightOf cast vote.1 ≤ weightOf cast l ∧
            (weightOf cast vote.1 = weightOf cast l → l ≤ vote.1))) ∧
    ∀ (labels : Labels) (minSize : Nat),
      (communitiesToCandidates labels minSize).Pairwise List.Disjoint ∧
      (∀ c ∈ communitiesToCandidates labels minSize, minSize ≤ c.length ∧ c.Nodup ∧
        ∃ l, ∀ n, n ∈ c ↔ labels[n]? = some l) ∧
      ∀ n, (∃ c ∈ communitiesToCandidates labels minSize, n ∈ c) ↔
        ∃ l, labels[n]? = some l ∧ minSize ≤ (community labels l).length := by
  have hseed : Labelled graph (seedLabels graph) := labelled_seedLabels
  have hkeys : ∀ n ∈ (seedLabels graph).keys, n ∈ graph.vertices := by
    intro n hn
    rw [Std.ExtTreeMap.mem_keys, ← Std.ExtTreeMap.isSome_getElem?_iff_mem, Option.isSome_iff_exists]
      at hn
    exact (hseed.present n).mp hn
  constructor
  · obtain ⟨labels, settled, hrun, h⟩ := settle_invariant (n := maxIters)
      (fun label n hn (hlabel : Labelled graph label) => adopt_labelled hlabel (hkeys n hn)) hseed
    have hvertex : ∀ {n l : String}, labels[n]? = some l → n ∈ graph.vertices := fun hl =>
      (h.present _).mp ⟨_, hl⟩
    have hlabels : labelPropagation graph maxIters = some labels := by
      rw [labelPropagation, propagate, hrun]
      rfl
    refine ⟨labels, settled, hrun, hlabels, h.present, ?_, ?_, h.alone, ?_⟩
    · exact fun n l hl => (h.near n l hl).mem_vertices (hvertex hl)
    · exact fun n m l hn hm => (h.near n l hn).trans (h.near m l hm).symm
    · rintro rfl n l hl
      obtain ⟨own, cast, best, hown, hvotes, _, hgreatest, hadopt⟩ := adopt_spec h (hvertex hl)
      have hn : n ∈ (seedLabels graph).keys := by
        rw [Std.ExtTreeMap.mem_keys, ← Std.ExtTreeMap.isSome_getElem?_iff_mem,
          seedLabels_getElem?, if_pos (hvertex hl)]
        rfl
      -- the last sweep visited the node and left its label
      have hstays := settle_settled (fun _ _ _ => adopt_unchanged) hrun n hn
      obtain rfl : own = l := Option.some.inj (hown.symm.trans hl)
      have hsame : own = best := by
        by_contra hchange
        rw [hadopt, if_pos hchange] at hstays
        cases (Prod.mk.inj (Option.some.inj hstays)).2
      exact ⟨cast, hvotes, hsame ▸ hgreatest⟩
  · intro labels minSize
    obtain ⟨large, hnodup, hcandidates, hlarge⟩ := @candidates_spec labels minSize
    rw [hcandidates]
    refine ⟨?_, ?_, ?_⟩
    · refine List.pairwise_map.mpr (hnodup.imp fun hne => ?_)
      intro n hn hm
      exact hne (Option.some.inj ((mem_community.mp hn).symm.trans (mem_community.mp hm)))
    · intro c hc
      obtain ⟨l, hl, rfl⟩ := List.mem_map.mp hc
      exact ⟨((hlarge l).mp hl).2, nodup_community, l, fun n => mem_community⟩
    · intro n
      constructor
      · rintro ⟨c, hc, hn⟩
        obtain ⟨l, hl, rfl⟩ := List.mem_map.mp hc
        exact ⟨l, mem_community.mp hn, ((hlarge l).mp hl).2⟩
      · rintro ⟨l, hn, hsize⟩
        have hin : n ∈ community labels l := mem_community.mpr hn
        have hl : l ∈ large := (hlarge l).mpr ⟨List.ne_nil_of_mem hin, hsize⟩
        exact ⟨_, List.mem_map_of_mem hl, hin⟩

example : ((labelPropagation (coOccurrence [⟨["a", "b", "c"], 100⟩, ⟨["x", "y", "z"], 100⟩] 100
    (daysInterval 30) : CoGraph ℚ) 20).map (communitiesToCandidates · 2)) =
      some [["a", "b", "c"], ["x", "y", "z"]] := by
  decide +kernel

end Bulletin
