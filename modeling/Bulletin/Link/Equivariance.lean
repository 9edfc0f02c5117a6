import Mathlib.Logic.Equiv.Basic
import Mathlib.Data.List.Perm.Basic
import Bulletin.Link.LinkWith

/-! # Edges of a reordered slice

Reordering the slice renames the endpoints of the edges and changes nothing else:
the index lists the same carriers per entity, so weights, pair sums and cluster
sums agree, and each edge keeps its strength, score and reason.
-/

namespace Bulletin

variable {n : Nat} {F : Type}

/-! ## Pairs of a posting list -/

theorem pairsOf_map {m : Nat} (f : Fin n → Fin m) (l : List (Fin n)) :
    pairsOf (l.map f) = (pairsOf l).map (Prod.map f f) := by
  induction l with
  | nil => rfl
  | cons i rest ih => simp [pairsOf, ih, Function.comp_def]

theorem countP_pairsOf_perm {p : Fin n × Fin n → Bool} (hp : ∀ i j, p (i, j) = p (j, i))
    {l l' : List (Fin n)} (h : l.Perm l') : (pairsOf l).countP p = (pairsOf l').countP p := by
  induction h with
  | nil => rfl
  | cons x hperm ih =>
      simp only [pairsOf, List.countP_append, ih]
      rw [(hperm.map fun j => (x, j)).countP_eq]
  | swap x y l =>
      simp only [pairsOf, List.map_cons, List.cons_append, List.countP_cons, List.countP_append,
        hp y x]
      omega
  | trans _ _ ih₁ ih₂ => exact ih₁.trans ih₂

theorem mem_pairsOf {l : List (Fin n)} {i j : Fin n} :
    (i, j) ∈ pairsOf l ↔ [i, j].Sublist l := by
  induction l with
  | nil => simp [pairsOf]
  | cons x rest ih =>
      rw [pairsOf, List.mem_append, ih, List.mem_map]
      constructor
      · intro h
        rcases h with ⟨y, hy, heq⟩ | h
        · obtain ⟨rfl, rfl⟩ := Prod.mk.inj heq
          exact (List.singleton_sublist.mpr hy).cons_cons x
        · exact h.cons x
      · intro h
        rcases List.sublist_cons_iff.mp h with h | ⟨tail, heq, htail⟩
        · exact Or.inr h
        · obtain ⟨rfl, rfl⟩ := List.cons.inj heq
          exact Or.inl ⟨j, List.singleton_sublist.mp htail, rfl⟩

theorem pairKey_comm (i j : Fin n) : pairKey i j = pairKey j i := by
  unfold pairKey
  rw [min_comm, max_comm]

theorem pairKey_eq_iff {i j a b : Fin n} :
    pairKey i j = pairKey a b ↔ (i = a ∧ j = b) ∨ (i = b ∧ j = a) := by
  unfold pairKey
  rw [toLex_inj, Prod.mk.injEq]
  constructor
  · intro h
    obtain ⟨hmin, hmax⟩ := h
    rcases le_total i j with hij | hij <;> rcases le_total a b with hab | hab <;>
      simp only [hij, hab, min_eq_left, min_eq_right, max_eq_left, max_eq_right] at hmin hmax
    · exact Or.inl ⟨hmin, hmax⟩
    · exact Or.inr ⟨hmin, hmax⟩
    · exact Or.inr ⟨hmax, hmin⟩
    · exact Or.inl ⟨hmax, hmin⟩
  · intro h
    rcases h with ⟨rfl, rfl⟩ | ⟨rfl, rfl⟩
    · exact ⟨rfl, rfl⟩
    · exact ⟨min_comm _ _, max_comm _ _⟩

theorem pairKey_map_iff (σ : Equiv.Perm (Fin n)) {i j a b : Fin n} :
    pairKey (σ i) (σ j) = pairKey (σ a) (σ b) ↔ pairKey i j = pairKey a b := by
  simp only [pairKey_eq_iff, σ.injective.eq_iff]

/-! ## The index -/

section Index

variable (clusters : Fin n → LinkCluster) (σ : Equiv.Perm (Fin n))

def carriers (e : String) : List (Fin n) := ((entityIndex clusters)[e]?).getD []

theorem carriers_eq (e : String) :
    carriers clusters e = ((postings clusters).filter fun p => p.1 = e).map Prod.snd := by
  unfold carriers entityIndex
  rw [Buckets.collect_getElem?, Std.ExtTreeMap.getElem?_empty]
  exact Buckets.gather_push Prod.snd _ none

theorem carriers_eq_flatMap (e : String) : carriers clusters e = (List.finRange n).flatMap fun i =>
    List.replicate (((clusters i).entities.filter fun e => (linkStrength e).isSome).count e) i := by
  rw [carriers_eq]
  unfold postings
  rw [List.filter_flatMap, List.map_flatMap]
  refine List.flatMap_congr ?_
  intro i _
  rw [List.filter_map, List.map_map]
  have hone : ((clusters i).entities.filter fun e => (linkStrength e).isSome).filter
      ((fun p => decide (p.1 = e)) ∘ fun e => (e, i)) =
      List.replicate (((clusters i).entities.filter fun e => (linkStrength e).isSome).count e) e :=
    List.filter_eq e
  rw [hone, List.map_replicate]
  rfl

theorem count_flatMap_replicate {l : List (Fin n)} (hl : l.Nodup) (times : Fin n → Nat)
    (i : Fin n) :
    (l.flatMap fun k => List.replicate (times k) k).count i = if i ∈ l then times i else 0 := by
  induction l with
  | nil => rfl
  | cons k rest ih =>
      obtain ⟨hk, hrest⟩ := List.nodup_cons.mp hl
      rw [List.flatMap_cons, List.count_append, ih hrest, List.count_replicate]
      by_cases hik : i = k
      · subst hik
        simp [hk]
      · simp [hik, Ne.symm hik]

theorem count_carriers_eq (e : String) (i : Fin n) : (carriers clusters e).count i =
    ((clusters i).entities.filter fun e => (linkStrength e).isSome).count e := by
  rw [carriers_eq_flatMap, count_flatMap_replicate (List.nodup_finRange n),
    if_pos (List.mem_finRange i)]

theorem mem_carriers_iff {e : String} {i : Fin n} :
    i ∈ carriers clusters e ↔ e ∈ (clusters i).entities ∧ (linkStrength e).isSome := by
  rw [← List.count_pos_iff, count_carriers_eq, List.count_pos_iff, List.mem_filter]

theorem postings_perm :
    ((postings (clusters ∘ σ)).map (Prod.map id σ)).Perm (postings clusters) := by
  have hindices : ((List.finRange n).map σ).Perm (List.finRange n) := by
    refine (List.perm_ext_iff_of_nodup ((List.nodup_finRange n).map σ.injective)
      (List.nodup_finRange n)).mpr ?_
    intro i
    simp only [List.mem_map, List.mem_finRange, true_and, iff_true]
    exact σ.surjective i
  have heq : (postings (clusters ∘ σ)).map (Prod.map id σ) = ((List.finRange n).map σ).flatMap
      fun i => ((clusters i).entities.filter fun e => (linkStrength e).isSome).map
        fun e => (e, i) := by
    simp [postings, List.map_flatMap, List.flatMap_map, Function.comp_def]
  rw [heq]
  exact hindices.flatMap_right _

theorem carriers_perm (e : String) :
    ((carriers (clusters ∘ σ) e).map σ).Perm (carriers clusters e) := by
  rw [carriers_eq, carriers_eq]
  have h := ((postings_perm clusters σ).filter fun p => p.1 = e).map Prod.snd
  simpa [List.filter_map, Function.comp_def] using h

theorem mem_entityIndex (e : String) :
    e ∈ entityIndex clusters ↔ carriers clusters e ≠ [] := by
  rw [carriers_eq, entityIndex, Buckets.mem_collect]
  simp [List.filter_eq_nil_iff]

theorem entityIndex_keys_eq : (entityIndex (clusters ∘ σ)).keys = (entityIndex clusters).keys := by
  refine Buckets.keys_eq_of_mem_iff ?_
  intro e
  have hlen := (carriers_perm clusters σ e).length_eq
  rw [List.length_map] at hlen
  rw [mem_entityIndex, mem_entityIndex, ← List.length_pos_iff, ← List.length_pos_iff, hlen]

variable [Score F] (entityWeights : EntityWeights F)

def gradedWeight (e : String) : F := entityWeight e (carriers clusters e).length n entityWeights

theorem gradedIndex_eq :
    gradedIndex clusters entityWeights = (entityIndex clusters).keys.map fun e =>
      (e, carriers clusters e, gradedWeight clusters entityWeights e) := by
  unfold gradedIndex
  rw [Buckets.toList_eq_map_keys _ [], List.map_map]
  rfl

theorem gradedWeight_eq (e : String) :
    gradedWeight (clusters ∘ σ) entityWeights e = gradedWeight clusters entityWeights e := by
  have hlen := (carriers_perm clusters σ e).length_eq
  rw [List.length_map] at hlen
  unfold gradedWeight
  rw [hlen]

end Index

/-! ## Sums over the index -/

section Sums

variable [Score F] (clusters : Fin n → LinkCluster) (σ : Equiv.Perm (Fin n))
  (entityWeights : EntityWeights F)

theorem foldl_update_apply (w : F) (l : List (Fin n)) (cw : Fin n → F) (i : Fin n) :
    l.foldl (fun cw j => Function.update cw j (cw j + w)) cw i =
      (fun x => x + w)^[l.count i] (cw i) := by
  induction l generalizing cw with
  | nil => rfl
  | cons j rest ih =>
      rw [List.foldl_cons, ih]
      by_cases hij : j = i
      · subst hij
        rw [Function.update_self, List.count_cons_self, Function.iterate_succ_apply]
      · rw [Function.update_of_ne (Ne.symm hij), List.count_cons_of_ne hij]

theorem count_carriers (e : String) (i : Fin n) :
    (carriers (clusters ∘ σ) e).count i = (carriers clusters e).count (σ i) := by
  rw [← (carriers_perm clusters σ e).count_eq, List.count_map_of_injective _ σ σ.injective]

/-- The weight pass over a list of entities, each with its carriers and weight. -/
def addWeights (carry : String → List (Fin n)) (weight : String → F) (keys : List String)
    (cw : Fin n → F) : Fin n → F :=
  keys.foldl (fun cw e => (carry e).foldl (fun cw j => Function.update cw j (cw j + weight e)) cw) cw

theorem addWeights_eq {carry carry' : String → List (Fin n)} (weight : String → F)
    (hcarry : ∀ e i, (carry' e).count i = (carry e).count (σ i)) (keys : List String)
    {cw cw' : Fin n → F} (hcw : ∀ i, cw' i = cw (σ i)) (i : Fin n) :
    addWeights carry' weight keys cw' i = addWeights carry weight keys cw (σ i) := by
  induction keys generalizing cw cw' with
  | nil => exact hcw i
  | cons e rest ih =>
      refine ih ?_
      intro j
      dsimp only
      rw [foldl_update_apply, foldl_update_apply, hcw, hcarry]

theorem clusterWeights_eq_addWeights :
    clusterWeights clusters entityWeights = addWeights (carriers clusters)
      (gradedWeight clusters entityWeights) (entityIndex clusters).keys fun _ => Score.lit 0 := by
  unfold clusterWeights
  rw [gradedIndex_eq, List.foldl_map]
  rfl

theorem clusterWeights_eq (i : Fin n) :
    clusterWeights (clusters ∘ σ) entityWeights i =
      clusterWeights clusters entityWeights (σ i) := by
  have hweight : gradedWeight (clusters ∘ σ) entityWeights = gradedWeight clusters entityWeights :=
    funext fun e => gradedWeight_eq clusters σ entityWeights e
  rw [clusterWeights_eq_addWeights, clusterWeights_eq_addWeights, entityIndex_keys_eq, hweight]
  refine addWeights_eq σ _ (count_carriers clusters σ) _ ?_ i
  intro i
  rfl

def pairContributions (i j : Fin n) : List (String × F) :=
  (entityIndex clusters).keys.flatMap fun e =>
    List.replicate ((pairsOf (carriers clusters e)).countP fun q => pairKey q.1 q.2 = pairKey i j)
      (e, gradedWeight clusters entityWeights e)

theorem pairContributions_eq (i j : Fin n) :
    pairContributions (clusters ∘ σ) entityWeights i j =
      pairContributions clusters entityWeights (σ i) (σ j) := by
  have hcount : ∀ e, (pairsOf (carriers (clusters ∘ σ) e)).countP
      (fun q => pairKey q.1 q.2 = pairKey i j) =
      (pairsOf (carriers clusters e)).countP fun q => pairKey q.1 q.2 = pairKey (σ i) (σ j) := by
    intro e
    have hperm := countP_pairsOf_perm (p := fun q => pairKey q.1 q.2 = pairKey (σ i) (σ j))
      (fun a b => by rw [pairKey_comm]) (carriers_perm clusters σ e)
    rw [← hperm, pairsOf_map, List.countP_map]
    refine List.countP_congr ?_
    intro q _
    simp [pairKey_map_iff]
  unfold pairContributions
  rw [entityIndex_keys_eq]
  simp only [hcount, gradedWeight_eq]

theorem pairAccs_getElem? (i j : Fin n) :
    (pairAccs clusters entityWeights)[pairKey i j]? =
      Buckets.gather (fun entry x => (entry.getD .empty).add x.1 x.2)
        (pairContributions clusters entityWeights i j) none := by
  unfold pairAccs
  rw [Buckets.collect_getElem?, Std.ExtTreeMap.getElem?_empty]
  refine (Buckets.gather_map (fun entry x => (entry.getD PairAcc.empty).add x.1 x.2)
    (fun m : Meeting n F => (m.entity, m.weight)) _ none).trans ?_
  have hlist : ((meetings clusters entityWeights).filter fun m =>
      pairKey m.pair.1 m.pair.2 = pairKey i j).map (fun m => (m.entity, m.weight)) =
      pairContributions clusters entityWeights i j := by
    unfold meetings pairContributions
    rw [gradedIndex_eq, List.flatMap_map, List.filter_flatMap, List.map_flatMap]
    refine List.flatMap_congr ?_
    intro e _
    rw [List.filter_map, List.map_map, List.countP_eq_length_filter]
    simp only [Function.comp_def]
    exact List.map_const'
  rw [hlist]

theorem pairAccs_eq (i j : Fin n) :
    (pairAccs (clusters ∘ σ) entityWeights)[pairKey i j]? =
      (pairAccs clusters entityWeights)[pairKey (σ i) (σ j)]? := by
  rw [pairAccs_getElem?, pairAccs_getElem?, pairContributions_eq]

theorem pairAccs_key {k : Fin n ×ₗ Fin n} (h : k ∈ pairAccs clusters entityWeights) :
    (ofLex k).1 ≤ (ofLex k).2 ∧ k = pairKey (ofLex k).1 (ofLex k).2 := by
  unfold pairAccs at h
  rw [Buckets.mem_collect] at h
  rcases h with ⟨m, _, rfl⟩ | h
  · have hle : min m.pair.1 m.pair.2 ≤ max m.pair.1 m.pair.2 := min_le_max
    refine ⟨hle, ?_⟩
    simp only [pairKey, ofLex_toLex, min_eq_left hle, max_eq_right hle]
  · exact absurd h Std.ExtTreeMap.not_mem_empty

end Sums

/-! ## Edges -/

section Edges

/-- The same edge with its endpoints renamed, smaller one first. -/
def Edge.rename (σ : Equiv.Perm (Fin n)) (e : Edge n F) : Edge n F :=
  { e with a := min (σ e.a) (σ e.b), b := max (σ e.a) (σ e.b) }

/-- Edges run from the smaller index to the larger, at most one per pair. -/
structure SimpleEdges (es : List (Edge n F)) : Prop where
  ordered : ∀ e ∈ es, e.a ≤ e.b
  nodup : (es.map Edge.ends).Nodup

/-- `es'` are the edges of the slice reordered by `σ`, `es` those of the slice itself. -/
structure EdgesMatch (σ : Equiv.Perm (Fin n)) (es' es : List (Edge n F)) : Prop where
  simple' : SimpleEdges es'
  simple : SimpleEdges es
  mem : ∀ e : Edge n F, e.a ≤ e.b → (e ∈ es' ↔ e.rename σ ∈ es)

theorem Edge.rename_ordered (σ : Equiv.Perm (Fin n)) (e : Edge n F) :
    (e.rename σ).a ≤ (e.rename σ).b := min_le_max

theorem Edge.rename_symm (σ : Equiv.Perm (Fin n)) {e : Edge n F} (h : e.a ≤ e.b) :
    (e.rename σ).rename σ.symm = e := by
  unfold Edge.rename
  rcases le_total (σ e.a) (σ e.b) with hab | hab
  · simp [hab, h]
  · simp [hab, h]

variable [Score F] (clusters : Fin n → LinkCluster) (σ : Equiv.Perm (Fin n))
  (entityWeights : EntityWeights F)

theorem temporalCloseness_comm (a b : LinkCluster) :
    (temporalCloseness a b : F) = temporalCloseness b a := by
  have hneg : numSeconds (a.lastEventTime - b.lastEventTime) =
      -numSeconds (b.lastEventTime - a.lastEventTime) := by
    unfold numSeconds
    rw [← Int.neg_tdiv, Int.neg_sub]
  unfold temporalCloseness
  rw [hneg, Int.cast_neg, abs_neg]

def gradePair (p : PairAcc F) (wa wb closeness : F) : Option (Bool × F × String) :=
  match p.strongKey with
  | some key => some (true, Score.lit 1, "shared " ++ key)
  | none =>
      let union := wa + wb - p.sharedWeight
      let wj := if Score.gt union (Score.lit 0) then p.sharedWeight / union else Score.lit 0
      let score := wJaccard * wj + wTemporal * closeness
      if Score.lt score weakEdgeThreshold || Score.lt wj weakMinJaccard then none
      else if Score.ge wj saturatedWj && Score.lt p.sharedWeight minSaturatedSharedWeight then none
      else p.bestWeak.map fun best => (false, score, "shared " ++ best.2)

def Edge.ofGrade (a b : Fin n) (grade : Bool × F × String) : Edge n F :=
  ⟨a, b, grade.1, grade.2.1, grade.2.2⟩

/-- The endpoints of an edge enter it through two weights and a closeness only. -/
theorem buildEdge_eq (a b : Fin n) (p : PairAcc F) (cw : Fin n → F) :
    buildEdge a b p clusters cw =
      (gradePair p (cw a) (cw b) (temporalCloseness (clusters a) (clusters b))).map
        (Edge.ofGrade a b) := by
  unfold buildEdge gradePair
  cases p.strongKey with
  | some key => rfl
  | none =>
      simp only [apply_ite (Option.map (Edge.ofGrade a b)), Option.map_none, Option.map_map]
      rfl

theorem gradePair_comm (hcomm : ∀ x y : F, x + y = y + x) (p : PairAcc F) (wa wb : F)
    (a b : LinkCluster) :
    gradePair p wa wb (temporalCloseness a b) = gradePair p wb wa (temporalCloseness b a) := by
  unfold gradePair
  rw [hcomm wa wb, temporalCloseness_comm a b]

def pairGrade (i j : Fin n) : Option (Bool × F × String) :=
  (pairAccs clusters entityWeights)[pairKey i j]?.bind fun p =>
    gradePair p (clusterWeights clusters entityWeights i) (clusterWeights clusters entityWeights j)
      (temporalCloseness (clusters i) (clusters j))

theorem pairGrade_comm (hcomm : ∀ x y : F, x + y = y + x) (i j : Fin n) :
    pairGrade clusters entityWeights i j = pairGrade clusters entityWeights j i := by
  unfold pairGrade
  rw [pairKey_comm i j]
  refine congrArg _ (funext fun p => ?_)
  exact gradePair_comm hcomm p _ _ _ _

theorem pairGrade_eq (i j : Fin n) :
    pairGrade (clusters ∘ σ) entityWeights i j =
      pairGrade clusters entityWeights (σ i) (σ j) := by
  unfold pairGrade
  rw [pairAccs_eq, clusterWeights_eq, clusterWeights_eq]
  rfl

theorem mem_scoreEdges {e : Edge n F} :
    e ∈ scoreEdges clusters entityWeights ↔
      e.a ≤ e.b ∧ pairGrade clusters entityWeights e.a e.b =
        some (e.strong, e.score, e.reason) := by
  unfold scoreEdges pairGrade
  rw [List.mem_filterMap]
  constructor
  · intro h
    obtain ⟨⟨k, p⟩, hmem, hbuild⟩ := h
    have hget := Std.ExtTreeMap.mem_toList_iff_getElem?_eq_some.mp hmem
    obtain ⟨hle, hkey⟩ := pairAccs_key clusters entityWeights
      (Std.ExtTreeMap.isSome_getElem?_iff_mem.mp (by rw [hget]; rfl))
    rw [buildEdge_eq, Option.map_eq_some_iff] at hbuild
    obtain ⟨grade, hgrade, rfl⟩ := hbuild
    refine ⟨hle, ?_⟩
    show ((pairAccs clusters entityWeights)[pairKey (ofLex k).1 (ofLex k).2]?).bind _ = _
    rw [← hkey, hget]
    exact hgrade
  · intro h
    obtain ⟨hle, hgrade⟩ := h
    obtain ⟨p, hget, hgrade⟩ := Option.bind_eq_some_iff.mp hgrade
    refine ⟨(pairKey e.a e.b, p), Std.ExtTreeMap.mem_toList_iff_getElem?_eq_some.mpr hget, ?_⟩
    have hkey : ofLex (pairKey e.a e.b) = (e.a, e.b) := by
      simp only [pairKey, ofLex_toLex, min_eq_left hle, max_eq_right hle]
    rw [hkey, buildEdge_eq, hgrade]
    rfl

theorem map_filterMap_sublist {α β γ : Type} {f : α → Option β} {g : β → γ} {h : α → γ}
    (hfg : ∀ x y, f x = some y → g y = h x) (l : List α) :
    ((l.filterMap f).map g).Sublist (l.map h) := by
  induction l with
  | nil => exact List.Sublist.slnil
  | cons x rest ih =>
      cases hx : f x with
      | none =>
          rw [List.filterMap_cons_none hx]
          exact ih.cons _
      | some y =>
          rw [List.filterMap_cons_some hx, List.map_cons, List.map_cons, hfg x y hx]
          exact ih.cons_cons _

theorem scoreEdges_simple : SimpleEdges (scoreEdges clusters entityWeights) where
  ordered := fun e he => ((mem_scoreEdges clusters entityWeights).mp he).1
  nodup := by
    have hkeys : (pairAccs clusters entityWeights).keys.Nodup := Std.ExtTreeMap.nodup_keys
    rw [← Std.ExtTreeMap.map_fst_toList_eq_keys] at hkeys
    refine hkeys.sublist (map_filterMap_sublist ?_ _)
    intro entry e hbuild
    rw [buildEdge_eq, Option.map_eq_some_iff] at hbuild
    obtain ⟨grade, _, rfl⟩ := hbuild
    rfl

theorem scoreEdges_match (hcomm : ∀ x y : F, x + y = y + x) :
    EdgesMatch σ (scoreEdges (clusters ∘ σ) entityWeights) (scoreEdges clusters entityWeights) where
  simple' := scoreEdges_simple _ _
  simple := scoreEdges_simple _ _
  mem := by
    intro e hle
    rw [mem_scoreEdges, mem_scoreEdges, pairGrade_eq]
    have hrename : pairGrade clusters entityWeights (e.rename σ).a (e.rename σ).b =
        pairGrade clusters entityWeights (σ e.a) (σ e.b) := by
      show pairGrade clusters entityWeights (min (σ e.a) (σ e.b)) (max (σ e.a) (σ e.b)) = _
      rcases le_total (σ e.a) (σ e.b) with hab | hab
      · rw [min_eq_left hab, max_eq_right hab]
      · rw [min_eq_right hab, max_eq_left hab, pairGrade_comm clusters entityWeights hcomm]
    rw [hrename]
    have hordered := e.rename_ordered σ
    constructor
    · intro h
      exact ⟨hordered, h.2⟩
    · intro h
      exact ⟨hle, h.2⟩

end Edges

/-! ## Constraints -/

section Constraints

variable {σ : Equiv.Perm (Fin n)} {es es' : List (Edge n F)}

theorem SimpleEdges.filter (h : SimpleEdges es) (q : Edge n F → Bool) :
    SimpleEdges (es.filter q) where
  ordered := fun e he => h.ordered e (List.mem_of_mem_filter he)
  nodup := h.nodup.sublist (List.filter_sublist.map _)

theorem EdgesMatch.filter (h : EdgesMatch σ es' es) (q q' : Edge n F → Bool)
    (hq : ∀ e, q' e = q (e.rename σ)) : EdgesMatch σ (es'.filter q') (es.filter q) where
  simple' := h.simple'.filter q'
  simple := h.simple.filter q
  mem := by
    intro e hle
    rw [List.mem_filter, List.mem_filter, h.mem e hle, hq]

theorem pairId_rename (clusters : Fin n → LinkCluster) (e : Edge n F) :
    pairId (clusters ∘ σ) e = pairId clusters (e.rename σ) := by
  show LinkConstraints.key (clusters (σ e.a)).id (clusters (σ e.b)).id =
    LinkConstraints.key (clusters (min (σ e.a) (σ e.b))).id (clusters (max (σ e.a) (σ e.b))).id
  rcases le_total (σ e.a) (σ e.b) with hab | hab
  · rw [min_eq_left hab, max_eq_right hab]
  · rw [min_eq_right hab, max_eq_left hab, LinkConstraints.key_comm]

theorem indexOf_eq_some_iff {clusters : Fin n → LinkCluster}
    (hids : Function.Injective fun i => (clusters i).id) {id : Uuid} {i : Fin n} :
    indexOf clusters id = some i ↔ (clusters i).id = id := by
  unfold indexOf
  constructor
  · intro h
    simpa using List.find?_some h
  · intro h
    cases hfind : (List.finRange n).find? (fun i => (clusters i).id = id) with
    | none =>
        have hno := List.find?_eq_none.mp hfind i (List.mem_finRange i)
        simp [h] at hno
    | some j =>
        have hj : (clusters j).id = id := by simpa using List.find?_some hfind
        rw [hids (hj.trans h.symm)]

variable [Score F]

def mustEdge (a b : Fin n) : Edge n F := ⟨a, b, true, Score.lit 1, "must-link (feedback)"⟩

theorem forceEdge_cons_hit {a b : Fin n} {e : Edge n F} (h : e.ends = (a, b)) :
    forceEdge a b (e :: es) = mustEdge a b :: es := by
  obtain ⟨rfl, rfl⟩ := Prod.mk.injEq .. ▸ h
  simp [forceEdge, mustEdge]

theorem forceEdge_cons_miss {a b : Fin n} {e : Edge n F} (h : e.ends ≠ (a, b)) :
    forceEdge a b (e :: es) = e :: forceEdge a b es := by
  have hne : ¬ (e.a = a ∧ e.b = b) := by
    intro hab
    exact h (Prod.ext hab.1 hab.2)
  rw [forceEdge, if_neg hne]

theorem forceEdge_ends (a b : Fin n) (es : List (Edge n F)) :
    (forceEdge a b es).map Edge.ends =
      if (a, b) ∈ es.map Edge.ends then es.map Edge.ends else es.map Edge.ends ++ [(a, b)] := by
  induction es with
  | nil => rfl
  | cons e es ih =>
      by_cases h : e.ends = (a, b)
      · rw [forceEdge_cons_hit h, List.map_cons, List.map_cons, h, if_pos List.mem_cons_self]
        rfl
      · rw [forceEdge_cons_miss h, List.map_cons, List.map_cons, ih]
        have hiff : (a, b) ∈ e.ends :: es.map Edge.ends ↔ (a, b) ∈ es.map Edge.ends := by
          rw [List.mem_cons]
          exact or_iff_right (Ne.symm h)
        by_cases hmem : (a, b) ∈ es.map Edge.ends
        · rw [if_pos hmem, if_pos (hiff.mpr hmem)]
        · rw [if_neg hmem, if_neg (mt hiff.mp hmem), List.cons_append]

theorem mem_forceEdge (h : (es.map Edge.ends).Nodup) {a b : Fin n} {e : Edge n F} :
    e ∈ forceEdge a b es ↔ e = mustEdge a b ∨ (e ∈ es ∧ e.ends ≠ (a, b)) := by
  induction es with
  | nil => simp [forceEdge, mustEdge]
  | cons x es ih =>
      obtain ⟨hx, hrest⟩ := List.nodup_cons.mp h
      by_cases hends : x.ends = (a, b)
      · rw [forceEdge_cons_hit hends, List.mem_cons, List.mem_cons]
        constructor
        · intro he
          rcases he with he | he
          · exact Or.inl he
          · refine Or.inr ⟨Or.inr he, ?_⟩
            intro heq
            exact hx (hends.trans heq.symm ▸ List.mem_map_of_mem he)
        · intro he
          rcases he with he | ⟨rfl | he, hne⟩
          · exact Or.inl he
          · exact absurd hends hne
          · exact Or.inr he
      · rw [forceEdge_cons_miss hends, List.mem_cons, List.mem_cons, ih hrest]
        constructor
        · intro he
          rcases he with rfl | he | ⟨he, hne⟩
          · exact Or.inr ⟨Or.inl rfl, hends⟩
          · exact Or.inl he
          · exact Or.inr ⟨Or.inr he, hne⟩
        · intro he
          rcases he with he | ⟨rfl | he, hne⟩
          · exact Or.inr (Or.inl he)
          · exact Or.inl rfl
          · exact Or.inr (Or.inr ⟨he, hne⟩)

theorem SimpleEdges.forceEdge (h : SimpleEdges es) {a b : Fin n} (hab : a ≤ b) :
    SimpleEdges (forceEdge a b es) where
  ordered := by
    intro e he
    rcases (mem_forceEdge h.nodup).mp he with rfl | ⟨he, _⟩
    · exact hab
    · exact h.ordered e he
  nodup := by
    rw [forceEdge_ends]
    split
    · exact h.nodup
    · rename_i hnew
      refine List.nodup_append.mpr ⟨h.nodup, List.nodup_singleton _, ?_⟩
      intro x hx y hy heq
      rw [List.mem_singleton.mp hy] at heq
      exact hnew (heq ▸ hx)

theorem EdgesMatch.forceEdge (h : EdgesMatch σ es' es) (i j : Fin n) :
    EdgesMatch σ (forceEdge (min i j) (max i j) es')
      (forceEdge (min (σ i) (σ j)) (max (σ i) (σ j)) es) where
  simple' := h.simple'.forceEdge min_le_max
  simple := h.simple.forceEdge min_le_max
  mem := by
    intro e hle
    have hends : e.ends = (min i j, max i j) ↔
        (e.rename σ).ends = (min (σ i) (σ j), max (σ i) (σ j)) := by
      have hkey : pairKey e.a e.b = pairKey i j ↔ pairKey (σ e.a) (σ e.b) = pairKey (σ i) (σ j) :=
        (pairKey_map_iff σ).symm
      have hself : e.ends = (min e.a e.b, max e.a e.b) := by
        rw [min_eq_left hle, max_eq_right hle]
        rfl
      rw [hself]
      exact hkey
    have hmust : e = mustEdge (min i j) (max i j) ↔
        e.rename σ = mustEdge (min (σ i) (σ j)) (max (σ i) (σ j)) := by
      cases e
      simp only [Edge.ends, Edge.rename, mustEdge, Edge.mk.injEq, Prod.mk.injEq] at hends ⊢
      tauto
    rw [mem_forceEdge h.simple'.nodup, mem_forceEdge h.simple.nodup, h.mem e hle, hmust, ne_eq,
      ne_eq, hends]

theorem EdgesMatch.applyMust {clusters : Fin n → LinkCluster}
    (hids : Function.Injective fun i => (clusters i).id) (h : EdgesMatch σ es' es)
    (pair : Uuid ×ₗ Uuid) :
    EdgesMatch σ (applyMust (clusters ∘ σ) es' pair) (applyMust clusters es pair) := by
  have hindex : ∀ id, indexOf clusters id = (indexOf (clusters ∘ σ) id).map σ := by
    intro id
    have hids' : Function.Injective fun i => ((clusters ∘ σ) i).id := hids.comp σ.injective
    refine Option.ext ?_
    intro i
    rw [indexOf_eq_some_iff hids, Option.map_eq_some_iff]
    constructor
    · intro hi
      refine ⟨σ.symm i, (indexOf_eq_some_iff hids').mpr ?_, σ.apply_symm_apply i⟩
      simpa using hi
    · intro hex
      obtain ⟨k, hk, rfl⟩ := hex
      exact (indexOf_eq_some_iff hids').mp hk
  unfold Bulletin.applyMust
  rw [hindex, hindex]
  cases indexOf (clusters ∘ σ) (ofLex pair).1 with
  | none => exact h
  | some i =>
      cases indexOf (clusters ∘ σ) (ofLex pair).2 with
      | none => exact h
      | some j =>
          simp only [Option.map_some, σ.injective.eq_iff]
          split
          · exact h
          · exact h.forceEdge i j

theorem linkEdges_match {clusters : Fin n → LinkCluster}
    (hids : Function.Injective fun i => (clusters i).id) (hcomm : ∀ x y : F, x + y = y + x)
    (σ : Equiv.Perm (Fin n)) (tuning : LinkTuning F) :
    EdgesMatch σ (linkEdges (clusters ∘ σ) tuning) (linkEdges clusters tuning) := by
  have hfilter := (scoreEdges_match clusters σ tuning.entityWeights hcomm).filter
    (fun e => ¬ tuning.constraints.cannotLink.contains (pairId clusters e))
    (fun e => ¬ tuning.constraints.cannotLink.contains (pairId (clusters ∘ σ) e))
    (fun e => by rw [pairId_rename])
  unfold linkEdges applyConstraints
  generalize tuning.constraints.mustLink.toList = pairs
  generalize (scoreEdges (clusters ∘ σ) tuning.entityWeights).filter _ = es' at hfilter ⊢
  generalize (scoreEdges clusters tuning.entityWeights).filter _ = es at hfilter ⊢
  induction pairs generalizing es es' with
  | nil => exact hfilter
  | cons pair rest ih => exact ih _ _ (hfilter.applyMust hids pair)

end Constraints

end Bulletin
