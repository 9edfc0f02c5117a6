import Mathlib.Algebra.Order.BigOperators.Group.Finset
import Mathlib.Data.Finset.Sort
import Mathlib.Data.String.Basic
import Bulletin.Link.Equivariance

/-! # The pairwise definition of an edge

The scatter pass over the index never compares two clusters. With exact scores and no entity listed
twice, it finds for each pair what comparing the two entity sets gives: the strong key or the
weighted overlap, and the entity the edge is named for.
-/

namespace Bulletin

variable {n : Nat}

/-! ## The pairwise rule -/

def LinkCluster.linkable (c : LinkCluster) : Finset String :=
  (c.entities.filter fun e => (linkStrength e).isSome).toFinset

def sharedEntities (clusters : Fin n → LinkCluster) (i j : Fin n) : Finset String :=
  (clusters i).linkable ∩ (clusters j).linkable

def documentFrequency (clusters : Fin n → LinkCluster) (e : String) : Nat :=
  (Finset.univ.filter fun i => e ∈ (clusters i).linkable).card

/-- The key weighs the most, and is the smallest of those that do. -/
structure IsHeaviest {F : Type} [LinearOrder F] (weight : String → F) (entities : Finset String)
    (key : String) : Prop where
  mem : key ∈ entities
  le : ∀ e ∈ entities, weight e ≤ weight key
  tie : ∀ e ∈ entities, weight e = weight key → key ≤ e

theorem IsHeaviest.unique {F : Type} [LinearOrder F] {weight : String → F} {S : Finset String}
    {key key' : String} (h : IsHeaviest weight S key) (h' : IsHeaviest weight S key') :
    key = key' := by
  have heq : weight key = weight key' := le_antisymm (h'.le key h.mem) (h.le key' h'.mem)
  exact le_antisymm (h.tie key' h'.mem heq.symm) (h'.tie key h.mem heq)

/-- Any function may stand in for the logarithm of exact scores. -/
class Logarithm (F : Type) where
  ln : F → F

@[reducible] def exactScore (F : Type) [Field F] [LinearOrder F] [Logarithm F] : ExactScore F :=
  ExactScore.ofField F Logarithm.ln

attribute [local instance] exactScore

section Rule

variable {F : Type} [Field F] [LinearOrder F] [Logarithm F]
  (clusters : Fin n → LinkCluster) (entityWeights : EntityWeights F) (i j : Fin n)

def sliceWeight (e : String) : F :=
  entityWeight e (documentFrequency clusters e) n entityWeights

def sharedWeight : F :=
  ∑ e ∈ sharedEntities clusters i j, sliceWeight clusters entityWeights e

def weightedJaccard : F :=
  sharedWeight clusters entityWeights i j /
    ∑ e ∈ (clusters i).linkable ∪ (clusters j).linkable, sliceWeight clusters entityWeights e

def blendedScore : F :=
  7 / 10 * weightedJaccard clusters entityWeights i j +
    3 / 10 * temporalCloseness (clusters i) (clusters j)

/-- An edge between two clusters: strength, score and reason. -/
inductive PairwiseEdge : Bool → F → String → Prop where
  | strong {key : String} :
      IsLeast {e | e ∈ sharedEntities clusters i j ∧ linkStrength e = some .strong} key →
      PairwiseEdge true 1 ("shared " ++ key)
  | weak {key : String} :
      (∀ e ∈ sharedEntities clusters i j, linkStrength e ≠ some .strong) →
      IsHeaviest (sliceWeight clusters entityWeights) (sharedEntities clusters i j) key →
      35 / 100 ≤ blendedScore clusters entityWeights i j →
      2 / 10 ≤ weightedJaccard clusters entityWeights i j →
      (999 / 1000 ≤ weightedJaccard clusters entityWeights i j →
        12 / 10 ≤ sharedWeight clusters entityWeights i j) →
      PairwiseEdge false (blendedScore clusters entityWeights i j) ("shared " ++ key)

/-- The edges are those of the pairwise rule, each once. -/
structure PairwiseScored (es : List (Edge n F)) : Prop where
  rule : ∀ e : Edge n F, e ∈ es ↔
    e.a < e.b ∧ PairwiseEdge clusters entityWeights e.a e.b e.strong e.score e.reason
  once : (es.map Edge.ends).Nodup

end Rule

/-! ## The index of a slice without repeated entities -/

section Index

variable {clusters : Fin n → LinkCluster}

theorem LinkCluster.mem_linkable {c : LinkCluster} {e : String} :
    e ∈ c.linkable ↔ e ∈ c.entities ∧ (linkStrength e).isSome := by
  unfold linkable
  rw [List.mem_toFinset, List.mem_filter]

theorem flatMap_ite_singleton {α : Type} (p : α → Prop) [DecidablePred p] (l : List α) :
    (l.flatMap fun x => if p x then [x] else []) = l.filter fun x => p x := by
  induction l with
  | nil => rfl
  | cons x rest ih => by_cases hx : p x <;> simp [hx, ih]

theorem mem_carriers {e : String} {i : Fin n} :
    i ∈ carriers clusters e ↔ e ∈ (clusters i).linkable := by
  rw [mem_carriers_iff, LinkCluster.mem_linkable]

theorem carriers_nodup (hentities : ∀ i, (clusters i).entities.Nodup) (e : String) :
    (carriers clusters e).Nodup := by
  refine List.nodup_iff_count_le_one.mpr ?_
  intro i
  rw [count_carriers_eq]
  exact List.nodup_iff_count_le_one.mp ((hentities i).filter _) e

theorem length_carriers (hentities : ∀ i, (clusters i).entities.Nodup) (e : String) :
    (carriers clusters e).length = documentFrequency clusters e := by
  rw [← List.toFinset_card_of_nodup (carriers_nodup hentities e)]
  unfold documentFrequency
  congr 1
  ext i
  simp [mem_carriers]

theorem countP_pairsOf {l : List (Fin n)} (hl : l.Nodup) {i j : Fin n} (hij : i ≠ j) :
    (pairsOf l).countP (fun q => pairKey q.1 q.2 = pairKey i j) =
      if i ∈ l ∧ j ∈ l then 1 else 0 := by
  induction l with
  | nil => simp [pairsOf]
  | cons x rest ih =>
      obtain ⟨hx, hrest⟩ := List.nodup_cons.mp hl
      have hmeets : ∀ z, (pairKey x z = pairKey i j) ↔ (x = i ∧ z = j) ∨ (x = j ∧ z = i) :=
        fun z => pairKey_eq_iff
      have hcount : ∀ y : Fin n,
          rest.countP (fun z => decide (z = y)) = if y ∈ rest then 1 else 0 :=
        fun y => (List.Nodup.count hrest (a := y)).symm ▸ rfl
      simp only [pairsOf, List.countP_append, List.countP_map, Function.comp_def, ih hrest, hmeets]
      by_cases hi : x = i
      · subst hi
        simp [hij, hij.symm, hx, hcount]
      · by_cases hj : x = j
        · subst hj
          simp [hi, hij, hx, hcount]
        · simp [hi, hj, Ne.symm hi, Ne.symm hj]

theorem keys_sorted : (entityIndex clusters).keys.Pairwise (· < ·) := by
  have hordered : (entityIndex clusters).keys.Pairwise fun a b => compare a b = .lt :=
    Std.ExtTreeMap.ordered_keys
  exact hordered.imp fun hab => compare_lt_iff_lt.mp hab

theorem mem_keys {e : String} :
    e ∈ (entityIndex clusters).keys ↔ ∃ i, e ∈ (clusters i).linkable := by
  rw [Std.ExtTreeMap.mem_keys, mem_entityIndex]
  constructor
  · intro h
    obtain ⟨i, hi⟩ := List.exists_mem_of_ne_nil _ h
    exact ⟨i, mem_carriers.mp hi⟩
  · intro h
    obtain ⟨i, hi⟩ := h
    exact List.ne_nil_of_mem (mem_carriers.mpr hi)

theorem keys_filter {S : Finset String} {i : Fin n}
    (hS : S ⊆ (clusters i).linkable) :
    (entityIndex clusters).keys.filter (fun e => e ∈ S) = S.sort (· ≤ ·) := by
  have hsorted := (@keys_sorted n clusters).filter fun e => decide (e ∈ S)
  have hset : ((entityIndex clusters).keys.filter fun e => e ∈ S).toFinset = S := by
    ext e
    simp only [List.mem_toFinset, List.mem_filter, decide_eq_true_eq, mem_keys,
      and_iff_right_iff_imp]
    intro he
    exact ⟨i, hS he⟩
  have hsort := (List.toFinset_sort (· ≤ ·) (hsorted.imp fun h => h.ne)).mpr
    (hsorted.imp fun h => h.le)
  rw [hset] at hsort
  exact hsort.symm

section Scored

variable {F : Type} [Score F] (entityWeights : EntityWeights F)

theorem pairContributions_of_nodup (hentities : ∀ i, (clusters i).entities.Nodup) {i j : Fin n}
    (hij : i ≠ j) :
    pairContributions clusters entityWeights i j =
      ((sharedEntities clusters i j).sort (· ≤ ·)).map fun e =>
        (e, gradedWeight clusters entityWeights e) := by
  have hsub : sharedEntities clusters i j ⊆ (clusters i).linkable := Finset.inter_subset_left
  rw [← keys_filter hsub, ← flatMap_ite_singleton, List.map_flatMap]
  unfold pairContributions
  refine List.flatMap_congr ?_
  intro e _
  rw [countP_pairsOf (carriers_nodup hentities e) hij]
  simp only [mem_carriers, sharedEntities, Finset.mem_inter]
  by_cases he : e ∈ (clusters i).linkable ∧ e ∈ (clusters j).linkable
  · simp [he]
  · simp only [if_neg he]
    rfl

theorem pairContributions_self (hentities : ∀ i, (clusters i).entities.Nodup) (i : Fin n) :
    pairContributions clusters entityWeights i i = [] := by
  refine List.flatMap_eq_nil_iff.mpr ?_
  intro e _
  have hzero : (pairsOf (carriers clusters e)).countP (fun q =>
      pairKey q.1 q.2 = pairKey i i) = 0 := by
    refine List.countP_eq_zero.mpr ?_
    intro q hq heq
    have hpair : [q.1, q.2].Nodup := (carriers_nodup hentities e).sublist (mem_pairsOf.mp hq)
    have hne : q.1 ≠ q.2 := by simpa using hpair
    rcases pairKey_eq_iff.mp (of_decide_eq_true heq) with ⟨h, h'⟩ | ⟨h, h'⟩
    · exact hne (h.trans h'.symm)
    · exact hne (h.trans h'.symm)
  rw [hzero]
  rfl

def accumulate (weight : String → F) (es : List String) : PairAcc F :=
  es.foldl (fun p e => p.add e (weight e)) .empty

theorem gather_add (weight : String → F) (es : List String) (p : PairAcc F) :
    Buckets.gather (fun entry x => (entry.getD .empty).add x.1 x.2)
      (es.map fun e => (e, weight e)) (some p) =
      some (es.foldl (fun p e => p.add e (weight e)) p) := by
  induction es generalizing p with
  | nil => rfl
  | cons e rest ih => exact ih _

/-- A pair that shares nothing is not there; any other has accumulated what it shares. -/
theorem pairAccs_of_nodup (hentities : ∀ i, (clusters i).entities.Nodup) {i j : Fin n}
    (hij : i ≠ j) :
    (pairAccs clusters entityWeights)[pairKey i j]? =
      if sharedEntities clusters i j = ∅ then none
      else some (accumulate (gradedWeight clusters entityWeights)
        ((sharedEntities clusters i j).sort (· ≤ ·))) := by
  rw [pairAccs_getElem?, pairContributions_of_nodup entityWeights hentities hij]
  cases hsort : (sharedEntities clusters i j).sort (· ≤ ·) with
  | nil =>
      have hempty : sharedEntities clusters i j = ∅ := by
        rw [← Finset.card_eq_zero, ← Finset.length_sort (· ≤ ·), hsort]
        rfl
      rw [if_pos hempty]
      rfl
  | cons e rest =>
      have hne : sharedEntities clusters i j ≠ ∅ := by
        intro hempty
        rw [hempty, Finset.sort_empty] at hsort
        cases hsort
      rw [if_neg hne]
      exact gather_add _ rest _

end Scored

end Index

/-! ## What a pair accumulates -/

section Accumulated

variable {F : Type} [Field F] [LinearOrder F] [Logarithm F] (weight : String → F)

theorem accumulate_snoc (es : List String) (e : String) :
    accumulate weight (es ++ [e]) = (accumulate weight es).add e (weight e) := by
  unfold accumulate
  rw [List.foldl_append]
  rfl

theorem accumulate_sharedWeight (es : List String) :
    (accumulate weight es).sharedWeight = (es.map weight).sum := by
  induction es using List.reverseRecOn with
  | nil => exact Rat.cast_zero
  | append_singleton es e ih =>
      rw [accumulate_snoc, List.map_append, List.sum_append, ← ih]
      simp [PairAcc.add]

theorem accumulate_strongKey (es : List String) :
    (accumulate weight es).strongKey = es.find? fun e => linkStrength e = some .strong := by
  induction es using List.reverseRecOn with
  | nil => rfl
  | append_singleton es e ih =>
      rw [accumulate_snoc, List.find?_append, ← ih]
      by_cases he : linkStrength e = some .strong
      · simp [PairAcc.add, he]
      · simp [PairAcc.add, he]

theorem accumulate_bestWeak {es : List String} (hsorted : es.Pairwise (· < ·))
    (hweak : ∀ e ∈ es, linkStrength e ≠ some .strong) (hne : es ≠ []) :
    ∃ key, (accumulate weight es).bestWeak = some (weight key, key) ∧
      IsHeaviest weight es.toFinset key := by
  induction es using List.reverseRecOn with
  | nil => exact absurd rfl hne
  | append_singleton es e ih =>
      have hlast : linkStrength e ≠ some .strong := hweak e (by simp)
      rw [accumulate_snoc]
      by_cases hes : es = []
      · subst hes
        refine ⟨e, ?_, ⟨by simp, by simp, by simp⟩⟩
        simp [PairAcc.add, hlast, accumulate, PairAcc.empty]
      · obtain ⟨hinit, _, hbelow⟩ := List.pairwise_append.mp hsorted
        obtain ⟨key, hbest, hkey⟩ := ih hinit (fun x hx => hweak x (List.mem_append_left _ hx)) hes
        have hmem : key ∈ es := List.mem_toFinset.mp hkey.mem
        by_cases hgt : weight key < weight e
        · -- the entity outweighs all before it
          refine ⟨e, ?_, ⟨by simp, ?_, ?_⟩⟩
          · simp [PairAcc.add, hlast, hbest, Score.gt_iff, hgt]
          · intro x hx
            rcases List.mem_append.mp (List.mem_toFinset.mp hx) with hin | hin
            · exact (hkey.le x (List.mem_toFinset.mpr hin)).trans hgt.le
            · rw [List.mem_singleton.mp hin]
          · intro x hx heq
            rcases List.mem_append.mp (List.mem_toFinset.mp hx) with hin | hin
            · have hle := hkey.le x (List.mem_toFinset.mpr hin)
              exact absurd (heq ▸ hle) (not_le.mpr hgt)
            · rw [List.mem_singleton.mp hin]
        · -- the best before it stays, also where both weigh the same
          refine ⟨key, ?_, ⟨by simp [hmem], ?_, ?_⟩⟩
          · simp [PairAcc.add, hlast, hbest, Score.gt_iff, hgt]
          · intro x hx
            rcases List.mem_append.mp (List.mem_toFinset.mp hx) with hin | hin
            · exact hkey.le x (List.mem_toFinset.mpr hin)
            · rw [List.mem_singleton.mp hin]
              exact not_lt.mp hgt
          · intro x hx heq
            rcases List.mem_append.mp (List.mem_toFinset.mp hx) with hin | hin
            · exact hkey.tie x (List.mem_toFinset.mpr hin) heq
            · rw [List.mem_singleton.mp hin]
              exact (hbelow key hmem e List.mem_cons_self).le

end Accumulated

/-! ## The weights of a cluster -/

section Weights

variable {F : Type} [Field F] [LinearOrder F] [Logarithm F] {clusters : Fin n → LinkCluster}
  (entityWeights : EntityWeights F)

theorem gradedWeight_of_nodup (hentities : ∀ i, (clusters i).entities.Nodup) :
    gradedWeight clusters entityWeights = sliceWeight clusters entityWeights := by
  funext e
  unfold gradedWeight sliceWeight
  rw [length_carriers hentities]

theorem addWeights_apply {carry : String → List (Fin n)} (hcarry : ∀ e, (carry e).Nodup)
    (weight : String → F) (keys : List String) (cw : Fin n → F) (i : Fin n) :
    addWeights carry weight keys cw i =
      cw i + ((keys.filter fun e => i ∈ carry e).map weight).sum := by
  induction keys generalizing cw with
  | nil => simp [addWeights]
  | cons e rest ih =>
      have hstep : addWeights carry weight (e :: rest) cw i = addWeights carry weight rest
          ((carry e).foldl (fun cw j => Function.update cw j (cw j + weight e)) cw) i := rfl
      rw [hstep, ih, foldl_update_apply, List.Nodup.count (hcarry e)]
      by_cases hi : i ∈ carry e
      · simp [hi, add_assoc]
      · simp [hi]

theorem clusterWeights_of_nodup (hentities : ∀ i, (clusters i).entities.Nodup) (i : Fin n) :
    clusterWeights clusters entityWeights i =
      ∑ e ∈ (clusters i).linkable, sliceWeight clusters entityWeights e := by
  rw [clusterWeights_eq_addWeights, addWeights_apply (carriers_nodup hentities),
    gradedWeight_of_nodup entityWeights hentities]
  simp only [mem_carriers, keys_filter (Finset.Subset.refl _)]
  have hzero : (Score.lit 0 : F) = 0 := Rat.cast_zero
  have hset := Finset.sort_toFinset (clusters i).linkable (· ≤ ·)
  rw [hzero, zero_add, ← List.sum_toFinset _ (Finset.sort_nodup _ _), hset]

/-! Weights are positive, so a shared entity always leaves something to divide by. -/

theorem splitNamespace_of_startsWith {e ns : String} (hns : ∀ c ∈ ns.toList, c ≠ ':')
    (h : startsWith e (ns ++ ":") = true) : (splitNamespace e).map Prod.fst = some ns := by
  obtain ⟨rest, hrest⟩ := List.isPrefixOf_iff_prefix.mp h
  rw [String.toList_append, List.append_assoc] at hrest
  have htake : e.toList.takeWhile (· ≠ ':') = ns.toList := by
    rw [← hrest, List.takeWhile_append_of_pos (by simpa using hns)]
    exact List.append_nil _
  have hlength : ns.toList.length < e.toList.length := by
    rw [← hrest, List.length_append, List.length_append]
    show _ < _ + (1 + _)
    omega
  unfold splitNamespace
  simp only [htake, if_pos hlength, Option.map_some, String.ofList_toList]

theorem namespaces_of_linkStrength {e : String} (h : (linkStrength e).isSome) :
    ∃ ns ∈ ["cve", "url", "user", "repo", "place", "org", "person"],
      startsWith e (ns ++ ":") = true := by
  by_contra hnone
  have hno : ∀ ns ∈ ["cve", "url", "user", "repo", "place", "org", "person"],
      startsWith e (ns ++ ":") = false := by simpa using hnone
  unfold linkStrength at h
  simp only [List.forall_mem_cons, List.not_mem_nil] at hno
  obtain ⟨hcve, hurl, huser, hrepo, hplace, horg, hperson, _⟩ := hno
  simp_all

variable [IsStrictOrderedRing F]

theorem namespacePrior_pos {e : String} (h : (linkStrength e).isSome) :
    0 < (namespacePrior e : F) := by
  have hlit : ∀ q : ℚ, 0 < q → 0 < (Score.lit q : F) := fun q hq => Rat.cast_pos.mpr hq
  obtain ⟨ns, hns, hstarts⟩ := namespaces_of_linkStrength h
  have hcolon : ∀ ns ∈ ["cve", "url", "user", "repo", "place", "org", "person"],
      ∀ c ∈ ns.toList, c ≠ ':' := by simp
  unfold namespacePrior
  rw [splitNamespace_of_startsWith (hcolon ns hns) hstarts]
  simp only [List.mem_cons, List.not_mem_nil, or_false] at hns
  rcases hns with rfl | rfl | rfl | rfl | rfl | rfl | rfl
  all_goals exact hlit _ (by norm_num)

theorem sliceWeight_pos (hmultipliers : ∀ (e : String) (m : F), entityWeights[e]? = some m → 0 < m)
    (hidf : ∀ df ≤ n, (1 : F) ≤ idf df n) {e : String} (h : (linkStrength e).isSome) :
    0 < (sliceWeight clusters entityWeights e : F) := by
  have hdf : documentFrequency clusters e ≤ n := by
    refine (Finset.card_filter_le _ _).trans ?_
    rw [Finset.card_univ, Fintype.card_fin]
  have hmultiplier : 0 < (entityWeights[e]?).getD (Score.lit 1) := by
    cases hm : entityWeights[e]? with
    | none => exact Rat.cast_pos.mpr one_pos
    | some m => exact hmultipliers e m hm
  exact mul_pos (mul_pos (namespacePrior_pos h) (one_pos.trans_le (hidf _ hdf))) hmultiplier

omit [IsStrictOrderedRing F] in
theorem union_eq (i j : Fin n) :
    (∑ e ∈ (clusters i).linkable, sliceWeight clusters entityWeights e) +
        (∑ e ∈ (clusters j).linkable, sliceWeight clusters entityWeights e) -
        sharedWeight clusters entityWeights i j =
      ∑ e ∈ (clusters i).linkable ∪ (clusters j).linkable,
        (sliceWeight clusters entityWeights e : F) := by
  rw [← Finset.sum_union_inter]
  exact add_sub_cancel_right _ _

theorem union_pos (hmultipliers : ∀ (e : String) (m : F), entityWeights[e]? = some m → 0 < m)
    (hidf : ∀ df ≤ n, (1 : F) ≤ idf df n) {i j : Fin n}
    (hshared : sharedEntities clusters i j ≠ ∅) :
    0 < ∑ e ∈ (clusters i).linkable ∪ (clusters j).linkable,
      (sliceWeight clusters entityWeights e : F) := by
  obtain ⟨key, hkey⟩ := Finset.nonempty_iff_ne_empty.mpr hshared
  refine Finset.sum_pos ?_ ⟨key, Finset.mem_union_left _ (Finset.mem_inter.mp hkey).1⟩
  intro e he
  refine sliceWeight_pos entityWeights hmultipliers hidf ?_
  rcases Finset.mem_union.mp he with hi | hj
  · exact (LinkCluster.mem_linkable.mp hi).2
  · exact (LinkCluster.mem_linkable.mp hj).2

end Weights

/-! ## Both definitions agree -/

/-- Over one slice, every function of the document frequency is the one some logarithm gives. -/
theorem exists_logarithm {F : Type} [Field F] [LinearOrder F] [IsStrictOrderedRing F] (g : Nat → F)
    (n : Nat) : ∃ log : Logarithm F, ∀ df, @idf F (@exactScore F _ _ log).toScore df n = g df := by
  let ratio : Nat → F :=
    fun df => (((n : ℚ) : F) + ((1 : ℚ) : F)) / (((df : ℚ) : F) + ((1 : ℚ) : F))
  have hpos : ∀ k : Nat, ((k : ℚ) : F) + ((1 : ℚ) : F) ≠ 0 := by
    intro k
    have hk : (0 : F) < (k : F) + 1 := Nat.cast_add_one_pos k
    simpa using hk.ne'
  have hratio : Function.Injective ratio := by
    intro df df' h
    have hcross := (div_eq_div_iff (hpos df) (hpos df')).mp h
    have hden := mul_left_cancel₀ (hpos n) hcross
    simpa using hden.symm
  refine ⟨⟨Function.extend ratio (fun df => g df - ((1 : ℚ) : F)) id⟩, ?_⟩
  intro df
  show Function.extend ratio _ _ (ratio df) + ((1 : ℚ) : F) = g df
  rw [hratio.extend_apply, sub_add_cancel]

section Agree

variable {F : Type} [Field F] [LinearOrder F] [IsStrictOrderedRing F] [Logarithm F]

theorem literals : (wJaccard : F) = 7 / 10 ∧ (wTemporal : F) = 3 / 10 ∧
    (weakEdgeThreshold : F) = 35 / 100 ∧ (weakMinJaccard : F) = 2 / 10 ∧
    (saturatedWj : F) = 999 / 1000 ∧ (minSaturatedSharedWeight : F) = 12 / 10 := by
  have hlit : ∀ q : ℚ, (Score.lit q : F) = (q : F) := fun _ => rfl
  unfold wJaccard wTemporal weakEdgeThreshold weakMinJaccard saturatedWj minSaturatedSharedWeight
  simp only [hlit]
  norm_num

theorem gradePair_weak {p : PairAcc F} {wa wb closeness weight : F} {key : String}
    (hstrong : p.strongKey = none) (hbest : p.bestWeak = some (weight, key))
    (hunion : 0 < wa + wb - p.sharedWeight) {wj score : F}
    (hwj : wj = p.sharedWeight / (wa + wb - p.sharedWeight))
    (hscore : score = 7 / 10 * wj + 3 / 10 * closeness) (grade : Bool × F × String) :
    gradePair p wa wb closeness = some grade ↔
      (35 / 100 ≤ score ∧ 2 / 10 ≤ wj) ∧ (999 / 1000 ≤ wj → 12 / 10 ≤ p.sharedWeight) ∧
        grade = (false, score, "shared " ++ key) := by
  obtain ⟨hj, ht, hedge, hmin, hsat, hfloor⟩ := literals (F := F)
  have hgt : Score.gt (wa + wb - p.sharedWeight) (Score.lit 0) = true :=
    Score.gt_iff.mpr (Rat.cast_zero.trans_lt hunion)
  unfold gradePair
  simp only [hstrong, hbest, hgt, if_true, hj, ht, hedge, hmin, hsat, hfloor, Bool.or_eq_true,
    Bool.and_eq_true, Score.lt_iff, Score.ge_iff, Option.map_some, ← hwj, ← hscore]
  by_cases hbar : 35 / 100 ≤ score ∧ 2 / 10 ≤ wj
  · rw [if_neg (by rw [not_or, not_lt, not_lt]; exact hbar)]
    by_cases hsaturated : 999 / 1000 ≤ wj ∧ p.sharedWeight < 12 / 10
    · rw [if_pos hsaturated]
      refine iff_of_false (by simp) ?_
      intro h
      exact absurd (h.2.1 hsaturated.1) (not_le.mpr hsaturated.2)
    · rw [if_neg hsaturated, Option.some.injEq, eq_comm]
      have himp : 999 / 1000 ≤ wj → 12 / 10 ≤ p.sharedWeight :=
        fun h => not_lt.mp fun hlt => hsaturated ⟨h, hlt⟩
      exact ⟨fun h => ⟨hbar, himp, h⟩, fun h => h.2.2⟩
  · rw [if_pos (by rw [← not_le, ← not_le, ← not_and_or]; exact hbar)]
    exact iff_of_false (by simp) fun h => hbar h.1

variable {clusters : Fin n → LinkCluster} (entityWeights : EntityWeights F)

theorem find?_sort_eq_some {S : Finset String} {p : String → Bool} {key : String}
    (h : (S.sort (· ≤ ·)).find? p = some key) : IsLeast {e | e ∈ S ∧ p e = true} key := by
  obtain ⟨hkey, before, after, hlist, hbefore⟩ := List.find?_eq_some_iff_append.mp h
  have hmem : key ∈ S.sort (· ≤ ·) := by simp [hlist]
  refine ⟨⟨(Finset.mem_sort _).mp hmem, hkey⟩, ?_⟩
  intro e he
  have hin : e ∈ before ++ key :: after := hlist ▸ (Finset.mem_sort _).mpr he.1
  have hsorted : (before ++ key :: after).Pairwise (· ≤ ·) := hlist ▸ Finset.pairwise_sort S _
  rcases List.mem_append.mp hin with hin | hin
  · exact absurd he.2 (by simpa using hbefore e hin)
  rcases List.mem_cons.mp hin with rfl | hin
  · exact le_rfl
  · exact List.rel_of_pairwise_cons (List.pairwise_append.mp hsorted).2.1 hin

theorem pairGrade_iff (hentities : ∀ i, (clusters i).entities.Nodup)
    (hmultipliers : ∀ (e : String) (m : F), entityWeights[e]? = some m → 0 < m)
    (hidf : ∀ df ≤ n, (1 : F) ≤ idf df n) {i j : Fin n} (hij : i ≠ j)
    (strong : Bool) (score : F) (reason : String) :
    pairGrade clusters entityWeights i j = some (strong, score, reason) ↔
      PairwiseEdge clusters entityWeights i j strong score reason := by
  unfold pairGrade
  rw [pairAccs_of_nodup entityWeights hentities hij, gradedWeight_of_nodup entityWeights hentities,
    clusterWeights_of_nodup entityWeights hentities,
      clusterWeights_of_nodup entityWeights hentities]
  by_cases hshared : sharedEntities clusters i j = ∅
  · rw [if_pos hshared]
    refine iff_of_false (by simp) ?_
    rintro (hkey | ⟨_, hkey, _⟩)
    · exact absurd hkey.1.1 (by simp [hshared])
    · exact absurd hkey.mem (by simp [hshared])
  rw [if_neg hshared, Option.bind_some]
  have hstrongKey := accumulate_strongKey (sliceWeight clusters entityWeights)
    ((sharedEntities clusters i j).sort (· ≤ ·))
  cases hfind : ((sharedEntities clusters i j).sort (· ≤ ·)).find?
      fun e => linkStrength e = some .strong with
  | some key =>
      have hleast := find?_sort_eq_some hfind
      simp only [decide_eq_true_eq] at hleast
      rw [hfind] at hstrongKey
      unfold gradePair
      rw [hstrongKey, Option.some.injEq, Prod.mk.injEq, Prod.mk.injEq]
      constructor
      · rintro ⟨rfl, rfl, rfl⟩
        have hone : (Score.lit 1 : F) = 1 := Rat.cast_one
        rw [hone]
        exact .strong hleast
      · rintro (hkey | ⟨hnone, _⟩)
        · rw [hkey.unique hleast]
          exact ⟨rfl, Rat.cast_one, rfl⟩
        · exact absurd hleast.1.2 (hnone key hleast.1.1)
  | none =>
      have hnone : ∀ e ∈ sharedEntities clusters i j, linkStrength e ≠ some .strong := by
        simpa using hfind
      rw [hfind] at hstrongKey
      have hset := Finset.sort_toFinset (sharedEntities clusters i j) (· ≤ ·)
      have hweight : (accumulate (sliceWeight clusters entityWeights : String → F)
          ((sharedEntities clusters i j).sort (· ≤ ·))).sharedWeight =
          sharedWeight clusters entityWeights i j := by
        rw [accumulate_sharedWeight, ← List.sum_toFinset _ (Finset.sort_nodup _ _), hset]
        rfl
      obtain ⟨key, hbest, hkey⟩ := accumulate_bestWeak
        (sliceWeight clusters entityWeights : String → F)
        (Finset.sortedLT_sort (sharedEntities clusters i j)).pairwise
        (fun e he => hnone e ((Finset.mem_sort _).mp he))
        (fun hnil => hshared (by rw [← hset, hnil]; rfl))
      rw [hset] at hkey
      have hunion := union_pos entityWeights hmultipliers hidf hshared
      have hjaccard : weightedJaccard clusters entityWeights i j =
          sharedWeight clusters entityWeights i j / _ := rfl
      rw [← union_eq, ← hweight] at hunion hjaccard
      have hblend : blendedScore clusters entityWeights i j = 7 / 10 * _ + 3 / 10 * _ := rfl
      rw [gradePair_weak hstrongKey hbest hunion hjaccard hblend, hweight]
      constructor
      · rintro ⟨⟨hedge, hmin⟩, hsaturated, hgrade⟩
        obtain ⟨rfl, rfl, rfl⟩ : strong = false ∧
            score = blendedScore clusters entityWeights i j ∧ reason = "shared " ++ key := by
          simpa using hgrade
        exact .weak hnone hkey hedge hmin hsaturated
      · rintro (hleast | ⟨_, hkey', hedge, hmin, hsaturated⟩)
        · exact absurd hleast.1.2 (hnone _ hleast.1.1)
        · rw [hkey'.unique hkey]
          exact ⟨⟨hedge, hmin⟩, hsaturated, rfl⟩

/-- Scoring the pairs the index brings together finds the edges of the pairwise rule. -/
theorem scoreEdges_pairwise (clusters : Fin n → LinkCluster) (entityWeights : EntityWeights F)
    (hentities : ∀ i, (clusters i).entities.Nodup)
    (hmultipliers : ∀ (e : String) (m : F), entityWeights[e]? = some m → 0 < m)
    (hidf : ∀ df ≤ n, (1 : F) ≤ idf df n) :
    PairwiseScored clusters entityWeights (scoreEdges clusters entityWeights) where
  rule := by
    intro e
    rw [mem_scoreEdges]
    by_cases hends : e.a = e.b
    · have hnone : pairGrade clusters entityWeights e.a e.b = none := by
        unfold pairGrade
        rw [← hends, pairAccs_getElem?, pairContributions_self entityWeights hentities]
        rfl
      rw [hnone]
      exact iff_of_false (by simp) fun h => absurd hends h.1.ne
    · rw [pairGrade_iff entityWeights hentities hmultipliers hidf hends, lt_iff_le_and_ne]
      simp [hends]
  once := (scoreEdges_simple clusters entityWeights).nodup

end Agree

/-! ## A slice with edges of both kinds -/

instance : Logarithm ℚ := ⟨lnSeries⟩

/-- A pair with a strong key, a pair that shares a person and a pair that shares nothing. -/
def gradedClusters : Fin 3 → LinkCluster :=
  ![feedCluster 1 ["cve:a", "person:x"] 0, feedCluster 2 ["cve:a", "place:y"] 0,
    feedCluster 3 ["org:z", "person:x"] 0]

theorem scoreEdges_pairwise_graded :
    PairwiseScored gradedClusters ((∅ : EntityWeights ℚ).insert "place:y" (1 / 2))
      (scoreEdges gradedClusters ((∅ : EntityWeights ℚ).insert "place:y" (1 / 2))) := by
  refine scoreEdges_pairwise _ _ (by decide) ?_ (by decide +kernel)
  intro e m hm
  rw [Std.ExtTreeMap.getElem?_insert] at hm
  split at hm
  · obtain rfl := Option.some.inj hm
    norm_num
  · simp at hm

end Bulletin
