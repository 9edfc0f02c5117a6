import Mathlib.Algebra.BigOperators.Fin
import Mathlib.Algebra.Order.BigOperators.Group.List
import Mathlib.Algebra.Order.Field.Basic
import Mathlib.Algebra.Order.Rearrangement
import Mathlib.Data.Fin.Tuple.Sort
import Mathlib.Data.List.OfFn

/-! # Discounted gains

The gains of a ranking, each weighed by the discount of its position. With a discount that falls
strictly, no order of the gains has a higher sum than the descending one, and no other order
reaches it.
-/

namespace DiscountedGain

section Sums

variable {F : Type*} [Semiring F] {discount : ℕ → F}

/-- The sum of the gains, each times the discount of its position. -/
def dcg (discount : ℕ → F) (gains : List F) : F :=
  (gains.zipIdx.map fun p => p.1 * discount p.2).sum

theorem dcg_ofFn {n : ℕ} (f : Fin n → F) :
    dcg discount (List.ofFn f) = ∑ i, f i * discount i := by
  have hlist : ((List.ofFn f).zipIdx.map fun p => p.1 * discount p.2) =
      List.ofFn fun i => f i * discount i := by
    refine List.ext_getElem (by simp) fun i hi hj => ?_
    simp
  rw [dcg, hlist, List.sum_ofFn]

end Sums

section Orders

variable {F : Type*} [LinearOrder F] {discount : ℕ → F}

def descending (gains : List F) : List F := gains.insertionSort (· ≥ ·)

def sortPerm {n : ℕ} (f : Fin n → F) : Equiv.Perm (Fin n) := Tuple.sort (OrderDual.toDual ∘ f)

theorem antitone_sortPerm {n : ℕ} (f : Fin n → F) : Antitone (f ∘ sortPerm f) :=
  fun _ _ hij => Tuple.monotone_sort (OrderDual.toDual ∘ f) hij

theorem descending_ofFn {n : ℕ} (f : Fin n → F) :
    descending (List.ofFn f) = List.ofFn (f ∘ sortPerm f) := by
  have hsorted : (List.ofFn (f ∘ sortPerm f)).Pairwise (· ≥ ·) :=
    List.pairwise_ofFn.mpr fun _ _ hij => antitone_sortPerm f hij.le
  refine List.Perm.eq_of_pairwise (fun _ _ _ _ hab hba => le_antisymm hba hab)
    (List.pairwise_insertionSort (· ≥ ·) (List.ofFn f)) hsorted ?_
  exact (List.perm_insertionSort _ _).trans (Equiv.Perm.ofFn_comp_perm (sortPerm f) f).symm

theorem pairwise_ofFn_iff {n : ℕ} (hdiscount : StrictAnti discount) (f : Fin n → F) :
    (List.ofFn f).Pairwise (· ≥ ·) ↔ Monovary f fun i => discount i := by
  rw [List.pairwise_ofFn]
  constructor
  · intro h i j hij
    exact h (hdiscount.lt_iff_gt.mp hij)
  · intro h i j hij
    exact h (hdiscount hij)

end Orders

variable {F : Type*} [Field F] [LinearOrder F] [IsStrictOrderedRing F] {discount : ℕ → F}
  {gains : List F}

theorem dcg_le_descending (hdiscount : StrictAnti discount) :
    dcg discount gains ≤ dcg discount (descending gains) ∧
      (dcg discount gains = dcg discount (descending gains) ↔ gains.Pairwise (· ≥ ·)) := by
  obtain ⟨n, f, rfl⟩ : ∃ (n : ℕ) (f : Fin n → F), gains = List.ofFn f :=
    ⟨_, _, (List.ofFn_get gains).symm⟩
  have hback : ∀ i, (f ∘ sortPerm f) ((sortPerm f).symm i) = f i :=
    fun i => congrArg f ((sortPerm f).apply_symm_apply i)
  have hanti : Antitone fun i : Fin n => discount i := fun _ _ hij => hdiscount.antitone hij
  have hvary := (antitone_sortPerm f).monovary hanti
  rw [descending_ofFn, dcg_ofFn, dcg_ofFn, pairwise_ofFn_iff hdiscount]
  have hsum : ∑ i, f i * discount i =
      ∑ i, (f ∘ sortPerm f) ((sortPerm f).symm i) * discount i := by
    simp only [hback]
  have hcomp : (f ∘ sortPerm f) ∘ (sortPerm f).symm = f := funext hback
  rw [hsum]
  refine ⟨hvary.sum_comp_perm_mul_le_sum_mul, ?_⟩
  rw [hvary.sum_comp_perm_mul_eq_sum_mul_iff, hcomp]

theorem dcg_nonneg (hpos : ∀ i, 0 < discount i) (hgains : ∀ x ∈ gains, 0 ≤ x) :
    0 ≤ dcg discount gains := by
  unfold dcg
  refine List.sum_nonneg fun y hy => ?_
  obtain ⟨p, hp, rfl⟩ := List.mem_map.mp hy
  exact mul_nonneg (hgains p.1 (List.fst_mem_of_mem_zipIdx hp)) (hpos p.2).le

/-! ## The normalized sum -/

/-- The sum over that of the descending order, if that one is positive. -/
def ndcg (discount : ℕ → F) (gains : List F) : Option F :=
  if gains.isEmpty then none
  else
    let actual := dcg discount gains
    let ideal := dcg discount (descending gains)
    if 0 < ideal then some (actual / ideal) else none

/-- Between zero and one, and one for a descending ranking only. -/
theorem ndcg_spec (hpos : ∀ i, 0 < discount i) (hdiscount : StrictAnti discount)
    (hgains : ∀ x ∈ gains, 0 ≤ x) {v : F} (hv : ndcg discount gains = some v) :
    0 ≤ v ∧ v ≤ 1 ∧ (v = 1 ↔ gains.Pairwise (· ≥ ·)) := by
  unfold ndcg at hv
  by_cases hempty : gains.isEmpty = true
  · rw [if_pos hempty] at hv
    cases hv
  rw [if_neg hempty] at hv
  obtain ⟨hideal, hquotient⟩ := Option.ite_none_right_eq_some.mp hv
  obtain ⟨hle, heq⟩ := @dcg_le_descending _ _ _ _ _ gains hdiscount
  rw [← Option.some.inj hquotient]
  refine ⟨div_nonneg (dcg_nonneg hpos hgains) hideal.le, (div_le_one hideal).mpr hle, ?_⟩
  rw [div_eq_one_iff_eq hideal.ne', heq]

end DiscountedGain
