import Mathlib.Data.List.Forall2
import Mathlib.Data.List.Sort
import Mathlib.Order.Compare

/-! # Matched lists

Lists whose entries are related one by one. What looks at the entries only by tests that related
entries answer alike takes matched lists to matched lists: sorting, pairing up and searching.
-/

namespace Matched

open List Relator

variable {α β γ δ : Type*} {R : α → β → Prop} {S : γ → δ → Prop}

section Sorting

variable {le : α → α → Prop} {le' : β → β → Prop} [DecidableRel le] [DecidableRel le']

theorem rel_orderedInsert (hle : (R ⇒ R ⇒ Iff) le le') :
    (R ⇒ Forall₂ R ⇒ Forall₂ R) (List.orderedInsert le) (List.orderedInsert le') := by
  intro a a' ha l l' hl
  induction hl with
  | nil => exact .cons ha .nil
  | @cons b b' l l' hb hl ih =>
      rw [List.orderedInsert_cons, List.orderedInsert_cons]
      by_cases h : le a b
      · rw [if_pos h, if_pos ((hle ha hb).mp h)]
        exact .cons ha (.cons hb hl)
      · rw [if_neg h, if_neg (mt (hle ha hb).mpr h)]
        exact .cons hb ih

theorem rel_insertionSort (hle : (R ⇒ R ⇒ Iff) le le') :
    (Forall₂ R ⇒ Forall₂ R) (List.insertionSort le) (List.insertionSort le') := by
  intro l l' hl
  induction hl with
  | nil => exact .nil
  | cons ha hl ih =>
      rw [List.insertionSort_cons, List.insertionSort_cons]
      exact rel_orderedInsert hle ha ih

end Sorting

theorem rel_zip {l : List α} {l' : List β} {m : List γ} {m' : List δ} (hl : Forall₂ R l l')
    (hm : Forall₂ S m m') :
    Forall₂ (fun x y => R x.1 y.1 ∧ S x.2 y.2) (l.zip m) (l'.zip m') := by
  induction hl generalizing m m' with
  | nil => exact .nil
  | cons ha hl ih =>
      cases hm with
      | nil => exact .nil
      | cons hb hm => exact .cons ⟨ha, hb⟩ (ih hm)

theorem rel_find? {p : α → Bool} {q : β → Bool} (hpq : ∀ a b, R a b → p a = q b) {l : List α}
    {l' : List β} (hl : Forall₂ R l l') : Option.Rel R (l.find? p) (l'.find? q) := by
  induction hl with
  | nil => exact .none
  | @cons a b l l' hab hl ih =>
      rw [List.find?_cons, List.find?_cons, ← hpq a b hab]
      cases p a with
      | true => exact .some hab
      | false => exact ih

/-! ## Relations that keep an order -/

structure OrderKept {α β : Type*} [LinearOrder α] [LinearOrder β] (R : α → β → Prop) : Prop where
  le_iff : ∀ {a a' b b'}, R a a' → R b b' → (a ≤ b ↔ a' ≤ b')

namespace OrderKept

variable [LinearOrder α] [LinearOrder β] {a b : α} {a' b' : β}

theorem eq_iff (h : OrderKept R) (ha : R a a') (hb : R b b') : a = b ↔ a' = b' := by
  rw [le_antisymm_iff, le_antisymm_iff, h.le_iff ha hb, h.le_iff hb ha]

theorem lt_iff (h : OrderKept R) (ha : R a a') (hb : R b b') : a < b ↔ a' < b' := by
  rw [← not_le, ← not_le, h.le_iff hb ha]

theorem compare_eq (h : OrderKept R) (ha : R a a') (hb : R b b') : compare a b = compare a' b' := by
  rcases lt_trichotomy a b with hlt | heq | hgt
  · rw [compare_lt_iff_lt.mpr hlt, compare_lt_iff_lt.mpr ((h.lt_iff ha hb).mp hlt)]
  · rw [compare_eq_iff_eq.mpr heq, compare_eq_iff_eq.mpr ((h.eq_iff ha hb).mp heq)]
  · rw [compare_gt_iff_gt.mpr hgt, compare_gt_iff_gt.mpr ((h.lt_iff hb ha).mp hgt)]

end OrderKept

end Matched
