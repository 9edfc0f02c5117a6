import Mathlib.Data.List.Induction

/-! # Greedy passes

A pass over a list takes each element that fits what was taken before it. What it skips it skips
for a reason, and changes nothing for the elements after it.
-/

namespace Greedy

variable {α σ : Type*} (fits : σ → α → Bool) (add : σ → α → σ)

def taken : σ → List α → List α
  | _, [] => []
  | st, a :: as => if fits st a then a :: taken (add st a) as else taken st as

variable {fits add} {st : σ} {a : α} {as bs : List α}

theorem taken_cons_of_fits (h : fits st a = true) :
    taken fits add st (a :: as) = a :: taken fits add (add st a) as := by
  rw [taken, if_pos h]

theorem taken_cons_of_not (h : ¬ fits st a = true) :
    taken fits add st (a :: as) = taken fits add st as := by
  rw [taken, if_neg h]

theorem taken_sublist (st : σ) (as : List α) : List.Sublist (taken fits add st as) as := by
  induction as generalizing st with
  | nil => exact List.Sublist.refl _
  | cons a as ih =>
      by_cases h : fits st a = true
      · rw [taken_cons_of_fits h]
        exact (ih _).cons_cons a
      · rw [taken_cons_of_not h]
        exact (ih _).cons a

theorem taken_append (st : σ) (as bs : List α) :
    taken fits add st (as ++ bs) = taken fits add st as ++
      taken fits add ((taken fits add st as).foldl add st) bs := by
  induction as generalizing st with
  | nil => rfl
  | cons a as ih =>
      rw [List.cons_append]
      by_cases h : fits st a = true
      · rw [taken_cons_of_fits h, taken_cons_of_fits h, ih]
        rfl
      · rw [taken_cons_of_not h, taken_cons_of_not h, ih]

theorem taken_skip (h : ¬ fits ((taken fits add st as).foldl add st) a = true) :
    taken fits add st (as ++ a :: bs) = taken fits add st (as ++ bs) := by
  rw [taken_append, taken_append, taken_cons_of_not h]

theorem not_fits_of_not_mem (h : a ∉ taken fits add st (as ++ a :: bs)) :
    ¬ fits ((taken fits add st as).foldl add st) a = true := by
  intro hfits
  refine h ?_
  rw [taken_append, taken_cons_of_fits hfits]
  exact List.mem_append_right _ List.mem_cons_self

/-- What holds of nothing and is kept by each element that fits holds of all that is taken. -/
theorem taken_induction {P : List α → Prop} (st : σ) (as : List α) (hnil : P [])
    (hstep : ∀ bs a, P bs → fits (bs.foldl add st) a = true → P (bs ++ [a])) :
    P (taken fits add st as) := by
  induction as using List.reverseRecOn with
  | nil => exact hnil
  | append_singleton as a ih =>
      rw [taken_append]
      by_cases h : fits ((taken fits add st as).foldl add st) a = true
      · rw [taken_cons_of_fits h]
        exact hstep _ _ ih h
      · rw [taken_cons_of_not h]
        simpa [taken] using ih

theorem taken_limit {size : σ → Nat} (hsize : ∀ st a, size (add st a) = size st + 1) (m : Nat)
    (st : σ) (as : List α) :
    taken (fun st a => fits st a && decide (size st < m)) add st as =
      (taken fits add st as).take (m - size st) := by
  induction as generalizing st with
  | nil => simp [taken]
  | cons a as ih =>
      by_cases h : fits st a = true
      · rw [taken_cons_of_fits h]
        by_cases hroom : size st < m
        · have hleft : m - size st = (m - size (add st a)) + 1 := by
            have hnext := hsize st a
            omega
          rw [taken_cons_of_fits (by simp [h, hroom]), ih, hleft, List.take_succ_cons]
        · have hnone : m - size st = 0 := by omega
          rw [taken_cons_of_not (by simp [hroom]), ih, hnone, List.take_zero, List.take_zero]
      · rw [taken_cons_of_not h, taken_cons_of_not (by simp [h]), ih]

end Greedy
