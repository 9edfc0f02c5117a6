import Mathlib.Data.Rat.Cast.Order
import Mathlib.Algebra.Order.Field.Basic

/-! # Score arithmetic

Scoring is written over any type with the operations it uses of a float and
with no law about them. Results about components and ids hold for every such
arithmetic. Results that compare scores ask for `ExactScore`, where a comparison
never fails and addition commutes.
-/

namespace Bulletin

class Score (F : Type) extends Add F, Sub F, Mul F, Div F where
  /-- A literal of the source, or a cast of an integer. -/
  lit : ℚ → F
  ln : F → F
  /-- `none` when one side is not a number. -/
  partialCmp : F → F → Option Ordering

namespace Score

variable {F : Type} [Score F]

def lt (x y : F) : Bool := partialCmp x y == some .lt

def gt (x y : F) : Bool := partialCmp x y == some .gt

def ge (x y : F) : Bool := partialCmp x y == some .gt || partialCmp x y == some .eq

/-- The larger operand; an operand that is not a number gives way to the other. -/
def max (x y : F) : F :=
  match partialCmp x y with
  | some .lt => y
  | some _ => x
  | none => if partialCmp x x = none then y else x

end Score

/-- Scores as exact numbers. -/
class ExactScore (F : Type) [LinearOrder F] extends Score F where
  plus_comm : ∀ x y : F, x + y = y + x
  partialCmp_eq : ∀ x y : F, partialCmp x y = some (compare x y)

section Exact

variable {F : Type} [LinearOrder F] [ExactScore F] {x y : F}

theorem Score.lt_iff : Score.lt x y = true ↔ x < y := by
  simp [Score.lt, ExactScore.partialCmp_eq, compare_lt_iff_lt]

theorem Score.gt_iff : Score.gt x y = true ↔ y < x := by
  simp [Score.gt, ExactScore.partialCmp_eq, compare_gt_iff_gt]

theorem Score.ge_iff : Score.ge x y = true ↔ y ≤ x := by
  simp only [Score.ge, ExactScore.partialCmp_eq, Bool.or_eq_true, beq_iff_eq, Option.some.injEq,
    compare_gt_iff_gt, compare_eq_iff_eq]
  rw [le_iff_lt_or_eq, eq_comm]

end Exact

@[reducible] def Score.ofField (F : Type) [Field F] [LinearOrder F] (ln : F → F) : Score F where
  lit := fun q => q
  ln := ln
  partialCmp := fun x y => some (compare x y)

@[reducible] def ExactScore.ofField (F : Type) [Field F] [LinearOrder F] (ln : F → F) :
    ExactScore F where
  toScore := Score.ofField F ln
  plus_comm := fun x y => add_comm x y
  partialCmp_eq := fun _ _ => rfl

/-- Four terms of the series of the natural logarithm in `(x - 1) / (x + 1)`, off
by less than one in ten thousand on the arguments document frequencies give rise to. -/
def lnSeries (x : ℚ) : ℚ :=
  let z := (x - 1) / (x + 1)
  2 * (z + z ^ 3 / 3 + z ^ 5 / 5 + z ^ 7 / 7)

instance : ExactScore ℚ := ExactScore.ofField ℚ lnSeries

end Bulletin
