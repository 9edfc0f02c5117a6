import Mathlib.Order.Nat
import Mathlib.Order.Lattice

/-! # Shared value types

Ids are opaque and compared by age (a version 7 id sorts by its creation time),
instants count microseconds, and the two text enumerations keep the declaration
order the source derives its comparisons from.
-/

namespace Bulletin

abbrev Uuid := Nat

/-- Microseconds since the epoch. -/
abbrev DateTime := Int

def numSeconds (duration : Int) : Int := Int.tdiv duration 1000000

inductive SourceKind where
  | rss
  | github
  | slack
deriving DecidableEq, Repr

inductive ContentKind where
  | message
  | announcement
  | longform
deriving DecidableEq, Repr

def ContentKind.depth : ContentKind → Nat
  | message => 0
  | announcement => 1
  | longform => 2

theorem ContentKind.depth_injective : Function.Injective ContentKind.depth := by
  intro a b h
  cases a <;> cases b <;> first | rfl | cases h

instance : LinearOrder ContentKind :=
  LinearOrder.lift' ContentKind.depth ContentKind.depth_injective

end Bulletin
