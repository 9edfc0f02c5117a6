import Std.Data.ExtTreeMap
import Bulletin.Common.Types

/-! # Digests

One digest for each subscriber and window, with the stories selected for it frozen
in render order.
-/

namespace Bulletin

/-- How an item is rendered, by its richness. -/
inductive Format where
  | story
  | note
deriving DecidableEq, Repr

structure Shown where
  lastEventTime : DateTime
  format : Format
deriving DecidableEq, Repr

/-- A story selected into a digest, with the snapshot to freeze. -/
structure FrozenItem where
  storyId : Uuid
  lastEventTime : DateTime
  format : Format
deriving DecidableEq, Repr

/-- A row of `digest_item`; the snapshot columns are null on rows older than them. -/
structure DigestItem where
  storyId : Uuid
  position : Nat
  storyLastEventTime : Option DateTime
  format : Option Format
deriving DecidableEq, Repr

/-- A row of `digest` with its items. -/
structure DigestRow where
  subscriberId : Uuid
  windowEnd : DateTime
  deliveredAt : Option DateTime
  items : List DigestItem
deriving DecidableEq, Repr

abbrev DigestTable := Std.ExtTreeMap Uuid DigestRow compare

/-- The snapshot an item was frozen with. -/
def DigestItem.shown (item : DigestItem) : Option Shown :=
  item.storyLastEventTime.bind fun t => item.format.map fun f => ⟨t, f⟩

/-- The item written for a selected story. -/
def FrozenItem.row (item : FrozenItem) (position : Nat) : DigestItem where
  storyId := item.storyId
  position := position
  storyLastEventTime := some item.lastEventTime
  format := some item.format

end Bulletin
