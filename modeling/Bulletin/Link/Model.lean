import Mathlib.Data.Prod.Lex
import Mathlib.Order.Nat
import Std.Data.ExtTreeMap
import Std.Data.ExtTreeSet
import Bulletin.Common.Types
import Bulletin.Common.Score

/-! # Linking: inputs and outputs

A slice of `n` clusters is a function on its indices. Ids on the way in and on the
way out are plain uuids; indices live only between the stages of one run.
-/

namespace Bulletin

/-- A candidate cluster for linking. -/
structure LinkCluster where
  id : Uuid
  entities : List String
  firstEventTime : DateTime
  lastEventTime : DateTime
  source : SourceKind
  /-- Unbounded, where the source counts and sums in 32 bits. -/
  eventCount : Int
  contentDepth : ContentKind
  maxSeverity : Option Int
  /-- The subscriber's own private content rather than a shared public cluster. -/
  isOwnPrivate : Bool

/-- One cluster's membership in the prior assignment. -/
structure PriorMember where
  clusterId : Uuid
  storyId : Uuid
  delivered : Bool
deriving DecidableEq, Repr

/-- A member of a linked story and why it belongs. -/
structure ClusterRef where
  clusterId : Uuid
  linkReason : Option String
deriving DecidableEq, Repr

/-- A component of clusters under a forwarded or fresh id, with its rollups. -/
structure LinkedStory where
  id : Uuid
  clusters : List ClusterRef
  firstEventTime : DateTime
  lastEventTime : DateTime
  /-- Unbounded, where the source counts and sums in 32 bits. -/
  eventCount : Int
  sourceDiversity : Int
  contentDepth : ContentKind
  maxSeverity : Option Int
  hasPrivate : Bool
deriving DecidableEq, Repr

/-- The clusters a story is made of. -/
def LinkedStory.members (story : LinkedStory) : List Uuid := story.clusters.map (·.clusterId)

/-- A prior story absorbed into the story that keeps the id `survivor`. -/
structure Merge where
  loser : Uuid
  survivor : Uuid
deriving DecidableEq, Repr

structure Assignment where
  stories : List LinkedStory
  merges : List Merge
deriving DecidableEq, Repr

/-- Per-entity multipliers; an entity not listed counts once. -/
abbrev EntityWeights (F : Type) := Std.ExtTreeMap String F compare

structure LinkConstraints where
  mustLink : Std.ExtTreeSet (Uuid ×ₗ Uuid) compare := ∅
  cannotLink : Std.ExtTreeSet (Uuid ×ₗ Uuid) compare := ∅

namespace LinkConstraints

/-- A pair of cluster ids, smaller one first. -/
def key (a b : Uuid) : Uuid ×ₗ Uuid := if a ≤ b then toLex (a, b) else toLex (b, a)

/-- Record that two clusters belong together. -/
def must (c : LinkConstraints) (a b : Uuid) : LinkConstraints :=
  { c with mustLink := c.mustLink.insert (key a b) }

def cannot (c : LinkConstraints) (a b : Uuid) : LinkConstraints :=
  { c with cannotLink := c.cannotLink.insert (key a b) }

theorem key_comm (a b : Uuid) : key a b = key b a := by
  unfold key
  split <;> split
  · rename_i hab hba
    rw [le_antisymm hab hba]
  · rfl
  · rfl
  · rename_i hab hba
    exact absurd (le_of_not_ge hab) hba

end LinkConstraints

/-- The feedback seams of one subscriber; empty means no feedback. -/
structure LinkTuning (F : Type) where
  entityWeights : EntityWeights F := ∅
  constraints : LinkConstraints := {}

/-- A scored link between two clusters, by index. -/
structure Edge (n : Nat) (F : Type) where
  a : Fin n
  b : Fin n
  strong : Bool
  score : F
  reason : String
deriving DecidableEq, Repr

/-- The members of a component. An entry is created by its first member, so it is
never empty. -/
structure Members (n : Nat) where
  toList : List (Fin n)
  nonempty : toList ≠ []
deriving DecidableEq, Repr

abbrev Components (n : Nat) := Std.ExtTreeMap (Fin n) (Members n) compare

/-- The components split the slice: each index is in exactly one of them, once. -/
def Components.Partitions {n : Nat} (components : Components n) : Prop :=
  (components.toList.flatMap fun entry => entry.2.toList).Perm (List.finRange n)

end Bulletin
