import Mathlib.Logic.Function.Basic
import Bulletin.Cluster.Rollup

/-! # Cluster rows and builds

A build is one transaction. It reads what its scope's watermark leaves, group by group,
and nobody sees the rows it upserts before it commits.
-/

namespace Bulletin

/-- The columns a build writes. -/
structure CachedCluster where
  rollup : ClusterRollup
  updatedAt : DateTime
deriving DecidableEq, Repr

abbrev ClusterCache := GroupKey → Option CachedCluster

/-- Bump the cluster of a group if there is one, and raise its depth if asked to. -/
def touchGroup (now : DateTime) (key : GroupKey) (raiseLongform : Bool) (cluster : ClusterCache) :
    ClusterCache :=
  Function.update cluster key ((cluster key).map fun row =>
    { rollup := if raiseLongform then { row.rollup with contentDepth := .longform } else row.rollup
      updatedAt := now })

/-- The high watermark of a build that started at `started`. Private builds have no grace. -/
def buildHwm (scope : Scope) (started : DateTime) (enrichGrace : Nat) : DateTime :=
  match scope with
  | .ofPublic => started - enrichGrace
  | .ofPrivate _ => started

structure Build where
  number : Nat
  started : DateTime
  lo : DateTime
  hwm : DateTime
  /-- The dirty groups still to read, once they are listed. -/
  groups : Option (List GroupKey) := none
  /-- The group just read. -/
  reading : Option (GroupKey × List Event) := none
  /-- The rows upserted so far, by the events they are the rollup of. -/
  rows : GroupKey → Option (List Event) := fun _ => none

/-- The bounds of a build that takes its scope's lock. -/
def Build.start (number : Nat) (scope : Scope) (started : DateTime) (enrichGrace : Nat)
    (builtThrough : DateTime) : Build :=
  { number := number, started := started, lo := builtThrough,
    hwm := buildHwm scope started enrichGrace }

def Build.list (b : Build) (log : List Event) (scope : Scope) : Build :=
  { b with groups := some (dirtyGroups log scope b.lo b.hwm) }

/-- Read one of the groups that are left. -/
def Build.read (b : Build) (log : List Event) (left : List GroupKey) (key : GroupKey) : Build :=
  { b with groups := some (left.erase key), reading := some (key, listGroupEvents log key) }

/-- Upsert the group just read, unless it is empty. -/
def Build.upsert (b : Build) (key : GroupKey) (events : List Event) : Build :=
  { b with
    reading := none
    rows := if rollup events = none then b.rows else Function.update b.rows key (some events) }

def Build.commit (b : Build) (cluster : ClusterCache) : ClusterCache := fun key =>
  match b.rows key with
  | none => cluster key
  | some events => (rollup events).map fun r => { rollup := r, updatedAt := b.started }

def Build.holds (b : Build) (key : GroupKey) : Option (List Event) :=
  match b.reading with
  | none => b.rows key
  | some (k, events) => if k = key then some events else b.rows key

/-- The build has upserted a row that others can see, and keeps it locked. -/
def Build.locks (b : Build) (cluster : ClusterCache) (key : GroupKey) : Bool :=
  (b.rows key).isSome && (cluster key).isSome

/-! ## Reads of a build -/

section Holds

variable {b : Build} {log : List Event} {left : List GroupKey} {key k : GroupKey}
  {events : List Event}

theorem Build.holds_rows (h : b.reading = none) : b.holds key = b.rows key := by
  unfold Build.holds
  rw [h]

theorem Build.holds_read (h : b.reading = none) : (b.read log left k).holds key =
    if k = key then some (listGroupEvents log k) else b.holds key := by
  unfold Build.holds
  rw [h]
  rfl

theorem Build.holds_upsert (h : b.reading = some (k, events)) (hne : rollup events ≠ none) :
    (b.upsert k events).holds key = b.holds key := by
  unfold Build.holds Build.upsert
  rw [h, if_neg hne]
  dsimp only
  by_cases hkey : k = key
  · subst hkey
    rw [if_pos rfl, Function.update_self]
  · rw [if_neg hkey, Function.update_of_ne (Ne.symm hkey)]

theorem Build.commit_rollup (h : b.reading = none) {cluster : ClusterCache} :
    ((b.commit cluster) key).map (·.rollup) = match b.holds key with
      | some L => rollup L
      | none => (cluster key).map (·.rollup) := by
  unfold Build.commit Build.holds
  rw [h]
  dsimp only
  cases b.rows key with
  | none => rfl
  | some L =>
      dsimp only
      cases rollup L <;> rfl

end Holds

end Bulletin
