import Std.Data.ExtTreeMap
import Bulletin.Summarize.Model

/-! # Clusters and events

The part of the `cluster` and `event` tables the digest reads: the identity that
ties an event to its cluster, and the fields shown.
-/

namespace Bulletin

/-- Who may read a row: everyone, or one subscriber. -/
inductive Scope where
  | ofPublic
  | ofPrivate (subscriber : Uuid)
deriving DecidableEq, Repr

def Scope.visibleTo (sub : Uuid) : Scope → Bool
  | ofPublic => true
  | ofPrivate owner => owner == sub

/-- The identity of a cluster among the events. -/
structure GroupKey where
  scope : Scope
  source : SourceKind
  groupKey : String
deriving DecidableEq, Repr

structure ClusterRow where
  key : GroupKey
  title : String
  link : Option String
  lastEventTime : DateTime
  summary : ClusterSummary
  summaryHash : Option (List UInt8)
deriving DecidableEq, Repr

abbrev ClusterTable := Std.ExtTreeMap Uuid ClusterRow compare

structure EventRow where
  id : Uuid
  key : GroupKey
  eventTime : DateTime
  title : String
  links : List String
deriving DecidableEq, Repr

def readClusters (cluster : ClusterTable) (sub : Uuid) (ids : List Uuid) :
    List (Uuid × ClusterRow) :=
  cluster.toList.filter fun entry => entry.1 ∈ ids ∧ entry.2.key.scope.visibleTo sub

end Bulletin
