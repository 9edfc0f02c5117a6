import Mathlib.Data.List.AList
import Bulletin.Cluster.Build
import Bulletin.Summarize.Sweep

/-! # The cluster summarization sweep

A sweep loads the clusters that are due, reads the events of each, asks the model, and
writes what came of it on the row. The model and its gate are an outcome handed in.
-/

namespace Bulletin

/-! ## The content signature -/

/-- What one event contributes. Every field ends in a 0, every item of a list in a 1f. -/
def eventBytes (e : Event) : List UInt8 :=
  utf8 e.title ++ [0x00] ++ e.bestText.elim [] utf8 ++ [0x00] ++
    e.links.flatMap (fun l => utf8 l ++ [0x1f]) ++ [0x00] ++
    e.entities.flatMap (fun token => utf8 token ++ [0x1f]) ++ [0x00]

/-- The signature of the events a summary is made from, in their order. -/
def summaryHash (sha256 : List UInt8 → List UInt8) (events : List Event) : List UInt8 :=
  sha256 ((events.insertionSort fun x y => eventLe x y).flatMap eventBytes)

/-! ## Rows -/

/-- A cluster with its summary and the health of its summarization. -/
structure SummarizedCluster extends CachedCluster where
  summary : ClusterSummary := {}
  summaryHash : Option (List UInt8) := none
  summaryModel : Option String := none
  summarizedAt : Option DateTime := none
  summaryAttempts : Int := 0
  summaryLastError : Option String := none
  summaryFailedAt : Option DateTime := none
  summaryQuarantinedAt : Option DateTime := none
deriving DecidableEq, Repr

abbrev SummarizedTable := AList fun _ : GroupKey => SummarizedCluster

def modifyRow (key : GroupKey) (f : SummarizedCluster → SummarizedCluster)
    (table : SummarizedTable) : SummarizedTable :=
  match table.lookup key with
  | none => table
  | some row => table.insert key (f row)

theorem lookup_modifyRow {key k : GroupKey} {f : SummarizedCluster → SummarizedCluster}
    {table : SummarizedTable} : (modifyRow key f table).lookup k =
      if k = key then (table.lookup k).map f else table.lookup k := by
  unfold modifyRow
  by_cases hk : k = key
  · subst hk
    cases h : table.lookup k <;> simp [h]
  · cases table.lookup key <;> simp [hk, AList.lookup_insert_ne]

/-- The content moved since the last summary, there is none, or another model wrote it. -/
def SummarizedCluster.stale (currentModel : String) (row : SummarizedCluster) : Bool :=
  row.summarizedAt.all (· < row.updatedAt) || row.summaryModel != some currentModel

/-- Quarantined, with no content change since. -/
def SummarizedCluster.withheld (row : SummarizedCluster) : Bool :=
  row.summaryQuarantinedAt.any (row.updatedAt ≤ ·)

def SummarizedCluster.needsSummary (currentModel : String) (row : SummarizedCluster) : Bool :=
  row.stale currentModel && !row.withheld

/-- A cluster as the sweep reads it. -/
structure DueCluster where
  key : GroupKey
  summaryHash : Option (List UInt8)
  summaryAttempts : Int
  retryReset : Bool
deriving DecidableEq, Repr

def SummarizedCluster.dueCluster (key : GroupKey) (row : SummarizedCluster) : DueCluster where
  key := key
  summaryHash := row.summaryHash
  summaryAttempts := row.summaryAttempts
  retryReset := row.summaryQuarantinedAt.any (· < row.updatedAt)

/-- The clusters of a scope that are due, in the order of the table. -/
def dueRows (table : SummarizedTable) (scope : Scope) (currentModel : String) :
    List (Sigma fun _ : GroupKey => SummarizedCluster) :=
  table.entries.filter fun entry => entry.1.scope = scope ∧ entry.2.needsSummary currentModel

/-- `queue` is the first `limit` of the clusters that are due, newest first; ties are in any
order. -/
def ClustersNeedingSummary (table : SummarizedTable) (scope : Scope) (currentModel : String)
    (limit : Nat) (queue : List (Sigma fun _ : GroupKey => SummarizedCluster)) : Prop :=
  queue.Nodup ∧ (∀ entry ∈ queue, entry ∈ dueRows table scope currentModel) ∧
    queue.length = min limit (dueRows table scope currentModel).length ∧
    queue.Pairwise (fun x y => y.2.rollup.lastEventTime ≤ x.2.rollup.lastEventTime) ∧
    ∀ entry ∈ dueRows table scope currentModel, entry ∈ queue ∨
      ∀ x ∈ queue, entry.2.rollup.lastEventTime ≤ x.2.rollup.lastEventTime

instance (table : SummarizedTable) (scope : Scope) (currentModel : String) (limit : Nat)
    (queue : List (Sigma fun _ : GroupKey => SummarizedCluster)) :
    Decidable (ClustersNeedingSummary table scope currentModel limit queue) :=
  inferInstanceAs (Decidable (_ ∧ _ ∧ _ ∧ _ ∧ _))

theorem mem_dueRows {table : SummarizedTable} {scope : Scope} {currentModel : String}
    {key : GroupKey} {row : SummarizedCluster} : ⟨key, row⟩ ∈ dueRows table scope currentModel ↔
      table.lookup key = some row ∧ key.scope = scope ∧ row.needsSummary currentModel = true := by
  unfold dueRows
  rw [List.mem_filter, decide_eq_true_eq, ← AList.mem_lookup_iff, Option.mem_def]

/-! ## What the sweep writes -/

def touchSummarized (now : DateTime) (row : SummarizedCluster) : SummarizedCluster :=
  { row with
    summarizedAt := some now
    summaryAttempts := 0
    summaryLastError := none
    summaryFailedAt := none
    summaryQuarantinedAt := none }

def storeSummary (now : DateTime) (summary : ClusterSummary) (hash : List UInt8) (model : String)
    (row : SummarizedCluster) : SummarizedCluster :=
  { row with
    summary := summary
    summaryHash := some hash
    summaryModel := some model
    summarizedAt := some now
    summaryAttempts := 0
    summaryLastError := none
    summaryFailedAt := none
    summaryQuarantinedAt := none }

def recordSummaryFailure (now : DateTime) (attempts : Int) (error : String) (quarantine : Bool)
    (row : SummarizedCluster) : SummarizedCluster :=
  { row with
    summaryAttempts := attempts
    summaryLastError := some error
    summaryFailedAt := some now
    summaryQuarantinedAt := if quarantine then some now else none }

/-- One cluster of the queue: nothing to summarize, a cached text, or an attempt. -/
def attemptCluster (sha256 : List UInt8 → List UInt8) (events : List Event)
    (outcome : SummaryOutcome) (c : DueCluster) : SweepWrite :=
  if events = [] then .skip
  else
    let hash := summaryHash sha256 events
    if c.summaryHash = some hash then .touch
    else
      let attempt := if c.retryReset then 0 else c.summaryAttempts
      match outcome with
      | .faithful summary => .store summary hash
      | .failed failure =>
          let noted := noteSummaryFailure attempt
          .fail noted.1 failure.describe noted.2

theorem attemptCluster_store {sha256 : List UInt8 → List UInt8} {events : List Event}
    {outcome : SummaryOutcome} {c : DueCluster} {summary : ClusterSummary} {hash : List UInt8}
    (h : attemptCluster sha256 events outcome c = .store summary hash) :
    outcome = .faithful summary := by
  unfold attemptCluster at h
  by_cases hempty : events = []
  · rw [if_pos hempty] at h
    cases h
  rw [if_neg hempty] at h
  dsimp only at h
  by_cases hcached : c.summaryHash = some (summaryHash sha256 events)
  · rw [if_pos hcached] at h
    cases h
  rw [if_neg hcached] at h
  cases outcome with
  | faithful text =>
      cases h
      rfl
  | failed failure => cases h

/-- Only a signature that did not move keeps the stored summary. -/
theorem attemptCluster_touch_iff {sha256 : List UInt8 → List UInt8} {events : List Event}
    {outcome : SummaryOutcome} {c : DueCluster} :
    attemptCluster sha256 events outcome c = .touch ↔
      events ≠ [] ∧ c.summaryHash = some (summaryHash sha256 events) := by
  unfold attemptCluster
  by_cases hempty : events = []
  · simp [hempty]
  by_cases hcached : c.summaryHash = some (summaryHash sha256 events)
  · simp [hempty, hcached]
  · cases outcome <;> simp [hempty, hcached]

def SweepWrite.applyCluster (now : DateTime) (model : String) (write : SweepWrite)
    (row : SummarizedCluster) : SummarizedCluster :=
  match write with
  | touch => touchSummarized now row
  | skip => row
  | store summary hash => storeSummary now summary hash model row
  | fail attempts error quarantine => recordSummaryFailure now attempts error quarantine row

end Bulletin
