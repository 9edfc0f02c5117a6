import Bulletin.Common.Entity
import Bulletin.Digest.Store
import Bulletin.Summarize.ClusterSweep

/-! # Candidate clusters

The clusters a digest may link: those updated since the subscriber's floor, and the
public ones that share a strong key with a private one among them. With the summary gate
on, only those that carry a summary that passed.
-/

namespace Bulletin

def maxLookbackDays : Int := 90

/-- Back to the last run or the horizon, but never past the lookback. -/
def candidateFloor (now : DateTime) (lastRun : Option DateTime) (horizonDays : Int) : DateTime :=
  max (lastRun.elim (now - daysInterval horizonDays) fun t =>
    min t (now - daysInterval horizonDays))
    (now - daysInterval maxLookbackDays)

/-- The band of a summary that the faithfulness gate let through. -/
def SummarizedCluster.gatePassed (row : SummarizedCluster) : Bool := row.summary.band != .uncertain

structure CandidateRead where
  subscriber : Uuid
  /-- The connections the subscriber reads. -/
  subscribed : List Uuid
  lastRun : Option DateTime
  horizonDays : Int
  requireSummary : Bool
deriving DecidableEq, Repr

namespace CandidateRead

variable (read : CandidateRead) (now : DateTime) (table : SummarizedTable)

def floor : DateTime := candidateFloor now read.lastRun read.horizonDays

/-- The public clusters of the subscriber's connections and of none, and the subscriber's own. -/
def inScope (key : GroupKey) (row : SummarizedCluster) : Bool :=
  match key.scope with
  | .ofPublic => row.rollup.connectionId.all (· ∈ read.subscribed)
  | .ofPrivate owner => owner = read.subscriber

def passesGate (row : SummarizedCluster) : Bool := !read.requireSummary || row.gatePassed

def inFloor : List GroupKey :=
  (table.entries.filter fun entry => read.inScope entry.1 entry.2 ∧
    read.floor now ≤ entry.2.updatedAt ∧
    read.passesGate entry.2).map Sigma.fst

def privateStrong : List String :=
  (table.entries.filter fun entry => entry.1.scope = .ofPrivate read.subscriber ∧
    read.floor now ≤ entry.2.updatedAt).flatMap fun entry =>
      entry.2.rollup.entities.filter fun token => startsWith token "cve:" ∨ startsWith token "url:"

def crossBoundary : List GroupKey :=
  (table.entries.filter fun entry => entry.1.scope = .ofPublic ∧
    (entry.2.rollup.entities.any (· ∈ read.privateStrong now table)) ∧
      read.passesGate entry.2).map Sigma.fst

def candidateClusters : List GroupKey :=
  (read.inFloor now table ++ read.crossBoundary now table).dedup

def linkCluster (clusterId : GroupKey → Uuid) (key : GroupKey) (row : SummarizedCluster) :
    LinkCluster where
  id := clusterId key
  entities := row.rollup.entities
  firstEventTime := row.rollup.firstEventTime
  lastEventTime := row.rollup.lastEventTime
  source := key.source
  eventCount := row.rollup.eventCount
  contentDepth := row.rollup.contentDepth
  maxSeverity := row.rollup.maxSeverity
  isOwnPrivate := key.scope ≠ .ofPublic

def linkClusters (clusterId : GroupKey → Uuid) : List LinkCluster :=
  ((read.candidateClusters now table).filterMap fun key =>
    (table.lookup key).map (linkCluster clusterId key)).insertionSort fun x y => x.id ≤ y.id

variable {read now table}

theorem mem_filter_rows {key : GroupKey}
    {p : (Sigma fun _ : GroupKey => SummarizedCluster) → Bool} :
    key ∈ (table.entries.filter p).map Sigma.fst ↔
      ∃ row, table.lookup key = some row ∧ p ⟨key, row⟩ = true := by
  rw [List.mem_map]
  constructor
  · intro h
    obtain ⟨entry, hentry, rfl⟩ := h
    obtain ⟨hmem, hp⟩ := List.mem_filter.mp hentry
    exact ⟨entry.2, AList.mem_lookup_iff.mpr hmem, hp⟩
  · intro h
    obtain ⟨row, hrow, hp⟩ := h
    exact ⟨⟨key, row⟩, List.mem_filter.mpr ⟨AList.mem_lookup_iff.mp hrow, hp⟩, rfl⟩

theorem mem_candidateClusters {key : GroupKey} : key ∈ read.candidateClusters now table ↔
    ∃ row, table.lookup key = some row ∧ read.passesGate row = true ∧
      (read.inScope key row = true ∧ read.floor now ≤ row.updatedAt ∨
        key.scope = .ofPublic ∧
          row.rollup.entities.any (· ∈ read.privateStrong now table) = true) := by
  unfold candidateClusters inFloor crossBoundary
  rw [List.mem_dedup, List.mem_append, mem_filter_rows, mem_filter_rows, ← exists_or]
  refine exists_congr fun row => ?_
  simp only [decide_eq_true_eq]
  tauto

theorem gated_of_mem {key : GroupKey} (hgate : read.requireSummary = true)
    (h : key ∈ read.candidateClusters now table) :
    ∃ row, table.lookup key = some row ∧ row.gatePassed = true := by
  obtain ⟨row, hrow, hpassed, _⟩ := mem_candidateClusters.mp h
  exact ⟨row, hrow, by simpa [passesGate, hgate] using hpassed⟩

end CandidateRead

end Bulletin
