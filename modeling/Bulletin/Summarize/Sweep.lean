import Bulletin.Cluster.Model
import Bulletin.Link.Store

/-! # The story synthesis sweep

The sweep walks the stories that are due, reads their member summaries, and asks
the model for one text over all of them. What it writes on a row is decided here; the
model and its gate are an outcome handed in.
-/

namespace Bulletin

def maxSummaryAttempts : Int := 4

/-- Why an attempt failed: the sidecar did not answer, or the gate rejected the answer. -/
inductive SummaryFailure where
  | unavailable (bucket : String)
  | rejected (violation : String)
deriving DecidableEq, Repr

def SummaryFailure.describe : SummaryFailure → String
  | unavailable bucket => "unavailable: " ++ bucket
  | rejected violation => "rejected: " ++ violation

inductive SummaryOutcome where
  | faithful (summary : ClusterSummary)
  | failed (failure : SummaryFailure)
deriving DecidableEq, Repr

/-- A story the sweep should look at, as it was read. -/
structure DueStory where
  id : Uuid
  clusterIds : List Uuid
  summarySig : Option (List UInt8)
  summaryModel : Option String
  summaryAttempts : Int
  retryReset : Bool
deriving DecidableEq, Repr

/-- A row whose content moved, that was never summarized, or by another model; a
quarantined one only if its content moved since. -/
def StoryRow.due (currentModel : String) (row : StoryRow) : Bool :=
  (row.synthesis.summarizedAt.all (· < row.updatedAt) ||
    row.synthesis.summaryModel != some currentModel) &&
  row.synthesis.summaryQuarantinedAt.all (· < row.updatedAt)

def StoryRow.dueStory (id : Uuid) (row : StoryRow) : DueStory where
  id := id
  clusterIds := row.members
  summarySig := row.synthesis.summarySig
  summaryModel := row.synthesis.summaryModel
  summaryAttempts := row.synthesis.summaryAttempts
  retryReset := row.synthesis.summaryQuarantinedAt.any (· < row.updatedAt)

/-- The work queue: the subscriber's live stories with members that are due. -/
def storiesNeedingSummary (table : StoryTable) (sub : Uuid) (currentModel : String) :
    List DueStory :=
  (table.toList.filter fun entry => entry.2.Live sub ∧ entry.2.clusters ≠ [] ∧
    entry.2.due currentModel).map fun entry => entry.2.dueStory entry.1

structure MemberSummary where
  summary : ClusterSummary
  summaryHash : Option (List UInt8)
deriving DecidableEq, Repr

/-- The summaries of a story's clusters, newest first. -/
def loadMemberSummaries (cluster : ClusterTable) (sub : Uuid) (ids : List Uuid) :
    List MemberSummary :=
  ((readClusters cluster sub ids).insertionSort fun x y =>
    (compare y.2.lastEventTime x.2.lastEventTime).then (compare y.1 x.1) ≠ .gt).map
      fun entry => ⟨entry.2.summary, entry.2.summaryHash⟩

def hashLe : Option (List UInt8) → Option (List UInt8) → Bool
  | none, _ => true
  | some _, none => false
  | some x, some y => decide (x ≤ y)

/-- The member signature: the digest of the sorted hashes, one field each. -/
def storySummarySig (sha256 : List UInt8 → List UInt8) (hashes : List (Option (List UInt8))) :
    List UInt8 :=
  sha256 ((hashes.insertionSort fun x y => hashLe x y).flatMap fun h => h.getD [1] ++ [0])

/-- A digest for concrete runs: the bytes themselves. -/
def plainDigest (bytes : List UInt8) : List UInt8 := bytes

/-! ## What the sweep writes -/

def touchStorySummarized (now : DateTime) (model : String) (s : Synthesis) : Synthesis :=
  { s with
    summarizedAt := some now
    summaryModel := some model
    summaryAttempts := 0
    summaryLastError := none
    summaryFailedAt := none
    summaryQuarantinedAt := none }

def storeStorySummary (now : DateTime) (summary : ClusterSummary) (sig : List UInt8)
    (model : String) :
    Synthesis where
  summary := summary
  summarySig := some sig
  summaryModel := some model
  summarizedAt := some now
  summaryAttempts := 0
  summaryLastError := none
  summaryFailedAt := none
  summaryQuarantinedAt := none

def recordStorySummaryFailure (now : DateTime) (attempts : Int) (error : String) (quarantine : Bool)
    (s : Synthesis) : Synthesis :=
  { s with
    summaryAttempts := attempts
    summaryLastError := some error
    summaryFailedAt := some now
    summaryQuarantinedAt := if quarantine then some now else none }

/-- The next attempt count, and whether the budget is spent. -/
def noteSummaryFailure (attempt : Int) : Int × Bool :=
  let nextAttempts := attempt + 1
  (nextAttempts, maxSummaryAttempts ≤ nextAttempts)

/-- What an attempt at one story decided. -/
inductive SweepWrite where
  | touch
  | skip
  | store (summary : ClusterSummary) (sig : List UInt8)
  | fail (attempts : Int) (error : String) (quarantine : Bool)
deriving DecidableEq, Repr

/-- One story of the queue: nothing to fuse, nothing to fuse yet, a cached text, or an attempt. -/
def attemptStory (sha256 : List UInt8 → List UInt8) (model : String) (members : List MemberSummary)
    (outcome : SummaryOutcome) (s : DueStory) : SweepWrite :=
  if members.length < 2 then .touch
  else if members.all fun m => m.summary.isEmpty then .skip
  else
    let sig := storySummarySig sha256 (members.map (·.summaryHash))
    if s.summarySig = some sig ∧ s.summaryModel = some model then .touch
    else
      let attempt := if s.retryReset then 0 else s.summaryAttempts
      match outcome with
      | .faithful summary => .store summary sig
      | .failed failure =>
          let noted := noteSummaryFailure attempt
          .fail noted.1 failure.describe noted.2

theorem attemptStory_store {sha256 : List UInt8 → List UInt8}
    {model : String} {members : List MemberSummary}
    {outcome : SummaryOutcome} {d : DueStory} {summary : ClusterSummary} {sig : List UInt8}
    (h : attemptStory sha256 model members outcome d = .store summary sig) :
    outcome = .faithful summary := by
  unfold attemptStory at h
  by_cases hone : members.length < 2
  · rw [if_pos hone] at h
    cases h
  rw [if_neg hone] at h
  by_cases hempty : (members.all fun m => m.summary.isEmpty) = true
  · rw [if_pos hempty] at h
    cases h
  rw [if_neg hempty] at h
  dsimp only at h
  by_cases hcached : d.summarySig = some (storySummarySig sha256 (members.map (·.summaryHash))) ∧
      d.summaryModel = some model
  · rw [if_pos hcached] at h
    cases h
  rw [if_neg hcached] at h
  cases outcome with
  | faithful text =>
      cases h
      rfl
  | failed failure => cases h

def SweepWrite.apply (now : DateTime) (model : String) (write : SweepWrite) (s : Synthesis) :
    Synthesis :=
  match write with
  | touch => touchStorySummarized now model s
  | skip => s
  | store summary sig => storeStorySummary now summary sig model
  | fail attempts error quarantine => recordStorySummaryFailure now attempts error quarantine s

def recordStory (currentModel : String) (started : DateTime) (id : Uuid) (write : SweepWrite)
    (table : StoryTable) : StoryTable :=
  table.modify id fun row =>
    { row with synthesis := write.apply started currentModel row.synthesis }

theorem getElem?_recordStory {currentModel : String} {table : StoryTable} {k id : Uuid}
    {started : DateTime} {write : SweepWrite} :
    (recordStory currentModel started k write table)[id]? =
      if k = id then table[id]?.map fun row =>
        { row with synthesis := write.apply started currentModel row.synthesis }
      else table[id]? := by
  unfold recordStory
  rw [Std.ExtTreeMap.getElem?_modify]
  by_cases h : k = id
  · subst h
    simp
  · simp [h]

/-! ## A sweep in its loop

Every read and every write is a transaction of its own, and the model is called between them.
-/

/-- A sweep under way: what is left of the queue it read, and the members of the first story
there, once they are read. -/
structure StorySweep where
  subscriber : Uuid := 0
  model : String := ""
  due : List DueStory := []
  reading : Option (List MemberSummary) := none
deriving DecidableEq

namespace StorySweep

def readMembers (cluster : ClusterTable) (w : StorySweep) : StorySweep :=
  match w.due with
  | [] => w
  | d :: _ => { w with reading := some (loadMemberSummaries cluster w.subscriber d.clusterIds) }

theorem readMembers_cons {cluster : ClusterTable} {w : StorySweep} {d : DueStory}
    {rest : List DueStory} (h : w.due = d :: rest) : w.readMembers cluster =
      { w with reading := some (loadMemberSummaries cluster w.subscriber d.clusterIds) } := by
  unfold readMembers
  split
  · next hnil => cases hnil.symm.trans h
  · next heq =>
      obtain ⟨rfl, _⟩ := List.cons.inj (heq.symm.trans h)
      rfl

def skip (w : StorySweep) : StorySweep := { w with due := w.due.tail, reading := none }

/-- The stories after what came of the story the sweep is at. -/
def record (sha256 : List UInt8 → List UInt8) (now : DateTime) (outcome : SummaryOutcome)
    (w : StorySweep) (table : StoryTable) : StoryTable :=
  match w.due, w.reading with
  | d :: _, some members =>
      recordStory w.model now d.id (attemptStory sha256 w.model members outcome d) table
  | _, _ => table

end StorySweep

end Bulletin
