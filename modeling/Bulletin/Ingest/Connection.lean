import Bulletin.Core.Json
import Bulletin.Ingest.Append

/-! # Connections

A connection is polled from the cursor on its row. A poll that succeeded writes the next
cursor, and one whose fetch failed backs off.
-/

namespace Bulletin

open Json

inductive ConnectionStatus where
  | active
  | paused
  | errored
  | suspended
  | revoked
deriving DecidableEq, Repr

structure ConnectionRow where
  source : SourceKind
  status : ConnectionStatus := .active
  cursor : Option Value := none
  pollIntervalSecs : Int := 900
  nextPollAt : DateTime
  lastPolledAt : Option DateTime := none
  consecutiveFailures : Nat := 0
  /-- The owner, whose the private events are. -/
  subscriberId : Option Uuid
  /-- What a delivery is routed by. -/
  providerAccountId : Option String

def secondsInterval (n : Int) : Int := n * 1000000

def ConnectionRow.advanceCursor (now : DateTime) (cursor : Value) (row : ConnectionRow) :
    ConnectionRow :=
  { row with
    cursor := some cursor
    lastPolledAt := some now
    nextPollAt := now + secondsInterval row.pollIntervalSecs
    consecutiveFailures := 0 }

/-- The row after a fetch that failed: twice the wait each time, up to a day, and an error at the
fifth. -/
def ConnectionRow.recordFailure (now : DateTime) (row : ConnectionRow) : ConnectionRow :=
  { row with
    consecutiveFailures := row.consecutiveFailures + 1
    nextPollAt := now + secondsInterval (min (row.pollIntervalSecs * 2 ^ row.consecutiveFailures) 86400)
    status := if 5 ≤ row.consecutiveFailures + 1 then .errored else row.status }

def ConnectionRow.normalize (sha256 : List UInt8 → List UInt8) (id : Uuid) (row : ConnectionRow)
    (builders : List EventBuilder) : List NewEvent :=
  builders.map fun b => { b with connectionId := some id }.finalize sha256 row.subscriberId

/-- The events of one transaction, which get the ids from `firstId` on. -/
def scopedArrivals (now : DateTime) (firstId : Uuid) (events : List NewEvent) :
    List (DateTime × Uuid × NewEvent) :=
  events.mapIdx fun i ev => (now, firstId + i, ev)

theorem mem_scopedArrivals {now : DateTime} {firstId : Uuid} {events : List NewEvent}
    {ev : NewEvent}
    (h : ev ∈ events) : ∃ i, (now, firstId + i, ev) ∈ scopedArrivals now firstId events := by
  obtain ⟨i, hi, rfl⟩ := List.getElem_of_mem h
  exact ⟨i, List.mem_mapIdx.mpr ⟨i, hi, rfl⟩⟩

end Bulletin
