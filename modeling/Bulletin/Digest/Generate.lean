import Bulletin.Digest.Fire
import Bulletin.Digest.Render
import Bulletin.Digest.Subscriber

/-! # One attempt at a digest

`generate` is a sequence of transactions with reads, a model call and a mail between
them. An attempt carries what it has read so far; the phases are the points where
other transactions can come in.
-/

namespace Bulletin

structure ItemReason (F : Type) where
  relevance : F
  entities : List String
  format : Format
  richness : String
  priority : F

/-- A candidate's entry in the decision log of a digest. -/
structure DecisionRecord (F : Type) where
  storyId : Uuid
  verdict : Verdict
  reason : ItemReason F

/-- The input of a selection, kept to replay it. -/
structure ReplaySnapshot (F : Type) where
  now : DateTime
  maxItems : Nat
  candidates : List (Candidate F)

def reasonOf {F : Type} (d : Decision F) (entities : List String) : ItemReason F where
  relevance := d.relevance
  entities := entities
  format := d.format
  richness := d.richness
  priority := d.priority

/-- The structured record of every decision, drops included. -/
def decisionLog {F : Type} (r : Recompute F) [Score F] (decisions : List (Decision F)) :
    List (DecisionRecord F) :=
  decisions.map fun d =>
    let story := r.assignment.stories.find? fun s => s.id = d.id
    ⟨d.id, d.verdict, reasonOf d ((story.map (Fire.storySpine r)).getD [])⟩

/-- The fire of a subscriber's due window. -/
def Fire.ofSubscriber {F : Type} (row : SubscriberRow) (now : DateTime) (cfg : ScoringConfig F)
    (weights : Std.ExtTreeMap String F compare) (thread : Uuid → Option Uuid) : Fire F where
  windowEnd := row.nextRunAt
  cfg := cfg
  maxItems := row.maxItems.toNat
  now := now
  displayFloor := row.recurrence.displayFloor now row.lastRunAt
  weights := weights
  thread := thread

inductive DigestOutcome where
  | delivered (items : Nat)
  | empty
  | alreadyDelivered
  | notYetDue
  | leadDeferred
deriving DecidableEq, Repr

/-- The outcomes the worker reports as success; the others make the job run again. -/
def DigestOutcome.ok : DigestOutcome → Bool
  | leadDeferred => false
  | _ => true

/-- What a link-and-select pass leaves to freeze and to record. -/
structure Chosen (F : Type) where
  log : List (DecisionRecord F)
  snapshot : ReplaySnapshot F
  items : List FrozenItem

/-- The verdicts of a log select the stories of some items, each at its position. -/
def Describes {F : Type} (log : List (DecisionRecord F)) (items : List DigestItem) : Prop :=
  ∀ (s : Uuid) (k : Nat), (∃ record ∈ log, record.storyId = s ∧ record.verdict = .selected k) ↔
    ∃ item ∈ items, item.storyId = s ∧ item.position = k

/-- Some configuration selects the items from the snapshot. -/
def Replays {F : Type} [SelectScore F] (snapshot : ReplaySnapshot F)
    (items : List DigestItem) : Prop :=
  ∃ (cfg : ScoringConfig F) (displayFloor : DateTime),
    (frozenItems (select snapshot.candidates cfg snapshot.maxItems snapshot.now displayFloor)).map (·.storyId) =
      items.map (·.storyId)

/-- The log and the snapshot belong to the selection of the items. -/
structure Chosen.Agrees {F : Type} [SelectScore F] (chosen : Chosen F) : Prop where
  log : ∀ (s : Uuid) (k : Nat),
    (∃ record ∈ chosen.log, record.storyId = s ∧ record.verdict = .selected k) ↔
    (chosen.items.map (·.storyId))[k]? = some s
  snapshot : ∃ (cfg : ScoringConfig F) (displayFloor : DateTime),
    frozenItems (select chosen.snapshot.candidates cfg chosen.snapshot.maxItems chosen.snapshot.now
      displayFloor) = chosen.items

theorem decisionLog_selected {F : Type} [SelectScore F] {r : Recompute F} {cs : List (Candidate F)}
    {cfg : ScoringConfig F} {maxItems : Nat} {now displayFloor : DateTime} (s : Uuid) (k : Nat) :
    (∃ record ∈ decisionLog r (select cs cfg maxItems now displayFloor),
      record.storyId = s ∧ record.verdict = .selected k) ↔
      ((frozenItems (select cs cfg maxItems now displayFloor)).map (·.storyId))[k]? = some s := by
  unfold frozenItems decisionLog
  rw [List.map_map, List.getElem?_map, Option.map_eq_some_iff]
  constructor
  · intro h
    obtain ⟨record, hrecord, rfl, hverdict⟩ := h
    obtain ⟨d, hd, rfl⟩ := List.mem_map.mp hrecord
    replace hverdict : d.verdict = .selected k := hverdict
    have hselected : d.isSelected = true := by
      unfold Decision.isSelected
      rw [hverdict]
    obtain ⟨j, hj⟩ := List.mem_iff_getElem?.mp (List.mem_filter.mpr ⟨hd, hselected⟩)
    have hjk := (select_position hj).symm.trans hverdict
    obtain rfl := Verdict.selected.inj hjk
    exact ⟨d, hj, rfl⟩
  · intro h
    obtain ⟨d, hd, rfl⟩ := h
    have hmem := List.mem_of_getElem? hd
    refine ⟨_, List.mem_map_of_mem (List.mem_filter.mp hmem).1, rfl, select_position hd⟩

theorem newDigest_position {sub : Uuid} {windowEnd : DateTime} {items : List FrozenItem}
    (s : Uuid) (k : Nat) :
    (∃ item ∈ (newDigest sub windowEnd items).items, item.storyId = s ∧ item.position = k) ↔
      ((newDigest sub windowEnd items).items.map (·.storyId))[k]? = some s := by
  rw [newDigest_stories, List.getElem?_map, Option.map_eq_some_iff]
  show (∃ item ∈ items.zipIdx.map fun item => item.1.row item.2, _) ↔ _
  constructor
  · intro h
    obtain ⟨item, hitem, rfl, rfl⟩ := h
    obtain ⟨⟨frozen, j⟩, hfrozen, rfl⟩ := List.mem_map.mp hitem
    exact ⟨frozen, List.mem_zipIdx_iff_getElem?.mp hfrozen, rfl⟩
  · intro h
    obtain ⟨frozen, hfrozen, rfl⟩ := h
    refine ⟨frozen.row k, List.mem_map.mpr ⟨(frozen, k), ?_, rfl⟩, rfl, rfl⟩
    exact List.mem_zipIdx_iff_getElem?.mpr hfrozen

/-- How far an attempt has come. `row` is the subscriber as the attempt loaded it, and its
`nextRunAt` is the window the attempt works on. -/
inductive Phase (F : Type) where
  /-- The clock was read. -/
  | begun
  /-- The subscriber was loaded and is due. -/
  | loaded (row : SubscriberRow)
  /-- The candidates, the prior stories and the digests shown so far were read. -/
  | read (row : SubscriberRow) (r : Recompute F) (shown : DigestTable)
  /-- The new assignment was written. -/
  | linked (row : SubscriberRow) (r : Recompute F) (shown : DigestTable)
  | chosen (row : SubscriberRow) (chosen : Chosen F)
  /-- The window's digest exists and was not delivered when it was looked up. -/
  | frozen (row : SubscriberRow) (chosen : Chosen F) (digest : Uuid)
  /-- The decision log was written, or failed to be. -/
  | logged (row : SubscriberRow) (chosen : Chosen F) (digest : Uuid)
  /-- The replay snapshot was written, or failed to be. -/
  | prepared (row : SubscriberRow) (digest : Uuid)
  | rendered (row : SubscriberRow) (digest : Uuid) (items : Nat)
  /-- The message is ready to send. -/
  | composed (row : SubscriberRow) (digest : Uuid) (items : Nat)
  | sent (row : SubscriberRow) (digest : Uuid) (items : Nat)
  /-- The attempt returned, with an error for `none`. -/
  | finished (outcome : Option DigestOutcome)
  /-- The queue took note. -/
  | closed

structure Attempt (F : Type) where
  subscriber : Uuid
  /-- The job that runs it; none when an operator does. -/
  job : Option (Uuid ×ₗ Int)
  /-- The clock when it began; on delivery, the instant delivered through. -/
  snapshotAt : DateTime
  phase : Phase F

def Phase.returned {F : Type} : Phase F → Bool
  | finished _ | closed => true
  | _ => false

/-- The window an attempt works on, from loading its subscriber to returning. -/
def Phase.window {F : Type} : Phase F → Option DateTime
  | loaded row | read row _ _ | linked row _ _ | chosen row _ | frozen row _ _ | logged row _ _
  | prepared row _ | rendered row _ _ | composed row _ _ | sent row _ _ => some row.nextRunAt
  | begun | finished _ | closed => none

/-- The digest an attempt works on, once it looked it up. -/
def Phase.digest {F : Type} : Phase F → Option Uuid
  | frozen _ _ id | logged _ _ id | prepared _ id | rendered _ id _ | composed _ id _ | sent _ id _ =>
      some id
  | _ => none

end Bulletin
