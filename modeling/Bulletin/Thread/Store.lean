import Bulletin.Thread.Maintain

/-! # Rows of the thread layer

The threads, the log of feedback, and what a pass reads and writes of them.
-/

namespace Bulletin

inductive TargetType where
  | entity
  | thread
  | story
deriving DecidableEq, Repr

structure FeedbackRow where
  id : Uuid
  subscriberId : Uuid
  targetType : TargetType
  /-- The target where its text is an id. -/
  targetId : Option Uuid
  signal : Signal
  createdAt : DateTime
deriving DecidableEq, Repr

def FeedbackRow.isCare (row : FeedbackRow) : Bool :=
  row.targetType = .thread ∧ row.signal ∈ [Signal.careMore, .careLess, .done]

def FeedbackRow.threadCare {F : Type} [Score F] (row : FeedbackRow) : Option (ThreadCare F) :=
  row.targetId.map fun id => ⟨id, row.signal.affinityDelta⟩

def careRows (feedback : List FeedbackRow) (sub : Uuid) (since : DateTime) : List FeedbackRow :=
  feedback.filter fun row => row.subscriberId = sub ∧ row.isCare ∧ since < row.createdAt

/-- The care since a time, unless the text of a target is no id. -/
def threadCareSince {F : Type} [Score F] (feedback : List FeedbackRow) (sub : Uuid)
    (since : DateTime) : Option (List (ThreadCare F)) :=
  (careRows feedback sub since).mapM FeedbackRow.threadCare

structure StoredThread (F : Type) where
  subscriberId : Uuid
  origin : ThreadOrigin
  pinned : Bool
  mergedInto : Option Uuid
  entities : List String
  affinity : F
  state : ThreadState
  confidence : ConfidenceBand
  storyCount : Int
  sourceDiversity : Int
  baselineRate : F
  firstSeen : Option DateTime
  lastStoryTime : Option DateTime

abbrev ThreadTable (F : Type) := Std.ExtTreeMap Uuid (StoredThread F) compare

section Store

variable {F : Type}

def StoredThread.asRow (id : Uuid) (t : StoredThread F) : ThreadRow F where
  id := id
  origin := t.origin
  pinned := t.pinned
  affinity := t.affinity
  entities := t.entities
  firstSeen := t.firstSeen
  lastStoryTime := t.lastStoryTime

/-- The threads of a subscriber that are not merged into others, archived ones too. -/
def loadThreads (sub : Uuid) (table : ThreadTable F) : List (ThreadRow F) :=
  (table.toList.filter fun entry => entry.2.subscriberId = sub ∧ entry.2.mergedInto = none).map
    fun entry => entry.2.asRow entry.1

def StoredThread.withUpsert (u : ThreadUpsert F) (t : StoredThread F) : StoredThread F :=
  { t with
    entities := u.entities
    affinity := u.affinity
    state := u.state
    storyCount := u.storyCount
    sourceDiversity := u.sourceDiversity
    baselineRate := u.baselineRate
    lastStoryTime := u.lastStoryTime
    confidence := u.confidence }

def ThreadUpsert.inserted (sub : Uuid) (u : ThreadUpsert F) : StoredThread F where
  subscriberId := sub
  origin := u.origin
  pinned := u.pinned
  mergedInto := none
  entities := u.entities
  affinity := u.affinity
  state := u.state
  confidence := u.confidence
  storyCount := u.storyCount
  sourceDiversity := u.sourceDiversity
  baselineRate := u.baselineRate
  firstSeen := u.firstSeen
  lastStoryTime := u.lastStoryTime

def updateThread (sub : Uuid) (f : StoredThread F → StoredThread F) (table : ThreadTable F)
    (id : Uuid) : ThreadTable F :=
  table.modify id fun t => if t.subscriberId = sub then f t else t

/-- One upsert, under a new id if it has none, and the threads it absorbs. -/
def saveThread (sub : Uuid) (table : ThreadTable F) (entry : ThreadUpsert F × Uuid) :
    ThreadTable F :=
  let (u, newId) := entry
  match u.id with
  | some id => u.absorb.foldl (updateThread sub fun t => { t with mergedInto := some id })
      (updateThread sub (·.withUpsert u) table id)
  | none => u.absorb.foldl (updateThread sub fun t => { t with mergedInto := some newId })
      (table.insert newId (u.inserted sub))

def saveThreads (sub : Uuid) (upserts : List (ThreadUpsert F)) (newIds : List Uuid)
    (table : ThreadTable F) : ThreadTable F :=
  (upserts.zip newIds).foldl (saveThread sub) table

theorem loadThreads_ids_nodup {sub : Uuid} {table : ThreadTable F} :
    ((loadThreads sub table).map (·.id)).Nodup := by
  have hids : (loadThreads sub table).map (·.id) = ((table.toList.filter fun entry =>
      entry.2.subscriberId = sub ∧ entry.2.mergedInto = none).map (·.1)) := by
    unfold loadThreads
    rw [List.map_map]
    rfl
  have hkeys : (table.toList.map (·.1)).Nodup := by
    rw [Std.ExtTreeMap.map_fst_toList_eq_keys]
    exact Std.ExtTreeMap.nodup_keys
  rw [hids]
  exact hkeys.sublist (List.filter_sublist.map _)

end Store

/-! ## The cursor -/

/-- How far each subscriber's feedback has been folded in. -/
abbrev Watermarks := Std.ExtTreeMap Uuid DateTime compare

/-- A subscriber without a row starts at the epoch. -/
def Watermarks.feedbackCursor (w : Watermarks) (sub : Uuid) : DateTime := w.getD sub 0

def Watermarks.advance (w : Watermarks) (sub : Uuid) (through : DateTime) : Watermarks :=
  w.alter sub fun old => some (old.elim through (max · through))

theorem feedbackCursor_advance_of_ne {w : Watermarks} {sub other : Uuid} {through : DateTime}
    (hne : other ≠ sub) :
    (w.advance sub through).feedbackCursor other = w.feedbackCursor other := by
  unfold Watermarks.advance Watermarks.feedbackCursor
  rw [Std.ExtTreeMap.getD_alter, if_neg]
  simpa using hne.symm

theorem le_feedbackCursor_advance {w : Watermarks} {sub : Uuid} {through time : DateTime}
    (hlt : w.feedbackCursor sub < time) :
    time ≤ (w.advance sub through).feedbackCursor sub ↔ time ≤ through := by
  unfold Watermarks.feedbackCursor at hlt
  unfold Watermarks.advance Watermarks.feedbackCursor
  rw [Std.ExtTreeMap.getD_eq_getD_getElem?] at hlt
  rw [Std.ExtTreeMap.getD_alter, if_pos (by simp)]
  cases hrow : w[sub]? with
  | none => exact Iff.rfl
  | some old =>
      rw [hrow] at hlt
      exact le_max_iff.trans (or_iff_right (not_le.mpr hlt))

theorem feedbackCursor_advance {w : Watermarks} {sub : Uuid} {through : DateTime}
    (hle : w.feedbackCursor sub ≤ through) :
    (w.advance sub through).feedbackCursor sub = through := by
  unfold Watermarks.feedbackCursor at hle
  unfold Watermarks.advance Watermarks.feedbackCursor
  rw [Std.ExtTreeMap.getD_eq_getD_getElem?] at hle
  rw [Std.ExtTreeMap.getD_alter, if_pos (by simp)]
  cases hrow : w[sub]? with
  | none => rfl
  | some old =>
      rw [hrow] at hle
      exact max_eq_right hle

end Bulletin
