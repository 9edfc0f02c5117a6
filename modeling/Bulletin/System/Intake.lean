import Bulletin.Core.Run
import Bulletin.Ingest.Connection
import Bulletin.Ingest.Github.EventMap

/-! # Polls and deliveries

A poll loads its connection, fetches, appends what it has fetched, one transaction for each
context, and then moves the cursor. A delivery appends in the same way and has no cursor. Any
number of them are under way at once, over the same connections or others, and each can stop
between two of its transactions.
-/

namespace Bulletin

open Json

def LifecycleStatus.asStr : LifecycleStatus → ConnectionStatus
  | active => .active
  | suspended => .suspended
  | revoked => .revoked

/-- How far a poll or a delivery has come. -/
inductive IntakePhase where
  | begun
  | loaded (row : ConnectionRow)
  /-- What was fetched, the groups that are not yet in the log, and the cursor of a poll. -/
  | appending (fetched : List NewEvent) (left : List (ScopeCtx × List NewEvent))
      (cursor : Option Value)
  | polled (fetched : List NewEvent) (cursor : Value)
  | backingOff
  | failed
  | skipped
  | notified (status : LifecycleStatus)
  | applied

structure IntakeAttempt where
  connection : Uuid
  phase : IntakePhase
  /-- It has not crashed, and no transaction of it has failed. -/
  alive : Bool := true

structure Intake where
  now : DateTime := 0
  connection : Uuid → Option ConnectionRow := fun _ => none
  event : List Event := []
  attempt : Nat → Option IntakeAttempt := fun _ => none

/-- What a delivery says, of activity or of the connection. -/
inductive Inbound where
  | events (builders : List EventBuilder)
  | lifecycle (status : LifecycleStatus)

inductive IntakeAction where
  | wait (duration : Nat)
  | connect (id : Uuid) (source : SourceKind) (owner : Option Uuid) (account : Option String)
  | poll (n : Nat) (connection : Uuid)
  /-- Whether a worker can be built depends on the configuration. -/
  | load (n : Nat) (built : Bool)
  /-- The source fails, or answers with items and a cursor. -/
  | fetch (n : Nat) (answer : Option (List EventBuilder × Value))
  | deliver (n : Nat) (connection : Uuid) (source : SourceKind) (account : String)
      (inbound : Inbound)
  /-- One transaction commits: the events get the ids from `firstId` on. -/
  | append (n : Nat) (ctx : ScopeCtx) (firstId : Uuid)
  | advanceCursor (n : Nat)
  | recordFailure (n : Nat)
  | updateStatus (n : Nat)
  | stop (n : Nat)

def IntakeAction.attempt : IntakeAction → Option Nat
  | .wait _ | .connect _ _ _ _ => none
  | .poll n _ | .load n _ | .fetch n _ | .deliver n _ _ _ _ | .append n _ _ | .advanceCursor n
  | .recordFailure n | .updateStatus n | .stop n => some n

namespace Intake

def withAttempt (s : Intake) (n : Nat) (a : IntakeAttempt) : Intake :=
  { s with attempt := Function.update s.attempt n (some a) }

@[simp] theorem withAttempt_self {s : Intake} {n : Nat} {a : IntakeAttempt} :
    (s.withAttempt n a).attempt n = some a := by
  simp [withAttempt]

theorem withAttempt_of_ne {s : Intake} {n m : Nat} {a : IntakeAttempt} (h : m ≠ n) :
    (s.withAttempt n a).attempt m = s.attempt m := by
  simp [withAttempt, h]

def updateConnection (s : Intake) (id : Uuid) (f : ConnectionRow → ConnectionRow) : Intake :=
  { s with connection := Function.update s.connection id ((s.connection id).map f) }

def cursor (s : Intake) (id : Uuid) : Option Value := (s.connection id).bind (·.cursor)

/-- The step an action makes, if it can. -/
def next (sha256 : List UInt8 → List UInt8) (s : Intake) (act : IntakeAction) : Option Intake :=
  match act with
  | .wait duration => some { s with now := s.now + duration }
  | .connect id source owner account =>
      match s.connection id with
      | none => some { s with connection := Function.update s.connection id (some
          { source, nextPollAt := s.now, subscriberId := owner, providerAccountId := account }) }
      | some _ => none
  | .poll n id =>
      match s.attempt n with
      | none => some (s.withAttempt n ⟨id, .begun, true⟩)
      | some _ => none
  | .load n built =>
      match s.attempt n with
      | some ⟨id, .begun, true⟩ =>
          match s.connection id with
          | none => some (s.withAttempt n ⟨id, .skipped, true⟩)
          | some row =>
              if row.status = .active ∧ built then some (s.withAttempt n ⟨id, .loaded row, true⟩)
              else some (s.withAttempt n ⟨id, .skipped, true⟩)
      | _ => none
  | .fetch n answer =>
      match s.attempt n with
      | some ⟨id, .loaded row, true⟩ =>
          match answer with
          | none => some (s.withAttempt n ⟨id, .backingOff, true⟩)
          | some (builders, cursor) =>
              let events := row.normalize sha256 id builders
              some (s.withAttempt n
                ⟨id, .appending events (contextGroups events) (some cursor), true⟩)
      | _ => none
  | .deliver n id source account inbound =>
      match s.attempt n, s.connection id with
      | none, some row =>
          if row.source = source ∧ row.providerAccountId = some account then
            match inbound with
            | .events builders =>
                let events := row.normalize sha256 id builders
                some (s.withAttempt n ⟨id, .appending events (contextGroups events) none, true⟩)
            | .lifecycle status => some (s.withAttempt n ⟨id, .notified status, true⟩)
          else none
      | _, _ => none
  | .append n ctx firstId =>
      match s.attempt n with
      | some ⟨id, .appending fetched left cursor, true⟩ =>
          -- the groups are in no order
          match left.find? (·.1 = ctx) with
          | none => none
          | some (_, events) => some { s.withAttempt n
              ⟨id, .appending fetched (left.filter (·.1 ≠ ctx)) cursor, true⟩ with
              event := insertAll (scopedArrivals s.now firstId events) s.event }
      | _ => none
  | .advanceCursor n =>
      match s.attempt n with
      | some ⟨id, .appending fetched [] (some cursor), true⟩ =>
          some ((s.withAttempt n ⟨id, .polled fetched cursor, true⟩).updateConnection id
            (·.advanceCursor s.now cursor))
      | _ => none
  | .recordFailure n =>
      match s.attempt n with
      | some ⟨id, .backingOff, true⟩ =>
          some ((s.withAttempt n ⟨id, .failed, true⟩).updateConnection id (·.recordFailure s.now))
      | _ => none
  | .updateStatus n =>
      match s.attempt n with
      | some ⟨id, .notified status, true⟩ =>
          some ((s.withAttempt n ⟨id, .applied, true⟩).updateConnection id
            fun row => { row with status := status.asStr })
      | _ => none
  | .stop n => (s.attempt n).map fun a => s.withAttempt n { a with alive := false }

end Intake

def IntakeStep (sha256 : List UInt8 → List UInt8) (s : Intake) (act : IntakeAction) (s' : Intake) :
    Prop :=
  s.next sha256 act = some s'

abbrev IntakeRuns (sha256 : List UInt8 → List UInt8)
    (ts : List (Run.Transition Intake IntakeAction)) (s : Intake) : Prop :=
  Run.Runs (IntakeStep sha256) {} ts s

/-! ## What is claimed of a run -/

def IntakePhase.answered : IntakePhase → Bool
  | appending _ _ _ | polled _ _ => true
  | begun | loaded _ | backingOff | failed | skipped | notified _ | applied => false

def IntakePhase.completed : IntakePhase → Bool
  | polled _ _ => true
  | appending _ _ _ | begun | loaded _ | backingOff | failed | skipped | notified _ | applied => false

/-- The step fetches these events and this cursor for a connection. -/
def Fetches (sha256 : List UInt8 → List UInt8) (t : Run.Transition Intake IntakeAction) (n : Nat)
    (id : Uuid) (fetched : List NewEvent) (cursor : Value) : Prop :=
  ∃ row builders, t.before.attempt n = some ⟨id, .loaded row, true⟩ ∧
    t.action = .fetch n (some (builders, cursor)) ∧ fetched = row.normalize sha256 id builders

/-- The step moves the cursor of a connection to that of a fetch. -/
def MovesCursor (t : Run.Transition Intake IntakeAction) (id : Uuid)
    (fetch : List NewEvent × Value) : Prop :=
  ∃ n, t.action = .advanceCursor n ∧ (t.before.connection id).isSome ∧
    t.before.attempt n = some ⟨id, .appending fetch.1 [] (some fetch.2), true⟩

/-- The step leaves all cursors as they are. -/
def KeepsCursors (t : Run.Transition Intake IntakeAction) : Prop :=
  ∀ id, t.after.cursor id = t.before.cursor id

/-- The step appends all that was fetched of one context, in one transaction. -/
def AppendsGroup (t : Run.Transition Intake IntakeAction) : Prop :=
  ∃ n id fetched left cursor ctx firstId,
    t.before.attempt n = some ⟨id, .appending fetched left cursor, true⟩ ∧
    t.action = .append n ctx firstId ∧
    t.after.event =
      insertAll (scopedArrivals t.before.now firstId (eventsIn ctx fetched)) t.before.event

/-! ## Steps -/

inductive IntakeMove (sha256 : List UInt8 → List UInt8) (s : Intake) : IntakeAction → Intake → Prop
  | wait (duration : Nat) : IntakeMove sha256 s (.wait duration) { s with now := s.now + duration }
  | connect (id : Uuid) (source : SourceKind) (owner : Option Uuid) (account : Option String)
      (row : ConnectionRow) (hnew : s.connection id = none) (hrow : row.cursor = none) :
      IntakeMove sha256 s (.connect id source owner account)
        { s with connection := Function.update s.connection id (some row) }
  /-- A step before the source has answered, or without an answer, that may write the row but not
  its cursor. -/
  | quiet (act : IntakeAction) (n : Nat) (a : IntakeAttempt)
      (connection : Uuid → Option ConnectionRow) (hact : act.attempt = some n)
      (hbefore : ∀ b, s.attempt n = some b → b.phase.answered = false)
      (hafter : a.phase.answered = false)
      (hcursor : ∀ id, (connection id).bind (·.cursor) = s.cursor id) :
      IntakeMove sha256 s act { s.withAttempt n a with connection := connection }
  | answer (act : IntakeAction) (n : Nat) (id : Uuid) (fetched : List NewEvent)
      (cursor : Option Value) (hact : act.attempt = some n)
      (hbefore : ∀ b, s.attempt n = some b → b.phase.answered = false)
      (hfetch : ∀ c, cursor = some c → ∀ s', Fetches sha256 ⟨s, act, s'⟩ n id fetched c) :
      IntakeMove sha256 s act
        (s.withAttempt n ⟨id, .appending fetched (contextGroups fetched) cursor, true⟩)
  | append (n : Nat) (ctx : ScopeCtx) (firstId id : Uuid) (fetched events : List NewEvent)
      (left : List (ScopeCtx × List NewEvent)) (cursor : Option Value)
      (hbefore : s.attempt n = some ⟨id, .appending fetched left cursor, true⟩)
      (hgroup : (ctx, events) ∈ left) :
      IntakeMove sha256 s (.append n ctx firstId) { s.withAttempt n
        ⟨id, .appending fetched (left.filter (·.1 ≠ ctx)) cursor, true⟩ with
        event := insertAll (scopedArrivals s.now firstId events) s.event }
  | advanceCursor (n : Nat) (id : Uuid) (fetched : List NewEvent) (cursor : Value)
      (hbefore : s.attempt n = some ⟨id, .appending fetched [] (some cursor), true⟩) :
      IntakeMove sha256 s (.advanceCursor n)
        ((s.withAttempt n ⟨id, .polled fetched cursor, true⟩).updateConnection id
          (·.advanceCursor s.now cursor))
  | stop (n : Nat) (a : IntakeAttempt) (hbefore : s.attempt n = some a) :
      IntakeMove sha256 s (.stop n) (s.withAttempt n { a with alive := false })

section Steps

variable {sha256 : List UInt8 → List UInt8} {s s' : Intake} {act : IntakeAction}

theorem Intake.updateConnection_cursor {id : Uuid} {f : ConnectionRow → ConnectionRow}
    (hf : ∀ row, (f row).cursor = row.cursor) (id' : Uuid) :
    (s.updateConnection id f).cursor id' = s.cursor id' := by
  unfold updateConnection cursor
  dsimp only
  by_cases hid : id' = id
  · subst hid
    rw [Function.update_self]
    cases s.connection id' with
    | none => rfl
    | some row => exact hf row
  · rw [Function.update_of_ne hid]

theorem IntakeStep.moves (h : IntakeStep sha256 s act s') : IntakeMove sha256 s act s' := by
  unfold IntakeStep Intake.next at h
  cases act with
  | wait duration =>
      obtain rfl := Option.some.inj h
      exact .wait duration
  | connect id source owner account =>
      dsimp only at h
      split at h
      · rename_i hnew
        obtain rfl := Option.some.inj h
        exact .connect id source owner account _ hnew rfl
      · cases h
  | poll n id =>
      dsimp only at h
      split at h
      · rename_i hnew
        obtain rfl := Option.some.inj h
        refine .quiet _ n _ s.connection rfl ?_ rfl (fun _ => rfl)
        simp [hnew]
      · cases h
  | load n built =>
      dsimp only at h
      split at h
      · rename_i id hbegun
        have hquiet : ∀ phase : IntakePhase, phase.answered = false →
            IntakeMove sha256 s (.load n built) (s.withAttempt n ⟨id, phase, true⟩) := by
          intro phase hphase
          refine .quiet _ n _ s.connection rfl ?_ hphase (fun _ => rfl)
          simp [hbegun, IntakePhase.answered]
        split at h
        · obtain rfl := Option.some.inj h
          exact hquiet _ rfl
        · split at h
          · obtain rfl := Option.some.inj h
            exact hquiet _ rfl
          · obtain rfl := Option.some.inj h
            exact hquiet _ rfl
      · cases h
  | fetch n answer =>
      dsimp only at h
      split at h
      · rename_i id row hloaded
        have hbefore : ∀ b, s.attempt n = some b → b.phase.answered = false := by
          simp [hloaded, IntakePhase.answered]
        cases answer with
        | none =>
            obtain rfl := Option.some.inj h
            exact .quiet _ n _ s.connection rfl hbefore rfl (fun _ => rfl)
        | some items =>
            obtain rfl := Option.some.inj h
            refine .answer _ n id _ _ rfl hbefore ?_
            rintro _ ⟨⟩ s'
            exact ⟨row, items.1, hloaded, rfl, rfl⟩
      · cases h
  | deliver n id source account inbound =>
      dsimp only at h
      split at h
      · rename_i row hnew hrow
        have hbefore : ∀ b, s.attempt n = some b → b.phase.answered = false := by simp [hnew]
        obtain ⟨_, heq⟩ := Option.ite_none_right_eq_some.mp h
        cases inbound with
        | events builders =>
            obtain rfl := Option.some.inj heq
            exact .answer _ n id _ none rfl hbefore (by simp)
        | lifecycle status =>
            obtain rfl := Option.some.inj heq
            exact .quiet _ n _ s.connection rfl hbefore rfl (fun _ => rfl)
      · cases h
  | append n ctx firstId =>
      dsimp only at h
      split at h
      · rename_i id fetched left cursor hbefore
        split at h
        · cases h
        · rename_i ctx' events hfind
          obtain rfl := Option.some.inj h
          obtain rfl : ctx' = ctx := by simpa using List.find?_some hfind
          exact .append n ctx' firstId id fetched events left cursor hbefore
            (List.mem_of_find?_eq_some hfind)
      · cases h
  | advanceCursor n =>
      dsimp only at h
      split at h
      · rename_i id fetched cursor hbefore
        obtain rfl := Option.some.inj h
        exact .advanceCursor n id fetched cursor hbefore
      · cases h
  | recordFailure n =>
      dsimp only at h
      split at h
      · rename_i id hbacking
        obtain rfl := Option.some.inj h
        refine .quiet _ n _ _ rfl ?_ rfl (Intake.updateConnection_cursor fun _ => rfl)
        simp [hbacking, IntakePhase.answered]
      · cases h
  | updateStatus n =>
      dsimp only at h
      split at h
      · rename_i id status hnotified
        obtain rfl := Option.some.inj h
        refine .quiet _ n _ _ rfl ?_ rfl (Intake.updateConnection_cursor fun _ => rfl)
        simp [hnotified, IntakePhase.answered]
      · cases h
  | stop n =>
      obtain ⟨a, hbefore, rfl⟩ := Option.map_eq_some_iff.mp h
      exact .stop n a hbefore

/-! ## The log and the attempts -/

/-- What a poll or a delivery has left to append is whole groups, and the rest is in the log. -/
def IntakePhase.Sound (log : List Event) : IntakePhase → Prop
  | appending fetched left _ => left ⊆ contextGroups fetched ∧
      ∀ ev ∈ fetched, InLog log ev ∨ ∃ group ∈ left, ev ∈ group.2
  | polled fetched _ => ∀ ev ∈ fetched, InLog log ev
  | begun | loaded _ | backingOff | failed | skipped | notified _ | applied => True

theorem IntakePhase.sound_of_unanswered {log : List Event} {phase : IntakePhase}
    (h : phase.answered = false) : phase.Sound log := by
  cases phase with
  | appending fetched left cursor => cases h
  | polled fetched cursor => cases h
  | _ => exact trivial

theorem IntakePhase.Sound.mono {log log' : List Event} {phase : IntakePhase} (h : phase.Sound log)
    (hsub : log ⊆ log') : phase.Sound log' := by
  cases phase with
  | appending fetched left cursor =>
      refine ⟨h.1, ?_⟩
      intro ev hev
      exact (h.2 ev hev).imp_left fun hin => hin.mono hsub
  | polled fetched cursor =>
      intro ev hev
      exact (h ev hev).mono hsub
  | _ => exact trivial

structure Intake.Sound (s : Intake) : Prop where
  rows : DistinctRows s.event
  attempt : ∀ n a, s.attempt n = some a → a.phase.Sound s.event

theorem IntakeMove.subset (h : IntakeMove sha256 s act s') : s.event ⊆ s'.event := by
  cases h with
  | append n ctx firstId id fetched events left cursor hbefore hgroup => exact subset_insertAll
  | _ => exact List.Subset.refl _

theorem Intake.Sound.withAttempt (h : s.Sound) {n : Nat} {a : IntakeAttempt} {log : List Event}
    (hsub : s.event ⊆ log) (ha : a.phase.Sound log) (m : Nat) (b : IntakeAttempt)
    (hb : (s.withAttempt n a).attempt m = some b) : b.phase.Sound log := by
  by_cases hm : m = n
  · subst hm
    rw [Intake.withAttempt_self] at hb
    obtain rfl := Option.some.inj hb
    exact ha
  · rw [Intake.withAttempt_of_ne hm] at hb
    exact (h.attempt m b hb).mono hsub

theorem Intake.Sound.step (h : s.Sound) (hmove : IntakeMove sha256 s act s') : s'.Sound := by
  have hrefl := List.Subset.refl s.event
  cases hmove with
  | wait duration => exact ⟨h.rows, h.attempt⟩
  | connect id source owner account row hnew hrow => exact ⟨h.rows, h.attempt⟩
  | quiet _ n a connection hact hbefore hafter hcursor =>
      exact ⟨h.rows, h.withAttempt hrefl (IntakePhase.sound_of_unanswered hafter)⟩
  | answer _ n id fetched cursor hact hbefore hfetch =>
      refine ⟨h.rows, h.withAttempt hrefl ⟨List.Subset.refl _, ?_⟩⟩
      intro ev hev
      exact Or.inr (exists_contextGroup hev)
  | append n ctx firstId id fetched events left cursor hbefore hgroup =>
      obtain ⟨hleft, hcovered⟩ := h.attempt n _ hbefore
      refine ⟨h.rows.insertAll, h.withAttempt subset_insertAll ⟨?_, ?_⟩⟩
      · exact fun group hin => hleft (List.mem_filter.mp hin).1
      · intro ev hev
        rcases hcovered ev hev with hin | ⟨group, hin, hmem⟩
        · exact Or.inl (hin.mono subset_insertAll)
        · by_cases hctx : group.1 = ctx
          · -- the group is the one that was appended
            have hsame : group.2 = events := by
              rw [mem_contextGroups (hleft hin), hctx, ← mem_contextGroups (hleft hgroup)]
            obtain ⟨i, hi⟩ : ∃ i, (s.now, firstId + i, ev) ∈ scopedArrivals s.now firstId events :=
              mem_scopedArrivals (hsame ▸ hmem)
            exact Or.inl (inLog_insertAll hi)
          · exact Or.inr ⟨group, List.mem_filter.mpr ⟨hin, by simpa using hctx⟩, hmem⟩
  | advanceCursor n id fetched cursor hbefore =>
      obtain ⟨_, hcovered⟩ := h.attempt n _ hbefore
      refine ⟨h.rows, h.withAttempt hrefl ?_⟩
      intro ev hev
      rcases hcovered ev hev with hin | ⟨group, hin, _⟩
      · exact hin
      · cases hin
  | stop n a hbefore => exact ⟨h.rows, h.withAttempt hrefl (h.attempt n a hbefore)⟩

theorem Intake.Sound.run {ts : List (Run.Transition Intake IntakeAction)}
    (h : IntakeRuns sha256 ts s) : s.Sound := by
  have hstart : ({} : Intake).Sound := ⟨List.Pairwise.nil, fun _ _ ha => nomatch ha⟩
  refine h.state_invariant Intake.Sound hstart ?_
  intro t _ hstep hs
  exact hs.step hstep.moves

/-! ## Cursors -/

theorem IntakeMove.cursor_cases (h : IntakeMove sha256 s act s') (id : Uuid) :
    (s'.cursor id = s.cursor id ∧ ∀ fetch, ¬ MovesCursor ⟨s, act, s'⟩ id fetch) ∨
      ∃ fetch, MovesCursor ⟨s, act, s'⟩ id fetch ∧ s'.cursor id = some fetch.2 := by
  cases h with
  | wait duration => exact Or.inl ⟨rfl, by simp [MovesCursor]⟩
  | connect id' source owner account row hnew hrow =>
      refine Or.inl ⟨?_, by simp [MovesCursor]⟩
      unfold Intake.cursor
      dsimp only
      by_cases hid : id = id'
      · subst hid
        rw [Function.update_self, hnew]
        exact hrow
      · rw [Function.update_of_ne hid]
  | quiet _ n a connection hact hbefore hafter hcursor =>
      refine Or.inl ⟨hcursor id, ?_⟩
      rintro fetch ⟨m, rfl, _, happending⟩
      obtain rfl := Option.some.inj hact
      cases hbefore _ happending
  | answer _ n id' fetched cursor hact hbefore hfetch =>
      refine Or.inl ⟨rfl, ?_⟩
      rintro fetch ⟨m, rfl, _, happending⟩
      obtain rfl := Option.some.inj hact
      cases hbefore _ happending
  | append n ctx firstId id' fetched events left cursor hbefore hgroup =>
      exact Or.inl ⟨rfl, by simp [MovesCursor]⟩
  | advanceCursor n id' fetched cursor hbefore =>
      by_cases hid : id = id'
      · subst hid
        cases hrow : s.connection id with
        | none =>
            have hsame : ((s.withAttempt n ⟨id, .polled fetched cursor, true⟩).updateConnection id
                (·.advanceCursor s.now cursor)).cursor id = s.cursor id := by
              simp [Intake.cursor, Intake.updateConnection, Intake.withAttempt, hrow]
            refine Or.inl ⟨hsame, ?_⟩
            rintro fetch ⟨m, _, hsome, _⟩
            simp [hrow] at hsome
        | some row =>
            refine Or.inr ⟨(fetched, cursor), ⟨n, rfl, by simp [hrow], hbefore⟩, ?_⟩
            simp [Intake.cursor, Intake.updateConnection, Intake.withAttempt, hrow,
              ConnectionRow.advanceCursor]
      · refine Or.inl ⟨?_, ?_⟩
        · unfold Intake.cursor Intake.updateConnection Intake.withAttempt
          dsimp only
          rw [Function.update_of_ne hid]
        · rintro fetch ⟨m, hact, _, happending⟩
          obtain rfl := IntakeAction.advanceCursor.inj hact
          rw [hbefore] at happending
          cases happending
          exact hid rfl
  | stop n a hbefore => exact Or.inl ⟨rfl, by simp [MovesCursor]⟩

/-! ## Attempts over a run -/

/-- What a poll has fetched, and the cursor that came with it. -/
def IntakePhase.fetch : IntakePhase → Option (List NewEvent × Value)
  | appending fetched _ cursor => cursor.map (fetched, ·)
  | polled fetched cursor => some (fetched, cursor)
  | begun | loaded _ | backingOff | failed | skipped | notified _ | applied => none

theorem IntakePhase.fetch_unanswered {phase : IntakePhase} (h : phase.answered = false) :
    phase.fetch = none := by
  cases phase with
  | appending fetched left cursor => cases h
  | polled fetched cursor => cases h
  | _ => rfl

theorem IntakePhase.uncompleted {phase : IntakePhase} (h : phase.answered = false) :
    phase.completed = false := by
  cases phase with
  | polled fetched cursor => cases h
  | _ => rfl

structure IntakeAttempt.GoesOn (b a : IntakeAttempt) : Prop where
  connection : b.connection = a.connection
  answered : b.phase.answered = a.phase.answered
  fetch : b.phase.fetch = a.phase.fetch
  completed : b.phase.completed = true → a.phase.completed = true

/-- Of the attempts, a step writes the one it belongs to, which goes on, or was not answered before:
then the step is its fetch if it is answered now. -/
theorem IntakeMove.attempt_cases (h : IntakeMove sha256 s act s') (n : Nat) :
    s'.attempt n = s.attempt n ∨ act.attempt = some n ∧ ∃ a, s'.attempt n = some a ∧
      ((∃ b, s.attempt n = some b ∧ b.GoesOn a) ∨
        (∀ b, s.attempt n = some b → b.phase.answered = false) ∧
          ∀ f, a.phase.fetch = some f → Fetches sha256 ⟨s, act, s'⟩ n a.connection f.1 f.2) := by
  cases h with
  | wait duration => exact Or.inl rfl
  | connect id source owner account row hnew hrow => exact Or.inl rfl
  | quiet _ m b connection hact hbefore hafter hcursor =>
      by_cases hm : n = m
      · subst hm
        refine Or.inr ⟨hact, b, s.withAttempt_self, Or.inr ⟨hbefore, ?_⟩⟩
        simp [IntakePhase.fetch_unanswered hafter]
      · exact Or.inl (Intake.withAttempt_of_ne hm)
  | answer _ m id fetched cursor hact hbefore hfetch =>
      by_cases hm : n = m
      · subst hm
        refine Or.inr ⟨hact, _, Intake.withAttempt_self, Or.inr ⟨hbefore, ?_⟩⟩
        intro f hf
        obtain ⟨c, rfl, rfl⟩ := Option.map_eq_some_iff.mp hf
        exact hfetch c rfl _
      · exact Or.inl (Intake.withAttempt_of_ne hm)
  | append m ctx firstId id fetched events left cursor hbefore hgroup =>
      by_cases hm : n = m
      · subst hm
        exact Or.inr ⟨rfl, _, Intake.withAttempt_self, Or.inl ⟨_, hbefore, rfl, rfl, rfl, nofun⟩⟩
      · exact Or.inl (Intake.withAttempt_of_ne hm)
  | advanceCursor m id fetched cursor hbefore =>
      by_cases hm : n = m
      · subst hm
        exact Or.inr ⟨rfl, _, Intake.withAttempt_self, Or.inl ⟨_, hbefore, rfl, rfl, rfl, nofun⟩⟩
      · exact Or.inl (Intake.withAttempt_of_ne hm)
  | stop m b hbefore =>
      by_cases hm : n = m
      · subst hm
        exact Or.inr ⟨rfl, _, Intake.withAttempt_self, Or.inl ⟨b, hbefore, rfl, rfl, rfl, id⟩⟩
      · exact Or.inl (Intake.withAttempt_of_ne hm)

/-- An attempt that has been answered stays so, and one that is through stays through. -/
theorem IntakeMove.kept (h : IntakeMove sha256 s act s') {n : Nat} {b : IntakeAttempt}
    (hb : s.attempt n = some b) (hanswered : b.phase.answered = true) :
    ∃ a, s'.attempt n = some a ∧ b.GoesOn a := by
  rcases h.attempt_cases n with hsame | ⟨_, a, ha, ⟨b', hb', hgoes⟩ | ⟨hnot, _⟩⟩
  · exact ⟨b, hsame.trans hb, rfl, rfl, rfl, id⟩
  · obtain rfl := Option.some.inj (hb.symm.trans hb')
    exact ⟨a, ha, hgoes⟩
  · rw [hnot b hb] at hanswered
    cases hanswered

variable {ts : List (Run.Transition Intake IntakeAction)} {n : Nat} {a : IntakeAttempt}

theorem fetched_in_run (h : IntakeRuns sha256 ts s) (ha : s.attempt n = some a)
    {f : List NewEvent × Value} (hf : a.phase.fetch = some f) :
    ∃ t ∈ ts, Fetches sha256 t n a.connection f.1 f.2 := by
  induction h generalizing a with
  | nil => cases ha
  | @snoc ts m s' act hrun hstep ih =>
      have hold : ∀ b, m.attempt n = some b → b.phase.fetch = some f →
          ∃ t ∈ ts ++ [⟨m, act, s'⟩], Fetches sha256 t n b.connection f.1 f.2 := by
        intro b hb hbf
        obtain ⟨t, ht, hfetch⟩ := ih hb hbf
        exact ⟨t, List.mem_append_left _ ht, hfetch⟩
      rcases hstep.moves.attempt_cases n with hsame | ⟨_, a', ha', hcases⟩
      · exact hold a (hsame.symm.trans ha) hf
      · obtain rfl := Option.some.inj (ha'.symm.trans ha)
        rcases hcases with ⟨b, hb, hgoes⟩ | ⟨_, hfetch⟩
        · exact hgoes.connection ▸ hold b hb (hgoes.fetch.trans hf)
        · exact ⟨_, List.mem_append_right _ (List.mem_singleton_self _), hfetch f hf⟩

/-- The cursor of a connection is that of a fetch whose events are all in the log. -/
theorem cursor_covered (h : IntakeRuns sha256 ts s) {id : Uuid} {c : Value}
    (hc : s.cursor id = some c) : ∃ t fetched,
      Run.LastOf (fun t => ∃ fetch, MovesCursor t id fetch) ts t ∧ MovesCursor t id (fetched, c) ∧
      (∃ u ∈ ts, ∃ n, Fetches sha256 u n id fetched c) ∧ ∀ ev ∈ fetched, InLog s.event ev := by
  have hcases : ∀ t ∈ ts, ∀ id, (t.after.cursor id = t.before.cursor id ∧
      ∀ fetch, ¬ MovesCursor t id fetch) ∨
        ∃ fetch, MovesCursor t id fetch ∧ t.after.cursor id = some fetch.2 :=
    fun t ht id => (h.step_of_mem ht).moves.cursor_cases id
  rcases h.last_write Intake.cursor MovesCursor (·.2) (fun _ => rfl) hcases id with
    ⟨hnone, _⟩ | ⟨t, ⟨fetched, c'⟩, hlast, hmoves, hcursor⟩
  · rw [hnone] at hc
    cases hc
  · obtain rfl := Option.some.inj (hcursor.symm.trans hc)
    have hmoved := hmoves
    obtain ⟨n, _, _, hattempt⟩ := hmoved
    obtain ⟨pre, post, heq, hpre⟩ := h.before_of_mem hlast.mem
    refine ⟨t, fetched, hlast, hmoves, ?_, ?_⟩
    · obtain ⟨u, hu, hfetch⟩ := fetched_in_run hpre hattempt rfl
      exact ⟨u, heq ▸ List.mem_append_left _ hu, n, hfetch⟩
    · have hstep := (h.step_of_mem hlast.mem).moves
      have hafter : ∀ ev ∈ fetched, InLog t.after.event ev := by
        intro ev hev
        obtain ⟨_, hcovered⟩ := (Intake.Sound.run hpre).attempt n _ hattempt
        rcases hcovered ev hev with hin | ⟨group, hin, _⟩
        · exact hin.mono hstep.subset
        · cases hin
      refine h.kept_of_mem (Q := fun s => ∀ ev ∈ fetched, InLog s.event ev) ?_ hlast.mem hafter
      intro u hu hin ev hev
      exact (hin ev hev).mono (h.step_of_mem hu).moves.subset

theorem IntakeMove.effect (h : IntakeMove sha256 s act s') (hs : s.Sound)
    (hof : act.attempt = some n) :
    (s'.event = s.event ∧ KeepsCursors ⟨s, act, s'⟩) ∨
      ∃ b, s'.attempt n = some b ∧ b.phase.answered = true ∧
        (b.phase.completed = true ∨ KeepsCursors ⟨s, act, s'⟩ ∧ AppendsGroup ⟨s, act, s'⟩) := by
  cases h with
  | wait duration => cases hof
  | connect id source owner account row hnew hrow => cases hof
  | quiet _ m b connection hact hbefore hafter hcursor => exact Or.inl ⟨rfl, hcursor⟩
  | answer _ m id fetched cursor hact hbefore hfetch => exact Or.inl ⟨rfl, fun _ => rfl⟩
  | append m ctx firstId id fetched events left cursor hbefore hgroup =>
      obtain rfl := Option.some.inj hof
      obtain ⟨hleft, _⟩ := hs.attempt m _ hbefore
      obtain rfl : events = eventsIn ctx fetched := mem_contextGroups (hleft hgroup)
      refine Or.inr ⟨_, Intake.withAttempt_self, rfl, Or.inr ⟨fun _ => rfl, ?_⟩⟩
      exact ⟨m, id, fetched, left, cursor, ctx, firstId, hbefore, rfl, rfl⟩
  | advanceCursor m id fetched cursor hbefore =>
      obtain rfl := Option.some.inj hof
      exact Or.inr ⟨_, Intake.withAttempt_self, rfl, Or.inl rfl⟩
  | stop m b hbefore => exact Or.inl ⟨rfl, fun _ => rfl⟩

theorem kept_to_end (h : IntakeRuns sha256 ts s) (ha : s.attempt n = some a)
    {t : Run.Transition Intake IntakeAction} (ht : t ∈ ts) {b : IntakeAttempt}
    (hb : t.after.attempt n = some b) (hanswered : b.phase.answered = true) :
    a.phase.answered = true ∧ (b.phase.completed = true → a.phase.completed = true) := by
  obtain ⟨a', ha', hend⟩ : ∃ a, s.attempt n = some a ∧ a.phase.answered = true ∧
      (b.phase.completed = true → a.phase.completed = true) := by
    refine h.kept_of_mem (Q := fun s => ∃ a, s.attempt n = some a ∧ a.phase.answered = true ∧
      (b.phase.completed = true → a.phase.completed = true)) ?_ ht ⟨b, hb, hanswered, id⟩
    rintro u hu ⟨x, hx, hanswered, hcompleted⟩
    obtain ⟨y, hy, hgoes⟩ := (h.step_of_mem hu).moves.kept hx hanswered
    exact ⟨y, hy, hgoes.answered ▸ hanswered, fun hb => hgoes.completed (hcompleted hb)⟩
  obtain rfl := Option.some.inj (ha.symm.trans ha')
  exact hend

theorem uncompleted_steps (h : IntakeRuns sha256 ts s) (ha : s.attempt n = some a)
    (hnot : a.phase.completed = false) {t : Run.Transition Intake IntakeAction} (ht : t ∈ ts)
    (hof : t.action.attempt = some n) : KeepsCursors t ∧
      (t.after.event = t.before.event ∨ a.phase.answered = true ∧ AppendsGroup t) := by
  obtain ⟨pre, _, _, hpre⟩ := h.before_of_mem ht
  rcases (h.step_of_mem ht).moves.effect (Intake.Sound.run hpre) hof with
    ⟨hlog, hcursors⟩ | ⟨b, hb, hanswered, hcases⟩
  · exact ⟨hcursors, Or.inl hlog⟩
  · obtain ⟨hanswered, hcompleted⟩ := kept_to_end h ha ht hb hanswered
    rcases hcases with hdone | ⟨hcursors, hgroup⟩
    · rw [hnot] at hcompleted
      cases hcompleted hdone
    · exact ⟨hcursors, Or.inr ⟨hanswered, hgroup⟩⟩

/-- The cursor of a connection is that of a fetch whose events are all in the log; what a completed
poll has fetched is in the log once; a poll that failed before the source answered has left the log
and the cursors as they were; one that did not come through has left the cursors, and has added to
the log whole groups of what it fetched. -/
theorem crash_safe_intake (h : IntakeRuns sha256 ts s) :
    (∀ id c, s.cursor id = some c → ∃ t fetched,
      Run.LastOf (fun t => ∃ fetch, MovesCursor t id fetch) ts t ∧ MovesCursor t id (fetched, c) ∧
      (∃ u ∈ ts, ∃ n, Fetches sha256 u n id fetched c) ∧ ∀ ev ∈ fetched, InLog s.event ev) ∧
    (∀ n a fetched cursor, s.attempt n = some a → a.phase = .polled fetched cursor →
      (∃ u ∈ ts, Fetches sha256 u n a.connection fetched cursor) ∧
      ∀ ev ∈ fetched, (rowsOf ev s.event).length = 1) ∧
    (∀ n a, s.attempt n = some a → a.phase.answered = false → ∀ t ∈ ts,
      t.action.attempt = some n → t.after.event = t.before.event ∧ KeepsCursors t) ∧
    ∀ n a, s.attempt n = some a → a.phase.completed = false → ∀ t ∈ ts,
      t.action.attempt = some n →
        KeepsCursors t ∧ (t.after.event = t.before.event ∨ AppendsGroup t) := by
  have hsound := Intake.Sound.run h
  refine ⟨fun id c hc => cursor_covered h hc, ?_, ?_, ?_⟩
  · intro n a fetched cursor ha hpolled
    have hlogged := hsound.attempt n a ha
    rw [hpolled] at hlogged
    refine ⟨fetched_in_run h ha (by rw [hpolled]; rfl), ?_⟩
    intro ev hev
    exact hsound.rows.once (hlogged ev hev)
  · intro n a ha hnot t ht hof
    obtain ⟨hcursors, hlog | ⟨hanswered, _⟩⟩ :=
      uncompleted_steps h ha (IntakePhase.uncompleted hnot) ht hof
    · exact ⟨hlog, hcursors⟩
    · rw [hnot] at hanswered
      cases hanswered
  · intro n a ha hnot t ht hof
    obtain ⟨hcursors, hlog⟩ := uncompleted_steps h ha hnot ht hof
    exact ⟨hcursors, hlog.imp_right And.right⟩

end Steps

/-! ## Polls cut short -/

def Intake.play (s : Intake) (act : IntakeAction) : Option (IntakeAction × Intake) :=
  (s.next id act).map fun s' => (act, s')

theorem Intake.play_ends {script : List IntakeAction} {p : Intake → Bool}
    (h : (Run.execute Intake.play {} script).any p = true) :
    ∃ s, IntakeRuns id (Run.transitions Intake.play {} script) s ∧ p s = true := by
  refine Run.execute_ends ?_ h
  intro s cue act s' hplay
  obtain ⟨rfl, hnext⟩ := Run.eq_some_of_paired hplay
  exact hnext

def issueItem (id : String) (isPrivate : Bool) : EventBuilder where
  source := .github
  stableId := id
  eventTime := 5
  title := id
  groupKey := "octo/repo"
  isPrivate := isPrivate

/-- A poll of a connection of subscriber 7 fetches an item that is public and one that is
private. -/
def fetchScript : List IntakeAction :=
  [.connect 1 .github (some 7) (some "99"), .poll 0 1, .load 0 true,
    .fetch 0 (some ([issueItem "a" false, issueItem "b" true], .int 1))]

/-- A delivery of one of the items comes between its transactions, and the next poll fails. -/
def throughScript : List IntakeAction :=
  fetchScript ++ [.append 0 (.ofSubscriber 7) 100,
    .deliver 1 1 .github "99" (.events [issueItem "a" false]), .append 1 .noSubscriber 200,
    .append 0 .noSubscriber 300, .advanceCursor 0, .poll 2 1, .load 2 true, .fetch 2 none,
    .recordFailure 2]

def cutScript : List IntakeAction := fetchScript ++ [.append 0 .noSubscriber 100, .stop 0]

def throughRun : List (Run.Transition Intake IntakeAction) :=
  Run.transitions Intake.play {} throughScript

def cutRun : List (Run.Transition Intake IntakeAction) :=
  Run.transitions Intake.play {} cutScript

theorem crash_safe_intake_through : ∃ s, IntakeRuns id throughRun s ∧ s.event.length = 2 ∧
    (s.cursor 1).isSome = true ∧ (∀ c, s.cursor 1 = some c → ∃ t fetched,
      Run.LastOf (fun t => ∃ fetch, MovesCursor t 1 fetch) throughRun t ∧
      MovesCursor t 1 (fetched, c) ∧ (∃ u ∈ throughRun, ∃ n, Fetches id u n 1 fetched c) ∧
      ∀ ev ∈ fetched, InLog s.event ev) ∧
    ∀ t ∈ throughRun, t.action.attempt = some 2 →
      t.after.event = t.before.event ∧ KeepsCursors t := by
  obtain ⟨s, hrun, hends⟩ : ∃ s, IntakeRuns id throughRun s ∧
      decide (s.event.length = 2 ∧ (s.cursor 1).isSome = true ∧
        (s.attempt 2).any (!·.phase.answered) = true) = true :=
    Intake.play_ends (by decide +kernel)
  obtain ⟨hevents, hcursor, hfailed⟩ := of_decide_eq_true hends
  obtain ⟨hcovered, _, hkeeps, _⟩ := crash_safe_intake hrun
  obtain ⟨a, ha, hnot⟩ := (Option.any_eq_true _ _).mp hfailed
  exact ⟨s, hrun, hevents, hcursor, hcovered 1, hkeeps 2 a ha (by simpa using hnot)⟩

/-- A poll that stops between its two transactions leaves the events of the first in the log. -/
theorem cut_poll_keeps_group : ∃ s, IntakeRuns id cutRun s ∧ s.event.length = 1 ∧
    ¬ ∀ n a, s.attempt n = some a → a.alive = false → a.phase.completed = false → ∀ t ∈ cutRun,
      t.action.attempt = some n → t.after.event = t.before.event := by
  obtain ⟨s, hrun, hends⟩ : ∃ s, IntakeRuns id cutRun s ∧
      decide (s.event.length = 1 ∧
        (s.attempt 0).any (fun a => !a.alive && !a.phase.completed) = true) = true :=
    Intake.play_ends (by decide +kernel)
  obtain ⟨hevents, hstopped⟩ := of_decide_eq_true hends
  refine ⟨s, hrun, hevents, ?_⟩
  intro hall
  obtain ⟨a, ha, hcut⟩ := (Option.any_eq_true _ _).mp hstopped
  obtain ⟨hdead, hopen⟩ : a.alive = false ∧ a.phase.completed = false := by simpa using hcut
  obtain ⟨t, ht, hof, hgrew⟩ : ∃ t ∈ cutRun, t.action.attempt = some 0 ∧
      t.after.event.length ≠ t.before.event.length := by decide +kernel
  exact hgrew (congrArg List.length (hall 0 a ha hdead hopen t ht hof))

end Bulletin
