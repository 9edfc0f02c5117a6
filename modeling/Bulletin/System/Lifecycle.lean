import Bulletin.System.Intake

/-! # The life of a connection

Polls and deliveries write the row of their connection when they end: a success, a failure, or the
status a delivery brings. Many of them are under way at once, so the row is what the last of these
writes have left, whatever the order they began in.
-/

namespace Bulletin

open Json

/-! ## Writes -/

/-- What is written on the row of a connection. -/
inductive RowWrite where
  | connected
  | advanced
  | failed
  | notified (status : LifecycleStatus)
deriving DecidableEq, Repr

/-- What a step writes on the row of a connection. -/
def rowWrite (id : Uuid) (t : Run.Transition Intake IntakeAction) : Option RowWrite :=
  match t.action with
  | .connect id' _ _ _ => if id' = id then some .connected else none
  | .advanceCursor n => match t.before.attempt n with
      | some a => if a.connection = id then some .advanced else none
      | none => none
  | .recordFailure n => match t.before.attempt n with
      | some a => if a.connection = id then some .failed else none
      | none => none
  | .updateStatus n => match t.before.attempt n with
      | some ⟨id', .notified status, _⟩ => if id' = id then some (.notified status) else none
      | _ => none
  | .wait _ | .poll _ _ | .load _ _ | .fetch _ _ | .deliver _ _ _ _ _ | .append _ _ _ | .stop _ =>
      none

/-- The failures recorded since the connection was made or a poll of it succeeded. -/
def failuresSince (id : Uuid) (ts : List (Run.Transition Intake IntakeAction)) : Nat :=
  ts.foldl (fun k t => match rowWrite id t with
    | some .connected | some .advanced => 0
    | some .failed => k + 1
    | some (.notified _) | none => k) 0

/-- The status a step gives the connection. A failure gives one from the fifth on. -/
def statusWrite (id : Uuid) (t : Run.Transition Intake IntakeAction) : Option ConnectionStatus :=
  match rowWrite id t with
  | some .connected => some .active
  | some (.notified status) => (t.before.connection id).map fun _ => status.asStr
  | some .failed =>
      if (t.before.connection id).any (5 ≤ ·.consecutiveFailures + 1) then some .errored else none
  | some .advanced | none => none

/-- The poll of the connection that a step lets fetch. -/
def fetchedBy (id : Uuid) (t : Run.Transition Intake IntakeAction) : Option Nat :=
  match t.action with
  | .fetch n _ => match t.before.attempt n with
      | some a => if a.connection = id then some n else none
      | none => none
  | _ => none

section Steps

variable {sha256 : List UInt8 → List UInt8} {s s' : Intake} {act : IntakeAction} {id : Uuid}
  {ts us : List (Run.Transition Intake IntakeAction)}

/-- What a step does to the row of a connection. -/
inductive RowMove (id : Uuid) (s : Intake) (act : IntakeAction) (s' : Intake) : Prop
  | kept (hwrite : rowWrite id ⟨s, act, s'⟩ = none) (hrow : s'.connection id = s.connection id)
  | connected (source : SourceKind) (owner : Option Uuid) (account : Option String)
      (hwrite : rowWrite id ⟨s, act, s'⟩ = some .connected) (hnew : s.connection id = none)
      (hrow : s'.connection id = some
        { source, nextPollAt := s.now, subscriberId := owner, providerAccountId := account })
  | advanced (cursor : Value) (hwrite : rowWrite id ⟨s, act, s'⟩ = some .advanced)
      (hrow : s'.connection id = (s.connection id).map (·.advanceCursor s.now cursor))
  | failed (hwrite : rowWrite id ⟨s, act, s'⟩ = some .failed)
      (hrow : s'.connection id = (s.connection id).map (·.recordFailure s.now))
  | notified (status : LifecycleStatus)
      (hwrite : rowWrite id ⟨s, act, s'⟩ = some (.notified status))
      (hrow : s'.connection id =
        (s.connection id).map fun row => { row with status := status.asStr })

theorem Intake.updateConnection_self {f : ConnectionRow → ConnectionRow} :
    (s.updateConnection id f).connection id = (s.connection id).map f := by
  simp [updateConnection]

theorem Intake.updateConnection_of_ne {id' : Uuid} {f : ConnectionRow → ConnectionRow}
    (h : id ≠ id') : (s.updateConnection id' f).connection id = s.connection id := by
  simp [updateConnection, h]

theorem IntakeStep.rowMove (h : IntakeStep sha256 s act s') (id : Uuid) : RowMove id s act s' := by
  unfold IntakeStep Intake.next at h
  cases act with
  | wait duration =>
      obtain rfl := Option.some.inj h
      exact .kept rfl rfl
  | connect id' source owner account =>
      dsimp only at h
      split at h
      · rename_i hnew
        obtain rfl := Option.some.inj h
        by_cases hid : id' = id
        · subst hid
          refine .connected source owner account ?_ hnew ?_
          · simp [rowWrite]
          · exact Function.update_self ..
        · refine .kept ?_ ?_
          · simp [rowWrite, hid]
          · exact Function.update_of_ne (Ne.symm hid) _ _
      · cases h
  | poll n id' =>
      dsimp only at h
      split at h
      · obtain rfl := Option.some.inj h
        exact .kept rfl rfl
      · cases h
  | load n built =>
      dsimp only at h
      split at h
      · split at h
        · obtain rfl := Option.some.inj h
          exact .kept rfl rfl
        · split at h <;>
          · obtain rfl := Option.some.inj h
            exact .kept rfl rfl
      · cases h
  | fetch n answer =>
      dsimp only at h
      split at h
      · cases answer <;>
        · obtain rfl := Option.some.inj h
          exact .kept rfl rfl
      · cases h
  | deliver n id' source account inbound =>
      dsimp only at h
      split at h
      · obtain ⟨_, heq⟩ := Option.ite_none_right_eq_some.mp h
        cases inbound <;>
        · obtain rfl := Option.some.inj heq
          exact .kept rfl rfl
      · cases h
  | append n ctx firstId =>
      dsimp only at h
      split at h
      · split at h
        · cases h
        · obtain rfl := Option.some.inj h
          exact .kept rfl rfl
      · cases h
  | advanceCursor n =>
      dsimp only at h
      split at h
      · rename_i id' fetched cursor hbefore
        obtain rfl := Option.some.inj h
        by_cases hid : id' = id
        · subst hid
          refine .advanced cursor ?_ Intake.updateConnection_self
          simp [rowWrite, hbefore]
        · refine .kept ?_ (Intake.updateConnection_of_ne (Ne.symm hid))
          simp [rowWrite, hbefore, hid]
      · cases h
  | recordFailure n =>
      dsimp only at h
      split at h
      · rename_i id' hbefore
        obtain rfl := Option.some.inj h
        by_cases hid : id' = id
        · subst hid
          refine .failed ?_ Intake.updateConnection_self
          simp [rowWrite, hbefore]
        · refine .kept ?_ (Intake.updateConnection_of_ne (Ne.symm hid))
          simp [rowWrite, hbefore, hid]
      · cases h
  | updateStatus n =>
      dsimp only at h
      split at h
      · rename_i id' status hbefore
        obtain rfl := Option.some.inj h
        by_cases hid : id' = id
        · subst hid
          refine .notified status ?_ Intake.updateConnection_self
          simp [rowWrite, hbefore]
        · refine .kept ?_ (Intake.updateConnection_of_ne (Ne.symm hid))
          simp [rowWrite, hbefore, hid]
      · cases h
  | stop n =>
      obtain ⟨a, _, rfl⟩ := Option.map_eq_some_iff.mp h
      exact .kept rfl rfl

theorem failuresSince_snoc {t : Run.Transition Intake IntakeAction} :
    failuresSince id (ts ++ [t]) = match rowWrite id t with
      | some .connected | some .advanced => 0
      | some .failed => failuresSince id ts + 1
      | some (.notified _) | none => failuresSince id ts := by
  unfold failuresSince
  rw [List.foldl_append, List.foldl_cons, List.foldl_nil]

/-! ## What the row says -/

theorem consecutiveFailures_eq (h : IntakeRuns sha256 ts s) {row : ConnectionRow}
    (hrow : s.connection id = some row) : row.consecutiveFailures = failuresSince id ts := by
  refine h.invariant (fun ts s => ∀ row, s.connection id = some row →
    row.consecutiveFailures = failuresSince id ts) ?_ ?_ row hrow
  · exact fun _ hnone => nomatch hnone
  · intro pre t post _ _ hstep ih row hrow
    rw [failuresSince_snoc]
    cases hstep.rowMove id with
    | kept hwrite hkept =>
        rw [hwrite]
        exact ih row (hkept ▸ hrow)
    | connected source owner account hwrite _ hconnected =>
        rw [hwrite]
        obtain rfl := Option.some.inj (hconnected.symm.trans hrow)
        rfl
    | advanced cursor hwrite hadvanced =>
        rw [hwrite]
        obtain ⟨before, _, rfl⟩ := Option.map_eq_some_iff.mp (hadvanced.symm.trans hrow)
        rfl
    | failed hwrite hfailed =>
        rw [hwrite]
        obtain ⟨before, hbefore, rfl⟩ := Option.map_eq_some_iff.mp (hfailed.symm.trans hrow)
        exact congrArg (· + 1) (ih before hbefore)
    | notified status hwrite hnotified =>
        rw [hwrite]
        obtain ⟨before, hbefore, rfl⟩ := Option.map_eq_some_iff.mp (hnotified.symm.trans hrow)
        exact ih before hbefore

theorem IntakeStep.status (h : IntakeStep sha256 s act s') (id : Uuid) :
    (s'.connection id).map (·.status) =
      (statusWrite id ⟨s, act, s'⟩).or ((s.connection id).map (·.status)) := by
  unfold statusWrite
  cases h.rowMove id with
  | kept hwrite hrow => simp [hwrite, hrow]
  | connected source owner account hwrite _ hrow => simp [hwrite, hrow]
  | advanced cursor hwrite hrow =>
      rw [hwrite, hrow]
      cases s.connection id <;> rfl
  | failed hwrite hrow =>
      rw [hwrite, hrow]
      cases s.connection id with
      | none => rfl
      | some row =>
          by_cases hfifth : 4 ≤ row.consecutiveFailures <;>
            simp [ConnectionRow.recordFailure, hfifth]
  | notified status hwrite hrow =>
      rw [hwrite, hrow]
      cases s.connection id <;> rfl

/-- Over any interleaving of polls and deliveries, the failures on the row of a connection are those
recorded since a poll of it last succeeded, and its status is the one that was given last: by the
delivery of a status, or by a failure that was at least the fifth. -/
theorem connection_status (h : IntakeRuns sha256 ts s) {row : ConnectionRow}
    (hrow : s.connection id = some row) :
    row.consecutiveFailures = failuresSince id ts ∧
      ∀ status, row.status = status ↔
        ∃ t, Run.LastOf (fun t => ∃ b, statusWrite id t = some b) ts t ∧
          statusWrite id t = some status := by
  refine ⟨consecutiveFailures_eq h hrow, ?_⟩
  intro status
  rw [← h.last_value (fun s id => (s.connection id).map (·.status)) (fun t id => statusWrite id t)
    (fun _ => rfl) (fun t ht id => (h.step_of_mem ht).status id), hrow, Option.map_some,
    Option.some.injEq]

/-! ## Polls of a paused connection -/

def IntakePhase.pastFetch : IntakePhase → Bool
  | begun | loaded _ => false
  | appending _ _ _ | polled _ _ | backingOff | failed | skipped | notified _ | applied => true

/-- What a step does to a poll or a delivery. -/
inductive AttemptMove (n : Nat) (s : Intake) (s' : Intake) : Prop
  | kept (hkept : s'.attempt n = s.attempt n)
  | stopped (a : IntakeAttempt) (hbefore : s.attempt n = some a)
      (hafter : s'.attempt n = some { a with alive := false })
  | begun (id : Uuid) (hnew : s.attempt n = none) (hafter : s'.attempt n = some ⟨id, .begun, true⟩)
  | loaded (id : Uuid) (row : ConnectionRow) (hbefore : s.attempt n = some ⟨id, .begun, true⟩)
      (hrow : s.connection id = some row) (hactive : row.status = .active)
      (hafter : s'.attempt n = some ⟨id, .loaded row, true⟩)
  | past (a : IntakeAttempt) (hpast : a.phase.pastFetch = true) (hafter : s'.attempt n = some a)

theorem AttemptMove.of_withAttempt {n m : Nat} {a : IntakeAttempt}
    (hattempt : s'.attempt = (s.withAttempt m a).attempt)
    (hself : s'.attempt m = some a → AttemptMove m s s') : AttemptMove n s s' := by
  by_cases hn : n = m
  · subst hn
    refine hself ?_
    rw [hattempt, Intake.withAttempt_self]
  · refine .kept ?_
    rw [hattempt, Intake.withAttempt_of_ne hn]

theorem IntakeStep.attemptMove (h : IntakeStep sha256 s act s') (n : Nat) : AttemptMove n s s' := by
  unfold IntakeStep Intake.next at h
  cases act with
  | wait duration =>
      obtain rfl := Option.some.inj h
      exact .kept rfl
  | connect id source owner account =>
      dsimp only at h
      split at h
      · obtain rfl := Option.some.inj h
        exact .kept rfl
      · cases h
  | poll m id =>
      dsimp only at h
      split at h
      · rename_i hnew
        obtain rfl := Option.some.inj h
        exact .of_withAttempt rfl (.begun id hnew)
      · cases h
  | load m built =>
      dsimp only at h
      split at h
      · rename_i id hbegun
        split at h
        · obtain rfl := Option.some.inj h
          exact .of_withAttempt rfl (.past _ rfl)
        · rename_i row hrow
          split at h
          · rename_i hactive
            obtain rfl := Option.some.inj h
            exact .of_withAttempt rfl (.loaded id row hbegun hrow hactive.1)
          · obtain rfl := Option.some.inj h
            exact .of_withAttempt rfl (.past _ rfl)
      · cases h
  | fetch m answer =>
      dsimp only at h
      split at h
      · cases answer <;>
        · obtain rfl := Option.some.inj h
          exact .of_withAttempt rfl (.past _ rfl)
      · cases h
  | deliver m id source account inbound =>
      dsimp only at h
      split at h
      · obtain ⟨_, heq⟩ := Option.ite_none_right_eq_some.mp h
        cases inbound <;>
        · obtain rfl := Option.some.inj heq
          exact .of_withAttempt rfl (.past _ rfl)
      · cases h
  | append m ctx firstId =>
      dsimp only at h
      split at h
      · split at h
        · cases h
        · obtain rfl := Option.some.inj h
          exact .of_withAttempt rfl (.past _ rfl)
      · cases h
  | advanceCursor m =>
      dsimp only at h
      split at h
      · obtain rfl := Option.some.inj h
        exact .of_withAttempt rfl (.past _ rfl)
      · cases h
  | recordFailure m =>
      dsimp only at h
      split at h
      · obtain rfl := Option.some.inj h
        exact .of_withAttempt rfl (.past _ rfl)
      · cases h
  | updateStatus m =>
      dsimp only at h
      split at h
      · obtain rfl := Option.some.inj h
        exact .of_withAttempt rfl (.past _ rfl)
      · cases h
  | stop m =>
      obtain ⟨a, hbefore, rfl⟩ := Option.map_eq_some_iff.mp h
      exact .of_withAttempt rfl (.stopped a hbefore)

def Intake.PastFetch (s : Intake) (n : Nat) : Prop :=
  ∃ a, s.attempt n = some a ∧ a.phase.pastFetch = true

theorem Intake.PastFetch.step {n : Nat} (hpast : s.PastFetch n) (h : IntakeStep sha256 s act s') :
    s'.PastFetch n := by
  obtain ⟨a, ha, hphase⟩ := hpast
  cases h.attemptMove n with
  | kept hkept => exact ⟨a, hkept.trans ha, hphase⟩
  | stopped b hbefore hafter =>
      obtain rfl := Option.some.inj (hbefore.symm.trans ha)
      exact ⟨_, hafter, hphase⟩
  | begun id hnew _ => cases hnew.symm.trans ha
  | loaded id row hbefore _ _ _ =>
      obtain rfl := Option.some.inj (hbefore.symm.trans ha)
      cases hphase
  | past b hpast hafter => exact ⟨b, hafter, hpast⟩

theorem IntakeStep.fetchedBy_cases {n : Nat} (h : IntakeStep sha256 s act s')
    (hfetch : fetchedBy id ⟨s, act, s'⟩ = some n) :
    (∃ row, s.attempt n = some ⟨id, .loaded row, true⟩) ∧ s'.PastFetch n := by
  cases act with
  | fetch m answer =>
      unfold IntakeStep Intake.next at h
      dsimp only at h
      split at h
      · rename_i id' row hloaded
        have hn : id' = id ∧ m = n := by simpa [fetchedBy, hloaded] using hfetch
        obtain ⟨rfl, rfl⟩ := hn
        refine ⟨⟨row, hloaded⟩, ?_⟩
        cases answer <;>
        · obtain rfl := Option.some.inj h
          exact ⟨_, Intake.withAttempt_self, rfl⟩
      · cases h
  | _ => cases hfetch

theorem IntakeStep.paused {row : ConnectionRow} (h : IntakeStep sha256 s act s')
    (hrow : s.connection id = some row) (hpaused : row.status ≠ .active)
    (hnever : rowWrite id ⟨s, act, s'⟩ ≠ some (.notified .active)) :
    ∃ row', s'.connection id = some row' ∧ row'.status ≠ .active := by
  cases h.rowMove id with
  | kept _ hkept => exact ⟨row, hkept.trans hrow, hpaused⟩
  | connected source owner account _ hnew _ => cases hnew.symm.trans hrow
  | advanced cursor _ hadvanced =>
      rw [hrow] at hadvanced
      exact ⟨_, hadvanced, hpaused⟩
  | failed _ hfailed =>
      rw [hrow] at hfailed
      refine ⟨_, hfailed, ?_⟩
      unfold ConnectionRow.recordFailure
      dsimp only
      split
      · decide
      · exact hpaused
  | notified status hwrite hnotified =>
      rw [hrow] at hnotified
      refine ⟨_, hnotified, ?_⟩
      cases status with
      | active => exact absurd hwrite hnever
      | suspended | revoked => exact nofun

theorem filterMap_fetchedBy_snoc {t : Run.Transition Intake IntakeAction} :
    (us ++ [t]).filterMap (fetchedBy id) =
      us.filterMap (fetchedBy id) ++ (fetchedBy id t).toList := by
  rw [List.filterMap_append, List.filterMap_cons]
  cases fetchedBy id t <;> rfl

/-- What is left of the polls of a connection that was paused at `m`. -/
structure Draining (id : Uuid) (m : Intake) (us : List (Run.Transition Intake IntakeAction))
    (s : Intake) : Prop where
  paused : ∃ row, s.connection id = some row ∧ row.status ≠ .active
  loaded : ∀ n row, s.attempt n = some ⟨id, .loaded row, true⟩ →
    m.attempt n = some ⟨id, .loaded row, true⟩
  past : ∀ n ∈ us.filterMap (fetchedBy id), s.PastFetch n
  once : (us.filterMap (fetchedBy id)).Nodup
  inFlight : ∀ n ∈ us.filterMap (fetchedBy id),
    ∃ row, m.attempt n = some ⟨id, .loaded row, true⟩

theorem Draining.step {m : Intake} (hdraining : Draining id m us s)
    (h : IntakeStep sha256 s act s')
    (hnever : rowWrite id ⟨s, act, s'⟩ ≠ some (.notified .active)) :
    Draining id m (us ++ [⟨s, act, s'⟩]) s' := by
  obtain ⟨row, hrow, hpaused⟩ := hdraining.paused
  have hlater : ∀ n ∈ us.filterMap (fetchedBy id), s'.PastFetch n :=
    fun n hn => (hdraining.past n hn).step h
  have hloaded : ∀ n row, s'.attempt n = some ⟨id, .loaded row, true⟩ →
      m.attempt n = some ⟨id, .loaded row, true⟩ := by
    intro n row' hn
    cases h.attemptMove n with
    | kept hkept => exact hdraining.loaded n row' (hkept ▸ hn)
    | stopped a _ hafter =>
        have hsame := Option.some.inj (hafter.symm.trans hn)
        cases congrArg IntakeAttempt.alive hsame
    | begun id' _ hafter => cases hafter.symm.trans hn
    | loaded id' before _ hbefore hactive hafter =>
        -- the row it would have loaded is that of a paused connection
        obtain ⟨rfl, hphase, _⟩ := IntakeAttempt.mk.inj (Option.some.inj (hafter.symm.trans hn))
        obtain rfl := Option.some.inj (hbefore.symm.trans hrow)
        exact absurd hactive hpaused
    | past a hpast hafter =>
        obtain rfl := Option.some.inj (hafter.symm.trans hn)
        cases hpast
  have hlast := @filterMap_fetchedBy_snoc id us ⟨s, act, s'⟩
  cases hfetch : fetchedBy id ⟨s, act, s'⟩ with
  | none =>
      rw [hfetch, Option.toList_none, List.append_nil] at hlast
      refine ⟨h.paused hrow hpaused hnever, hloaded, ?_, ?_, ?_⟩
      · exact hlast ▸ hlater
      · exact hlast ▸ hdraining.once
      · exact hlast ▸ hdraining.inFlight
  | some n =>
      obtain ⟨⟨row', hbefore⟩, hpast⟩ := h.fetchedBy_cases hfetch
      rw [hfetch, Option.toList_some] at hlast
      refine ⟨h.paused hrow hpaused hnever, hloaded, ?_, ?_, ?_⟩
      · rw [hlast]
        intro k hk
        rcases List.mem_append.mp hk with hin | hself
        · exact hlater k hin
        · rw [List.mem_singleton.mp hself]
          exact hpast
      · rw [hlast]
        refine List.nodup_append'.mpr ⟨hdraining.once, List.nodup_singleton n, ?_⟩
        rw [List.disjoint_singleton]
        intro hin
        -- the poll would be past its fetch already
        obtain ⟨a, ha, hphase⟩ := hdraining.past n hin
        obtain rfl := Option.some.inj (hbefore.symm.trans ha)
        cases hphase
      · rw [hlast]
        intro k hk
        rcases List.mem_append.mp hk with hin | hself
        · exact hdraining.inFlight k hin
        · rw [List.mem_singleton.mp hself]
          exact ⟨row', hdraining.loaded n row' hbefore⟩

/-- From any state in which a connection is not active, however polls and deliveries go on: as long
as no delivery says that it is active again, it is not, and only polls that had loaded its row
before still fetch, each once. -/
theorem paused_drains {m : Intake} {row : ConnectionRow}
    (h : Run.Runs (IntakeStep sha256) m us s) (hrow : m.connection id = some row)
    (hpaused : row.status ≠ .active)
    (hnever : ∀ t ∈ us, rowWrite id t ≠ some (.notified .active)) :
    (∃ row', s.connection id = some row' ∧ row'.status ≠ .active) ∧
      (us.filterMap (fetchedBy id)).Nodup ∧
      ∀ n ∈ us.filterMap (fetchedBy id),
        ∃ row, m.attempt n = some ⟨id, .loaded row, true⟩ := by
  have hstart : Draining id m [] m :=
    ⟨⟨row, hrow, hpaused⟩, fun _ _ hn => hn, nofun, List.nodup_nil, nofun⟩
  have hend : Draining id m us s := by
    refine h.invariant (Draining id m) hstart ?_
    intro pre t post heq _ hstep hbefore
    refine hbefore.step hstep (hnever t ?_)
    rw [heq]
    exact List.mem_append_right _ List.mem_cons_self
  exact ⟨hend.paused, hend.once, hend.inFlight⟩

end Steps

/-! ## Two connections that are not polled -/

def loadedScript : List IntakeAction :=
  .connect 1 .rss none none :: (List.range 6).flatMap fun n => [.poll n 1, .load n true]

def erroredScript : List IntakeAction :=
  loadedScript ++ (List.range 5).flatMap (fun n => [.fetch n none, .recordFailure n]) ++
    [.fetch 5 (some ([], .int 1)), .advanceCursor 5]

def erroredRun : List (Run.Transition Intake IntakeAction) :=
  Run.transitions Intake.play {} erroredScript

/-- The status stays what the fifth failure has made it. -/
theorem connection_status_errored : ∃ s row, IntakeRuns id erroredRun s ∧
    s.connection 1 = some row ∧ row.status = .errored ∧
    row.consecutiveFailures = failuresSince 1 erroredRun ∧ failuresSince 1 erroredRun = 0 ∧
    ∃ t, Run.LastOf (fun t => ∃ b, statusWrite 1 t = some b) erroredRun t ∧
      rowWrite 1 t = some .failed := by
  obtain ⟨s, hrun, hends⟩ : ∃ s, IntakeRuns id erroredRun s ∧
      (s.connection 1).any (·.status = .errored) = true :=
    Intake.play_ends (by decide +kernel)
  obtain ⟨row, hrow, herrored⟩ := (Option.any_eq_true _ _).mp hends
  have hstatus : row.status = .errored := of_decide_eq_true herrored
  obtain ⟨hfailures, hlast⟩ := connection_status hrun hrow
  obtain ⟨t, ht, hwrite⟩ := (hlast .errored).mp hstatus
  refine ⟨s, row, hrun, hrow, hstatus, hfailures, by decide +kernel, t, ht, ?_⟩
  unfold statusWrite at hwrite
  cases hrowWrite : rowWrite 1 t with
  | none => simp [hrowWrite] at hwrite
  | some write =>
      cases write with
      | failed => rfl
      | connected | advanced => simp [hrowWrite] at hwrite
      | notified status =>
          cases status <;> simp [hrowWrite, LifecycleStatus.asStr] at hwrite

def suspendedRow : ConnectionRow where
  source := .github
  status := .suspended
  nextPollAt := 0
  subscriberId := some 7
  providerAccountId := some "99"

/-- A poll had loaded the row while the connection was active. -/
def suspendedState : Intake where
  connection := fun id => if id = 1 then some suspendedRow else none
  attempt := fun n =>
    if n = 0 then some ⟨1, .loaded { suspendedRow with status := .active }, true⟩ else none

def suspendedScript : List IntakeAction :=
  [.poll 1 1, .load 1 true, .fetch 0 none, .recordFailure 0]

def suspendedRun : List (Run.Transition Intake IntakeAction) :=
  Run.transitions Intake.play suspendedState suspendedScript

theorem paused_drains_suspended : ∃ s, Run.Runs (IntakeStep id) suspendedState suspendedRun s ∧
    (∃ row', s.connection 1 = some row' ∧ row'.status ≠ .active) ∧
    suspendedRun.filterMap (fetchedBy 1) = [0] ∧
    ∃ row, suspendedState.attempt 0 = some ⟨1, .loaded row, true⟩ := by
  obtain ⟨s, hrun, _⟩ : ∃ s, Run.Runs (IntakeStep id) suspendedState suspendedRun s ∧
      (s.attempt 1).isSome = true := by
    refine Run.execute_ends ?_ (by decide +kernel)
    intro s cue act s' hplay
    obtain ⟨rfl, hnext⟩ := Run.eq_some_of_paired hplay
    exact hnext
  have hnever : ∀ t ∈ suspendedRun, rowWrite 1 t ≠ some (.notified .active) := by
    decide +kernel
  have hfetched : suspendedRun.filterMap (fetchedBy 1) = [0] := by decide +kernel
  have hrow : suspendedState.connection 1 = some suspendedRow := rfl
  obtain ⟨hpaused, _, hloaded⟩ := paused_drains hrun hrow (by decide) hnever
  exact ⟨s, hrun, hpaused, hfetched, hloaded 0 (by simp [hfetched])⟩

end Bulletin
