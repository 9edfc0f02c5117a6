import Bulletin.System.Lifecycle
import Bulletin.Ingest.Github.Webhook

/-! # Deliveries

Anyone can send a request to the catcher. One that verifies is queued, and a worker takes it to the
connection of the account it names; it is tried again when that fails. Workers and polls go on side
by side, over any number of connections.
-/

namespace Bulletin

open Json

/-- What the catcher and the workers are run with. -/
structure WebhookEnv where
  hmac : List UInt8 → List UInt8 → List UInt8
  sha256 : List UInt8 → List UInt8
  parse : String → Except String Value
  parseRfc3339 : String → Option DateTime
  webhook : GithubWebhook

structure Deliveries where
  intake : Intake := {}
  /-- The connections there are. -/
  connections : List Uuid := []
  task : List WebhookTask := []

inductive WebhookAction where
  /-- A request, which finds the queue available or not. -/
  | request (headers : WebhookHeaders) (body : List UInt8) (available : Bool)
  | start (i : Nat)
  | process (i n : Nat)
  | finish (i : Nat)
  /-- The worker crashes, or a transaction of it fails. -/
  | fail (i : Nat)
  | intake (act : IntakeAction)

inductive Processed where
  | skipped
  | unrouted
  | failed
  | delivered (id : Uuid) (account : String) (inbound : Inbound)

def inboundOf (env : WebhookEnv) (now : DateTime) (eventType deliveryId : String)
    (value : Value) : Inbound :=
  if eventType = "installation" ∨ eventType = "installation_repositories" then
    match lifecycleStatus value with
    | some status => .lifecycle status
    | none => .events []
  else .events [(fromWebhook env.parseRfc3339 now eventType deliveryId value).toBuilder]

def acceptWebhook (env : WebhookEnv) (now : DateTime) (payload : ProcessWebhookJob) :
    Except SourceError Inbound :=
  match env.parse payload.body with
  | .error e => .error (.parse ("webhook body is not JSON: " ++ e))
  | .ok value => .ok (inboundOf env now payload.eventType payload.deliveryId value)

namespace Deliveries

def resolveConnectionByProvider (s : Deliveries) (source : SourceKind) (account : String) :
    Option Uuid :=
  s.connections.find? fun id => (s.intake.connection id).any fun row =>
    row.source = source ∧ row.providerAccountId = some account

def processWebhook (env : WebhookEnv) (s : Deliveries) (payload : ProcessWebhookJob) : Processed :=
  match route env.parse payload.body with
  | .error _ => .skipped
  | .ok account =>
      match s.resolveConnectionByProvider .github account with
      | none => .unrouted
      | some id =>
          match acceptWebhook env s.intake.now payload with
          | .error _ => .failed
          | .ok inbound => .delivered id account inbound

def push (s : Deliveries) (task : WebhookTask) : Deliveries × WebhookAnswer :=
  if task.key.isSome ∧ task.key ∈ s.task.map (·.key) then (s, .duplicate)
  else ({ s with task := s.task ++ [task] }, .queued)

def receive (env : WebhookEnv) (s : Deliveries) (headers : WebhookHeaders) (body : List UInt8)
    (available : Bool) : Deliveries × WebhookAnswer :=
  match githubWebhook env.hmac env.webhook headers body with
  | .error answer => (s, answer)
  | .ok task => if available then s.push task else (s, .enqueueFailed)

def setTask (s : Deliveries) (i : Nat) (task : WebhookTask) : Deliveries :=
  { s with task := s.task.set i task }

def settle (s : Deliveries) (i : Nat) (task : WebhookTask) (ok : Bool) : Deliveries :=
  s.setTask i { task with job := task.job.settle webhookMaxAttempts ok, intake := none }

def withIntake (s : Deliveries) (intake : Intake) : Deliveries := { s with intake := intake }

/-- Deliveries come from tasks only, and an account has one connection of a source. -/
def allows (s : Deliveries) : IntakeAction → Bool
  | .deliver _ _ _ _ _ => false
  | .connect _ source _ (some account) => (s.resolveConnectionByProvider source account).isNone
  | .connect _ _ _ none | .wait _ | .poll _ _ | .load _ _ | .fetch _ _ | .append _ _ _
  | .advanceCursor _ | .recordFailure _ | .updateStatus _ | .stop _ => true

def register (s : Deliveries) : IntakeAction → Deliveries
  | .connect id _ _ _ => { s with connections := s.connections ++ [id] }
  | .wait _ | .poll _ _ | .load _ _ | .fetch _ _ | .deliver _ _ _ _ _ | .append _ _ _
  | .advanceCursor _ | .recordFailure _ | .updateStatus _ | .stop _ => s

def through : IntakePhase → Bool
  | .appending _ [] none | .applied => true
  | .appending _ _ _ | .begun | .loaded _ | .polled _ _ | .backingOff | .failed | .skipped
  | .notified _ => false

/-- The step an action makes, if it can. -/
def next (env : WebhookEnv) (s : Deliveries) (act : WebhookAction) : Option Deliveries :=
  match act with
  | .request headers body available => some (s.receive env headers body available).1
  | .start i =>
      match s.task[i]? with
      | some task =>
          if task.job.state = .ready then
            some (s.setTask i { task with job := task.job.start })
          else none
      | none => none
  | .process i n =>
      match s.task[i]? with
      | some task =>
          if task.job.state = .running ∧ task.intake = none then
            match s.processWebhook env task.payload with
            | .skipped | .unrouted => some (s.settle i task true)
            | .failed => some (s.settle i task false)
            | .delivered id account inbound =>
                (s.intake.next env.sha256 (.deliver n id .github account inbound)).map
                  (s.setTask i { task with intake := some n }).withIntake
          else none
      | none => none
  | .finish i =>
      match s.task[i]? with
      | some task =>
          if task.job.state = .running ∧ (task.intake.bind s.intake.attempt).any
              (fun a => a.alive && through a.phase) then
            some (s.settle i task true)
          else none
      | none => none
  | .fail i =>
      match s.task[i]? with
      | some task =>
          if task.job.state = .running then
            match task.intake with
            | none => some (s.settle i task false)
            | some n =>
                (s.intake.next env.sha256 (.stop n)).map (s.settle i task false).withIntake
          else none
      | none => none
  | .intake act =>
      if s.allows act then
        (s.intake.next env.sha256 act).map (s.register act).withIntake
      else none

end Deliveries

def WebhookStep (env : WebhookEnv) (s : Deliveries) (act : WebhookAction) (s' : Deliveries) :
    Prop :=
  s.next env act = some s'

abbrev WebhookRuns (env : WebhookEnv) (ts : List (Run.Transition Deliveries WebhookAction))
    (s : Deliveries) : Prop :=
  Run.Runs (WebhookStep env) {} ts s

/-- What a step does to connections and events. -/
def intakeAction (env : WebhookEnv) (t : Run.Transition Deliveries WebhookAction) :
    Option IntakeAction :=
  match t.action with
  | .intake act => some act
  | .process i n => match t.before.task[i]? with
      | some task => match t.before.processWebhook env task.payload with
          | .delivered id account inbound => some (.deliver n id .github account inbound)
          | .skipped | .unrouted | .failed => none
      | none => none
  | .fail i => (t.before.task[i]?.bind (·.intake)).map .stop
  | .request _ _ _ | .start _ | .finish _ => none

/-! ## Steps -/

inductive WebhookMove (env : WebhookEnv) (s : Deliveries) : WebhookAction → Deliveries → Prop
  | answered (headers : WebhookHeaders) (body : List UInt8) (available : Bool)
      (hanswered : ∀ task, githubWebhook env.hmac env.webhook headers body = .ok task →
        available = false ∨ (task.key.isSome ∧ task.key ∈ s.task.map (·.key))) :
      WebhookMove env s (.request headers body available) s
  | queued (headers : WebhookHeaders) (body : List UInt8) (task : WebhookTask)
      (htask : githubWebhook env.hmac env.webhook headers body = .ok task)
      (hfresh : task.key.isSome → task.key ∉ s.task.map (·.key)) :
      WebhookMove env s (.request headers body true) { s with task := s.task ++ [task] }
  | started (i : Nat) (task : WebhookTask) (hi : s.task[i]? = some task)
      (hready : task.job.state = .ready) :
      WebhookMove env s (.start i) (s.setTask i { task with job := task.job.start })
  | handed (i n : Nat) (task : WebhookTask) (id : Uuid) (account : String) (inbound : Inbound)
      (intake : Intake) (hi : s.task[i]? = some task) (hrunning : task.job.state = .running)
      (hidle : task.intake = none)
      (hprocess : s.processWebhook env task.payload = .delivered id account inbound)
      (hstep : IntakeStep env.sha256 s.intake (.deliver n id .github account inbound) intake) :
      WebhookMove env s (.process i n)
        ((s.setTask i { task with intake := some n }).withIntake intake)
  /-- Nothing is delivered. -/
  | dropped (i n : Nat) (task : WebhookTask) (ok : Bool) (hi : s.task[i]? = some task)
      (hrunning : task.job.state = .running) (hidle : task.intake = none)
      (hprocess : ∀ id account inbound,
        s.processWebhook env task.payload ≠ .delivered id account inbound) :
      WebhookMove env s (.process i n) (s.settle i task ok)
  | finished (i n : Nat) (task : WebhookTask) (hi : s.task[i]? = some task)
      (hrunning : task.job.state = .running) (hintake : task.intake = some n) (a : IntakeAttempt)
      (ha : s.intake.attempt n = some a) (hthrough : Deliveries.through a.phase = true) :
      WebhookMove env s (.finish i) (s.settle i task true)
  | failed (i : Nat) (task : WebhookTask) (intake : Intake) (hi : s.task[i]? = some task)
      (hrunning : task.job.state = .running)
      (hstep : match task.intake with
        | some n => IntakeStep env.sha256 s.intake (.stop n) intake
        | none => intake = s.intake) :
      WebhookMove env s (.fail i) ((s.settle i task false).withIntake intake)
  | intake (act : IntakeAction) (intake : Intake) (hallows : s.allows act = true)
      (hstep : IntakeStep env.sha256 s.intake act intake) :
      WebhookMove env s (.intake act) ((s.register act).withIntake intake)

section Steps

variable {env : WebhookEnv} {s s' : Deliveries} {act : WebhookAction}
  {ts : List (Run.Transition Deliveries WebhookAction)}

theorem WebhookStep.moves (h : WebhookStep env s act s') : WebhookMove env s act s' := by
  unfold WebhookStep Deliveries.next at h
  cases act with
  | request headers body available =>
      obtain rfl := Option.some.inj h
      unfold Deliveries.receive
      split
      · rename_i answer hanswer
        refine .answered headers body available ?_
        intro task htask
        cases hanswer.symm.trans htask
      · rename_i task htask
        split
        · rename_i havailable
          subst havailable
          unfold Deliveries.push
          split
          · rename_i hused
            refine .answered headers body true ?_
            intro task' htask'
            obtain rfl := Except.ok.inj (htask.symm.trans htask')
            exact .inr hused
          · rename_i hfresh
            exact .queued headers body task htask fun hkey hused => hfresh ⟨hkey, hused⟩
        · rename_i havailable
          refine .answered headers body available ?_
          intro _ _
          exact .inl (Bool.not_eq_true _ ▸ havailable)
  | start i =>
      dsimp only at h
      split at h
      · rename_i task hi
        obtain ⟨hready, heq⟩ := Option.ite_none_right_eq_some.mp h
        obtain rfl := Option.some.inj heq
        exact .started i task hi hready
      · cases h
  | process i n =>
      dsimp only at h
      split at h
      · rename_i task hi
        obtain ⟨⟨hrunning, hidle⟩, heq⟩ := Option.ite_none_right_eq_some.mp h
        split at heq
        · rename_i hskipped
          obtain rfl := Option.some.inj heq
          refine .dropped i n task true hi hrunning hidle ?_
          simp [hskipped]
        · rename_i hunrouted
          obtain rfl := Option.some.inj heq
          refine .dropped i n task true hi hrunning hidle ?_
          simp [hunrouted]
        · rename_i hfailed
          obtain rfl := Option.some.inj heq
          refine .dropped i n task false hi hrunning hidle ?_
          simp [hfailed]
        · rename_i id account inbound hprocess
          obtain ⟨intake, hstep, rfl⟩ := Option.map_eq_some_iff.mp heq
          exact .handed i n task id account inbound intake hi hrunning hidle hprocess hstep
      · cases h
  | finish i =>
      dsimp only at h
      split at h
      · rename_i task hi
        obtain ⟨⟨hrunning, hthrough⟩, heq⟩ := Option.ite_none_right_eq_some.mp h
        obtain rfl := Option.some.inj heq
        obtain ⟨a, ha, hphase⟩ := (Option.any_eq_true _ _).mp hthrough
        obtain ⟨n, hintake, hattempt⟩ := Option.bind_eq_some_iff.mp ha
        exact .finished i n task hi hrunning hintake a hattempt (Bool.and_eq_true_iff.mp hphase).2
      · cases h
  | fail i =>
      dsimp only at h
      split at h
      · rename_i task hi
        obtain ⟨hrunning, heq⟩ := Option.ite_none_right_eq_some.mp h
        cases hintake : task.intake with
        | none =>
            rw [hintake] at heq
            obtain rfl := Option.some.inj heq
            refine .failed i task s.intake hi hrunning ?_
            rw [hintake]
        | some n =>
            rw [hintake] at heq
            obtain ⟨intake, hstep, rfl⟩ := Option.map_eq_some_iff.mp heq
            refine .failed i task intake hi hrunning ?_
            rw [hintake]
            exact hstep
      · cases h
  | intake act =>
      dsimp only at h
      obtain ⟨hallows, heq⟩ := Option.ite_none_right_eq_some.mp h
      obtain ⟨intake, hstep, rfl⟩ := Option.map_eq_some_iff.mp heq
      exact .intake act intake hallows hstep

/-- A step makes its step in the connections and the log, or leaves them as they are. -/
theorem WebhookStep.intake_step (h : WebhookStep env s act s') :
    (∃ b, intakeAction env ⟨s, act, s'⟩ = some b ∧ IntakeStep env.sha256 s.intake b s'.intake) ∨
      (intakeAction env ⟨s, act, s'⟩ = none ∧ s'.intake = s.intake) := by
  cases h.moves with
  | answered headers body available hanswered => exact .inr ⟨rfl, rfl⟩
  | queued headers body task htask hfresh => exact .inr ⟨rfl, rfl⟩
  | started i task hi hready => exact .inr ⟨rfl, rfl⟩
  | handed i n task id account inbound intake hi hrunning hidle hprocess hstep =>
      refine .inl ⟨_, ?_, hstep⟩
      simp [intakeAction, hi, hprocess]
  | dropped i n task ok hi hrunning hidle hprocess =>
      refine .inr ⟨?_, rfl⟩
      cases hprocessed : s.processWebhook env task.payload with
      | delivered id account inbound => exact absurd hprocessed (hprocess id account inbound)
      | skipped | unrouted | failed => simp [intakeAction, hi, hprocessed]
  | finished i n task hi hrunning hintake a ha hthrough => exact .inr ⟨rfl, rfl⟩
  | failed i task intake hi hrunning hstep =>
      cases hintake : task.intake with
      | none =>
          rw [hintake] at hstep
          refine .inr ⟨?_, hstep⟩
          simp [intakeAction, hi, hintake]
      | some n =>
          rw [hintake] at hstep
          refine .inl ⟨.stop n, ?_, hstep⟩
          simp [intakeAction, hi, hintake]
  | intake act intake hallows hstep => exact .inl ⟨act, rfl, hstep⟩

/-- What a run does to the connections and the log is a run of polls and deliveries. -/
theorem Deliveries.intake_runs (h : WebhookRuns env ts s) :
    IntakeRuns env.sha256 (Run.partSteps (·.intake) (intakeAction env) ts) s.intake := by
  refine h.part (·.intake) (intakeAction env) ?_ ?_
  · intro t _ hstep b hlabel
    rcases hstep.intake_step with ⟨c, hc, hmove⟩ | ⟨hnone, _⟩
    · obtain rfl := Option.some.inj (hlabel.symm.trans hc)
      exact hmove
    · cases hlabel.symm.trans hnone
  · intro t _ hstep hlabel
    rcases hstep.intake_step with ⟨c, hc, _⟩ | ⟨_, hkept⟩
    · cases hlabel.symm.trans hc
    · exact hkept

end Steps

/-! ## What a delivery brings -/

def IntakePhase.ofDelivery : IntakePhase → Bool
  | appending _ _ none | notified _ | applied => true
  | appending _ _ (some _) | begun | loaded _ | polled _ _ | backingOff | failed | skipped => false

/-- What a delivery has come to: its events are on the way, or its status is, or was written. -/
def IntakePhase.Brings (sha256 : List UInt8 → List UInt8) (n : Nat) (id : Uuid)
    (row : ConnectionRow) (us : List (Run.Transition Intake IntakeAction)) (phase : IntakePhase) :
    Inbound → Prop
  | .events builders => ∃ left, phase = .appending (row.normalize sha256 id builders) left none
  | .lifecycle status => phase = .notified status ∨
      (phase = .applied ∧ ∃ w ∈ us, w.action = .updateStatus n ∧
        w.before.attempt n = some ⟨id, .notified status, true⟩)

section Intake

variable {sha256 : List UInt8 → List UInt8} {s s' : Intake} {act : IntakeAction} {n : Nat}
  {id : Uuid} {us : List (Run.Transition Intake IntakeAction)}

/-- What a step does to an intake that may be a delivery's. -/
inductive PhaseMove (sha256 : List UInt8 → List UInt8) (n : Nat) (s : Intake) (act : IntakeAction)
    (s' : Intake) : Prop
  | kept (hkept : s'.attempt n = s.attempt n)
  | stopped (a : IntakeAttempt) (hbefore : s.attempt n = some a)
      (hafter : s'.attempt n = some { a with alive := false })
  | delivered (id : Uuid) (source : SourceKind) (account : String) (inbound : Inbound)
      (row : ConnectionRow) (phase : IntakePhase)
      (hact : act = .deliver n id source account inbound) (hrow : s.connection id = some row)
      (hsource : row.source = source) (haccount : row.providerAccountId = some account)
      (hafter : s'.attempt n = some ⟨id, phase, true⟩)
      (hphase : phase.ofDelivery = true) (hbrings : phase.Brings sha256 n id row [] inbound)
  | appended (id : Uuid) (fetched : List NewEvent) (left left' : List (ScopeCtx × List NewEvent))
      (cursor : Option Value)
      (hbefore : s.attempt n = some ⟨id, .appending fetched left cursor, true⟩)
      (hafter : s'.attempt n = some ⟨id, .appending fetched left' cursor, true⟩)
  | applied (id : Uuid) (status : LifecycleStatus) (hact : act = .updateStatus n)
      (hbefore : s.attempt n = some ⟨id, .notified status, true⟩)
      (hafter : s'.attempt n = some ⟨id, .applied, true⟩)
  | polling (a : IntakeAttempt)
      (hbefore : ∀ b, s.attempt n = some b → b.phase.ofDelivery = false)
      (hafter : s'.attempt n = some a) (ha : a.phase.ofDelivery = false)

theorem PhaseMove.of_withAttempt {m : Nat} {a : IntakeAttempt}
    (hattempt : s'.attempt = (s.withAttempt m a).attempt)
    (hself : s'.attempt m = some a → PhaseMove sha256 m s act s') :
    PhaseMove sha256 n s act s' := by
  by_cases hn : n = m
  · subst hn
    refine hself ?_
    rw [hattempt, Intake.withAttempt_self]
  · refine .kept ?_
    rw [hattempt, Intake.withAttempt_of_ne hn]

theorem IntakeStep.phaseMove (h : IntakeStep sha256 s act s') (n : Nat) :
    PhaseMove sha256 n s act s' := by
  unfold IntakeStep Intake.next at h
  cases act with
  | wait duration =>
      obtain rfl := Option.some.inj h
      exact .kept rfl
  | connect id source owner account =>
      dsimp only at h
      split at h
      · obtain rfl := Option.some.inj h
        exact .kept rfl
      · cases h
  | poll m id =>
      dsimp only at h
      split at h
      · rename_i hnew
        obtain rfl := Option.some.inj h
        exact .of_withAttempt rfl fun hafter => .polling _ (by simp [hnew]) hafter rfl
      · cases h
  | load m built =>
      dsimp only at h
      split at h
      · rename_i id hbegun
        have hbefore : ∀ b, s.attempt m = some b → b.phase.ofDelivery = false := by
          simp [hbegun, IntakePhase.ofDelivery]
        split at h
        · obtain rfl := Option.some.inj h
          exact .of_withAttempt rfl fun hafter => .polling _ hbefore hafter rfl
        · split at h <;>
          · obtain rfl := Option.some.inj h
            exact .of_withAttempt rfl fun hafter => .polling _ hbefore hafter rfl
      · cases h
  | fetch m answer =>
      dsimp only at h
      split at h
      · rename_i id row hloaded
        have hbefore : ∀ b, s.attempt m = some b → b.phase.ofDelivery = false := by
          simp [hloaded, IntakePhase.ofDelivery]
        cases answer <;>
        · obtain rfl := Option.some.inj h
          exact .of_withAttempt rfl fun hafter => .polling _ hbefore hafter rfl
      · cases h
  | deliver m id source account inbound =>
      dsimp only at h
      split at h
      · rename_i row hnew hrow
        obtain ⟨⟨hsource, haccount⟩, heq⟩ := Option.ite_none_right_eq_some.mp h
        cases inbound with
        | events builders =>
            obtain rfl := Option.some.inj heq
            exact .of_withAttempt rfl fun hafter =>
              .delivered id source account _ row _ rfl hrow hsource haccount hafter rfl ⟨_, rfl⟩
        | lifecycle status =>
            obtain rfl := Option.some.inj heq
            exact .of_withAttempt rfl fun hafter =>
              .delivered id source account _ row _ rfl hrow hsource haccount hafter rfl (.inl rfl)
      · cases h
  | append m ctx firstId =>
      dsimp only at h
      split at h
      · rename_i id fetched left cursor hbefore
        split at h
        · cases h
        · obtain rfl := Option.some.inj h
          exact .of_withAttempt rfl fun hafter => .appended id fetched left _ cursor hbefore hafter
      · cases h
  | advanceCursor m =>
      dsimp only at h
      split at h
      · rename_i id fetched cursor hbefore
        obtain rfl := Option.some.inj h
        refine .of_withAttempt rfl fun hafter => .polling _ ?_ hafter rfl
        simp [hbefore, IntakePhase.ofDelivery]
      · cases h
  | recordFailure m =>
      dsimp only at h
      split at h
      · rename_i id hbefore
        obtain rfl := Option.some.inj h
        refine .of_withAttempt rfl fun hafter => .polling _ ?_ hafter rfl
        simp [hbefore, IntakePhase.ofDelivery]
      · cases h
  | updateStatus m =>
      dsimp only at h
      split at h
      · rename_i id status hbefore
        obtain rfl := Option.some.inj h
        exact .of_withAttempt rfl fun hafter => .applied id status rfl hbefore hafter
      · cases h
  | stop m =>
      obtain ⟨a, hbefore, rfl⟩ := Option.map_eq_some_iff.mp h
      exact .of_withAttempt rfl (.stopped a hbefore)

theorem IntakePhase.Brings.mono {row : ConnectionRow} {phase : IntakePhase} {inbound : Inbound}
    {vs : List (Run.Transition Intake IntakeAction)} (h : phase.Brings sha256 n id row us inbound)
    (hsub : us ⊆ vs) : phase.Brings sha256 n id row vs inbound := by
  cases inbound with
  | events builders => exact h
  | lifecycle status =>
      refine h.imp_right ?_
      rintro ⟨happlied, w, hw, hwrite⟩
      exact ⟨happlied, w, hsub hw, hwrite⟩

/-- The delivery of `inbound`, to the connection of its account, that has come to this intake. -/
structure Brought (sha256 : List UInt8 → List UInt8)
    (us : List (Run.Transition Intake IntakeAction)) (n : Nat) (a : IntakeAttempt)
    (u : Run.Transition Intake IntakeAction) (account : String) (inbound : Inbound)
    (row : ConnectionRow) : Prop where
  mem : u ∈ us
  action : u.action = .deliver n a.connection row.source account inbound
  row_before : u.before.connection a.connection = some row
  account_eq : row.providerAccountId = some account
  brings : a.phase.Brings sha256 n a.connection row us inbound

theorem brought_of_delivery (h : IntakeRuns sha256 us s) {a : IntakeAttempt}
    (ha : s.attempt n = some a) (hphase : a.phase.ofDelivery = true) :
    ∃ u account inbound row, Brought sha256 us n a u account inbound row := by
  refine h.invariant (fun us s => ∀ a, s.attempt n = some a → a.phase.ofDelivery = true →
    ∃ u account inbound row, Brought sha256 us n a u account inbound row) (by simp) ?_ a ha hphase
  intro pre t post _ _ hstep ih a ha hphase
  have hlater : pre ⊆ pre ++ [t] := List.subset_append_left _ _
  have hlast : t ∈ pre ++ [t] := List.mem_append_right _ (List.mem_singleton_self t)
  cases hstep.phaseMove n with
  | kept hkept =>
      obtain ⟨u, account, inbound, row, hu⟩ := ih a (hkept ▸ ha) hphase
      exact ⟨u, account, inbound, row, hlater hu.mem, hu.action, hu.row_before, hu.account_eq,
        hu.brings.mono hlater⟩
  | stopped b hbefore hafter =>
      obtain rfl := Option.some.inj (hafter.symm.trans ha)
      obtain ⟨u, account, inbound, row, hu⟩ := ih b hbefore hphase
      exact ⟨u, account, inbound, row, hlater hu.mem, hu.action, hu.row_before, hu.account_eq,
        hu.brings.mono hlater⟩
  | delivered id source account inbound row phase hact hrow hsource haccount hafter _ hbrings =>
      obtain rfl := Option.some.inj (hafter.symm.trans ha)
      subst hsource
      exact ⟨t, account, inbound, row, hlast, hact, hrow, haccount,
        hbrings.mono (List.nil_subset _)⟩
  | appended id fetched left left' cursor hbefore hafter =>
      obtain rfl := Option.some.inj (hafter.symm.trans ha)
      have hcursor : cursor = none := by
        cases cursor with
        | none => rfl
        | some c => cases hphase
      subst hcursor
      obtain ⟨u, account, inbound, row, hu⟩ := ih _ hbefore rfl
      refine ⟨u, account, inbound, row, hlater hu.mem, hu.action, hu.row_before, hu.account_eq, ?_⟩
      have hbrings := hu.brings
      cases inbound with
      | events builders =>
          obtain ⟨_, heq⟩ := hbrings
          have hfetched := (IntakePhase.appending.inj heq).1
          exact ⟨left', congrArg (IntakePhase.appending · left' none) hfetched⟩
      | lifecycle status => rcases hbrings with heq | ⟨heq, _⟩ <;> cases heq
  | applied id status hact hbefore hafter =>
      obtain rfl := Option.some.inj (hafter.symm.trans ha)
      obtain ⟨u, account, inbound, row, hu⟩ := ih _ hbefore rfl
      refine ⟨u, account, inbound, row, hlater hu.mem, hu.action, hu.row_before, hu.account_eq, ?_⟩
      have hbrings := hu.brings
      cases inbound with
      | events builders => cases hbrings.choose_spec
      | lifecycle status' =>
          rcases hbrings with heq | ⟨heq, _⟩
          · obtain rfl := IntakePhase.notified.inj heq
            exact .inr ⟨rfl, t, hlast, hact, hbefore⟩
          · cases heq
  | polling b _ hafter hb =>
      obtain rfl := Option.some.inj (hafter.symm.trans ha)
      cases hb.symm.trans hphase

theorem IntakeStep.attempt_kept (h : IntakeStep sha256 s act s') (hsome : (s.attempt n).isSome) :
    (s'.attempt n).isSome := by
  cases h.phaseMove n with
  | kept hkept => rwa [hkept]
  | stopped a _ hafter => rw [hafter]; rfl
  | delivered id source account inbound row phase _ _ _ _ hafter _ _ => rw [hafter]; rfl
  | appended id fetched left left' cursor _ hafter => rw [hafter]; rfl
  | applied id status _ _ hafter => rw [hafter]; rfl
  | polling a _ hafter _ => rw [hafter]; rfl

theorem IntakeStep.ofDelivery_kept (h : IntakeStep sha256 s act s') {a : IntakeAttempt}
    (ha : s.attempt n = some a) (hphase : a.phase.ofDelivery = true) :
    ∃ b, s'.attempt n = some b ∧ b.phase.ofDelivery = true := by
  cases h.phaseMove n with
  | kept hkept => exact ⟨a, hkept.trans ha, hphase⟩
  | stopped b hbefore hafter =>
      obtain rfl := Option.some.inj (hbefore.symm.trans ha)
      exact ⟨_, hafter, hphase⟩
  | delivered id source account inbound row phase _ _ _ _ hafter hdelivery _ =>
      exact ⟨_, hafter, hdelivery⟩
  | appended id fetched left left' cursor hbefore hafter =>
      obtain rfl := Option.some.inj (hbefore.symm.trans ha)
      refine ⟨_, hafter, ?_⟩
      cases cursor with
      | none => rfl
      | some c => cases hphase
  | applied id status _ _ hafter => exact ⟨_, hafter, rfl⟩
  | polling b hbefore _ _ => cases (hbefore a ha).symm.trans hphase

theorem IntakeStep.delivers {source : SourceKind} {account : String} {inbound : Inbound}
    (h : IntakeStep sha256 s (.deliver n id source account inbound) s') :
    s.attempt n = none ∧ ∃ a, s'.attempt n = some a ∧ a.phase.ofDelivery = true := by
  unfold IntakeStep Intake.next at h
  dsimp only at h
  split at h
  · rename_i row hnew _
    refine ⟨hnew, ?_⟩
    obtain ⟨_, heq⟩ := Option.ite_none_right_eq_some.mp h
    cases inbound <;>
    · obtain rfl := Option.some.inj heq
      exact ⟨_, Intake.withAttempt_self, rfl⟩
  · cases h

theorem brought_of_mem (h : IntakeRuns sha256 us s) {u : Run.Transition Intake IntakeAction}
    (hu : u ∈ us) {source : SourceKind} {account : String} {inbound : Inbound}
    (hact : u.action = .deliver n id source account inbound) :
    ∃ a row, s.attempt n = some a ∧ a.connection = id ∧
      Brought sha256 us n a u account inbound row := by
  have hdelivers : ∀ v ∈ us, ∀ id' source' account' inbound',
      v.action = .deliver n id' source' account' inbound' → v.before.attempt n = none ∧
        ∃ a, v.after.attempt n = some a ∧ a.phase.ofDelivery = true := by
    intro v hv id' source' account' inbound' hvact
    have hstep := h.step_of_mem hv
    rw [hvact] at hstep
    exact hstep.delivers
  obtain ⟨hnew, hafter⟩ := hdelivers u hu id source account inbound hact
  have hkept : ∃ a, s.attempt n = some a ∧ a.phase.ofDelivery = true :=
    Run.Runs.kept_of_mem (Q := fun s => ∃ a, s.attempt n = some a ∧ a.phase.ofDelivery = true) h
      (fun t ht ⟨a, ha, hphase⟩ => (h.step_of_mem ht).ofDelivery_kept ha hphase) hu hafter
  obtain ⟨a, ha, hphase⟩ := hkept
  obtain ⟨v, account', inbound', row, hv⟩ := brought_of_delivery h ha hphase
  -- an intake is begun once
  obtain ⟨hvnew, b, hb, _⟩ := hdelivers v hv.mem _ _ _ _ hv.action
  obtain ⟨c, hc, _⟩ := hafter
  have hsame : v = u := by
    refine Run.Runs.once (Q := fun s => (s.attempt n).isSome) h
      (fun t ht => (h.step_of_mem ht).attempt_kept) hv.mem hu ?_ ?_ ?_ ?_
    · simp [hvnew]
    · simp [hb]
    · simp [hnew]
    · simp [hc]
  subst hsame
  obtain ⟨_, hid, _, rfl, rfl⟩ := IntakeAction.deliver.inj (hv.action.symm.trans hact)
  exact ⟨a, row, ha, hid, hv⟩

/-- What a fetch brings depends on the owner of the connection only. -/
theorem ConnectionRow.normalize_congr {row row' : ConnectionRow} {builders : List EventBuilder}
    (h : row.subscriberId = row'.subscriberId) :
    row.normalize sha256 id builders = row'.normalize sha256 id builders := by
  unfold normalize
  rw [h]

def ConnectionRow.identity (row : ConnectionRow) : SourceKind × Option Uuid × Option String :=
  (row.source, row.subscriberId, row.providerAccountId)

theorem rowWrite_connected {t : Run.Transition Intake IntakeAction}
    (h : rowWrite id t = some .connected) :
    ∃ source owner account, t.action = .connect id source owner account := by
  unfold rowWrite at h
  split at h
  · rename_i id' source owner account hact
    obtain ⟨rfl, _⟩ := Option.ite_none_right_eq_some.mp h
    exact ⟨source, owner, account, hact⟩
  · split at h
    · obtain ⟨_, heq⟩ := Option.ite_none_right_eq_some.mp h
      cases heq
    · cases h
  · split at h
    · obtain ⟨_, heq⟩ := Option.ite_none_right_eq_some.mp h
      cases heq
    · cases h
  · split at h
    · obtain ⟨_, heq⟩ := Option.ite_none_right_eq_some.mp h
      cases heq
    · cases h
  all_goals cases h

theorem IntakeStep.connects {source : SourceKind} {owner : Option Uuid} {account : Option String}
    (h : IntakeStep sha256 s (.connect id source owner account) s') :
    s.connection id = none ∧
      (s'.connection id).map (·.identity) = some (source, owner, account) := by
  unfold IntakeStep Intake.next at h
  dsimp only at h
  split at h
  · rename_i hnew
    obtain rfl := Option.some.inj h
    refine ⟨hnew, ?_⟩
    dsimp only
    rw [Function.update_self]
    rfl
  · cases h

/-- A step makes a connection that was not there, or leaves it the identity it has. -/
theorem IntakeStep.identity (h : IntakeStep sha256 s act s') (id : Uuid) :
    (∃ source owner account, act = .connect id source owner account ∧ s.connection id = none ∧
      (s'.connection id).map (·.identity) = some (source, owner, account)) ∨
    (s'.connection id).map (·.identity) = (s.connection id).map (·.identity) := by
  cases h.rowMove id with
  | kept _ hrow => exact .inr (congrArg _ hrow)
  | connected _ _ _ hwrite _ _ =>
      obtain ⟨source, owner, account, rfl⟩ := rowWrite_connected hwrite
      exact .inl ⟨source, owner, account, rfl, h.connects⟩
  | advanced cursor _ hrow =>
      rw [hrow, Option.map_map]
      exact .inr rfl
  | failed _ hrow =>
      rw [hrow, Option.map_map]
      exact .inr rfl
  | notified status _ hrow =>
      rw [hrow, Option.map_map]
      exact .inr rfl

theorem identity_kept (h : IntakeRuns sha256 us s) {u : Run.Transition Intake IntakeAction}
    (hu : u ∈ us) {row : ConnectionRow} (hrow : u.before.connection id = some row) :
    ∃ row', s.connection id = some row' ∧ row'.identity = row.identity := by
  have hkeep : ∀ t ∈ us, (t.before.connection id).map (·.identity) = some row.identity →
      (t.after.connection id).map (·.identity) = some row.identity := by
    intro t ht hbefore
    rcases (h.step_of_mem ht).identity id with ⟨_, _, _, _, hnew, _⟩ | hkept
    · rw [hnew] at hbefore
      cases hbefore
    · exact hkept.trans hbefore
  have hend := Run.Runs.kept_of_mem
    (Q := fun s => (s.connection id).map (·.identity) = some row.identity) h hkeep hu
    (hkeep u hu (congrArg _ hrow))
  exact Option.map_eq_some_iff.mp hend

end Intake

/-! ## Tasks and connections -/

def Deliveries.labels (s : Deliveries) : List (ProcessWebhookJob × Option String) :=
  s.task.map fun task => (task.payload, task.key)

/-- A request of the run that verifies, and what it says. -/
def Sent (env : WebhookEnv) (ts : List (Run.Transition Deliveries WebhookAction))
    (payload : ProcessWebhookJob) : Prop :=
  ∃ t ∈ ts, ∃ headers body, t.action = .request headers body true ∧
    env.webhook.verify env.hmac headers body = .authentic ∧
    payload = {
      eventType := headers.eventType.getD ""
      deliveryId := headers.deliveryId.getD ""
      body := webhookText body }

structure Deliveries.Routed (s : Deliveries) : Prop where
  registered : ∀ id row, s.intake.connection id = some row → id ∈ s.connections
  unique : ∀ id id' row row' account, s.intake.connection id = some row →
    s.intake.connection id' = some row' → row.source = row'.source →
    row.providerAccountId = some account → row'.providerAccountId = some account → id = id'

section Tasks

variable {env : WebhookEnv} {s s' : Deliveries} {act : WebhookAction}
  {ts : List (Run.Transition Deliveries WebhookAction)}

theorem Deliveries.labels_setTask {i : Nat} {task task' : WebhookTask} (hi : s.task[i]? = some task)
    (hpayload : task'.payload = task.payload) (hkey : task'.key = task.key) :
    (s.setTask i task').labels = s.labels := by
  unfold labels setTask
  rw [List.map_set, hpayload, hkey]
  obtain ⟨hlt, rfl⟩ := List.getElem?_eq_some_iff.mp hi
  refine List.ext_getElem (by simp) ?_
  intro j _ _
  rw [List.getElem_set]
  split
  · rename_i hij
    subst hij
    rw [List.getElem_map]
  · rfl

/-- A step queues one task, with a key that is new if it has one, or it leaves the tasks what they
were queued as. -/
theorem WebhookStep.labels_cases (h : WebhookStep env s act s') :
    s'.labels = s.labels ∨ ∃ headers body task, act = .request headers body true ∧
      githubWebhook env.hmac env.webhook headers body = .ok task ∧
      (task.key.isSome → task.key ∉ s.task.map (·.key)) ∧ s'.task = s.task ++ [task] := by
  cases h.moves with
  | answered headers body available hanswered => exact .inl rfl
  | queued headers body task htask hfresh =>
      exact .inr ⟨headers, body, task, rfl, htask, hfresh, rfl⟩
  | started i task hi hready => exact .inl (Deliveries.labels_setTask hi rfl rfl)
  | handed i n task id account inbound intake hi hrunning hidle hprocess hstep =>
      exact .inl (Deliveries.labels_setTask hi rfl rfl)
  | dropped i n task ok hi hrunning hidle hprocess =>
      exact .inl (Deliveries.labels_setTask hi rfl rfl)
  | finished i n task hi hrunning hintake a ha hthrough =>
      exact .inl (Deliveries.labels_setTask hi rfl rfl)
  | failed i task intake hi hrunning hstep => exact .inl (Deliveries.labels_setTask hi rfl rfl)
  | intake act intake hallows hstep =>
      refine .inl ?_
      cases act <;> rfl

theorem sent_of_mem (h : WebhookRuns env ts s) {task : WebhookTask} (htask : task ∈ s.task) :
    Sent env ts task.payload := by
  have hall : ∀ label ∈ s.labels, Sent env ts label.1 := by
    refine h.invariant (fun ts s => ∀ label ∈ s.labels, Sent env ts label.1) (by nofun) ?_
    intro pre t post _ _ hstep ih label hlabel
    have hlater : ∀ {payload}, Sent env pre payload → Sent env (pre ++ [t]) payload := by
      rintro payload ⟨u, hu, hsent⟩
      exact ⟨u, List.mem_append_left _ hu, hsent⟩
    rcases hstep.labels_cases with hsame | ⟨headers, body, task, hact, htask, _, htasks⟩
    · exact hlater (ih label (hsame ▸ hlabel))
    · unfold Deliveries.labels at hlabel
      rw [htasks, List.map_append] at hlabel
      rcases List.mem_append.mp hlabel with hold | hnew
      · exact hlater (ih label hold)
      · rw [List.mem_singleton.mp hnew]
        obtain ⟨hverified, _, _, rfl⟩ := githubWebhook_ok htask
        exact ⟨t, List.mem_append_right _ (List.mem_singleton_self t), headers, body, hact,
          hverified, rfl⟩
  exact hall _ (List.mem_map_of_mem (f := fun task => (task.payload, task.key)) htask)

theorem Deliveries.Routed.resolve_none (hrouted : s.Routed) {source : SourceKind} {account : String}
    (h : s.resolveConnectionByProvider source account = none) {id : Uuid} {row : ConnectionRow}
    (hrow : s.intake.connection id = some row) (hsource : row.source = source) :
    row.providerAccountId ≠ some account := by
  intro haccount
  have hnot := List.find?_eq_none.mp h id (hrouted.registered id row hrow)
  simp [hrow, hsource, haccount] at hnot

/-- A connection is registered when it is made, and made for an account that has none. -/
theorem WebhookStep.connections (h : WebhookStep env s act s') :
    s.connections ⊆ s'.connections ∧ ∀ id source owner account,
      intakeAction env ⟨s, act, s'⟩ = some (.connect id source owner account) →
        id ∈ s'.connections ∧
          ∀ a, account = some a → s.resolveConnectionByProvider source a = none := by
  cases h.moves with
  | answered headers body available hanswered => exact ⟨List.Subset.refl _, by simp [intakeAction]⟩
  | queued headers body task htask hfresh => exact ⟨List.Subset.refl _, by simp [intakeAction]⟩
  | started i task hi hready => exact ⟨List.Subset.refl _, by simp [intakeAction]⟩
  | handed i n task id account inbound intake hi hrunning hidle hprocess hstep =>
      exact ⟨List.Subset.refl _, by simp [intakeAction, hi, hprocess]⟩
  | dropped i n task ok hi hrunning hidle hprocess =>
      refine ⟨List.Subset.refl _, ?_⟩
      simp only [intakeAction, hi]
      cases s.processWebhook env task.payload <;> simp
  | finished i n task hi hrunning hintake a ha hthrough =>
      exact ⟨List.Subset.refl _, by simp [intakeAction]⟩
  | failed i task intake hi hrunning hstep =>
      refine ⟨List.Subset.refl _, ?_⟩
      simp only [intakeAction, hi, Option.bind_some]
      cases task.intake <;> simp
  | intake b intake hallows hstep =>
      cases b with
      | connect id source owner account =>
          refine ⟨List.subset_append_left _ _, ?_⟩
          rintro id' source' owner' account' ⟨⟩
          refine ⟨List.mem_append_right _ (List.mem_singleton_self id), ?_⟩
          rintro a rfl
          exact Option.isNone_iff_eq_none.mp hallows
      | _ => exact ⟨List.Subset.refl _, by simp [intakeAction]⟩

/-- A row of the step's end was there before, of the same account, or it is the one it made. -/
theorem WebhookStep.row_cases (h : WebhookStep env s act s') {id : Uuid} {row : ConnectionRow}
    (hrow : s'.intake.connection id = some row) :
    (∃ old, s.intake.connection id = some old ∧ old.source = row.source ∧
        old.providerAccountId = row.providerAccountId) ∨
      ∃ owner, intakeAction env ⟨s, act, s'⟩ =
        some (.connect id row.source owner row.providerAccountId) := by
  have hold : (s'.intake.connection id).map (·.identity) =
      (s.intake.connection id).map (·.identity) →
      ∃ old, s.intake.connection id = some old ∧ old.source = row.source ∧
        old.providerAccountId = row.providerAccountId := by
    intro hkept
    rw [hrow] at hkept
    obtain ⟨old, hold, hidentity⟩ := Option.map_eq_some_iff.mp hkept.symm
    exact ⟨old, hold, congrArg (·.1) hidentity, congrArg (·.2.2) hidentity⟩
  rcases h.intake_step with ⟨b, hb, hstep⟩ | ⟨_, hkept⟩
  · rcases hstep.identity id with ⟨source, owner, account, rfl, _, hmade⟩ | hkept
    · rw [hrow] at hmade
      have hidentity := Option.some.inj hmade
      obtain rfl : row.source = source := congrArg (·.1) hidentity
      obtain rfl : row.providerAccountId = account := congrArg (·.2.2) hidentity
      exact .inr ⟨_, hb⟩
    · exact .inl (hold hkept)
  · exact .inl (hold (by rw [hkept]))

theorem Deliveries.Routed.step (hrouted : s.Routed) (h : WebhookStep env s act s') : s'.Routed := by
  obtain ⟨hsub, hmade⟩ := h.connections
  constructor
  · intro id row hrow
    rcases h.row_cases hrow with ⟨old, hold, _⟩ | ⟨owner, hact⟩
    · exact hsub (hrouted.registered id old hold)
    · exact (hmade id _ owner _ hact).1
  · intro id id' row row' account hrow hrow' hsource haccount haccount'
    rcases h.row_cases hrow with ⟨old, hold, hs, ha⟩ | ⟨owner, hact⟩
    · rcases h.row_cases hrow' with ⟨old', hold', hs', ha'⟩ | ⟨owner', hact'⟩
      · exact hrouted.unique id id' old old' account hold hold' (by rw [hs, hs', hsource])
          (ha.trans haccount) (ha'.trans haccount')
      · have hnone := (hmade id' _ owner' _ hact').2 account haccount'
        exact absurd (ha.trans haccount) (hrouted.resolve_none hnone hold (hs.trans hsource))
    · rcases h.row_cases hrow' with ⟨old', hold', hs', ha'⟩ | ⟨owner', hact'⟩
      · have hnone := (hmade id _ owner _ hact).2 account haccount
        exact absurd (ha'.trans haccount')
          (hrouted.resolve_none hnone hold' (hs'.trans hsource.symm))
      · exact (IntakeAction.connect.inj (Option.some.inj (hact.symm.trans hact'))).1

theorem routed_of_runs (h : WebhookRuns env ts s) : s.Routed := by
  refine h.state_invariant Deliveries.Routed ⟨by simp, by simp⟩ ?_
  intro t _ hstep hrouted
  exact hrouted.step hstep

theorem processWebhook_delivered {payload : ProcessWebhookJob} {id : Uuid} {account : String}
    {inbound : Inbound} (h : s.processWebhook env payload = .delivered id account inbound) :
    ∃ value n, env.parse payload.body = .ok value ∧
      (value.dig ["installation", "id"]).bind Value.asInt64 = some n ∧ account = toString n ∧
      inbound = inboundOf env s.intake.now payload.eventType payload.deliveryId value := by
  unfold Deliveries.processWebhook at h
  split at h
  · cases h
  · rename_i account' hroute
    obtain ⟨value, n, hparse, hid, rfl⟩ := route_ok hroute
    split at h
    · cases h
    · rename_i id' _
      split at h
      · cases h
      · rename_i inbound' haccept
        obtain ⟨rfl, rfl, rfl⟩ := Processed.delivered.inj h
        unfold acceptWebhook at haccept
        rw [hparse] at haccept
        exact ⟨value, n, hparse, hid, rfl, (Except.ok.inj haccept).symm⟩

theorem WebhookStep.handed (h : WebhookStep env s act s') {n : Nat} {id : Uuid}
    {source : SourceKind} {account : String} {inbound : Inbound}
    (hact : intakeAction env ⟨s, act, s'⟩ = some (.deliver n id source account inbound)) :
    source = .github ∧ ∃ i task, act = .process i n ∧ s.task[i]? = some task ∧
      s.processWebhook env task.payload = .delivered id account inbound := by
  cases h.moves with
  | answered headers body available hanswered => cases hact
  | queued headers body task htask hfresh => cases hact
  | started i task hi hready => cases hact
  | handed i m task id' account' inbound' intake hi hrunning hidle hprocess hstep =>
      simp only [intakeAction, hi, hprocess] at hact
      obtain ⟨rfl, rfl, rfl, rfl, rfl⟩ := IntakeAction.deliver.inj (Option.some.inj hact)
      exact ⟨rfl, i, task, rfl, hi, hprocess⟩
  | dropped i m task ok hi hrunning hidle hprocess =>
      simp only [intakeAction, hi] at hact
      cases hprocessed : s.processWebhook env task.payload with
      | delivered id' account' inbound' => exact absurd hprocessed (hprocess id' account' inbound')
      | skipped | unrouted | failed => simp [hprocessed] at hact
  | finished i m task hi hrunning hintake a ha hthrough => cases hact
  | failed i task intake hi hrunning hstep =>
      simp only [intakeAction, hi, Option.bind_some] at hact
      cases hintake : task.intake <;> simp [hintake] at hact
  | intake b intake hallows hstep =>
      obtain rfl : b = .deliver n id source account inbound := Option.some.inj hact
      cases hallows

theorem Sent.mono {us : List (Run.Transition Deliveries WebhookAction)}
    {payload : ProcessWebhookJob} (h : Sent env us payload) (hsub : us ⊆ ts) :
    Sent env ts payload := by
  obtain ⟨t, ht, hsent⟩ := h
  exact ⟨t, hsub ht, hsent⟩

theorem sent_of_deliver (h : WebhookRuns env ts s) {u : Run.Transition Intake IntakeAction}
    (hu : u ∈ Run.partSteps (·.intake) (intakeAction env) ts) {n : Nat} {id : Uuid}
    {source : SourceKind} {account : String} {inbound : Inbound}
    (hact : u.action = .deliver n id source account inbound) :
    source = .github ∧ ∃ payload value k now, Sent env ts payload ∧
      env.parse payload.body = .ok value ∧
      (value.dig ["installation", "id"]).bind Value.asInt64 = some k ∧ account = toString k ∧
      inbound = inboundOf env now payload.eventType payload.deliveryId value := by
  obtain ⟨t, ht, b, hb, rfl⟩ := Run.mem_partSteps.mp hu
  obtain rfl : b = _ := hact
  obtain ⟨pre, post, heq, hpre⟩ := h.before_of_mem ht
  obtain ⟨hsource, i, task, _, hi, hprocess⟩ := (h.step_of_mem ht).handed hb
  obtain ⟨value, k, hparse, hid, haccount, hinbound⟩ := processWebhook_delivered hprocess
  have hsent := sent_of_mem hpre (List.mem_of_getElem? hi)
  exact ⟨hsource, task.payload, value, k, _, hsent.mono (heq ▸ List.subset_append_left _ _), hparse,
    hid, haccount, hinbound⟩

theorem inboundOf_lifecycle {now : DateTime} {eventType deliveryId : String} {value : Value}
    {status : LifecycleStatus}
    (h : .lifecycle status = inboundOf env now eventType deliveryId value) :
    (eventType = "installation" ∨ eventType = "installation_repositories") ∧
      lifecycleStatus value = some status := by
  unfold inboundOf at h
  split at h
  · rename_i htype
    split at h
    · rename_i status' hstatus
      obtain rfl := Inbound.lifecycle.inj h
      exact ⟨htype, hstatus⟩
    · cases h
  · cases h

theorem inboundOf_events {now : DateTime} {eventType deliveryId : String} {value : Value}
    {builders : List EventBuilder} {b : EventBuilder}
    (h : .events builders = inboundOf env now eventType deliveryId value) (hb : b ∈ builders) :
    b = (fromWebhook env.parseRfc3339 now eventType deliveryId value).toBuilder := by
  unfold inboundOf at h
  split at h
  · split at h
    · cases h
    · obtain rfl := Inbound.events.inj h
      cases hb
  · obtain rfl := Inbound.events.inj h
    exact List.mem_singleton.mp hb

/-- A request of the run that verifies says `value`, which names the account of this connection, and
of no other. -/
structure Vouched (env : WebhookEnv) (ts : List (Run.Transition Deliveries WebhookAction))
    (s : Intake) (id : Uuid) (row : ConnectionRow) (payload : ProcessWebhookJob) (value : Value) :
    Prop where
  sent : Sent env ts payload
  parsed : env.parse payload.body = .ok value
  row_eq : s.connection id = some row
  source : row.source = .github
  account : ∃ k, (value.dig ["installation", "id"]).bind Value.asInt64 = some k ∧
    row.providerAccountId = some (toString k)
  only : ∀ id' row', s.connection id' = some row' → row'.source = .github →
    row'.providerAccountId = row.providerAccountId → id' = id

/-- Whatever the intake of a delivery does is vouched for by a request. -/
theorem vouched_of_delivery (h : WebhookRuns env ts s) {u : Run.Transition Intake IntakeAction}
    (hu : u ∈ Run.partSteps (·.intake) (intakeAction env) ts) {n : Nat} {a : IntakeAttempt}
    (ha : u.before.attempt n = some a) (hphase : a.phase.ofDelivery = true) :
    ∃ row payload value now us, Vouched env ts u.before a.connection row payload value ∧
      a.phase.Brings env.sha256 n a.connection row us
        (inboundOf env now payload.eventType payload.deliveryId value) := by
  obtain ⟨pre, post, heq, hpre⟩ := (Deliveries.intake_runs h).before_of_mem hu
  obtain ⟨v, account, inbound, old, hv⟩ := brought_of_delivery hpre ha hphase
  have hvmem : v ∈ Run.partSteps (·.intake) (intakeAction env) ts :=
    heq ▸ List.mem_append_left _ hv.mem
  obtain ⟨hgithub, payload, value, k, now, hsent, hparsed, hk, rfl, rfl⟩ :=
    sent_of_deliver h hvmem hv.action
  obtain ⟨row, hrow, hidentity⟩ := identity_kept hpre hv.mem hv.row_before
  have hsource : row.source = old.source := congrArg (·.1) hidentity
  have howner : row.subscriberId = old.subscriberId := congrArg (·.2.1) hidentity
  have haccount : row.providerAccountId = old.providerAccountId := congrArg (·.2.2) hidentity
  refine ⟨row, payload, value, now, pre, ⟨hsent, hparsed, hrow, hsource.trans hgithub,
    ⟨k, hk, haccount.trans hv.account_eq⟩, ?_⟩, ?_⟩
  · obtain ⟨t, ht, b, _, rfl⟩ := Run.mem_partSteps.mp hu
    obtain ⟨_, _, _, hbefore⟩ := h.before_of_mem ht
    intro id' row' hrow' hsource' haccount'
    exact (routed_of_runs hbefore).unique id' a.connection row' row (toString k) hrow' hrow
      (hsource'.trans (hsource.trans hgithub).symm)
      (haccount'.trans (haccount.trans hv.account_eq)) (haccount.trans hv.account_eq)
  · have hbrings := hv.brings
    generalize inboundOf env now payload.eventType payload.deliveryId value = inbound at hbrings ⊢
    cases inbound with
    | events builders =>
        obtain ⟨left, hleft⟩ := hbrings
        refine ⟨left, ?_⟩
        rwa [ConnectionRow.normalize_congr howner]
    | lifecycle status => exact hbrings

def forged (env : WebhookEnv) (t : Run.Transition Deliveries WebhookAction) : Bool :=
  match t.action with
  | .request headers body _ => env.webhook.verify env.hmac headers body != .authentic
  | .start _ | .process _ _ | .finish _ | .fail _ | .intake _ => false

theorem WebhookStep.forged_idle (h : WebhookStep env s act s')
    (hforged : forged env ⟨s, act, s'⟩ = true) : s' = s := by
  cases h.moves with
  | answered headers body available hanswered => rfl
  | queued headers body task htask hfresh =>
      obtain ⟨hverified, _⟩ := githubWebhook_ok htask
      simp [forged, hverified] at hforged
  | _ => cases hforged

theorem rowWrite_notified {t : Run.Transition Intake IntakeAction} {id : Uuid}
    {status : LifecycleStatus} (h : rowWrite id t = some (.notified status)) :
    ∃ n alive, t.action = .updateStatus n ∧
      t.before.attempt n = some ⟨id, .notified status, alive⟩ := by
  unfold rowWrite at h
  split at h
  · obtain ⟨_, heq⟩ := Option.ite_none_right_eq_some.mp h
    cases heq
  · split at h
    · obtain ⟨_, heq⟩ := Option.ite_none_right_eq_some.mp h
      cases heq
    · cases h
  · split at h
    · obtain ⟨_, heq⟩ := Option.ite_none_right_eq_some.mp h
      cases heq
    · cases h
  · rename_i n hact
    split at h
    · rename_i id' status' alive hbefore
      obtain ⟨rfl, heq⟩ := Option.ite_none_right_eq_some.mp h
      obtain rfl := RowWrite.notified.inj (Option.some.inj heq)
      exact ⟨n, alive, hact, hbefore⟩
    · cases h
  all_goals cases h

/-- Whatever requests are sent, by anyone: a status that a connection is given by a delivery, and an
event that a delivery appends, are what a request says that verifies and names the account of this
connection and of no other, and the event is private to no one but its owner. The requests that do
not verify are as though they had not been sent. -/
theorem deliveries_vouched (h : WebhookRuns env ts s) :
    (∀ u ∈ Run.partSteps (·.intake) (intakeAction env) ts, ∀ id status,
      rowWrite id u = some (.notified status) →
      ∃ row payload value, Vouched env ts u.before id row payload value ∧
        (payload.eventType = "installation" ∨ payload.eventType = "installation_repositories") ∧
        lifecycleStatus value = some status) ∧
    (∀ u ∈ Run.partSteps (·.intake) (intakeAction env) ts, ∀ n ctx firstId id fetched left,
      u.action = .append n ctx firstId →
      u.before.attempt n = some ⟨id, .appending fetched left none, true⟩ →
      ∀ ev ∈ fetched, ∃ row payload value now, Vouched env ts u.before id row payload value ∧
        ev = { (fromWebhook env.parseRfc3339 now payload.eventType payload.deliveryId
            value).toBuilder with connectionId := some id }.finalize env.sha256 row.subscriberId ∧
        ev.key.scope = scopeFor
          (((value.dig ["repository", "private"]).bind Value.asBool).getD false)
          row.subscriberId) ∧
    WebhookRuns env (ts.filter fun t => !forged env t) s := by
  refine ⟨?_, ?_, ?_⟩
  · intro u hu id status hwrite
    obtain ⟨n, alive, _, ha⟩ := rowWrite_notified hwrite
    obtain ⟨row, payload, value, now, us, hvouched, hbrings⟩ := vouched_of_delivery h hu ha rfl
    refine ⟨row, payload, value, hvouched, ?_⟩
    generalize hinbound : inboundOf env now payload.eventType payload.deliveryId value = inbound
      at hbrings
    cases inbound with
    | events builders => cases hbrings.choose_spec
    | lifecycle status' =>
        rcases hbrings with heq | ⟨heq, _⟩
        · obtain rfl := IntakePhase.notified.inj heq
          exact inboundOf_lifecycle hinbound.symm
        · cases heq
  · intro u hu n ctx firstId id fetched left _ ha ev hev
    obtain ⟨row, payload, value, now, us, hvouched, hbrings⟩ := vouched_of_delivery h hu ha rfl
    generalize hinbound : inboundOf env now payload.eventType payload.deliveryId value = inbound
      at hbrings
    cases inbound with
    | events builders =>
        obtain ⟨_, heq⟩ := hbrings
        rw [(IntakePhase.appending.inj heq).1] at hev
        obtain ⟨b, hb, rfl⟩ := List.mem_map.mp hev
        obtain rfl := inboundOf_events hinbound.symm hb
        refine ⟨row, payload, value, now, hvouched, rfl, ?_⟩
        exact congrArg (scopeFor · row.subscriberId) (Bool.not_not _)
    | lifecycle status => rcases hbrings with heq | ⟨heq, _⟩ <;> cases heq
  · refine Run.Runs.filter h ?_
    intro t _ hstep hidle
    exact hstep.forged_idle (by simpa using hidle)

end Tasks

/-! ## A delivery that is forged, sent, and sent again -/

def issueBody : String :=
  "\x7b\"action\":\"opened\",\"installation\":\x7b\"id\":99\x7d," ++
    "\"issue\":\x7b\"id\":5,\"number\":7\x7d,\"repository\":\x7b\"private\":true\x7d\x7d"

def issueValue : Value :=
  .obj [("action", .str "opened"), ("installation", .obj [("id", .int 99)]),
    ("issue", .obj [("id", .int 5), ("number", .int 7)]),
    ("repository", .obj [("private", .bool true)])]

def issueCode : List UInt8 :=
  [74, 222, 213, 64, 254, 56, 101, 11, 91, 44, 249, 4, 68, 233, 220, 213, 113, 69, 97, 146, 109, 12,
    144, 2, 61, 180, 247, 55, 56, 245, 142, 99]

def issueDigest : List UInt8 :=
  [252, 117, 233, 157, 197, 43, 12, 161, 48, 102, 22, 84, 133, 11, 48, 210, 98, 142, 61, 121, 150,
    121, 95, 224, 49, 207, 182, 51, 89, 36, 198, 169]

def issueEnv : WebhookEnv where
  hmac secret body := if secret = utf8 "key" ∧ body = utf8 issueBody then issueCode else []
  sha256 bytes := if bytes = framed "github" ++ framed "issue:5:opened" then issueDigest else []
  parse text := if text = issueBody then .ok issueValue else .error "expected value"
  parseRfc3339 _ := none
  webhook := { secret := some (utf8 "key") }

def issueHeaders : WebhookHeaders where
  signature := some (String.ofList ("sha256=".toList ++ Octets.hexEncode issueCode))
  eventType := some "issues"
  deliveryId := some "d1"

/-- The request is forged, then sent twice. A worker crashes over the task, and another hands it to
the connection. -/
def issueScript : List WebhookAction :=
  [.intake (.connect 1 .github (some 7) (some "99")),
    .request { issueHeaders with signature := some "sha256=00" } (utf8 issueBody) true,
    .request issueHeaders (utf8 issueBody) true, .request issueHeaders (utf8 issueBody) true,
    .start 0, .fail 0, .start 0, .process 0 0, .intake (.append 0 (.ofSubscriber 7) 100), .finish 0]

def Deliveries.play (env : WebhookEnv) (s : Deliveries) (act : WebhookAction) :
    Option (WebhookAction × Deliveries) :=
  (s.next env act).map fun s' => (act, s')

theorem Deliveries.play_ends {env : WebhookEnv} {script : List WebhookAction}
    {p : Deliveries → Bool} (h : (Run.execute (play env) {} script).any p = true) :
    ∃ s, WebhookRuns env (Run.transitions (play env) {} script) s ∧ p s = true := by
  refine Run.execute_ends ?_ h
  intro s cue act s' hplay
  obtain ⟨rfl, hnext⟩ := Run.eq_some_of_paired hplay
  exact hnext

def issueRun : List (Run.Transition Deliveries WebhookAction) :=
  Run.transitions (Deliveries.play issueEnv) {} issueScript

/-- The step appends a private event of subscriber 7 that a delivery to connection 1 has brought. -/
def appendsIssue (u : Run.Transition Intake IntakeAction) : Bool :=
  match u.action with
  | .append 0 _ _ => (u.before.attempt 0).any fun a => match a with
      | ⟨1, .appending [ev] _ none, true⟩ => ev.key.scope = .ofPrivate 7
      | _ => false
  | _ => false

theorem issueRun_ends : ∃ s, WebhookRuns issueEnv issueRun s ∧ s.intake.event.length = 1 ∧
    ∃ task, s.task = [task] ∧ task.payload = ⟨"issues", "d1", issueBody⟩ ∧
      task.job.attempts = 2 := by
  obtain ⟨s, hrun, hends⟩ : ∃ s, WebhookRuns issueEnv issueRun s ∧
      decide (s.intake.event.length = 1 ∧ s.task.length = 1 ∧ (s.task.all fun task =>
        task.payload = ⟨"issues", "d1", issueBody⟩ ∧ task.job.attempts = 2) = true) = true :=
    Deliveries.play_ends (by decide +kernel)
  obtain ⟨hevents, hlength, hall⟩ := of_decide_eq_true hends
  obtain ⟨task, htask⟩ := List.length_eq_one_iff.mp hlength
  rw [htask, List.all_cons, List.all_nil, Bool.and_true] at hall
  exact ⟨s, hrun, hevents, task, htask, of_decide_eq_true hall⟩

theorem deliveries_vouched_issue : ∃ s, WebhookRuns issueEnv issueRun s ∧
    issueEnv.webhook.verify issueEnv.hmac issueHeaders (utf8 issueBody) = .authentic ∧
    (∃ u ∈ Run.partSteps (·.intake) (intakeAction issueEnv) issueRun, ∃ row payload value,
      appendsIssue u = true ∧ Vouched issueEnv issueRun u.before 1 row payload value ∧
        row.subscriberId = some 7) ∧
    WebhookRuns issueEnv (issueRun.filter fun t => !forged issueEnv t) s ∧
    (issueRun.filter (forged issueEnv)).length = 1 := by
  obtain ⟨s, hrun, _⟩ := issueRun_ends
  obtain ⟨_, happends, hfiltered⟩ := deliveries_vouched hrun
  have hany : (Run.partSteps (·.intake) (intakeAction issueEnv) issueRun).any appendsIssue =
      true := by decide +kernel
  obtain ⟨u, hu, hissue⟩ := List.any_eq_true.mp hany
  have hcode : issueEnv.hmac (utf8 "key") (utf8 issueBody) = issueCode := by
    simp [issueEnv]
  have hverified : issueEnv.webhook.verify issueEnv.hmac issueHeaders (utf8 issueBody) =
      .authentic := by
    refine GithubWebhook.verify_authentic.mpr ⟨utf8 "key", Octets.hexEncode issueCode, rfl, rfl, ?_⟩
    rw [Octets.hexDecode_hexEncode, hcode]
  refine ⟨s, hrun, hverified, ⟨u, hu, ?_⟩, hfiltered, by decide +kernel⟩
  have hmatch := hissue
  unfold appendsIssue at hmatch
  split at hmatch
  · rename_i ctx firstId hact
    obtain ⟨a, ha, hphase⟩ := (Option.any_eq_true _ _).mp hmatch
    split at hphase
    · rename_i ev left
      obtain ⟨row, payload, value, now, hvouched, _, hscope⟩ :=
        happends u hu 0 ctx firstId 1 [ev] left hact ha ev List.mem_cons_self
      rw [of_decide_eq_true hphase] at hscope
      refine ⟨row, payload, value, hissue, hvouched, ?_⟩
      -- only the owner's scope is private
      unfold scopeFor at hscope
      split at hscope
      · rename_i owner _ howner
        rw [howner]
        exact congrArg some (Scope.ofPrivate.inj hscope).symm
      · cases hscope
    · cases hphase
  · cases hmatch

end Bulletin
