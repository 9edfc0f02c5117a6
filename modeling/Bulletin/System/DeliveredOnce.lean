import Bulletin.System.Deliveries

/-! # Deliveries that are sent again

A sender repeats a request until it is answered, and a worker a task until it is through. The id of
the delivery makes one task of the requests, and the budget of the task bounds what is made of it.
-/

namespace Bulletin

open Json

/-- A request with this id is accepted if the queue does not have the id. -/
def Accepts (env : WebhookEnv) (deliveryId : String)
    (t : Run.Transition Deliveries WebhookAction) : Prop :=
  ∃ headers body, t.action = .request headers body true ∧
    headers.deliveryId = some deliveryId ∧ headers.eventType ≠ some "ping" ∧
    body.length ≤ maxWebhookBody ∧ env.webhook.verify env.hmac headers body = .authentic

/-- What a request with this id is queued as. -/
def jobOf (headers : WebhookHeaders) (deliveryId : String) (body : List UInt8) :
    ProcessWebhookJob where
  eventType := headers.eventType.getD ""
  deliveryId := deliveryId
  body := webhookText body

def Deliveries.tasksOf (s : Deliveries) (deliveryId : String) : List WebhookTask :=
  s.task.filter fun task => task.payload.deliveryId = deliveryId

def Deliveries.Keyed (s : Deliveries) : Prop :=
  ∀ label ∈ s.labels, label.2 = webhookKey label.1.deliveryId

section Queue

variable {env : WebhookEnv} {s s' : Deliveries} {act : WebhookAction}
  {ts : List (Run.Transition Deliveries WebhookAction)} {d : String}

theorem keyed_of_runs (h : WebhookRuns env ts s) : s.Keyed := by
  refine h.state_invariant Deliveries.Keyed (by nofun) ?_
  intro t _ hstep ih label hlabel
  rcases hstep.labels_cases with hsame | ⟨headers, body, task, _, htask, _, htasks⟩
  · exact ih label (hsame ▸ hlabel)
  · unfold Deliveries.labels at hlabel
    rw [htasks, List.map_append] at hlabel
    rcases List.mem_append.mp hlabel with hold | hnew
    · exact ih label hold
    · rw [List.mem_singleton.mp hnew]
      obtain ⟨_, _, _, rfl⟩ := githubWebhook_ok htask
      rfl

theorem Deliveries.Keyed.mem_keys (hkeyed : s.Keyed) (hd : d ≠ "") :
    webhookKey d ∈ s.task.map (·.key) ↔ s.tasksOf d ≠ [] := by
  have hkey : ∀ task ∈ s.task, task.key = webhookKey task.payload.deliveryId := fun task htask =>
    hkeyed _ (List.mem_map_of_mem (f := fun task => (task.payload, task.key)) htask)
  unfold tasksOf
  rw [List.mem_map, ne_eq, List.filter_eq_nil_iff]
  constructor
  · rintro ⟨task, htask, heq⟩ hnone
    refine hnone task htask (decide_eq_true ?_)
    exact webhookKey_inj hd ((hkey task htask).symm.trans heq)
  · intro hsome
    push Not at hsome
    obtain ⟨task, htask, hid⟩ := hsome
    exact ⟨task, htask, (hkey task htask).trans (by rw [of_decide_eq_true hid])⟩

theorem receive_accepted (hkeyed : s.Keyed) (hd : d ≠ "") {headers : WebhookHeaders}
    {body : List UInt8} (hid : headers.deliveryId = some d)
    (hping : headers.eventType ≠ some "ping")
    (hsize : body.length ≤ maxWebhookBody)
    (hverified : env.webhook.verify env.hmac headers body = .authentic) :
    (s.tasksOf d ≠ [] ∧ s.receive env headers body true = (s, .duplicate)) ∨
    (s.tasksOf d = [] ∧ s.receive env headers body true =
      ({ s with task := s.task ++
        [{ payload := jobOf headers d body, key := webhookKey d }] }, .queued)) := by
  obtain ⟨task, htask⟩ := githubWebhook_of_authentic hverified hsize hping
  have heq := (githubWebhook_ok htask).2.2.2
  rw [hid, Option.getD_some] at heq
  have hsome : (webhookKey d).isSome = true := by
    unfold webhookKey
    rw [if_neg hd]
    rfl
  have hpush : s.receive env headers body true = s.push task := by
    unfold Deliveries.receive
    rw [htask]
    rfl
  rw [hpush, heq]
  unfold Deliveries.push
  by_cases hold : s.tasksOf d = []
  · refine .inr ⟨hold, if_neg ?_⟩
    rintro ⟨_, hmem⟩
    exact (hkeyed.mem_keys hd).mp hmem hold
  · exact .inl ⟨hold, if_pos ⟨hsome, (hkeyed.mem_keys hd).mpr hold⟩⟩

theorem tasksOf_of_labels (h : s'.labels = s.labels) :
    (s'.tasksOf d).map (·.payload) = (s.tasksOf d).map (·.payload) := by
  have hpayloads : s'.task.map (·.payload) = s.task.map (·.payload) := by
    have hfst := congrArg (List.map Prod.fst) h
    unfold Deliveries.labels at hfst
    rwa [List.map_map, List.map_map] at hfst
  have hfilter : ∀ s : Deliveries, (s.tasksOf d).map (·.payload) =
      (s.task.map (·.payload)).filter fun payload => payload.deliveryId = d := by
    intro s
    rw [List.filter_map]
    rfl
  rw [hfilter, hfilter, hpayloads]

theorem WebhookStep.tasksOf_kept (h : WebhookStep env s act s') (hd : d ≠ "")
    (hnot : ¬ Accepts env d ⟨s, act, s'⟩) :
    (s'.tasksOf d).map (·.payload) = (s.tasksOf d).map (·.payload) := by
  rcases h.labels_cases with hsame | ⟨headers, body, task, rfl, htask, _, htasks⟩
  · exact tasksOf_of_labels hsame
  · obtain ⟨hverified, hsize, hping, rfl⟩ := githubWebhook_ok htask
    have hother : headers.deliveryId.getD "" ≠ d := by
      intro heq
      refine hnot ⟨headers, body, rfl, ?_, hping, hsize, hverified⟩
      cases hid : headers.deliveryId with
      | none =>
          rw [hid] at heq
          exact absurd heq.symm hd
      | some id =>
          rw [hid] at heq
          exact congrArg some heq
    unfold Deliveries.tasksOf
    rw [htasks, List.filter_append, List.filter_cons_of_neg (by simpa using hother),
      List.filter_nil, List.append_nil]

/-- Up to here no request of the delivery was accepted, or the first of them has made the one task
of it. -/
def QueuedOnce (env : WebhookEnv) (d : String)
    (ts : List (Run.Transition Deliveries WebhookAction)) (s : Deliveries) : Prop :=
  ((∀ t ∈ ts, ¬ Accepts env d t) ∧ s.tasksOf d = []) ∨
    ∃ t headers body, Run.FirstOf (Accepts env d) ts t ∧ t.action = .request headers body true ∧
      (s.tasksOf d).map (·.payload) = [jobOf headers d body]

theorem queuedOnce_of_runs (h : WebhookRuns env ts s) (hd : d ≠ "") : QueuedOnce env d ts s := by
  refine h.invariant (QueuedOnce env d) (.inl ⟨nofun, rfl⟩) ?_
  intro pre t post _ hpre hstep ih
  by_cases haccepts : Accepts env d t
  · obtain ⟨headers, body, hact, hid, hping, hsize, hverified⟩ := haccepts
    have hafter : t.after = (t.before.receive env headers body true).1 := by
      rw [hact] at hstep
      exact (Option.some.inj hstep).symm
    rcases receive_accepted (keyed_of_runs hpre) hd hid hping hsize hverified with
      ⟨hold, heq⟩ | ⟨hnew, heq⟩
    · rw [heq] at hafter
      rcases ih with ⟨_, hempty⟩ | ⟨u, headers', body', hfirst, hu, htasks⟩
      · exact absurd hempty hold
      · refine .inr ⟨u, headers', body', hfirst.append [t], hu, ?_⟩
        rw [hafter]
        exact htasks
    · rw [heq] at hafter
      rcases ih with ⟨hnone, _⟩ | ⟨u, headers', body', _, _, htasks⟩
      · refine .inr ⟨t, headers, body, Run.firstOf_snoc_self
          ⟨headers, body, hact, hid, hping, hsize, hverified⟩ hnone, hact, ?_⟩
        rw [hafter]
        unfold Deliveries.tasksOf at hnew ⊢
        dsimp only
        rw [List.filter_append, hnew, List.nil_append, List.filter_cons_of_pos, List.filter_nil]
        · rfl
        · exact decide_eq_true rfl
      · rw [hnew] at htasks
        cases htasks
  · have hkept := hstep.tasksOf_kept hd haccepts
    rcases ih with ⟨hnone, hempty⟩ | ⟨u, headers, body, hfirst, hu, htasks⟩
    · refine .inl ⟨?_, ?_⟩
      · intro u hu
        rcases List.mem_append.mp hu with hin | hself
        · exact hnone u hin
        · rw [List.mem_singleton.mp hself]
          exact haccepts
      · rw [hempty] at hkept
        exact List.map_eq_nil_iff.mp hkept
    · exact .inr ⟨u, headers, body, hfirst.append [t], hu, hkept.trans htasks⟩

/-- However often the requests of a delivery are repeated, and whatever else is going on: the first
that is accepted is answered as queued and makes one task, of its own text, and each other is
answered as a duplicate and makes none. -/
theorem delivery_queued_once (h : WebhookRuns env ts s) (hd : d ≠ "") :
    ((∀ t ∈ ts, ¬ Accepts env d t) ∧ s.tasksOf d = [] ∨
      ∃ t headers body, Run.FirstOf (Accepts env d) ts t ∧ t.action = .request headers body true ∧
        (s.tasksOf d).map (·.payload) = [jobOf headers d body]) ∧
    ∀ pre t post, ts = pre ++ t :: post → Accepts env d t → ∀ headers body,
      t.action = .request headers body true →
      ((t.before.receive env headers body true).2 = .queued ∧ ∀ u ∈ pre, ¬ Accepts env d u) ∨
      ((t.before.receive env headers body true).2 = .duplicate ∧ ∃ u ∈ pre, Accepts env d u) := by
  refine ⟨queuedOnce_of_runs h hd, ?_⟩
  rintro pre t post rfl ⟨headers', body', hact', hid, hping, hsize, hverified⟩ headers body hact
  obtain ⟨rfl, rfl, _⟩ := WebhookAction.request.inj (hact'.symm.trans hact)
  obtain ⟨_, hpre, _⟩ := h.upto.last
  have hbefore := queuedOnce_of_runs hpre hd
  rcases receive_accepted (keyed_of_runs hpre) hd hid hping hsize hverified with
    ⟨hold, heq⟩ | ⟨hnew, heq⟩
  · refine .inr ⟨by rw [heq], ?_⟩
    rcases hbefore with ⟨_, hempty⟩ | ⟨u, _, _, hfirst, _, _⟩
    · exact absurd hempty hold
    · exact ⟨u, hfirst.mem, hfirst.holds⟩
  · refine .inl ⟨by rw [heq], ?_⟩
    rcases hbefore with ⟨hnone, _⟩ | ⟨u, _, _, _, _, htasks⟩
    · exact hnone
    · rw [hnew] at htasks
      cases htasks

end Queue

theorem issueRun_requests : ∀ t ∈ issueRun, ∀ headers body available,
    t.action = .request headers body available → headers.eventType = some "issues" ∧
      body = utf8 issueBody := by
  have hall : (issueRun.all fun t => match t.action with
      | .request headers body _ => headers.eventType = some "issues" ∧ body = utf8 issueBody
      | _ => true) = true := by decide +kernel
  intro t ht headers body available hact
  have hrequest := List.all_eq_true.mp hall t ht
  rw [hact] at hrequest
  exact of_decide_eq_true hrequest

/-- The last request of the issue is a duplicate, and the forged one has made nothing. -/
theorem delivery_queued_once_issue : ∃ s, WebhookRuns issueEnv issueRun s ∧
    (s.tasksOf "d1").map (·.payload) = [⟨"issues", "d1", issueBody⟩] ∧
    ∃ t, issueRun[3]? = some t ∧
      (t.before.receive issueEnv issueHeaders (utf8 issueBody) true).2 = .duplicate := by
  obtain ⟨s, hrun, _, task, htask, hpayload, _⟩ := issueRun_ends
  obtain ⟨honce, hanswers⟩ := delivery_queued_once hrun (d := "d1") (by decide)
  refine ⟨s, hrun, ?_, ?_⟩
  · rcases honce with ⟨_, hnone⟩ | ⟨t, headers, body, hfirst, hact, htasks⟩
    · unfold Deliveries.tasksOf at hnone
      simp [htask, hpayload] at hnone
    · obtain ⟨htype, rfl⟩ := issueRun_requests t hfirst.mem headers body true hact
      rw [htasks, jobOf, htype, webhookText_utf8]
      rfl
  · have hthird : issueRun[2]?.map (·.action) =
        some (.request issueHeaders (utf8 issueBody) true) := rfl
    have hfourth : issueRun[3]?.map (·.action) =
        some (.request issueHeaders (utf8 issueBody) true) := rfl
    obtain ⟨u, hu, huact⟩ := Option.map_eq_some_iff.mp hthird
    obtain ⟨t, ht, hact⟩ := Option.map_eq_some_iff.mp hfourth
    have haccepts : ∀ v : Run.Transition Deliveries WebhookAction,
        v.action = .request issueHeaders (utf8 issueBody) true → Accepts issueEnv "d1" v :=
      fun v hv => ⟨issueHeaders, utf8 issueBody, hv, rfl, by decide, by decide +kernel,
        by decide +kernel⟩
    refine ⟨t, ht, ?_⟩
    rcases hanswers _ t _ (Run.split_at ht) (haccepts t hact) _ _ hact with ⟨_, hnone⟩ | ⟨heq, _⟩
    · have hmem : u ∈ issueRun.take 3 := by
        refine List.mem_of_getElem? (i := 2) ?_
        rw [List.getElem?_take_of_lt (by decide)]
        exact hu
      exact absurd (haccepts u huact) (hnone u hmem)
    · exact heq

/-! ## Attempts -/

/-- A worker hands the delivery of a task to its connection. -/
def handsOver (env : WebhookEnv) (i : Nat) (t : Run.Transition Deliveries WebhookAction) : Bool :=
  match t.action with
  | .process j _ => decide (j = i) && (intakeAction env t).isSome
  | .request _ _ _ | .start _ | .finish _ | .fail _ | .intake _ => false

/-- What is left of a task that was read: it was handed over, as `n`. -/
def HandedAs (env : WebhookEnv) (ts : List (Run.Transition Deliveries WebhookAction))
    (payload : ProcessWebhookJob) (n : Nat) : Prop :=
  ∃ u ∈ Run.partSteps (·.intake) (intakeAction env) ts, ∃ id value k now,
    env.parse payload.body = .ok value ∧
    (value.dig ["installation", "id"]).bind Value.asInt64 = some k ∧
    u.action = .deliver n id .github (toString k)
      (inboundOf env now payload.eventType payload.deliveryId value)

structure Spends (env : WebhookEnv) (i : Nat)
    (ts : List (Run.Transition Deliveries WebhookAction)) (task : WebhookTask) : Prop where
  handed : (ts.filter (handsOver env i)).length +
    (if task.job.state = .running ∧ task.intake = none then 1 else 0) ≤ task.job.attempts
  budget : task.job.attempts ≤ webhookMaxAttempts
  ready : task.job.state = .ready → task.job.attempts < webhookMaxAttempts

section Attempts

variable {env : WebhookEnv} {s s' : Deliveries} {act : WebhookAction} {i : Nat}
  {ts : List (Run.Transition Deliveries WebhookAction)}

/-- What a step does to the task at a place of the queue. -/
inductive TaskMove (env : WebhookEnv) (i : Nat) (s : Deliveries) (act : WebhookAction)
    (s' : Deliveries) : Prop
  | kept (hkept : s'.task[i]? = s.task[i]?) (hhands : handsOver env i ⟨s, act, s'⟩ = false)
      (hact : act ≠ .finish i)
  | queued (payload : ProcessWebhookJob) (key : Option String) (hbefore : s.task[i]? = none)
      (hafter : s'.task[i]? = some { payload, key })
      (hhands : handsOver env i ⟨s, act, s'⟩ = false) (hact : act ≠ .finish i)
  | started (task : WebhookTask) (hbefore : s.task[i]? = some task)
      (hready : task.job.state = .ready)
      (hafter : s'.task[i]? = some { task with job := task.job.start })
      (hhands : handsOver env i ⟨s, act, s'⟩ = false) (hact : act ≠ .finish i)
  | handed (task : WebhookTask) (n : Nat) (id : Uuid) (account : String) (inbound : Inbound)
      (hbefore : s.task[i]? = some task) (hrunning : task.job.state = .running)
      (hidle : task.intake = none) (hact : act = .process i n)
      (hprocess : s.processWebhook env task.payload = .delivered id account inbound)
      (hafter : s'.task[i]? = some { task with intake := some n })
  | settled (task : WebhookTask) (ok : Bool) (hbefore : s.task[i]? = some task)
      (hrunning : task.job.state = .running)
      (hafter : s'.task[i]? = some
        { task with job := task.job.settle webhookMaxAttempts ok, intake := none })
      (hhands : handsOver env i ⟨s, act, s'⟩ = false) (hok : act = .finish i → ok = true)

theorem Deliveries.setTask_self {task task' : WebhookTask} (hi : s.task[i]? = some task) :
    (s.setTask i task').task[i]? = some task' := by
  unfold setTask
  obtain ⟨hlt, _⟩ := List.getElem?_eq_some_iff.mp hi
  rw [List.getElem?_set_self hlt]

theorem Deliveries.setTask_of_ne {task' : WebhookTask} {j : Nat} (h : j ≠ i) :
    (s.setTask j task').task[i]? = s.task[i]? := by
  unfold setTask
  rw [List.getElem?_set_ne h]

theorem handsOver_of_ne {j n : Nat} (h : j ≠ i) :
    handsOver env i ⟨s, .process j n, s'⟩ = false := by
  simp [handsOver, h]

theorem WebhookStep.taskMove (h : WebhookStep env s act s') (i : Nat) :
    TaskMove env i s act s' := by
  cases h.moves with
  | answered headers body available hanswered => exact .kept rfl rfl (by simp)
  | queued headers body task htask hfresh =>
      obtain ⟨_, _, _, rfl⟩ := githubWebhook_ok htask
      rcases lt_trichotomy i s.task.length with hlt | rfl | hgt
      · refine .kept ?_ rfl (by simp)
        exact List.getElem?_append_left hlt
      · exact .queued _ _ (List.getElem?_eq_none le_rfl) List.getElem?_concat_length rfl (by simp)
      · refine .kept ?_ rfl (by simp)
        rw [List.getElem?_eq_none, List.getElem?_eq_none hgt.le]
        rw [List.length_append, List.length_singleton]
        exact hgt
  | started j task hj hready =>
      by_cases hij : j = i
      · subst hij
        exact .started task hj hready (Deliveries.setTask_self hj) rfl (by simp)
      · exact .kept (Deliveries.setTask_of_ne hij) rfl (by simp)
  | handed j n task id account inbound intake hj hrunning hidle hprocess hstep =>
      by_cases hij : j = i
      · subst hij
        exact .handed task n id account inbound hj hrunning hidle rfl hprocess
          (Deliveries.setTask_self hj)
      · exact .kept (Deliveries.setTask_of_ne hij) (handsOver_of_ne hij) (by simp)
  | dropped j n task ok hj hrunning hidle hprocess =>
      by_cases hij : j = i
      · subst hij
        refine .settled task ok hj hrunning (Deliveries.setTask_self hj) ?_ (by simp)
        simp only [handsOver, intakeAction, hj]
        cases hprocessed : s.processWebhook env task.payload with
        | delivered id account inbound => exact absurd hprocessed (hprocess id account inbound)
        | skipped | unrouted | failed => simp
      · exact .kept (Deliveries.setTask_of_ne hij) (handsOver_of_ne hij) (by simp)
  | finished j n task hj hrunning hintake a ha hthrough =>
      by_cases hij : j = i
      · subst hij
        exact .settled task true hj hrunning (Deliveries.setTask_self hj) rfl fun _ => rfl
      · refine .kept (Deliveries.setTask_of_ne hij) rfl ?_
        rintro ⟨⟩
        exact hij rfl
  | failed j task intake hj hrunning hstep =>
      by_cases hij : j = i
      · subst hij
        exact .settled task false hj hrunning (Deliveries.setTask_self hj) rfl (by simp)
      · exact .kept (Deliveries.setTask_of_ne hij) rfl (by simp)
  | intake b intake hallows hstep =>
      refine .kept ?_ rfl (by simp)
      cases b <;> rfl

theorem filter_snoc_of_false {t : Run.Transition Deliveries WebhookAction}
    {p : Run.Transition Deliveries WebhookAction → Bool} (h : p t = false) :
    (ts ++ [t]).filter p = ts.filter p := by
  rw [List.filter_append, List.filter_cons_of_neg (by simp [h]), List.filter_nil, List.append_nil]

theorem spends_of_runs (h : WebhookRuns env ts s) (i : Nat) :
    (s.task[i]? = none → ts.filter (handsOver env i) = []) ∧
      ∀ task, s.task[i]? = some task → Spends env i ts task := by
  refine h.invariant (fun ts s => (s.task[i]? = none → ts.filter (handsOver env i) = []) ∧
    ∀ task, s.task[i]? = some task → Spends env i ts task) ⟨fun _ => rfl, by simp⟩ ?_
  rintro pre ⟨before, act, after⟩ post _ _ hstep ⟨hnone, hspends⟩
  cases hstep.taskMove i with
  | kept hkept hhands _ =>
      dsimp only at hkept ⊢
      rw [hkept]
      refine ⟨?_, ?_⟩
      · rw [filter_snoc_of_false hhands]
        exact hnone
      · intro task htask
        have hbefore := hspends task htask
        refine ⟨?_, hbefore.budget, hbefore.ready⟩
        rw [filter_snoc_of_false hhands]
        exact hbefore.handed
  | queued payload key hbefore hafter hhands _ =>
      dsimp only at hafter ⊢
      rw [hafter]
      refine ⟨by simp, ?_⟩
      rintro task ⟨⟩
      have hfirst : 0 < webhookMaxAttempts := by decide
      refine ⟨?_, Nat.zero_le _, fun _ => hfirst⟩
      rw [filter_snoc_of_false hhands, hnone hbefore]
      simp
  | started task hbefore hready hafter hhands _ =>
      dsimp only at hafter ⊢
      rw [hafter]
      have hold := hspends task hbefore
      refine ⟨by simp, ?_⟩
      rintro task' ⟨⟩
      refine ⟨?_, hold.ready hready, by simp [JobQueue.Job.start]⟩
      have hhanded := hold.handed
      rw [filter_snoc_of_false hhands]
      unfold JobQueue.Job.start
      dsimp only
      split <;> omega
  | handed task n id account inbound hbefore hrunning hidle hact hprocess hafter =>
      dsimp only at hafter hact hbefore hprocess ⊢
      rw [hafter]
      have hold := hspends task hbefore
      refine ⟨by simp, ?_⟩
      rintro task' ⟨⟩
      refine ⟨?_, hold.budget, ?_⟩
      · have hhanded := hold.handed
        rw [if_pos ⟨hrunning, hidle⟩] at hhanded
        have hlast : handsOver env i ⟨before, act, after⟩ = true := by
          subst hact
          simp [handsOver, intakeAction, hbefore, hprocess]
        rw [List.filter_append, List.filter_cons_of_pos hlast, List.filter_nil,
          List.length_append, List.length_singleton, if_neg (by simp)]
        omega
      · intro hready
        exact hold.ready hready
  | settled task ok hbefore hrunning hafter hhands _ =>
      dsimp only at hafter ⊢
      rw [hafter]
      have hold := hspends task hbefore
      refine ⟨by simp, ?_⟩
      rintro task' ⟨⟩
      refine ⟨?_, hold.budget, ?_⟩
      · have hhanded := hold.handed
        have hnot : (task.job.settle webhookMaxAttempts ok).state ≠ .running := by
          unfold JobQueue.Job.settle
          dsimp only
          split
          · decide
          · split <;> decide
        rw [filter_snoc_of_false hhands, if_neg (fun hand => hnot hand.1)]
        exact (Nat.le_add_right _ _).trans hhanded
      · intro hready
        unfold JobQueue.Job.settle at hready ⊢
        dsimp only at hready ⊢
        split at hready
        · cases hready
        · split at hready
          · assumption
          · cases hready

theorem handedAs_of_runs (h : WebhookRuns env ts s) {task : WebhookTask} {n : Nat}
    (hi : s.task[i]? = some task) (hn : task.intake = some n) : HandedAs env ts task.payload n := by
  refine h.invariant (fun ts s => ∀ task n, s.task[i]? = some task → task.intake = some n →
    HandedAs env ts task.payload n) (by simp) ?_ task n hi hn
  rintro pre ⟨before, act, after⟩ post _ _ hstep ih task n hi hn
  have hlater : ∀ {payload}, HandedAs env pre payload n →
      HandedAs env (pre ++ [⟨before, act, after⟩]) payload n := by
    rintro payload ⟨u, hu, hhanded⟩
    refine ⟨u, ?_, hhanded⟩
    unfold Run.partSteps at hu ⊢
    rw [List.filterMap_append]
    exact List.mem_append_left _ hu
  cases hstep.taskMove i with
  | kept hkept _ _ => exact hlater (ih task n (hkept ▸ hi) hn)
  | queued payload key _ hafter _ _ =>
      obtain rfl := Option.some.inj (hafter.symm.trans hi)
      cases hn
  | started old hbefore _ hafter _ _ =>
      obtain rfl := Option.some.inj (hafter.symm.trans hi)
      exact hlater (ih old n hbefore hn)
  | handed old m id account inbound hbefore _ _ hact hprocess hafter =>
      obtain rfl := Option.some.inj (hafter.symm.trans hi)
      obtain rfl : m = n := Option.some.inj hn
      obtain ⟨value, k, hparse, hk, rfl, rfl⟩ := processWebhook_delivered hprocess
      dsimp only at hact hbefore hprocess
      subst hact
      have hlabel : intakeAction env ⟨before, .process i m, after⟩ = some (.deliver m id .github
          (toString k) (inboundOf env before.intake.now old.payload.eventType
            old.payload.deliveryId value)) := by
        simp only [intakeAction, hbefore, hprocess]
      have hlast : (⟨before, .process i m, after⟩ : Run.Transition Deliveries WebhookAction) ∈
          pre ++ [⟨before, .process i m, after⟩] :=
        List.mem_append_right _ (List.mem_singleton_self _)
      exact ⟨_, Run.mem_partSteps.mpr ⟨_, hlast, _, hlabel, rfl⟩, id, value, k, before.intake.now,
        hparse, hk, rfl⟩
  | settled old ok _ _ hafter _ _ =>
      obtain rfl := Option.some.inj (hafter.symm.trans hi)
      cases hn

theorem WebhookStep.payload_kept (h : WebhookStep env s act s') {payload : ProcessWebhookJob}
    (hpayload : (s.task[i]?).map (·.payload) = some payload) :
    (s'.task[i]?).map (·.payload) = some payload := by
  cases h.taskMove i with
  | kept hkept _ _ => rwa [hkept]
  | queued _ _ hbefore _ _ _ => simp [hbefore] at hpayload
  | started task hbefore _ hafter _ _ | handed task _ _ _ _ hbefore _ _ _ _ hafter
  | settled task _ hbefore _ hafter _ _ =>
      rw [hbefore] at hpayload
      rw [hafter]
      exact hpayload

def Deliveries.Done (s : Deliveries) (i : Nat) : Prop :=
  ∃ task, s.task[i]? = some task ∧ task.job.state = .done

theorem WebhookStep.done (h : WebhookStep env s act s') (hdone : s.Done i) :
    s'.Done i ∧ handsOver env i ⟨s, act, s'⟩ = false ∧ act ≠ .finish i := by
  obtain ⟨task, htask, hstate⟩ := hdone
  cases h.taskMove i with
  | kept hkept hhands hact => exact ⟨⟨task, hkept.trans htask, hstate⟩, hhands, hact⟩
  | queued _ _ hbefore _ _ _ => cases hbefore.symm.trans htask
  | started old hbefore hready _ _ _ =>
      obtain rfl := Option.some.inj (hbefore.symm.trans htask)
      cases hready.symm.trans hstate
  | handed old _ _ _ _ hbefore hrunning _ _ _ _ =>
      obtain rfl := Option.some.inj (hbefore.symm.trans htask)
      cases hrunning.symm.trans hstate
  | settled old _ hbefore hrunning _ _ _ =>
      obtain rfl := Option.some.inj (hbefore.symm.trans htask)
      cases hrunning.symm.trans hstate

/-- What a delivery was to bring is there. -/
def Landed (env : WebhookEnv) (us : List (Run.Transition Intake IntakeAction)) (log : List Event)
    (id : Uuid) (row : ConnectionRow) : Inbound → Prop
  | .events builders => ∀ ev ∈ row.normalize env.sha256 id builders, (rowsOf ev log).length = 1
  | .lifecycle status => ∃ w ∈ us, rowWrite id w = some (.notified status)

theorem WebhookStep.inLog_kept (h : WebhookStep env s act s') {ev : NewEvent}
    (hlog : InLog s.intake.event ev) : InLog s'.intake.event ev := by
  rcases h.intake_step with ⟨b, _, hstep⟩ | ⟨_, hkept⟩
  · exact hlog.mono hstep.moves.subset
  · rwa [hkept]

theorem Landed.congr {us : List (Run.Transition Intake IntakeAction)} {log : List Event} {id : Uuid}
    {row row' : ConnectionRow} {inbound : Inbound} (h : Landed env us log id row inbound)
    (howner : row'.subscriberId = row.subscriberId) : Landed env us log id row' inbound := by
  cases inbound with
  | events builders =>
      intro ev hev
      rw [ConnectionRow.normalize_congr howner] at hev
      exact h ev hev
  | lifecycle status => exact h

theorem landed_of_brings {m : Intake} {us vs : List (Run.Transition Intake IntakeAction)}
    (h : IntakeRuns env.sha256 us m) {n : Nat} {a : IntakeAttempt} (ha : m.attempt n = some a)
    (hthrough : Deliveries.through a.phase = true) {row : ConnectionRow} {inbound : Inbound}
    (hbrings : a.phase.Brings env.sha256 n a.connection row us inbound) (hsub : us ⊆ vs)
    {log : List Event} (hrows : DistinctRows log)
    (hlog : ∀ ev, InLog m.event ev → InLog log ev) :
    Landed env vs log a.connection row inbound := by
  cases inbound with
  | events builders =>
      obtain ⟨left, hphase⟩ := hbrings
      have hleft : left = [] := by
        rw [hphase] at hthrough
        cases left with
        | nil => rfl
        | cons group left => cases hthrough
      subst hleft
      have hsound := (Intake.Sound.run h).attempt n a ha
      rw [hphase] at hsound
      intro ev hev
      refine hrows.once (hlog ev ?_)
      rcases hsound.2 ev hev with hin | ⟨group, hgroup, _⟩
      · exact hin
      · cases hgroup
  | lifecycle status =>
      rcases hbrings with hphase | ⟨_, w, hw, hwrite, hbefore⟩
      · rw [hphase] at hthrough
        cases hthrough
      · refine ⟨w, hsub hw, ?_⟩
        unfold rowWrite
        rw [hwrite]
        dsimp only
        rw [hbefore]
        exact if_pos rfl

/-- A delivery whose task is finished has landed, at the connection of the account it names. -/
theorem landed_of_finish (h : WebhookRuns env ts s) {t : Run.Transition Deliveries WebhookAction}
    (ht : t ∈ ts) (hact : t.action = .finish i) {task : WebhookTask}
    (hi : s.task[i]? = some task) :
    t.after.Done i ∧ ∃ value k id row now, env.parse task.payload.body = .ok value ∧
      (value.dig ["installation", "id"]).bind Value.asInt64 = some k ∧
      s.intake.connection id = some row ∧ row.source = .github ∧
      row.providerAccountId = some (toString k) ∧
      Landed env (Run.partSteps (·.intake) (intakeAction env) ts) s.intake.event id row
        (inboundOf env now task.payload.eventType task.payload.deliveryId value) := by
  obtain ⟨pre, post, heq, hpre⟩ := h.before_of_mem ht
  have hstep := h.step_of_mem ht
  have hsub : Run.partSteps (·.intake) (intakeAction env) pre ⊆
      Run.partSteps (·.intake) (intakeAction env) ts := by
    unfold Run.partSteps
    rw [heq, List.filterMap_append]
    exact List.subset_append_left _ _
  -- the step finds the intake through, and the task is the one at the end
  obtain ⟨old, n, a, hold, hn, ha, hthrough, hdone⟩ : ∃ old n a, t.before.task[i]? = some old ∧
      old.intake = some n ∧ t.before.intake.attempt n = some a ∧
      Deliveries.through a.phase = true ∧ t.after.Done i := by
    have hmoves := hstep.moves
    rw [hact] at hmoves
    generalize t.after = after at hmoves
    cases hmoves with
    | finished _ n old hold _ hn a ha hthrough =>
        exact ⟨old, n, a, hold, hn, ha, hthrough, _, Deliveries.setTask_self hold, rfl⟩
  have hpayload : task.payload = old.payload := by
    have hkept := Run.Runs.kept_of_mem
      (Q := fun s => (s.task[i]?).map (·.payload) = some old.payload) h
      (fun u hu => (h.step_of_mem hu).payload_kept) ht
      (hstep.payload_kept (by rw [hold]; rfl))
    rw [hi] at hkept
    exact Option.some.inj hkept
  refine ⟨hdone, ?_⟩
  obtain ⟨u, hu, id, value, k, now, hparse, hk, hdeliver⟩ := handedAs_of_runs hpre hold hn
  obtain ⟨b, row, hb, rfl, hbrought⟩ := brought_of_mem (Deliveries.intake_runs hpre) hu hdeliver
  obtain rfl := Option.some.inj (hb.symm.trans ha)
  obtain ⟨_, _, hsource, _, _⟩ := IntakeAction.deliver.inj (hbrought.action.symm.trans hdeliver)
  obtain ⟨row', hrow', hidentity⟩ := identity_kept (Deliveries.intake_runs h) (hsub hu)
    hbrought.row_before
  have hgithub : row'.source = row.source := congrArg (·.1) hidentity
  have howner : row'.subscriberId = row.subscriberId := congrArg (·.2.1) hidentity
  have haccount : row'.providerAccountId = row.providerAccountId := congrArg (·.2.2) hidentity
  refine ⟨value, k, b.connection, row', now, hpayload ▸ hparse, hk, hrow', hgithub.trans hsource,
    haccount.trans hbrought.account_eq, ?_⟩
  rw [hpayload]
  refine (landed_of_brings (Deliveries.intake_runs hpre) hb hthrough hbrought.brings hsub
    (Intake.Sound.run (Deliveries.intake_runs h)).rows ?_).congr howner
  intro ev hlog
  exact Run.Runs.kept_of_mem (Q := fun s => InLog s.intake.event ev) h
    (fun u hu => (h.step_of_mem hu).inLog_kept) ht (hstep.inLog_kept hlog)

/-- However workers crash and transactions fail: a delivery is handed to its connection at most five
times, and once it is finished, never again; then what it says is in the log once, or was written on
the row. -/
theorem delivery_tried (h : WebhookRuns env ts s) {task : WebhookTask}
    (hi : s.task[i]? = some task) :
    (ts.filter (handsOver env i)).length ≤ webhookMaxAttempts ∧
    ∀ pre t post, ts = pre ++ t :: post → t.action = .finish i →
      (∀ u ∈ post, handsOver env i u = false ∧ u.action ≠ .finish i) ∧
      ∃ value k id row now, env.parse task.payload.body = .ok value ∧
        (value.dig ["installation", "id"]).bind Value.asInt64 = some k ∧
        s.intake.connection id = some row ∧ row.source = .github ∧
        row.providerAccountId = some (toString k) ∧
        Landed env (Run.partSteps (·.intake) (intakeAction env) ts) s.intake.event id row
          (inboundOf env now task.payload.eventType task.payload.deliveryId value) := by
  have hspends := (spends_of_runs h i).2 task hi
  refine ⟨(Nat.le_add_right _ _).trans (hspends.handed.trans hspends.budget), ?_⟩
  rintro pre t post rfl hact
  obtain ⟨hdone, hlanded⟩ :=
    landed_of_finish h (List.mem_append_right _ List.mem_cons_self) hact hi
  refine ⟨?_, hlanded⟩
  have hsplit := h
  rw [List.append_cons] at hsplit
  obtain ⟨m, hpre, hpost⟩ := hsplit.split
  obtain ⟨rfl, _⟩ := hpre.last
  intro u hu
  obtain ⟨mid, _, hmid, hbefore⟩ := hpost.before_of_mem hu
  have hstill : u.before.Done i := by
    refine hbefore.state_invariant (·.Done i) hdone ?_
    intro v _ hv hold
    exact (hv.done hold).1
  exact ((hpost.step_of_mem hu).done hstill).2

end Attempts

/-- The task of the issue is handed over once, by its second attempt, and its event has landed. -/
theorem delivery_tried_issue : ∃ s, WebhookRuns issueEnv issueRun s ∧
    (issueRun.filter (handsOver issueEnv 0)).length = 1 ∧
    ∃ id row now, s.intake.connection id = some row ∧ row.source = .github ∧
      row.providerAccountId = some "99" ∧
      Landed issueEnv (Run.partSteps (·.intake) (intakeAction issueEnv) issueRun) s.intake.event id
        row (inboundOf issueEnv now "issues" "d1" issueValue) := by
  obtain ⟨s, hrun, _, task, htask, hpayload, _⟩ := issueRun_ends
  have hfirst : s.task[0]? = some task := by rw [htask]; rfl
  obtain ⟨_, hfinish⟩ := delivery_tried hrun hfirst
  have hlast : issueRun[9]?.any (fun t => match t.action with
      | .finish 0 => true
      | _ => false) = true := by decide +kernel
  obtain ⟨t, ht, hmatch⟩ := (Option.any_eq_true _ _).mp hlast
  have hact : t.action = .finish 0 := by
    split at hmatch
    · assumption
    · cases hmatch
  obtain ⟨_, value, k, id, row, now, hparse, hk, hrow, hsource, haccount, hlanded⟩ :=
    hfinish _ t _ (Run.split_at ht) hact
  rw [hpayload] at hparse hlanded
  obtain rfl : issueValue = value := Except.ok.inj hparse
  obtain rfl : 99 = k := Option.some.inj hk
  exact ⟨s, hrun, by decide +kernel, id, row, now, hrow, hsource, haccount, hlanded⟩

end Bulletin
