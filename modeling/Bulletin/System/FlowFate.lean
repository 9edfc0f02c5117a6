import Bulletin.System.Flow

/-! # What a step leaves of each table

For each table of the digest flow, where an entry found after a step comes from. The
invariants of the flow are proved from these cases and never look at the step again.
-/

namespace Bulletin

open JobQueue

variable {F : Type} [SelectScore F] {sha256 : List UInt8 → List UInt8} {s s' : Flow F}
  {act : FlowAction F}

/-! ## The move of one attempt -/

section Moves

variable {a : Nat} {x : Attempt F} {phase : Phase F}

theorem Moves.attempt (h : Moves s a x act phase s') :
    s'.attempt = s.attempt.insert a { x with phase := phase } := by
  cases h <;> rfl

theorem Moves.now (h : Moves s a x act phase s') : s'.db.now = s.db.now := by
  cases h <;> rfl

theorem Moves.dispatch (h : Moves s a x act phase s') : s'.dispatch = s.dispatch := by
  cases h <;> rfl

theorem Moves.action (h : Moves s a x act phase s') : act.attempt = some a := by
  cases h <;> rfl

/-- After its mail an attempt only marks its digest delivered. -/
theorem Moves.of_sent (h : Moves s a x act phase s') {row : SubscriberRow} {id : Uuid} {items : Nat}
    (hsent : x.phase = .sent row id items) : act = .markDelivered a := by
  cases h with
  | markDelivered _ _ _ _ => rfl
  | missing hphase _ | notYetDue _ hphase _ _ | load _ hphase _ _ | read _ _ hphase _ | persist _ _ _ hphase
  | choose _ _ _ _ _ _ hphase | alreadyDelivered _ _ _ _ _ hphase _ _ | freeze _ _ _ _ _ hphase _ _
  | recordDecisions _ _ _ _ hphase | recordCandidates _ _ _ _ hphase | render _ _ hphase
  | compose _ _ _ _ hphase _ | deferred _ _ _ _ hphase _ | send _ _ _ hphase | settle _ hphase =>
      cases hsent.symm.trans hphase

end Moves

/-! ## Time -/

theorem Stepped.now_le (h : Stepped sha256 s act s') : s.db.now ≤ s'.db.now := by
  cases h with
  | background act _ hnow => exact hnow
  | moves a x act phase s' _ hmove => exact Int.le_of_eq hmove.now.symm
  | _ => exact Int.le_refl _

/-! ## Attempts -/

inductive Attempted (s : Flow F) (act : FlowAction F) (s' : Flow F) (b : Nat) (y : Attempt F) : Prop
  | kept (h : s.attempt[b]? = some y)
  | begun (sub : Uuid) (job : Option JobKey) (hact : act = .begin b sub job) (hnew : b ∉ s.attempt)
      (hy : y = ⟨sub, job, s.db.now, .begun⟩)
      (hjob : ∀ key, job = some key → (ofLex key).1 = sub ∧
        ∃ j, s.job[key]? = some j ∧ j.state = .ready)
  | failed (x : Attempt F) (hx : s.attempt[b]? = some x) (hact : act = .fail b)
      (hopen : x.phase.returned = false) (hy : y = { x with phase := .finished none })
  | moved (x : Attempt F) (phase : Phase F) (hx : s.attempt[b]? = some x)
      (hmove : Moves s b x act phase s') (hy : y = { x with phase := phase })

omit [SelectScore F] in
theorem insert_attempt {table : Std.ExtTreeMap Nat (Attempt F) compare} {a b : Nat}
    {x y : Attempt F}
    (h : (table.insert a x)[b]? = some y) : a = b ∧ y = x ∨ table[b]? = some y := by
  rw [Std.ExtTreeMap.getElem?_insert] at h
  by_cases hab : a = b
  · rw [if_pos (by simpa using hab)] at h
    exact Or.inl ⟨hab, (Option.some.inj h).symm⟩
  · rw [if_neg (by simpa using hab)] at h
    exact Or.inr h

theorem Stepped.attempted (h : Stepped sha256 s act s') {b : Nat} {y : Attempt F}
    (hy : s'.attempt[b]? = some y) : Attempted s act s' b y := by
  cases h with
  | beginOperator a sub hnew =>
      rcases insert_attempt hy with ⟨rfl, rfl⟩ | hold
      · exact .begun sub none rfl hnew rfl fun key heq => by cases heq
      · exact .kept hold
  | beginJob a sub key job hnew hkey hjob hready =>
      rcases insert_attempt hy with ⟨rfl, rfl⟩ | hold
      · refine .begun sub (some key) rfl hnew rfl ?_
        intro key' heq
        obtain rfl := Option.some.inj heq
        exact ⟨hkey, job, hjob, hready⟩
      · exact .kept hold
  | fail a x hx hopen =>
      rcases insert_attempt hy with ⟨rfl, rfl⟩ | hold
      · exact .failed x hx rfl hopen rfl
      · exact .kept hold
  | moves a x act phase s' hx hmove =>
      rw [hmove.attempt] at hy
      rcases insert_attempt hy with ⟨rfl, rfl⟩ | hold
      · exact .moved x phase hx hmove rfl
      · exact .kept hold
  | _ => exact .kept hy

inductive Fated (s : Flow F) (act : FlowAction F) (s' : Flow F) (a : Nat) (x : Attempt F) : Prop
  | kept (h : s'.attempt[a]? = some x)
  | failed (hact : act = .fail a) (hopen : x.phase.returned = false)
      (h : s'.attempt[a]? = some { x with phase := .finished none })
  | moved (phase : Phase F) (hmove : Moves s a x act phase s')
      (h : s'.attempt[a]? = some { x with phase := phase })

theorem Stepped.fated (h : Stepped sha256 s act s') {a : Nat} {x : Attempt F}
    (hx : s.attempt[a]? = some x) :
    Fated s act s' a x := by
  have hinsert : ∀ (b : Nat) (y : Attempt F), b ≠ a → (s.attempt.insert b y)[a]? = some x := by
    intro b y hne
    rw [Std.ExtTreeMap.getElem?_insert, if_neg (by simpa using hne), hx]
  have hfresh : ∀ b : Nat, b ∉ s.attempt → b ≠ a := by
    intro b hnew heq
    subst heq
    apply hnew
    rw [← Std.ExtTreeMap.isSome_getElem?_iff_mem, hx]
    rfl
  cases h with
  | beginOperator b sub hnew => exact .kept (hinsert b _ (hfresh b hnew))
  | beginJob b sub key job hnew _ _ _ => exact .kept (hinsert b _ (hfresh b hnew))
  | fail b y hy hopen =>
      by_cases hba : b = a
      · subst hba
        obtain rfl := Option.some.inj (hx.symm.trans hy)
        exact .failed rfl hopen Std.ExtTreeMap.getElem?_insert_self
      · exact .kept (hinsert b _ hba)
  | moves b y act phase s' hy hmove =>
      by_cases hba : b = a
      · subst hba
        obtain rfl := Option.some.inj (hx.symm.trans hy)
        exact .moved phase hmove (by rw [hmove.attempt]; exact Std.ExtTreeMap.getElem?_insert_self)
      · exact .kept (by rw [hmove.attempt]; exact hinsert b _ hba)
  | _ => exact .kept hx

/-! ## The schedule -/

/-- Where a subscriber's row comes from: kept, signed up, rescheduled, or advanced by a delivery. -/
inductive Scheduled (s : Flow F) (act : FlowAction F) (s' : Flow F) (sub : Uuid)
    (row' : SubscriberRow) :
    Prop
  | kept (h : s.subscriber[sub]? = some row')
  | signedUp (recurrence : Recurrence) (timezone : Zone) (digestTime : Fin 1440) (maxItems : Int)
      (hnew : s.subscriber[sub]? = none)
      (hrow : row' = newSubscriber s.db.now recurrence timezone digestTime maxItems)
  | changed (recurrence : Recurrence) (timezone : Zone) (digestTime : Fin 1440)
      (row : SubscriberRow) (hact : act = .updatePreferences sub recurrence timezone digestTime)
      (hold : s.subscriber[sub]? = some row)
      (hrow : row' = updatePreferences s.db.now recurrence timezone digestTime row)
  | delivered (a : Nat) (x : Attempt F) (loaded : SubscriberRow) (id : Uuid) (items : Nat)
      (row : SubscriberRow) (hx : s.attempt[a]? = some x) (hact : act = .markDelivered a)
      (hphase : x.phase = .sent loaded id items) (hsub : x.subscriber = sub)
      (hold : s.subscriber[sub]? = some row)
      (hrow : row' = advanceAfterDelivery s.db.now x.snapshotAt row)

theorem modify_subscriber {table : SubscriberTable} {sub t : Uuid}
    {f : SubscriberRow → SubscriberRow}
    {row' : SubscriberRow} (h : (table.modify sub f)[t]? = some row') :
    table[t]? = some row' ∧ sub ≠ t ∨ sub = t ∧ ∃ row, table[t]? = some row ∧ row' = f row := by
  rw [Std.ExtTreeMap.getElem?_modify] at h
  by_cases hst : sub = t
  · subst hst
    rw [if_pos (by simp), Option.map_eq_some_iff] at h
    obtain ⟨row, hrow, rfl⟩ := h
    exact Or.inr ⟨rfl, row, hrow, rfl⟩
  · rw [if_neg (by simpa using hst)] at h
    exact Or.inl ⟨h, hst⟩

theorem Stepped.scheduled (h : Stepped sha256 s act s') {sub : Uuid} {row' : SubscriberRow}
    (hrow : s'.subscriber[sub]? = some row') : Scheduled s act s' sub row' := by
  cases h with
  | signUp t recurrence timezone digestTime maxItems hnew =>
      change (s.subscriber.insert t _)[sub]? = some row' at hrow
      rw [Std.ExtTreeMap.getElem?_insert] at hrow
      by_cases ht : t = sub
      · subst ht
        rw [if_pos (by simp)] at hrow
        exact .signedUp recurrence timezone digestTime maxItems
          (Std.ExtTreeMap.getElem?_eq_none hnew) (Option.some.inj hrow).symm
      · rw [if_neg (by simpa using ht)] at hrow
        exact .kept hrow
  | updatePreferences t recurrence timezone digestTime =>
      rcases modify_subscriber hrow with ⟨hold, _⟩ | ⟨rfl, row, hold, rfl⟩
      · exact .kept hold
      · exact .changed recurrence timezone digestTime row rfl hold rfl
  | moves a x act phase s' hx hmove =>
      cases hmove with
      | markDelivered loaded id items hphase =>
          rcases modify_subscriber hrow with ⟨hold, _⟩ | ⟨hsub, row, hold, rfl⟩
          · exact .kept hold
          · exact .delivered a x loaded id items row hx rfl hphase hsub hold rfl
      | _ => exact .kept hrow
  | _ => exact .kept hrow

theorem Stepped.subscriber_kept (h : Stepped sha256 s act s') {sub : Uuid} {row : SubscriberRow}
    (hrow : s.subscriber[sub]? = some row) : ∃ row', s'.subscriber[sub]? = some row' := by
  have hmodify : ∀ (t : Uuid) (f : SubscriberRow → SubscriberRow),
      ∃ row', (s.subscriber.modify t f)[sub]? = some row' := by
    intro t f
    rw [Std.ExtTreeMap.getElem?_modify]
    by_cases ht : t = sub
    · subst ht
      exact ⟨f row, by rw [if_pos (by simp), hrow]; rfl⟩
    · exact ⟨row, by rw [if_neg (by simpa using ht), hrow]⟩
  cases h with
  | signUp t recurrence timezone digestTime maxItems hnew =>
      refine ⟨row, ?_⟩
      show (s.subscriber.insert t _)[sub]? = some row
      have ht : t ≠ sub := by
        intro heq
        subst heq
        apply hnew
        rw [← Std.ExtTreeMap.isSome_getElem?_iff_mem, hrow]
        rfl
      rw [Std.ExtTreeMap.getElem?_insert, if_neg (by simpa using ht), hrow]
  | updatePreferences t recurrence timezone digestTime => exact hmodify t _
  | moves a x act phase s' _ hmove =>
      cases hmove with
      | markDelivered loaded id items _ => exact hmodify x.subscriber _
      | _ => exact ⟨row, hrow⟩
  | _ => exact ⟨row, hrow⟩

/-! ## Digests -/

inductive Digested (s : Flow F) (act : FlowAction F) (s' : Flow F) (id : Uuid)
    (d' : DigestRow) : Prop
  | kept (h : s.db.digest[id]? = some d')
  | created (a : Nat) (x : Attempt F) (row : SubscriberRow) (chosen : Chosen F)
      (hx : s.attempt[a]? = some x) (hact : act = .freeze a id)
      (hphase : x.phase = .chosen row chosen)
      (hnew : findDigest s.db.digest x.subscriber row.nextRunAt = none)
      (hd : d' = newDigest x.subscriber row.nextRunAt chosen.items)
  | delivered (a : Nat) (x : Attempt F) (row : SubscriberRow) (items : Nat) (d : DigestRow)
      (hx : s.attempt[a]? = some x) (hact : act = .markDelivered a)
      (hphase : x.phase = .sent row id items) (hold : s.db.digest[id]? = some d)
      (hd : d' = d.deliver s.db.now)

theorem Stepped.digested (h : Stepped sha256 s act s') {id : Uuid} {d' : DigestRow}
    (hd : s'.db.digest[id]? = some d') : Digested s act s' id d' := by
  have hfreeze : ∀ {a : Nat} {x : Attempt F} {row : SubscriberRow} {chosen : Chosen F} {k : Uuid},
      s.attempt[a]? = some x → x.phase = .chosen row chosen →
      (createWithItems s.db.digest k x.subscriber row.nextRunAt chosen.items)[id]? = some d' →
      Digested s (.freeze a k) s' id d' := by
    intro a x row chosen k hx hphase hd
    rcases createWithItems_row hd with hold | ⟨rfl, hnew, rfl⟩
    · exact .kept hold
    · exact .created a x row chosen hx rfl hphase hnew rfl
  cases h with
  | background act hdigest _ => exact .kept (hdigest ▸ hd)
  | moves a x act phase s' hx hmove =>
      cases hmove with
      | alreadyDelivered k row chosen found d hphase _ _ => exact hfreeze hx hphase hd
      | freeze k row chosen found d hphase _ _ => exact hfreeze hx hphase hd
      | markDelivered row k items hphase =>
          have hd' : (s.db.digest.modify k (DigestRow.deliver s.db.now))[id]? = some d' := hd
          rw [deliver_getElem?] at hd'
          by_cases hk : k = id
          · subst hk
            rw [if_pos rfl, Option.map_eq_some_iff] at hd'
            obtain ⟨d, hold, rfl⟩ := hd'
            exact .delivered a x row items d hx rfl hphase hold rfl
          · rw [if_neg hk] at hd'
            exact .kept hd'
      | _ => exact .kept hd
  | _ => exact .kept hd

/-- A digest is never lost, and only its delivery is stamped, once. -/
theorem FlowStep.digest_kept (h : FlowStep sha256 s act s') {id : Uuid} {d : DigestRow}
    (hd : s.db.digest[id]? = some d) :
    s'.db.digest[id]? = some d ∨ s'.db.digest[id]? = some (d.deliver s.db.now) := by
  have henabled := h.1
  have hcreate : ∀ {k sub : Uuid} {w : DateTime} {items : List FrozenItem}, k ∉ s.db.digest →
      (createWithItems s.db.digest k sub w items)[id]? = some d := by
    intro k sub w items hnew
    rw [createWithItems_getElem?, if_neg ?_, hd]
    intro hboth
    obtain ⟨_, rfl⟩ := hboth
    apply hnew
    rw [← Std.ExtTreeMap.isSome_getElem?_iff_mem, hd]
    rfl
  cases h.stepped with
  | background act hdigest _ => exact Or.inl (hdigest ▸ hd)
  | moves a x act phase s' hx hmove =>
      cases hmove with
      | alreadyDelivered k row chosen found d hphase _ _ => exact Or.inl (hcreate henabled)
      | freeze k row chosen found d hphase _ _ => exact Or.inl (hcreate henabled)
      | markDelivered row k items hphase =>
          show (s.db.digest.modify k (DigestRow.deliver s.db.now))[id]? = _ ∨
            (s.db.digest.modify k (DigestRow.deliver s.db.now))[id]? = _
          rw [deliver_getElem?]
          by_cases hk : k = id
          · rw [if_pos hk, hd]
            exact Or.inr rfl
          · rw [if_neg hk]
            exact Or.inl hd
      | _ => exact Or.inl hd
  | _ => exact Or.inl hd

/-! ## The queue -/

inductive Queued (s : Flow F) (act : FlowAction F) (key : JobKey) (job' : Job) : Prop
  | kept (h : s.job[key]? = some job')
  | pushed (sub : Uuid) (w : DateTime) (hact : act = .push sub w) (hkey : key = jobKey sub w)
      (hdue : (sub, w) ∈ s.dispatch) (hnew : s.job[key]? = none)
      (hjob : job' = { attempts := 0, state := .ready })
  | started (a : Nat) (job : Job) (hact : act = .begin a (ofLex key).1 (some key))
      (hold : s.job[key]? = some job) (hjob : job' = job.start)
  | settled (a : Nat) (x : Attempt F) (outcome : Option DigestOutcome) (job : Job)
      (hx : s.attempt[a]? = some x) (hact : act = .settle a) (hphase : x.phase = .finished outcome)
      (hkey : x.job = some key) (hold : s.job[key]? = some job)
      (hjob : job' = job.settle digestMaxAttempts (outcome.any (·.ok)))

theorem Stepped.queued (h : Stepped sha256 s act s') {key : JobKey} {job' : Job}
    (hjob : s'.job[key]? = some job') : Queued s act key job' := by
  cases h with
  | push sub w hdue =>
      change (JobQueue.push (jobKey sub w) s.job)[key]? = some job' at hjob
      rw [push_getElem?] at hjob
      by_cases hkey : jobKey sub w = key
      · rw [if_pos hkey] at hjob
        cases hold : s.job[key]? with
        | none =>
            rw [hold] at hjob
            exact .pushed sub w rfl hkey.symm hdue hold (Option.some.inj hjob).symm
        | some job =>
            rw [hold] at hjob
            exact .kept (hold.trans hjob)
      · rw [if_neg hkey] at hjob
        exact .kept hjob
  | beginJob a sub key₀ job hnew hsub hold hready =>
      change (JobQueue.start key₀ s.job)[key]? = some job' at hjob
      rw [start_getElem?] at hjob
      by_cases hkey : key₀ = key
      · subst hkey
        rw [if_pos rfl, Option.map_eq_some_iff] at hjob
        obtain ⟨job, hold, rfl⟩ := hjob
        exact .started a job (by rw [hsub]) hold rfl
      · rw [if_neg hkey] at hjob
        exact .kept hjob
  | moves a x act phase s' hx hmove =>
      cases hmove with
      | settle outcome hphase =>
          change (s.settleJob x outcome)[key]? = some job' at hjob
          unfold Flow.settleJob at hjob
          cases hown : x.job with
          | none =>
              rw [hown] at hjob
              exact .kept hjob
          | some key₀ =>
              rw [hown] at hjob
              dsimp only at hjob
              rw [settle_getElem?] at hjob
              by_cases hkey : key₀ = key
              · subst hkey
                rw [if_pos rfl, Option.map_eq_some_iff] at hjob
                obtain ⟨job, hold, rfl⟩ := hjob
                exact .settled a x outcome job hx rfl hphase hown hold rfl
              · rw [if_neg hkey] at hjob
                exact .kept hjob
      | _ => exact .kept hjob
  | _ => exact .kept hjob

theorem Stepped.dispatched (h : Stepped sha256 s act s') {entry : Uuid × DateTime}
    (hentry : entry ∈ s'.dispatch) :
    entry ∈ s.dispatch ∨ entry ∈ dueSubscribers s.db.now s.subscriber := by
  cases h with
  | tick => exact List.mem_append.mp hentry
  | push sub w hdue => exact Or.inl (List.mem_of_mem_erase hentry)
  | moves a x act phase s' _ hmove => exact Or.inl (hmove.dispatch ▸ hentry)
  | _ => exact Or.inl hentry

/-! ## Mails -/

/-- The mails only grow, by the window of the attempt that sends. -/
theorem Stepped.mailed (h : Stepped sha256 s act s') : s'.mail = s.mail ∨
    ∃ (a : Nat) (x : Attempt F) (row : SubscriberRow) (id : Uuid) (items : Nat), act = .send a ∧
      s.attempt[a]? = some x ∧ x.phase = .composed row id items ∧
      s'.mail = s.mail ++ [(x.subscriber, row.nextRunAt)] := by
  cases h with
  | moves a x act phase s' hx hmove =>
      cases hmove with
      | send row id items hphase => exact Or.inr ⟨a, x, row, id, items, rfl, hx, hphase, rfl⟩
      | _ => exact Or.inl rfl
  | _ => exact Or.inl rfl

end Bulletin
