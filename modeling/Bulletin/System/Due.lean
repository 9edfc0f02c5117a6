import Bulletin.System.FlowFate

/-! # Due windows and the keys they were enqueued under

A window's key is used once and for ever, and the boundary only moves forward past
now. So a job that ended well leaves its window behind; one that was killed may not.
-/

namespace Bulletin

open JobQueue

variable {F : Type} {sha256 : List UInt8 → List UInt8} {s s' : Flow F} {act : FlowAction F}
  {sub : Uuid} {w : DateTime}

/-! ## Windows that were due -/

/-- The window was due at some time, and the boundary is not before it. -/
def WasDue (s : Flow F) (sub : Uuid) (w : DateTime) : Prop :=
  ∃ row, s.subscriber[sub]? = some row ∧ w ≤ row.nextRunAt ∧ w ≤ s.db.now ∧ w % 1000000 = 0

def Passed (s : Flow F) (sub : Uuid) (w : DateTime) : Prop :=
  ∃ row, s.subscriber[sub]? = some row ∧ w < row.nextRunAt ∧ w ≤ s.db.now

theorem Scheduled.later {row' : SubscriberRow} (h : Scheduled s act s' sub row') :
    s.subscriber[sub]? = some row' ∨ s.db.now < row'.nextRunAt := by
  cases h with
  | kept h => exact Or.inl h
  | signedUp recurrence timezone digestTime maxItems _ hrow =>
      exact Or.inr (hrow ▸ newSubscriber_lt digestTime maxItems)
  | changed recurrence timezone digestTime row _ _ hrow =>
    exact Or.inr (hrow ▸ update_lt digestTime row)
  | delivered a x loaded id items row _ _ _ _ _ hrow =>
    exact Or.inr (hrow ▸ advance_lt x.snapshotAt row)

theorem Scheduled.whole {row' : SubscriberRow} (h : Scheduled s act s' sub row')
    (hwhole : ∀ {row : SubscriberRow}, s.subscriber[sub]? = some row →
      row.nextRunAt % 1000000 = 0) :
    row'.nextRunAt % 1000000 = 0 := by
  cases h with
  | kept h => exact hwhole h
  | signedUp recurrence timezone digestTime maxItems _ hrow =>
      rw [hrow]
      exact nextRun_whole (timeOfDay_whole digestTime)
  | changed recurrence timezone digestTime row _ _ hrow =>
      rw [hrow]
      exact nextRun_whole (timeOfDay_whole digestTime)
  | delivered a x loaded id items row _ _ _ _ _ hrow =>
      rw [hrow]
      exact nextRun_whole (timeOfDay_whole _)

theorem WasDue.step [SelectScore F] (h : Stepped sha256 s act s') (hdue : WasDue s sub w) :
    WasDue s' sub w := by
  obtain ⟨row, hrow, hle, hnow, hwhole⟩ := hdue
  obtain ⟨row', hrow'⟩ := h.subscriber_kept hrow
  refine ⟨row', hrow', ?_, le_trans hnow h.now_le, hwhole⟩
  rcases (h.scheduled hrow').later with hsame | hlater
  · obtain rfl := Option.some.inj (hrow.symm.trans hsame)
    exact hle
  · exact le_of_lt (lt_of_le_of_lt hnow hlater)

theorem Passed.step [SelectScore F] (h : Stepped sha256 s act s') (hpassed : Passed s sub w) :
    Passed s' sub w := by
  obtain ⟨row, hrow, hlt, hnow⟩ := hpassed
  obtain ⟨row', hrow'⟩ := h.subscriber_kept hrow
  refine ⟨row', hrow', ?_, le_trans hnow h.now_le⟩
  rcases (h.scheduled hrow').later with hsame | hlater
  · obtain rfl := Option.some.inj (hrow.symm.trans hsame)
    exact hlt
  · exact lt_of_le_of_lt hnow hlater

theorem jobKey_injective {v : DateTime} (hv : v % 1000000 = 0) (hw : w % 1000000 = 0)
    (h : jobKey sub v = jobKey sub w) : v = w := by
  have hdiv : v / 1000000 = w / 1000000 := (Prod.mk.inj (toLex.injective h)).2
  have hsplit : ∀ x y : Int, x % 1000000 = 0 → y % 1000000 = 0 →
      x / 1000000 = y / 1000000 → x = y := by
    omega
  exact hsplit v w hv hw hdiv

/-! ## What each table knows of windows -/

/-- An attempt works on a window that was due, on its digest, and for a job of an earlier window
or the same. -/
structure Attempt.Placed (s : Flow F) (x : Attempt F) : Prop where
  window : ∀ w, x.phase.window = some w → WasDue s x.subscriber w
  digest : ∀ id, x.phase.digest = some id → ∃ d, s.db.digest[id]? = some d ∧
    d.subscriberId = x.subscriber ∧ x.phase.window = some d.windowEnd
  job : ∀ key, x.job = some key → ∃ w, key = jobKey x.subscriber w ∧ WasDue s x.subscriber w ∧
    (∀ v, x.phase.window = some v → w ≤ v) ∧
    ∀ outcome, x.phase = .finished (some outcome) → outcome.ok = true → Passed s x.subscriber w

structure WindowsPlaced (s : Flow F) : Prop where
  whole : ∀ {sub : Uuid} {row : SubscriberRow}, s.subscriber[sub]? = some row →
    row.nextRunAt % 1000000 = 0
  dispatch : ∀ entry ∈ s.dispatch, WasDue s entry.1 entry.2
  attempt : ∀ {a : Nat} {x : Attempt F}, s.attempt[a]? = some x → x.Placed s
  digest : ∀ {id : Uuid} {d : DigestRow}, s.db.digest[id]? = some d →
    WasDue s d.subscriberId d.windowEnd ∧
    (d.deliveredAt ≠ none → Passed s d.subscriberId d.windowEnd)
  job : ∀ {key : JobKey} {job : Job}, s.job[key]? = some job → ∃ w, key = jobKey (ofLex key).1 w ∧
    WasDue s (ofLex key).1 w ∧ (job.state = .done → Passed s (ofLex key).1 w)

/-! ## One move of an attempt -/

section Moves

variable [SelectScore F] {a : Nat} {x : Attempt F} {phase : Phase F}

/-- An attempt gets its window when it loads its subscriber and keeps it until it returns. -/
theorem Moves.window (h : Moves s a x act phase s') : phase.window = none ∨
    phase.window = x.phase.window ∨ ∃ row, phase = .loaded row ∧ x.phase = .begun ∧
      s.subscriber[x.subscriber]? = some row ∧ row.nextRunAt ≤ s.db.now := by
  cases h with
  | missing _ _ | notYetDue _ _ _ _ | alreadyDelivered _ _ _ _ _ _ _ _ | deferred _ _ _ _ _ _
  | markDelivered _ _ _ _ | settle _ _ => exact Or.inl rfl
  | load row hphase hrow hdue => exact Or.inr (Or.inr ⟨row, rfl, hphase, hrow, hdue⟩)
  | read _ _ hphase _ | persist _ _ _ hphase | choose _ _ _ _ _ _ hphase
  | freeze _ _ _ _ _ hphase _ _ | recordDecisions _ _ _ _ hphase | recordCandidates _ _ _ _ hphase
  | render _ _ hphase | compose _ _ _ _ hphase _ | send _ _ _ hphase =>
      rw [hphase]
      exact Or.inr (Or.inl rfl)

theorem Moves.digest (h : Moves s a x act phase s') : phase.digest = none ∨
    (phase.digest = x.phase.digest ∧ phase.window = x.phase.window) ∨
      ∃ id d, phase.digest = some id ∧ s'.db.digest[id]? = some d ∧ d.subscriberId = x.subscriber ∧
        phase.window = some d.windowEnd := by
  cases h with
  | freeze k row chosen found d hphase hfound _ =>
      obtain ⟨hd, hsub, hend⟩ := findDigest_eq_some hfound
      exact Or.inr (Or.inr ⟨found, d, rfl, hd, hsub, congrArg some hend.symm⟩)
  | recordDecisions _ _ _ _ hphase | recordCandidates _ _ _ _ hphase
  | render _ _ hphase | compose _ _ _ _ hphase _ | send _ _ _ hphase =>
      rw [hphase]
      exact Or.inr (Or.inl ⟨rfl, rfl⟩)
  | _ => exact Or.inl rfl

theorem Moves.passed (h : Moves s a x act phase s') (hstep : Stepped sha256 s act s')
    (hs : WindowsPlaced s) {outcome : DigestOutcome}
    (hphase : phase = .finished (some outcome)) (hok : outcome.ok = true)
    (hearlier : WasDue s x.subscriber w) (hw : ∀ v, x.phase.window = some v → w ≤ v) :
    Passed s' x.subscriber w := by
  have hdue := hearlier
  obtain ⟨row, hrow, _, hnow, _⟩ := hdue
  cases h with
  | notYetDue row' _ hrow' hlater =>
      exact ⟨row', hrow', lt_of_le_of_lt hnow hlater, hnow⟩
  | alreadyDelivered k row' chosen found d hphase' hfound hdelivered =>
      obtain ⟨hd, hsub, hend⟩ := findDigest_eq_some hfound
      have hle : w ≤ d.windowEnd := hend ▸ hw row'.nextRunAt (by rw [hphase']; rfl)
      rcases createWithItems_row hd with hold | ⟨_, _, rfl⟩
      · obtain ⟨row'', hrow'', hlt, _⟩ := (hs.digest hold).2 hdelivered
        exact ⟨row'', hsub ▸ hrow'', lt_of_le_of_lt hle hlt, hnow⟩
      · exact absurd rfl hdelivered
  | markDelivered loaded id items hsent =>
      obtain ⟨row', hrow'⟩ := hstep.subscriber_kept hrow
      refine ⟨row', hrow', ?_, hnow⟩
      rcases modify_subscriber hrow' with ⟨_, hne⟩ | ⟨_, row'', _, rfl⟩
      · exact absurd rfl hne
      · exact lt_of_le_of_lt hnow (advance_lt x.snapshotAt row'')
  | deferred _ _ _ _ _ _ =>
      cases hphase
      cases hok
  | _ => cases hphase

end Moves

/-! ## Every step keeps windows in their place -/

section Step

variable [SelectScore F]

theorem Attempt.Placed.step (h : FlowStep sha256 s act s') (hs : WindowsPlaced s) {b : Nat}
    {y : Attempt F} (hy : s'.attempt[b]? = some y) : y.Placed s' := by
  have hstep := h.stepped
  have hkeep : ∀ {id : Uuid} {d : DigestRow} {sub : Uuid} {w : Option DateTime},
      s.db.digest[id]? = some d → d.subscriberId = sub → w = some d.windowEnd →
      ∃ d', s'.db.digest[id]? = some d' ∧ d'.subscriberId = sub ∧ w = some d'.windowEnd := by
    intro id d sub w hd hsub hw
    rcases h.digest_kept hd with hsame | hdeliver
    · exact ⟨d, hsame, hsub, hw⟩
    · exact ⟨_, hdeliver, hsub, hw⟩
  cases hstep.attempted hy with
  | kept hold =>
      have hx := hs.attempt hold
      refine ⟨fun w hw => (hx.window w hw).step hstep, ?_, ?_⟩
      · intro id hid
        obtain ⟨d, hd, hsub, hw⟩ := hx.digest id hid
        exact hkeep hd hsub hw
      · intro key hkey
        obtain ⟨w, heq, hdue, hle, hpassed⟩ := hx.job key hkey
        exact ⟨w, heq, hdue.step hstep, hle, fun o ho hok => (hpassed o ho hok).step hstep⟩
  | begun sub job _ _ heq hjob =>
      subst heq
      refine ⟨fun w hw => (by cases hw), fun id hid => (by cases hid), ?_⟩
      intro key hkey
      obtain ⟨rfl, j, hj, _⟩ := hjob key hkey
      obtain ⟨w, heq, hdue, _⟩ := hs.job hj
      exact ⟨w, heq, hdue.step hstep, fun v hv => (by cases hv), fun o ho => by cases ho⟩
  | failed x hx _ _ heq =>
      subst heq
      refine ⟨fun w hw => (by cases hw), fun id hid => (by cases hid), ?_⟩
      intro key hkey
      obtain ⟨w, heq, hdue, _⟩ := (hs.attempt hx).job key hkey
      exact ⟨w, heq, hdue.step hstep, fun v hv => (by cases hv), fun o ho => by cases ho⟩
  | moved x phase hx hmove heq =>
      subst heq
      have hplaced := hs.attempt hx
      refine ⟨?_, ?_, ?_⟩
      · intro w hw
        rcases hmove.window with hnone | hsame | ⟨row, rfl, _, hrow, hdue⟩
        · cases hnone.symm.trans hw
        · exact (hplaced.window w (hsame.symm.trans hw)).step hstep
        · obtain rfl := Option.some.inj hw
          have hnow : WasDue s x.subscriber row.nextRunAt :=
            ⟨row, hrow, le_refl _, hdue, hs.whole hrow⟩
          exact hnow.step hstep
      · intro id hid
        rcases hmove.digest with hnone | ⟨hsame, hwindow⟩ | ⟨id', d, hid', hd, hsub, hw⟩
        · cases hnone.symm.trans hid
        · obtain ⟨d, hd, hsub, hw⟩ := hplaced.digest id (hsame.symm.trans hid)
          exact hkeep hd hsub (hwindow.trans hw)
        · obtain rfl := Option.some.inj (hid'.symm.trans hid)
          exact ⟨d, hd, hsub, hw⟩
      · intro key hkey
        obtain ⟨w, hkw, hdue, hle, _⟩ := hplaced.job key hkey
        refine ⟨w, hkw, hdue.step hstep, ?_, ?_⟩
        · intro v hv
          rcases hmove.window with hnone | hsame | ⟨row, rfl, _, hrow, _⟩
          · cases hnone.symm.trans hv
          · exact hle v (hsame.symm.trans hv)
          · obtain rfl := Option.some.inj hv
            obtain ⟨row', hrow', hle', _⟩ := hdue
            obtain rfl := Option.some.inj (hrow.symm.trans hrow')
            exact hle'
        · intro outcome hfinished hok
          exact hmove.passed hstep hs hfinished hok hdue hle

theorem WindowsPlaced.step (h : FlowStep sha256 s act s') (hs : WindowsPlaced s) :
    WindowsPlaced s' := by
  have hstep := h.stepped
  constructor
  · intro sub row hrow
    exact (hstep.scheduled hrow).whole hs.whole
  · intro entry hentry
    rcases hstep.dispatched hentry with hold | hdue
    · exact (hs.dispatch entry hold).step hstep
    · obtain ⟨hle, row, hrow, hw⟩ := mem_dueSubscribers.mp hdue
      have hnow : WasDue s entry.1 entry.2 := ⟨row, hrow, hw ▸ le_refl _, hle, hw ▸ hs.whole hrow⟩
      exact hnow.step hstep
  · intro a x hx
    exact Attempt.Placed.step h hs hx
  · intro id d hd
    cases hstep.digested hd with
    | kept hold =>
        obtain ⟨hdue, hpassed⟩ := hs.digest hold
        exact ⟨hdue.step hstep, fun hdel => (hpassed hdel).step hstep⟩
    | created a x row chosen hx _ hphase _ hd =>
        subst hd
        have hdue := (hs.attempt hx).window row.nextRunAt (by rw [hphase]; rfl)
        exact ⟨hdue.step hstep, fun hdel => absurd rfl hdel⟩
    | delivered a x row items d₀ hx hact hphase hold hd =>
        subst hd
        obtain ⟨hdue, _⟩ := hs.digest hold
        refine ⟨hdue.step hstep, fun _ => ?_⟩
        -- the delivery moves the boundary past now
        obtain ⟨d, hdig, hsub, hw⟩ := (hs.attempt hx).digest id (by rw [hphase]; rfl)
        obtain rfl := Option.some.inj (hdig.symm.trans hold)
        obtain ⟨row₀, hrow₀, _, hnow, _⟩ := hdue
        obtain ⟨row', hrow'⟩ := hstep.subscriber_kept hrow₀
        refine ⟨row', hrow', ?_, le_trans hnow hstep.now_le⟩
        subst hact
        cases hstep with
        | moves a' x' act' phase' s'' hx' hmove =>
            have ha : a' = a := Option.some.inj hmove.action.symm
            subst ha
            obtain rfl := Option.some.inj (hx.symm.trans hx')
            cases hmove with
            | markDelivered loaded id' items' _ =>
                rcases modify_subscriber hrow' with ⟨_, hne⟩ | ⟨_, row'', _, rfl⟩
                · exact absurd hsub.symm hne
                · exact lt_of_le_of_lt hnow (advance_lt x.snapshotAt row'')
  · intro key job' hjob
    cases hstep.queued hjob with
    | kept hold =>
        obtain ⟨w, hkey, hdue, hdone⟩ := hs.job hold
        exact ⟨w, hkey, hdue.step hstep, fun hd => (hdone hd).step hstep⟩
    | pushed sub w _ hkey hdue _ hnew =>
        subst hkey hnew
        exact ⟨w, rfl, (hs.dispatch _ hdue).step hstep, fun hd => by cases hd⟩
    | started a job _ hold hstart =>
        subst hstart
        obtain ⟨w, hkey, hdue, _⟩ := hs.job hold
        exact ⟨w, hkey, hdue.step hstep, fun hd => by cases hd⟩
    | settled a x outcome job hx _ hphase hkey hold hend =>
        subst hend
        obtain ⟨w, hkw, hdue, _, hpassed⟩ := (hs.attempt hx).job key hkey
        have hsub : (ofLex key).1 = x.subscriber := by rw [hkw]; rfl
        refine ⟨w, hsub ▸ hkw, hsub ▸ hdue.step hstep, ?_⟩
        intro hdone
        rw [hsub]
        obtain ⟨o, rfl, hok⟩ := Option.any_eq_true _ _ |>.mp (Job.settle_done hdone)
        exact (hpassed o hphase hok).step hstep

omit [SelectScore F] in
theorem windowsPlaced_empty : WindowsPlaced ({} : Flow F) := by
  constructor
  · intro sub row h
    cases Std.ExtTreeMap.getElem?_empty.symm.trans h
  · intro entry h
    cases h
  · intro a x h
    cases Std.ExtTreeMap.getElem?_empty.symm.trans h
  · intro id d h
    cases Std.ExtTreeMap.getElem?_empty.symm.trans h
  · intro key job h
    cases Std.ExtTreeMap.getElem?_empty.symm.trans h

theorem FlowRuns.windowsPlaced {ts : List (Run.Transition (Flow F) (FlowAction F))}
    (h : FlowRuns sha256 ts s) : WindowsPlaced s :=
  Run.Runs.state_invariant h WindowsPlaced windowsPlaced_empty fun _ _ hstep hs => hs.step hstep

/-! ## Due and never stuck -/

omit [SelectScore F] in
def WindowDelivered (s : Flow F) (sub : Uuid) (w : DateTime) : Prop :=
  ∃ (id : Uuid) (d : DigestRow), s.db.digest[id]? = some d ∧ d.subscriberId = sub ∧
    d.windowEnd = w ∧ d.deliveredAt ≠ none

/-- A due window that is not delivered has a job that will still run, or a key to enqueue
one under. -/
def NeverStuck (s : Flow F) : Prop :=
  ∀ (sub : Uuid) (row : SubscriberRow), s.subscriber[sub]? = some row → row.nextRunAt ≤ s.db.now →
    ¬ WindowDelivered s sub row.nextRunAt →
      (∃ job, s.job[jobKey sub row.nextRunAt]? = some job ∧ job.Live) ∨
        s.job[jobKey sub row.nextRunAt]? = none

/-- The queue kills the job of a window its subscriber still stands at: its last attempt failed. -/
def KillsWindow (s : Flow F) (act : FlowAction F) : Prop :=
  ∃ (a : Nat) (x : Attempt F) (outcome : Option DigestOutcome) (row : SubscriberRow) (job : Job),
    act = .settle a ∧ s.attempt[a]? = some x ∧ x.phase = .finished outcome ∧
      outcome.any (·.ok) = false ∧ s.subscriber[x.subscriber]? = some row ∧
      x.job = some (jobKey x.subscriber row.nextRunAt) ∧
      s.job[jobKey x.subscriber row.nextRunAt]? = some job ∧ digestMaxAttempts ≤ job.attempts

def KilledPassed (s : Flow F) : Prop :=
  ∀ {key : JobKey} {job : Job}, s.job[key]? = some job → job.state = .killed →
    ∃ w, key = jobKey (ofLex key).1 w ∧ WasDue s (ofLex key).1 w ∧ Passed s (ofLex key).1 w

omit [SelectScore F] in
theorem Passed.not_next {row : SubscriberRow} (h : Passed s sub w)
    (hrow : s.subscriber[sub]? = some row) :
    w < row.nextRunAt := by
  obtain ⟨row', hrow', hlt, _⟩ := h
  obtain rfl := Option.some.inj (hrow'.symm.trans hrow)
  exact hlt

omit [SelectScore F] in
/-- The key of the boundary a subscriber stands at is not that of a window behind it. -/
theorem jobKey_ne_passed {row : SubscriberRow} (hs : WindowsPlaced s)
    (hrow : s.subscriber[sub]? = some row)
    (hdue : WasDue s sub w) (hpassed : Passed s sub w) :
    jobKey sub w ≠ jobKey sub row.nextRunAt := by
  obtain ⟨_, _, _, _, hwhole⟩ := hdue
  intro hkey
  have heq := jobKey_injective hwhole (hs.whole hrow) hkey
  exact absurd (hpassed.not_next hrow) (by rw [heq]; exact lt_irrefl _)

omit [SelectScore F] in
theorem WindowsPlaced.neverStuck (hs : WindowsPlaced s) (hkilled : KilledPassed s) :
    NeverStuck s := by
  intro sub row hrow _ _
  cases hjob : s.job[jobKey sub row.nextRunAt]? with
  | none => exact Or.inr rfl
  | some job =>
      refine Or.inl ⟨job, rfl, ?_⟩
      obtain ⟨w, hkey, hdue, hdone⟩ := hs.job hjob
      cases hstate : job.state with
      | ready => exact Or.inl hstate
      | running => exact Or.inr hstate
      | done => exact absurd hkey.symm (jobKey_ne_passed hs hrow hdue (hdone hstate))
      | killed =>
          obtain ⟨v, hv, hvdue, hpassed⟩ := hkilled hjob hstate
          exact absurd hv.symm (jobKey_ne_passed hs hrow hvdue hpassed)

theorem KilledPassed.step (h : FlowStep sha256 s act s') (hs : WindowsPlaced s)
    (hkilled : KilledPassed s) (hnot : ¬ KillsWindow s act) : KilledPassed s' := by
  have hstep := h.stepped
  intro key job' hjob hstate
  cases hstep.queued hjob with
  | kept hold =>
      obtain ⟨w, hkey, hdue, hpassed⟩ := hkilled hold hstate
      exact ⟨w, hkey, hdue.step hstep, hpassed.step hstep⟩
  | pushed sub w _ _ _ _ heq =>
      rw [heq] at hstate
      cases hstate
  | started a job _ _ heq =>
      rw [heq] at hstate
      cases hstate
  | settled a x outcome job hx hact hphase hown hold heq =>
      subst heq
      obtain ⟨w, hkey, hdue, _, _⟩ := (hs.attempt hx).job key hown
      have hsub : (ofLex key).1 = x.subscriber := by
        rw [hkey]
        rfl
      have hdue' := hdue
      obtain ⟨row, hrow, hle, hnow, _⟩ := hdue'
      obtain ⟨hok, hspent⟩ := Job.settle_killed hstate
      have hne : w ≠ row.nextRunAt := by
        intro heq
        subst heq
        exact hnot ⟨a, x, outcome, row, job, hact, hx, hphase, hok, hrow, hkey ▸ hown,
          hkey ▸ hold, hspent⟩
      have hpassed : Passed s x.subscriber w := ⟨row, hrow, lt_of_le_of_ne hle hne, hnow⟩
      rw [hsub]
      exact ⟨w, hkey, hdue.step hstep, hpassed.step hstep⟩

theorem KillsWindow.stuck (h : FlowStep sha256 s act s') (hs : WindowsPlaced s)
    (hkills : KillsWindow s act) :
    ¬ NeverStuck s' := by
  obtain ⟨a, x, outcome, row, job, rfl, hx, hphase, hok, hrow, hown, hjob, hspent⟩ := hkills
  have hs' := hs.step h
  obtain ⟨w, hkey, ⟨row₀, hrow₀, _, hnow, hwhole⟩, _⟩ := (hs.attempt hx).job _ hown
  obtain rfl := jobKey_injective (hs.whole hrow) hwhole hkey
  cases h.stepped with
  | moves b y _ phase _ hy hmove =>
      have hab : b = a := Option.some.inj hmove.action.symm
      subst hab
      obtain rfl := Option.some.inj (hx.symm.trans hy)
      cases hmove with
      | settle outcome' hphase' =>
          have houtcome : outcome = outcome' := Phase.finished.inj (hphase.symm.trans hphase')
          subst houtcome
          intro hnever
          have hkilled : (s.settleJob x outcome)[jobKey x.subscriber row.nextRunAt]? =
              some { job with state := .killed } := by
            unfold Flow.settleJob
            rw [hown]
            dsimp only
            rw [settle_getElem?, if_pos rfl, hjob, hok]
            exact congrArg some (Job.settle_spent hspent)
          have hundelivered : ¬ WindowDelivered { s.move b x .closed with job := s.settleJob x outcome }
              x.subscriber row.nextRunAt := by
            intro hdelivered
            obtain ⟨id, d, hd, hsub, hend, hdel⟩ := hdelivered
            have hpassed := (hs'.digest hd).2 hdel
            rw [hsub, hend] at hpassed
            exact lt_irrefl _ (hpassed.not_next hrow)
          rcases hnever x.subscriber row hrow hnow hundelivered with ⟨job', hjob', hlive⟩ | hnone
          · obtain rfl := Option.some.inj (hkilled.symm.trans hjob')
            rcases hlive with hready | hrunning
            · cases hready
            · cases hrunning
          · cases hkilled.symm.trans hnone

/-- A due window is never stuck, in any state of a run, exactly when no step of the run kills the
job of a window its subscriber still stands at. -/
theorem neverStuck_iff {ts : List (Run.Transition (Flow F) (FlowAction F))}
    (h : FlowRuns sha256 ts s) :
    (∀ t ∈ ts, NeverStuck t.after) ↔ ∀ t ∈ ts, ¬ KillsWindow t.before t.action := by
  constructor
  · intro hnever t ht hkills
    obtain ⟨pre, _, _, hpre⟩ := h.before_of_mem ht
    exact KillsWindow.stuck (h.step_of_mem ht) (FlowRuns.windowsPlaced hpre) hkills (hnever t ht)
  · intro hnot t ht
    obtain ⟨pre, post, heq, hpre⟩ := h.before_of_mem ht
    have hbefore : KilledPassed t.before := by
      refine Run.Runs.state_invariant hpre KilledPassed ?_ ?_
      · intro key job hjob
        cases Std.ExtTreeMap.getElem?_empty.symm.trans hjob
      · intro u hu hstep hkilled
        obtain ⟨_, _, _, hu'⟩ := hpre.before_of_mem hu
        exact KilledPassed.step hstep (FlowRuns.windowsPlaced hu') hkilled
          (hnot u (heq ▸ List.mem_append_left _ hu))
    have hstep := h.step_of_mem ht
    have hplaced := FlowRuns.windowsPlaced hpre
    exact (hplaced.step hstep).neverStuck (KilledPassed.step hstep hplaced hbefore (hnot t ht))

end Step

/-! ## A subscriber due for ever -/

def failedAttempt (a : Nat) : List (Cue ℚ) :=
  [.other (.begin a 7 (some dueKey)), .other (.fail a), .other (.settle a)]

def retriedScript : List (Cue ℚ) :=
  dueScript ++ (List.range 2).flatMap failedAttempt ++
    [.other (.begin 2 7 (some dueKey)), .other (.load 2)]

def retriedRun : List (Run.Transition (Flow ℚ) (FlowAction ℚ)) :=
  Run.transitions (Flow.play plainDigest) {} retriedScript

theorem neverStuck_iff_retried :
    (∃ s, FlowRuns plainDigest retriedRun s) ∧ ∀ t ∈ retriedRun, NeverStuck t.after := by
  obtain ⟨s, hrun⟩ : ∃ s, FlowRuns plainDigest retriedRun s := Flow.play_runs (by decide +kernel)
  refine ⟨⟨s, hrun⟩, (neverStuck_iff hrun).mpr ?_⟩
  intro t ht hkills
  obtain ⟨_, x, _, row, job, _, _, _, _, _, _, hjob, hspent⟩ := hkills
  have hleft : ∀ t ∈ retriedRun, ∀ entry ∈ t.before.job.toList,
      entry.2.attempts < digestMaxAttempts := by
    decide +kernel
  exact absurd hspent (Nat.not_le.mpr
    (hleft t ht _ (Std.ExtTreeMap.mem_toList_iff_getElem?_eq_some.mpr hjob)))

/-- The model is down for the whole day, and every attempt the queue makes fails. -/
def killedScript : List (Cue ℚ) := dueScript ++ (List.range 12).flatMap failedAttempt

def killedRun : List (Run.Transition (Flow ℚ) (FlowAction ℚ)) :=
  Run.transitions (Flow.play plainDigest) {} killedScript

/-- The job is killed, its key stays taken, and the boundary stays where it is. -/
theorem killed_window_stuck :
    (∃ s, FlowRuns plainDigest killedRun s) ∧ ¬ ∀ t ∈ killedRun, NeverStuck t.after := by
  refine ⟨Flow.play_runs (by decide +kernel), ?_⟩
  intro hnever
  have hend : (killedRun.any fun t => t.after.db.digest.isEmpty ∧
      (t.after.subscriber[7]?.any fun row => row.nextRunAt = dueWindow ∧
        row.nextRunAt ≤ t.after.db.now) ∧
      t.after.job[dueKey]?.any (·.state = .killed)) = true := by decide +kernel
  obtain ⟨t, ht, hend⟩ := List.any_eq_true.mp hend
  obtain ⟨hempty, hrow, hjob⟩ := of_decide_eq_true hend
  obtain ⟨row, hrow, hdue⟩ := Option.any_eq_true _ _ |>.mp hrow
  obtain ⟨hnext, hdue⟩ := of_decide_eq_true hdue
  obtain ⟨job, hjob, hkilled⟩ := Option.any_eq_true _ _ |>.mp hjob
  have hundelivered : ¬ WindowDelivered t.after 7 row.nextRunAt := by
    intro hdelivered
    obtain ⟨id, d, hd, _⟩ := hdelivered
    rw [Std.ExtTreeMap.isEmpty_iff.mp hempty] at hd
    cases Std.ExtTreeMap.getElem?_empty.symm.trans hd
  unfold dueKey at hjob
  rw [← hnext] at hjob
  rcases hnever t ht 7 row hrow hdue hundelivered with ⟨job', hjob', hlive⟩ | hnone
  · obtain rfl := Option.some.inj (hjob.symm.trans hjob')
    rw [Job.Live, of_decide_eq_true hkilled] at hlive
    rcases hlive with hready | hrunning
    · cases hready
    · cases hrunning
  · cases hjob.symm.trans hnone

end Bulletin
