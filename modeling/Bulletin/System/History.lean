import Bulletin.System.FlowFate

/-! # The history of an attempt

An attempt only moves forward, so it begins, reads and freezes at most once, and each of
these steps is found in the run.
-/

namespace Bulletin

variable {F : Type} {sha256 : List UInt8 → List UInt8} {s s' : Flow F} {act : FlowAction F}
  {ts us : List (Run.Transition (Flow F) (FlowAction F))} {a b : Nat} {x y : Attempt F} {id : Uuid}
  {instant : DateTime}

/-! ## Steps of a run -/

/-- Attempt `a` began when the clock showed `instant`. -/
def BeganAt (ts : List (Run.Transition (Flow F) (FlowAction F))) (a : Nat)
    (instant : DateTime) : Prop :=
  ∃ t ∈ ts, ∃ sub job, t.action = .begin a sub job ∧ t.before.db.now = instant

/-- Attempt `a` read its candidates when the clock showed `instant`. -/
def ReadAt (ts : List (Run.Transition (Flow F) (FlowAction F))) (a : Nat)
    (instant : DateTime) : Prop :=
  ∃ t ∈ ts, ∃ r, t.action = .read a r ∧ t.before.db.now = instant

/-- Attempt `a` created the digest, with the items it had selected. -/
def FrozenBy (ts : List (Run.Transition (Flow F) (FlowAction F))) (id : Uuid) (a : Nat) : Prop :=
  ∃ t ∈ ts, t.action = .freeze a id ∧ id ∈ t.after.db.digest

/-- The candidates the items of the digest were selected from were read at `instant`. -/
def ItemsReadAt (ts : List (Run.Transition (Flow F) (FlowAction F))) (id : Uuid)
    (instant : DateTime) : Prop :=
  ∃ a, FrozenBy ts id a ∧ ReadAt ts a instant

theorem BeganAt.mono (h : BeganAt ts a instant) : BeganAt (ts ++ us) a instant := by
  obtain ⟨t, ht, hstep⟩ := h
  exact ⟨t, List.mem_append_left us ht, hstep⟩

theorem ReadAt.mono (h : ReadAt ts a instant) : ReadAt (ts ++ us) a instant := by
  obtain ⟨t, ht, hstep⟩ := h
  exact ⟨t, List.mem_append_left us ht, hstep⟩

theorem ItemsReadAt.mono (h : ItemsReadAt ts id instant) : ItemsReadAt (ts ++ us) id instant := by
  obtain ⟨a, ⟨t, ht, hstep⟩, hread⟩ := h
  exact ⟨a, ⟨t, List.mem_append_left us ht, hstep⟩, hread.mono⟩

/-! ## How far an attempt has come -/

def Phase.stage : Phase F → Nat
  | begun => 0
  | loaded _ => 1
  | read _ _ _ => 2
  | linked _ _ _ => 3
  | chosen _ _ => 4
  | frozen _ _ _ => 5
  | logged _ _ _ => 6
  | prepared _ _ => 7
  | rendered _ _ _ => 8
  | composed _ _ _ => 9
  | sent _ _ _ => 10
  | finished _ => 11
  | closed => 12

def Phase.hasRead (phase : Phase F) : Prop := 2 ≤ phase.stage ∧ phase.stage ≤ 10

theorem Phase.stage_lt_of_open {phase : Phase F} (h : phase.returned = false) :
    phase.stage < 11 := by
  cases phase <;> first | (simp [Phase.stage]; done) | cases h

section Steps

variable [SelectScore F]

theorem Moves.stage_lt {phase : Phase F} (h : Moves s a x act phase s') :
    x.phase.stage < phase.stage := by
  cases h <;> simp [Phase.stage, *]

theorem Moves.hasRead {phase : Phase F} (h : Moves s a x act phase s') (hread : phase.hasRead) :
    x.phase.hasRead ∨ ∃ r, act = .read a r := by
  cases h with
  | read row r _ _ => exact Or.inr ⟨r, rfl⟩
  | load _ _ _ _ => exact absurd hread.1 (by simp [Phase.stage])
  | persist _ _ _ hphase | choose _ _ _ _ _ _ hphase
  | freeze _ _ _ _ _ hphase _ _ | recordDecisions _ _ _ _ hphase | recordCandidates _ _ _ _ hphase
  | render _ _ hphase | compose _ _ _ _ hphase _ | send _ _ _ hphase =>
      rw [hphase]
      exact Or.inl ⟨by simp [Phase.stage], by simp [Phase.stage]⟩
  | _ => exact absurd hread.2 (by simp [Phase.stage])

/-- An attempt keeps its subscriber, its job and its instant, and never moves back. -/
theorem Stepped.attempt_kept (h : Stepped sha256 s act s') (hx : s.attempt[a]? = some x) :
    ∃ x', s'.attempt[a]? = some x' ∧ x'.subscriber = x.subscriber ∧ x'.job = x.job ∧
      x'.snapshotAt = x.snapshotAt ∧ x.phase.stage ≤ x'.phase.stage := by
  cases h.fated hx with
  | kept h => exact ⟨x, h, rfl, rfl, rfl, le_refl _⟩
  | failed _ hopen h => exact ⟨_, h, rfl, rfl, rfl, le_of_lt (Phase.stage_lt_of_open hopen)⟩
  | moved phase hmove h => exact ⟨_, h, rfl, rfl, rfl, le_of_lt hmove.stage_lt⟩

def CapturedBefore (s : Flow F) : Prop := ∀ {a : Nat} {x : Attempt F}, s.attempt[a]? = some x →
  x.snapshotAt ≤ s.db.now

theorem CapturedBefore.step (h : Stepped sha256 s act s') (hs : CapturedBefore s) :
    CapturedBefore s' := by
  intro a x hx
  cases h.attempted hx with
  | kept hold => exact le_trans (hs hold) h.now_le
  | begun sub job _ _ hy _ =>
      rw [hy]
      exact h.now_le
  | failed y hy _ _ heq =>
      have hle := hs hy
      rw [heq]
      exact le_trans hle h.now_le
  | moved y phase hy _ heq =>
      have hle := hs hy
      rw [heq]
      exact le_trans hle h.now_le

/-! ## Steps made once -/

variable {t u : Run.Transition (Flow F) (FlowAction F)}

def Reached (a stage : Nat) (s : Flow F) : Prop :=
  ∃ x, s.attempt[a]? = some x ∧ stage ≤ x.phase.stage

theorem Reached.step {stage : Nat} (h : Stepped sha256 s act s') (hreached : Reached a stage s) :
    Reached a stage s' := by
  obtain ⟨x, hx, hle⟩ := hreached
  obtain ⟨x', hx', _, _, _, hle'⟩ := h.attempt_kept hx
  exact ⟨x', hx', le_trans hle hle'⟩

theorem Moves.reached {phase : Phase F} (h : Moves s a x act phase s')
    (hx : s.attempt[a]? = some x) :
    ¬ Reached a phase.stage s ∧ Reached a phase.stage s' := by
  constructor
  · intro hreached
    obtain ⟨y, hy, hle⟩ := hreached
    obtain rfl := Option.some.inj (hx.symm.trans hy)
    exact absurd h.stage_lt (not_lt.mpr hle)
  · refine ⟨{ x with phase := phase }, ?_, le_refl _⟩
    rw [h.attempt, Std.ExtTreeMap.getElem?_insert, if_pos (by simp)]

theorem FlowStep.own (h : FlowStep sha256 s act s') (hact : act.attempt = some a) :
    ∃ x phase, s.attempt[a]? = some x ∧ Moves s a x act phase s' := by
  cases h.stepped with
  | moves b x _ phase _ hx hmove =>
      obtain rfl := Option.some.inj (hmove.action.symm.trans hact)
      exact ⟨x, phase, hx, hmove⟩
  | _ => cases hact

theorem FlowStep.read_stage {r : Recompute F} (h : FlowStep sha256 s (.read a r) s') :
    ∃ x phase, s.attempt[a]? = some x ∧ Moves s a x (.read a r) phase s' ∧ phase.stage = 2 := by
  obtain ⟨x, phase, hx, hmove⟩ := h.own rfl
  refine ⟨x, phase, hx, hmove, ?_⟩
  cases hmove with
  | read row _ _ _ => rfl

theorem FlowStep.begin_fresh {sub : Uuid} {job : Option JobKey}
    (h : FlowStep sha256 s (.begin a sub job) s') :
    ¬ Reached a 0 s ∧ Reached a 0 s' := by
  have hfresh : a ∉ s.attempt → ¬ Reached a 0 s := by
    intro hnew hreached
    obtain ⟨x, hx, _⟩ := hreached
    cases (Std.ExtTreeMap.getElem?_eq_none hnew).symm.trans hx
  cases h.stepped with
  | beginOperator _ _ hnew =>
    exact ⟨hfresh hnew, _, Std.ExtTreeMap.getElem?_insert_self, Nat.zero_le _⟩
  | beginJob _ _ _ _ hnew _ _ _ =>
      exact ⟨hfresh hnew, _, Std.ExtTreeMap.getElem?_insert_self, Nat.zero_le _⟩
  | moves _ _ _ _ _ _ hmove => cases hmove

theorem FlowRuns.once (h : FlowRuns sha256 ts s) (ht : t ∈ ts) (hu : u ∈ ts) (a stage : Nat)
    (hstage : ∀ v ∈ ts, v = t ∨ v = u → ∃ x phase, v.before.attempt[a]? = some x ∧
      Moves v.before a x v.action phase v.after ∧ phase.stage = stage) : t = u := by
  have hreached : ∀ v ∈ ts, v = t ∨ v = u → ¬ Reached a stage v.before ∧
      Reached a stage v.after := by
    intro v hv hor
    obtain ⟨x, phase, hx, hmove, rfl⟩ := hstage v hv hor
    exact hmove.reached hx
  obtain ⟨hnt, hQt⟩ := hreached t ht (Or.inl rfl)
  obtain ⟨hnu, hQu⟩ := hreached u hu (Or.inr rfl)
  exact Run.Runs.once h (fun v hv => Reached.step (h.step_of_mem hv).stepped) ht hu hnt hQt hnu hQu

theorem FlowRuns.read_once (h : FlowRuns sha256 ts s) (ht : t ∈ ts) (hu : u ∈ ts)
    {r r' : Recompute F} (hat : t.action = .read a r) (hau : u.action = .read a r') : t = u := by
  refine FlowRuns.once h ht hu a 2 ?_
  intro v hv hor
  have hact : ∃ r, v.action = .read a r := by
    rcases hor with rfl | rfl
    · exact ⟨r, hat⟩
    · exact ⟨r', hau⟩
  obtain ⟨r, hact⟩ := hact
  have hstep := h.step_of_mem hv
  rw [hact] at hstep ⊢
  exact hstep.read_stage

theorem FlowRuns.begun_once (h : FlowRuns sha256 ts s) (ht : t ∈ ts) (hu : u ∈ ts)
    {sub sub' : Uuid} {job job' : Option JobKey} (hat : t.action = .begin a sub job)
    (hau : u.action = .begin a sub' job') : t = u := by
  have hfresh : ∀ v ∈ ts, ∀ (sub : Uuid) (job : Option JobKey), v.action = .begin a sub job →
      ¬ Reached a 0 v.before ∧ Reached a 0 v.after := by
    intro v hv sub job hact
    have hstep := h.step_of_mem hv
    rw [hact] at hstep
    exact hstep.begin_fresh
  obtain ⟨hnt, hQt⟩ := hfresh t ht sub job hat
  obtain ⟨hnu, hQu⟩ := hfresh u hu sub' job' hau
  exact Run.Runs.once h (fun v hv => Reached.step (h.step_of_mem hv).stepped) ht hu hnt hQt hnu hQu

theorem FlowStep.digest_mem (h : FlowStep sha256 s act s') (hid : id ∈ s.db.digest) :
    id ∈ s'.db.digest := by
  rw [← Std.ExtTreeMap.isSome_getElem?_iff_mem, Option.isSome_iff_exists] at hid ⊢
  obtain ⟨d, hd⟩ := hid
  rcases h.digest_kept hd with hsame | hdelivered
  · exact ⟨_, hsame⟩
  · exact ⟨_, hdelivered⟩

theorem FlowRuns.frozen_once (h : FlowRuns sha256 ts s) (ht : t ∈ ts) (hu : u ∈ ts)
    (hat : t.action = .freeze a id) (hau : u.action = .freeze b id) (hmt : id ∈ t.after.db.digest)
    (hmu : id ∈ u.after.db.digest) : t = u := by
  have hnew : ∀ v ∈ ts, ∀ c, v.action = .freeze c id → id ∉ v.before.db.digest := by
    intro v hv c hact
    have henabled := (h.step_of_mem hv).1
    rw [hact] at henabled
    exact henabled
  exact Run.Runs.once h (Q := fun s => id ∈ s.db.digest) (fun v hv =>
    (h.step_of_mem hv).digest_mem) ht hu
    (hnew t ht a hat) hmt (hnew u hu b hau) hmu

theorem FlowRuns.itemsReadAt_unique (h : FlowRuns sha256 ts s) {instant' : DateTime}
    (hread : ItemsReadAt ts id instant) (hread' : ItemsReadAt ts id instant') :
    instant = instant' := by
  obtain ⟨a, ⟨t, ht, hat, hmt⟩, v, hv, r, hav, rfl⟩ := hread
  obtain ⟨b, ⟨u, hu, hbu, hmu⟩, w, hw, r', hbw, rfl⟩ := hread'
  obtain rfl := FlowRuns.frozen_once h ht hu hat hbu hmt hmu
  have hab : a = b := (FlowAction.freeze.inj (hat.symm.trans hbu)).1
  subst hab
  rw [FlowRuns.read_once h hv hw hav hbw]

theorem FlowRuns.beganAt_unique (h : FlowRuns sha256 ts s) {instant' : DateTime}
    (hbegan : BeganAt ts a instant) (hbegan' : BeganAt ts a instant') : instant = instant' := by
  obtain ⟨t, ht, _, _, hat, rfl⟩ := hbegan
  obtain ⟨u, hu, _, _, hau, rfl⟩ := hbegan'
  rw [FlowRuns.begun_once h ht hu hat hau]

/-! ## What the run recorded -/

/-- The steps behind the attempts and the digests of a state. -/
structure Recalled (ts : List (Run.Transition (Flow F) (FlowAction F))) (s : Flow F) : Prop where
  began : ∀ {a : Nat} {x : Attempt F}, s.attempt[a]? = some x → BeganAt ts a x.snapshotAt
  read : ∀ {a : Nat} {x : Attempt F}, s.attempt[a]? = some x → x.phase.hasRead →
    ∃ instant, ReadAt ts a instant
  frozen : ∀ {id : Uuid} {d : DigestRow}, s.db.digest[id]? = some d →
    ∃ instant, ItemsReadAt ts id instant

theorem FlowRuns.recalled (h : FlowRuns sha256 ts s) : Recalled ts s := by
  refine Run.Runs.invariant h Recalled ?_ ?_
  · constructor
    · intro a x hx
      cases Std.ExtTreeMap.getElem?_empty.symm.trans hx
    · intro a x hx
      cases Std.ExtTreeMap.getElem?_empty.symm.trans hx
    · intro id d hd
      cases Std.ExtTreeMap.getElem?_empty.symm.trans hd
  · intro pre t post _ hpre hstep hI
    have hlast : t ∈ pre ++ [t] := List.mem_append_right _ (List.mem_singleton_self _)
    constructor
    · intro a x hx
      cases hstep.stepped.attempted hx with
      | kept hold => exact (hI.began hold).mono
      | begun sub job hact _ hy _ => exact ⟨t, hlast, sub, job, hact, by rw [hy]⟩
      | failed y hy _ _ heq =>
          subst heq
          exact (hI.began hy).mono
      | moved y phase hy _ heq =>
          subst heq
          exact (hI.began hy).mono
    · intro a x hx hread
      cases hstep.stepped.attempted hx with
      | kept hold =>
          obtain ⟨instant, hinstant⟩ := hI.read hold hread
          exact ⟨instant, hinstant.mono⟩
      | begun sub job _ _ hy _ =>
          subst hy
          exact absurd hread.1 (by simp [Phase.stage])
      | failed y _ _ _ heq =>
          subst heq
          exact absurd hread.2 (by simp [Phase.stage])
      | moved y phase hy hmove heq =>
          subst heq
          rcases hmove.hasRead hread with hold | ⟨r, hact⟩
          · obtain ⟨instant, hinstant⟩ := hI.read hy hold
            exact ⟨instant, hinstant.mono⟩
          · exact ⟨_, t, hlast, r, hact, rfl⟩
    · intro id d hd
      cases hstep.stepped.digested hd with
      | kept hold =>
          obtain ⟨instant, hinstant⟩ := hI.frozen hold
          exact ⟨instant, hinstant.mono⟩
      | created a x row chosen hx hact hphase _ _ =>
          obtain ⟨instant, hread⟩ :=
            hI.read hx (by rw [hphase]; exact ⟨by simp [Phase.stage], by simp [Phase.stage]⟩)
          refine ⟨instant, a, ⟨t, hlast, hact, ?_⟩, hread.mono⟩
          rw [← Std.ExtTreeMap.isSome_getElem?_iff_mem, hd]
          rfl
      | delivered a x row items d₀ _ _ _ hold _ =>
          obtain ⟨instant, hinstant⟩ := hI.frozen hold
          exact ⟨instant, hinstant.mono⟩

theorem FlowRuns.began_le_read (h : FlowRuns sha256 ts s) {began : DateTime}
    (hbegan : BeganAt ts a began) (hread : ReadAt ts a instant) : began ≤ instant := by
  obtain ⟨t, ht, r, hact, rfl⟩ := hread
  obtain ⟨pre, post, rfl, hpre⟩ := h.before_of_mem ht
  have hstep := h.step_of_mem ht
  rw [hact] at hstep
  obtain ⟨x, _, hx, _⟩ := hstep.own rfl
  have hcaptured : CapturedBefore t.before := by
    refine Run.Runs.state_invariant hpre CapturedBefore ?_ fun u _ hu hs =>
      CapturedBefore.step hu.stepped hs
    intro a x hx
    cases Std.ExtTreeMap.getElem?_empty.symm.trans hx
  have hwhen : BeganAt (pre ++ t :: post) a x.snapshotAt := ((FlowRuns.recalled hpre).began hx).mono
  rw [FlowRuns.beganAt_unique h hbegan hwhen]
  exact hcaptured hx

/-! ## Deliveries -/

/-- The step delivers the digest, by attempt `a`. -/
structure Delivers (t : Run.Transition (Flow F) (FlowAction F)) (a : Nat) (x : Attempt F)
    (id : Uuid) :
    Prop where
  action : t.action = .markDelivered a
  attempt : t.before.attempt[a]? = some x
  digest : x.phase.digest = some id

theorem FlowStep.delivered (h : FlowStep sha256 s act s') (hd : Delivers ⟨s, act, s'⟩ a x id) :
    ∃ row items, x.phase = .sent row id items ∧
      s'.subscriber = s.subscriber.modify x.subscriber (advanceAfterDelivery s.db.now x.snapshotAt) ∧
      s'.db.digest = s.db.digest.modify id (DigestRow.deliver s.db.now) := by
  obtain ⟨hact, hx, hdigest⟩ := hd
  obtain rfl : act = .markDelivered a := hact
  obtain ⟨y, phase, hy, hmove⟩ := h.own rfl
  obtain rfl := Option.some.inj (hx.symm.trans hy)
  cases hmove with
  | markDelivered row id' items hphase =>
      rw [hphase] at hdigest
      obtain rfl : id' = id := Option.some.inj hdigest
      exact ⟨row, items, hphase, rfl, rfl⟩

end Steps

/-! ## Steps of a run, computed -/

theorem readAt_of_any (h : (ts.any fun t => match t.action with
    | .read b _ => b = a ∧ t.before.db.now = instant
    | _ => false) = true) : ReadAt ts a instant := by
  obtain ⟨t, ht, h⟩ := List.any_eq_true.mp h
  split at h
  · next b r hact =>
      obtain ⟨rfl, hnow⟩ := of_decide_eq_true h
      exact ⟨t, ht, r, hact, hnow⟩
  · cases h

theorem frozenBy_of_any (h : (ts.any fun t => match t.action with
    | .freeze b k => b = a ∧ k = id ∧ k ∈ t.after.db.digest
    | _ => false) = true) : FrozenBy ts id a := by
  obtain ⟨t, ht, h⟩ := List.any_eq_true.mp h
  split at h
  · next b k hact =>
      obtain ⟨rfl, rfl, hmem⟩ := of_decide_eq_true h
      exact ⟨t, ht, hact, hmem⟩
  · cases h

end Bulletin
