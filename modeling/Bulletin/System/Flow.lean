import Bulletin.Core.JobQueue
import Bulletin.Digest.Generate
import Bulletin.System.Db

/-! # The digest flow

The tick, the queue, the attempts at digests and the preference changes, interleaved at
the granularity of transactions and mails. An attempt makes one step at a time, and
anything may happen between two of its steps.
-/

namespace Bulletin

open JobQueue

/-- `digest:{subscriber}:{next_run_at}`, in whole seconds. -/
abbrev JobKey := Uuid ×ₗ Int

def jobKey (sub : Uuid) (nextRunAt : DateTime) : JobKey := toLex (sub, nextRunAt / 1000000)

def digestMaxAttempts : Nat := 12

structure Flow (F : Type) where
  db : Db := {}
  subscriber : SubscriberTable := ∅
  /-- The column `digest.decisions`. -/
  decisions : Std.ExtTreeMap Uuid (List (DecisionRecord F)) compare := ∅
  /-- The column `digest.candidates`. -/
  candidates : Std.ExtTreeMap Uuid (ReplaySnapshot F) compare := ∅
  /-- What ticks have read as due and not pushed yet. -/
  dispatch : List (Uuid × DateTime) := []
  job : Std.ExtTreeMap JobKey Job compare := ∅
  attempt : Std.ExtTreeMap Nat (Attempt F) compare := ∅
  /-- The mails sent, by subscriber and window. -/
  mail : List (Uuid × DateTime) := []

inductive FlowAction (F : Type) where
  | signUp (sub : Uuid) (recurrence : Recurrence) (timezone : Zone) (digestTime : Fin 1440)
      (maxItems : Int)
  | updatePreferences (sub : Uuid) (recurrence : Recurrence) (timezone : Zone)
      (digestTime : Fin 1440)
  | tick
  | push (sub : Uuid) (nextRunAt : DateTime)
  | begin (a : Nat) (sub : Uuid) (job : Option JobKey)
  | load (a : Nat)
  | read (a : Nat) (r : Recompute F)
  | persist (a : Nat)
  | choose (a : Nat) (cfg : ScoringConfig F) (weights : Std.ExtTreeMap String F compare)
      (thread : Uuid → Option Uuid)
  | freeze (a : Nat) (id : Uuid)
  | recordDecisions (a : Nat) (ok : Bool)
  | recordCandidates (a : Nat) (ok : Bool)
  | render (a : Nat)
  | compose (a : Nat) (authored : Bool)
  | send (a : Nat)
  | markDelivered (a : Nat)
  | fail (a : Nat)
  | settle (a : Nat)
  | background (act : Action F)

/-- The attempt an action is a step of. -/
def FlowAction.attempt {F : Type} : FlowAction F → Option Nat
  | load a | read a _ | persist a | choose a _ _ _ | freeze a _ | recordDecisions a _
  | recordCandidates a _ | render a | compose a _ | send a | markDelivered a | settle a => some a
  | _ => none

namespace Flow

variable {F : Type}

def move (s : Flow F) (a : Nat) (x : Attempt F) (phase : Phase F) : Flow F :=
  { s with attempt := s.attempt.insert a { x with phase := phase } }

/-- Delivery is one transaction on the digest, its stories and the schedule. -/
def deliver (s : Flow F) (x : Attempt F) (id : Uuid) : Flow F :=
  { s with
    db :=
      { s.db with
        digest := s.db.digest.modify id (DigestRow.deliver s.db.now)
        story := markStoriesDelivered s.db.now x.subscriber
          (digestStories s.db.digest id) s.db.story }
    subscriber := s.subscriber.modify x.subscriber (advanceAfterDelivery s.db.now x.snapshotAt) }

def settleJob (s : Flow F) (x : Attempt F) (outcome : Option DigestOutcome) :
    Std.ExtTreeMap JobKey Job compare :=
  match x.job with
  | none => s.job
  | some key => JobQueue.settle digestMaxAttempts (outcome.any (·.ok)) key s.job

section Next

variable [SelectScore F] (sha256 : List UInt8 → List UInt8)

def chosenOf (s : Flow F) (row : SubscriberRow) (r : Recompute F) (shown : DigestTable)
    (cfg : ScoringConfig F) (weights : Std.ExtTreeMap String F compare)
    (thread : Uuid → Option Uuid) : Chosen F :=
  let fire := Fire.ofSubscriber row s.db.now cfg weights thread
  let decisions := fire.linkAndSelect r shown
  { log := decisionLog r decisions
    snapshot := ⟨s.db.now, fire.maxItems, fire.candidates r shown⟩
    items := frozenItems decisions }

def advance (s : Flow F) (a : Nat) (x : Attempt F) (act : FlowAction F) : Option (Flow F) :=
  match act, x.phase with
  | .load _, .begun =>
      match s.subscriber[x.subscriber]? with
      | none => some (s.move a x (.finished none))
      | some row =>
          if s.db.now < row.nextRunAt then some (s.move a x (.finished (some .notYetDue)))
          else some (s.move a x (.loaded row))
  | .read _ r, .loaded row =>
      if r.subscriber = x.subscriber then some (s.move a x (.read row r s.db.digest)) else none
  | .persist _, .read row r shown =>
      some { s.move a x (.linked row r shown) with
        db := { s.db with story := persistAssignment s.db.now x.subscriber r.assignment s.db.story } }
  | .choose _ cfg weights thread, .linked row r shown =>
      some (s.move a x (.chosen row (s.chosenOf row r shown cfg weights thread)))
  | .freeze _ id, .chosen row chosen =>
      let digest := createWithItems s.db.digest id x.subscriber row.nextRunAt chosen.items
      match findDigest digest x.subscriber row.nextRunAt with
      | none => none
      | some (found, d) =>
          let phase := if d.deliveredAt.isSome then .finished (some .alreadyDelivered)
            else .frozen row chosen found
          some { s.move a x phase with db := { s.db with digest := digest } }
  | .recordDecisions _ ok, .frozen row chosen id =>
      some { s.move a x (.logged row chosen id) with
        decisions := if ok then s.decisions.insert id chosen.log else s.decisions }
  | .recordCandidates _ ok, .logged row chosen id =>
      some { s.move a x (.prepared row id) with
        candidates := if ok then s.candidates.insert id chosen.snapshot else s.candidates }
  | .render _, .prepared row id =>
      let items := renderItems s.db.story s.db.digest s.db.cluster x.subscriber id
      some (s.move a x (.rendered row id items.length))
  | .compose _ authored, .rendered row id items =>
      -- an empty digest needs no lead
      if items = 0 ∨ authored then some (s.move a x (.composed row id items))
      else some (s.move a x (.finished (some .leadDeferred)))
  | .send _, .composed row id items =>
      some { s.move a x (.sent row id items) with mail := s.mail ++ [(x.subscriber, row.nextRunAt)] }
  | .markDelivered _, .sent _ id items =>
      let outcome := if items = 0 then .empty else .delivered items
      some ((s.move a x (.finished (some outcome))).deliver x id)
  | .settle _, .finished outcome =>
      some { s.move a x .closed with job := s.settleJob x outcome }
  | _, _ => none

/-- The step an action makes, if it can. -/
def next (s : Flow F) (act : FlowAction F) : Option (Flow F) :=
  match act with
  | .signUp sub recurrence timezone digestTime maxItems =>
      if sub ∈ s.subscriber then none
      else some { s with
        subscriber := s.subscriber.insert sub
          (newSubscriber s.db.now recurrence timezone digestTime maxItems) }
  | .updatePreferences sub recurrence timezone digestTime =>
      some { s with
        subscriber := s.subscriber.modify sub
          (updatePreferences s.db.now recurrence timezone digestTime) }
  | .tick => some { s with dispatch := s.dispatch ++ dueSubscribers s.db.now s.subscriber }
  | .push sub nextRunAt =>
      if (sub, nextRunAt) ∈ s.dispatch then
        some { s with
          dispatch := s.dispatch.erase (sub, nextRunAt)
          job := JobQueue.push (jobKey sub nextRunAt) s.job }
      else none
  | .begin a sub none =>
      if a ∈ s.attempt then none
      else some { s with attempt := s.attempt.insert a ⟨sub, none, s.db.now, .begun⟩ }
  | .begin a sub (some key) =>
      if a ∉ s.attempt ∧ (ofLex key).1 = sub ∧ s.job[key]?.any (·.state = .ready) then
        some { s with
          attempt := s.attempt.insert a ⟨sub, some key, s.db.now, .begun⟩
          job := JobQueue.start key s.job }
      else none
  | .background act =>
      match act with
      | .loadQueue _ _ _ _ | .readMembers _ | .record _ _ | .passOver _ | .abort _ | .ingest _ _
      | .wait _ => some { s with db := act.apply sha256 s.db }
      | _ => none
  | .fail a => s.attempt[a]?.bind fun x =>
      if x.phase.returned then none else some (s.move a x (.finished none))
  | .load a | .read a _ | .persist a | .choose a _ _ _ | .freeze a _ | .recordDecisions a _
  | .recordCandidates a _ | .render a | .compose a _ | .send a | .markDelivered a | .settle a =>
      s.attempt[a]?.bind fun x => s.advance a x act

end Next

end Flow

/-- What a step takes from outside: a fresh read of the stories, new ids. -/
def FlowAction.Enabled {F : Type} (s : Flow F) : FlowAction F → Prop
  | .read _ r => r.Reads s.db.story
  | .freeze _ id => id ∉ s.db.digest
  | _ => True

section Step

variable {F : Type} [SelectScore F] (sha256 : List UInt8 → List UInt8)

def FlowStep (s : Flow F) (act : FlowAction F) (s' : Flow F) : Prop :=
  act.Enabled s ∧ s.next sha256 act = some s'

abbrev FlowRuns (ts : List (Run.Transition (Flow F) (FlowAction F))) (s : Flow F) : Prop :=
  Run.Runs (FlowStep sha256) {} ts s

end Step

/-! ## What one step can do -/

section Moves

variable {F : Type} [SelectScore F]

/-- What an attempt can do next, by its phase: the action, the new phase, and the new state. -/
inductive Moves (s : Flow F) (a : Nat) (x : Attempt F) : FlowAction F → Phase F → Flow F → Prop
  | missing (hphase : x.phase = .begun) (hnone : s.subscriber[x.subscriber]? = none) :
      Moves s a x (.load a) (.finished none) (s.move a x (.finished none))
  | notYetDue (row : SubscriberRow) (hphase : x.phase = .begun)
      (hrow : s.subscriber[x.subscriber]? = some row) (hlater : s.db.now < row.nextRunAt) :
      Moves s a x (.load a) (.finished (some .notYetDue)) (s.move a x (.finished (some .notYetDue)))
  | load (row : SubscriberRow) (hphase : x.phase = .begun)
      (hrow : s.subscriber[x.subscriber]? = some row) (hdue : row.nextRunAt ≤ s.db.now) :
      Moves s a x (.load a) (.loaded row) (s.move a x (.loaded row))
  | read (row : SubscriberRow) (r : Recompute F) (hphase : x.phase = .loaded row)
      (hsub : r.subscriber = x.subscriber) :
      Moves s a x (.read a r) (.read row r s.db.digest) (s.move a x (.read row r s.db.digest))
  | persist (row : SubscriberRow) (r : Recompute F) (shown : DigestTable)
      (hphase : x.phase = .read row r shown) :
      Moves s a x (.persist a) (.linked row r shown) { s.move a x (.linked row r shown) with
        db := { s.db with story := persistAssignment s.db.now x.subscriber r.assignment s.db.story } }
  | choose (row : SubscriberRow) (r : Recompute F) (shown : DigestTable)
      (cfg : ScoringConfig F) (weights : Std.ExtTreeMap String F compare)
      (thread : Uuid → Option Uuid)
      (hphase : x.phase = .linked row r shown) :
      Moves s a x (.choose a cfg weights thread) (.chosen row (s.chosenOf row r shown cfg weights thread))
        (s.move a x (.chosen row (s.chosenOf row r shown cfg weights thread)))
  | alreadyDelivered (id : Uuid) (row : SubscriberRow) (chosen : Chosen F) (found : Uuid)
      (d : DigestRow) (hphase : x.phase = .chosen row chosen)
      (hfound : findDigest (createWithItems s.db.digest id x.subscriber row.nextRunAt chosen.items)
        x.subscriber row.nextRunAt = some (found, d)) (hdelivered : d.deliveredAt ≠ none) :
      Moves s a x (.freeze a id) (.finished (some .alreadyDelivered))
        { s.move a x (.finished (some .alreadyDelivered)) with
        db := { s.db with
          digest := createWithItems s.db.digest id x.subscriber row.nextRunAt chosen.items } }
  | freeze (id : Uuid) (row : SubscriberRow) (chosen : Chosen F) (found : Uuid)
      (d : DigestRow) (hphase : x.phase = .chosen row chosen)
      (hfound : findDigest (createWithItems s.db.digest id x.subscriber row.nextRunAt chosen.items)
        x.subscriber row.nextRunAt = some (found, d)) (hundelivered : d.deliveredAt = none) :
      Moves s a x (.freeze a id) (.frozen row chosen found)
        { s.move a x (.frozen row chosen found) with
        db := { s.db with
          digest := createWithItems s.db.digest id x.subscriber row.nextRunAt chosen.items } }
  | recordDecisions (ok : Bool) (row : SubscriberRow) (chosen : Chosen F) (id : Uuid)
      (hphase : x.phase = .frozen row chosen id) :
      Moves s a x (.recordDecisions a ok) (.logged row chosen id)
        { s.move a x (.logged row chosen id) with
        decisions := if ok then s.decisions.insert id chosen.log else s.decisions }
  | recordCandidates (ok : Bool) (row : SubscriberRow) (chosen : Chosen F) (id : Uuid)
      (hphase : x.phase = .logged row chosen id) :
      Moves s a x (.recordCandidates a ok) (.prepared row id) { s.move a x (.prepared row id) with
        candidates := if ok then s.candidates.insert id chosen.snapshot else s.candidates }
  | render (row : SubscriberRow) (id : Uuid) (hphase : x.phase = .prepared row id) :
      Moves s a x (.render a)
        (.rendered row id (renderItems s.db.story s.db.digest s.db.cluster x.subscriber id).length)
        (s.move a x (.rendered row id
          (renderItems s.db.story s.db.digest s.db.cluster x.subscriber id).length))
  | compose (authored : Bool) (row : SubscriberRow) (id : Uuid) (items : Nat)
      (hphase : x.phase = .rendered row id items) (hlead : items = 0 ∨ authored = true) :
      Moves s a x (.compose a authored) (.composed row id items)
        (s.move a x (.composed row id items))
  | deferred (authored : Bool) (row : SubscriberRow) (id : Uuid) (items : Nat)
      (hphase : x.phase = .rendered row id items) (hlead : ¬ (items = 0 ∨ authored = true)) :
      Moves s a x (.compose a authored) (.finished (some .leadDeferred))
        (s.move a x (.finished (some .leadDeferred)))
  | send (row : SubscriberRow) (id : Uuid) (items : Nat)
      (hphase : x.phase = .composed row id items) :
      Moves s a x (.send a) (.sent row id items) { s.move a x (.sent row id items) with
        mail := s.mail ++ [(x.subscriber, row.nextRunAt)] }
  | markDelivered (row : SubscriberRow) (id : Uuid) (items : Nat)
      (hphase : x.phase = .sent row id items) :
      Moves s a x (.markDelivered a) (.finished (some (if items = 0 then .empty else .delivered items)))
        ((s.move a x (.finished (some (if items = 0 then .empty else .delivered items)))).deliver x id)
  | settle (outcome : Option DigestOutcome) (hphase : x.phase = .finished outcome) :
      Moves s a x (.settle a) .closed { s.move a x .closed with job := s.settleJob x outcome }

theorem Flow.advance_moves {s s' : Flow F} {a : Nat} {x : Attempt F} {act : FlowAction F}
    (hact : act.attempt = some a) (h : s.advance a x act = some s') :
    ∃ phase, Moves s a x act phase s' := by
  unfold Flow.advance at h
  split at h
  · next hphase =>
      cases hact
      split at h
      · next hnone =>
          obtain rfl := Option.some.inj h
          exact ⟨_, .missing hphase hnone⟩
      · next row hrow =>
          by_cases hnow : s.db.now < row.nextRunAt
          · rw [if_pos hnow] at h
            obtain rfl := Option.some.inj h
            exact ⟨_, .notYetDue row hphase hrow hnow⟩
          · rw [if_neg hnow] at h
            obtain rfl := Option.some.inj h
            exact ⟨_, .load row hphase hrow (Int.not_lt.mp hnow)⟩
  · next r row hphase =>
      cases hact
      by_cases hsub : r.subscriber = x.subscriber
      · rw [if_pos hsub] at h
        obtain rfl := Option.some.inj h
        exact ⟨_, .read row r hphase hsub⟩
      · rw [if_neg hsub] at h
        cases h
  · next hphase =>
      cases hact
      obtain rfl := Option.some.inj h
      exact ⟨_, .persist _ _ _ hphase⟩
  · next hphase =>
      cases hact
      obtain rfl := Option.some.inj h
      exact ⟨_, .choose _ _ _ _ _ _ hphase⟩
  · next id row chosen hphase =>
      cases hact
      dsimp only at h
      split at h
      · cases h
      · next found d hfound =>
          cases hd : d.deliveredAt with
          | none =>
              rw [hd] at h
              obtain rfl := Option.some.inj h
              exact ⟨_, .freeze id row chosen found d hphase hfound hd⟩
          | some t =>
              rw [hd] at h
              obtain rfl := Option.some.inj h
              exact ⟨_, .alreadyDelivered id row chosen found d hphase hfound (by rw [hd]; simp)⟩
  · next hphase =>
      cases hact
      obtain rfl := Option.some.inj h
      exact ⟨_, .recordDecisions _ _ _ _ hphase⟩
  · next hphase =>
      cases hact
      obtain rfl := Option.some.inj h
      exact ⟨_, .recordCandidates _ _ _ _ hphase⟩
  · next hphase =>
      cases hact
      obtain rfl := Option.some.inj h
      exact ⟨_, .render _ _ hphase⟩
  · next authored row id items hphase =>
      cases hact
      by_cases hlead : items = 0 ∨ authored = true
      · rw [if_pos hlead] at h
        obtain rfl := Option.some.inj h
        exact ⟨_, .compose authored row id items hphase hlead⟩
      · rw [if_neg hlead] at h
        obtain rfl := Option.some.inj h
        exact ⟨_, .deferred authored row id items hphase hlead⟩
  · next hphase =>
      cases hact
      obtain rfl := Option.some.inj h
      exact ⟨_, .send _ _ _ hphase⟩
  · next hphase =>
      cases hact
      obtain rfl := Option.some.inj h
      exact ⟨_, .markDelivered _ _ _ hphase⟩
  · next hphase =>
      cases hact
      obtain rfl := Option.some.inj h
      exact ⟨_, .settle _ hphase⟩
  · cases h

/-- The step of an action, with what it needed. -/
inductive Stepped (sha256 : List UInt8 → List UInt8) (s : Flow F) : FlowAction F → Flow F → Prop
  | signUp (sub : Uuid) (recurrence : Recurrence) (timezone : Zone) (digestTime : Fin 1440)
      (maxItems : Int) (hnew : sub ∉ s.subscriber) :
      Stepped sha256 s (.signUp sub recurrence timezone digestTime maxItems) { s with
        subscriber := s.subscriber.insert sub
          (newSubscriber s.db.now recurrence timezone digestTime maxItems) }
  | updatePreferences (sub : Uuid) (recurrence : Recurrence) (timezone : Zone)
      (digestTime : Fin 1440) :
      Stepped sha256 s (.updatePreferences sub recurrence timezone digestTime) { s with
        subscriber := s.subscriber.modify sub
          (updatePreferences s.db.now recurrence timezone digestTime) }
  | tick : Stepped sha256 s .tick { s with
      dispatch := s.dispatch ++ dueSubscribers s.db.now s.subscriber }
  | push (sub : Uuid) (nextRunAt : DateTime) (hdue : (sub, nextRunAt) ∈ s.dispatch) :
      Stepped sha256 s (.push sub nextRunAt) { s with
        dispatch := s.dispatch.erase (sub, nextRunAt)
        job := JobQueue.push (jobKey sub nextRunAt) s.job }
  | beginOperator (a : Nat) (sub : Uuid) (hnew : a ∉ s.attempt) :
      Stepped sha256 s (.begin a sub none) { s with
        attempt := s.attempt.insert a ⟨sub, none, s.db.now, .begun⟩ }
  | beginJob (a : Nat) (sub : Uuid) (key : JobKey) (job : Job) (hnew : a ∉ s.attempt)
      (hkey : (ofLex key).1 = sub) (hjob : s.job[key]? = some job) (hready : job.state = .ready) :
      Stepped sha256 s (.begin a sub (some key)) { s with
        attempt := s.attempt.insert a ⟨sub, some key, s.db.now, .begun⟩
        job := JobQueue.start key s.job }
  | background (act : Action F) (hdigest : (act.apply sha256 s.db).digest = s.db.digest)
      (hnow : s.db.now ≤ (act.apply sha256 s.db).now) :
      Stepped sha256 s (.background act) { s with db := act.apply sha256 s.db }
  | fail (a : Nat) (x : Attempt F) (hx : s.attempt[a]? = some x)
      (hopen : x.phase.returned = false) :
      Stepped sha256 s (.fail a) (s.move a x (.finished none))
  | moves (a : Nat) (x : Attempt F) (act : FlowAction F) (phase : Phase F) (s' : Flow F)
      (hx : s.attempt[a]? = some x) (hmove : Moves s a x act phase s') : Stepped sha256 s act s'

theorem FlowStep.stepped {sha256 : List UInt8 → List UInt8} {s s' : Flow F} {act : FlowAction F}
    (h : FlowStep sha256 s act s') : Stepped sha256 s act s' := by
  obtain ⟨_, h⟩ := h
  have hown : ∀ a, act.attempt = some a →
      (s.attempt[a]?.bind fun x => s.advance a x act) = some s' →
      Stepped sha256 s act s' := by
    intro a hact h
    obtain ⟨x, hx, h⟩ := Option.bind_eq_some_iff.mp h
    obtain ⟨phase, hmove⟩ := Flow.advance_moves hact h
    exact .moves a x act phase s' hx hmove
  unfold Flow.next at h
  cases act with
  | signUp sub recurrence timezone digestTime maxItems =>
      dsimp only at h
      by_cases hnew : sub ∈ s.subscriber
      · rw [if_pos hnew] at h
        cases h
      · rw [if_neg hnew] at h
        obtain rfl := Option.some.inj h
        exact .signUp sub recurrence timezone digestTime maxItems hnew
  | updatePreferences sub recurrence timezone digestTime =>
      obtain rfl := Option.some.inj h
      exact .updatePreferences sub recurrence timezone digestTime
  | tick =>
      obtain rfl := Option.some.inj h
      exact .tick
  | push sub nextRunAt =>
      dsimp only at h
      by_cases hdue : (sub, nextRunAt) ∈ s.dispatch
      · rw [if_pos hdue] at h
        obtain rfl := Option.some.inj h
        exact .push sub nextRunAt hdue
      · rw [if_neg hdue] at h
        cases h
  | begin a sub job =>
      cases job with
      | none =>
          dsimp only at h
          by_cases hnew : a ∈ s.attempt
          · rw [if_pos hnew] at h
            cases h
          · rw [if_neg hnew] at h
            obtain rfl := Option.some.inj h
            exact .beginOperator a sub hnew
      | some key =>
          dsimp only at h
          split at h
          · next hcan =>
              obtain ⟨hnew, hkey, hready⟩ := hcan
              obtain ⟨job, hjob, hready⟩ := Option.any_eq_true _ _ |>.mp hready
              obtain rfl := Option.some.inj h
              exact .beginJob a sub key job hnew hkey hjob (of_decide_eq_true hready)
          · cases h
  | background act =>
      cases act with
      | loadQueue sweep sub model queue =>
          obtain rfl := Option.some.inj h
          exact .background _ rfl (Int.le_refl _)
      | readMembers sweep =>
          obtain rfl := Option.some.inj h
          exact .background _ rfl (Int.le_refl _)
      | record sweep outcome =>
          obtain rfl := Option.some.inj h
          exact .background _ rfl (Int.le_refl _)
      | passOver sweep =>
          obtain rfl := Option.some.inj h
          exact .background _ rfl (Int.le_refl _)
      | abort sweep =>
          obtain rfl := Option.some.inj h
          exact .background _ rfl (Int.le_refl _)
      | ingest cluster event =>
          obtain rfl := Option.some.inj h
          exact .background _ rfl (Int.le_refl _)
      | wait duration =>
          obtain rfl := Option.some.inj h
          exact .background _ rfl (Int.le_add_of_nonneg_right (Int.natCast_nonneg duration))
      | recompute _ => cases h
      | createDigest _ _ _ _ => cases h
      | markDelivered _ _ => cases h
  | fail a =>
      obtain ⟨x, hx, h⟩ := Option.bind_eq_some_iff.mp h
      cases hopen : x.phase.returned with
      | true =>
          rw [hopen] at h
          cases h
      | false =>
          rw [hopen] at h
          obtain rfl := Option.some.inj h
          exact .fail a x hx hopen
  | load a => exact hown a rfl h
  | read a r => exact hown a rfl h
  | persist a => exact hown a rfl h
  | choose a cfg weights thread => exact hown a rfl h
  | freeze a id => exact hown a rfl h
  | recordDecisions a ok => exact hown a rfl h
  | recordCandidates a ok => exact hown a rfl h
  | render a => exact hown a rfl h
  | compose a authored => exact hown a rfl h
  | send a => exact hown a rfl h
  | markDelivered a => exact hown a rfl h
  | settle a => exact hown a rfl h

end Moves

/-! ## Scripted runs -/

/-- An entry of a scripted run. Reads take the stories as they stand. -/
inductive Cue (F : Type) where
  | read (a : Nat) (sub : Uuid) (candidates : List LinkCluster) (base : Nat)
  | other (act : FlowAction F)

def Cue.upToFreeze {F : Type} [Score F] (a : Nat) (sub : Uuid) (job : Option JobKey)
    (candidates : List LinkCluster) (base : Nat) (id : Uuid) : List (Cue F) :=
  [.other (.begin a sub job), .other (.load a), .read a sub candidates base, .other (.persist a),
    .other (.choose a (.default F) ∅ fun _ => none), .other (.freeze a id)]

def Cue.upToRender {F : Type} (a : Nat) : List (Cue F) :=
  [.other (.recordDecisions a true), .other (.recordCandidates a true), .other (.render a)]

def Cue.delivery {F : Type} (a : Nat) : List (Cue F) :=
  [.other (.compose a true), .other (.send a), .other (.markDelivered a)]

/-- A cluster to show, as the linker and as the render read it. -/
def dueCluster (id : Uuid) : LinkCluster := feedCluster id ["cve:" ++ toString id] 80000000000

def dueCard (id : Uuid) : Uuid × ClusterRow :=
  (id,
    { key := ⟨.ofPublic, .rss, toString id⟩
      title := "advisory"
      link := none
      lastEventTime := 80000000000
      summary := { headline := "one advisory", band := .confirmed }
      summaryHash := none })

def dueWindow : DateTime := 86400000000

def dueKey : JobKey := jobKey 7 dueWindow

/-- The window falls due with two clusters to show, and the tick enqueues its job. -/
def dueScript {F : Type} : List (Cue F) :=
  [.other (.background (.ingest (Std.ExtTreeMap.ofList [dueCard 1, dueCard 2] compare) [])),
    .other (.signUp 7 .daily .utc 0 10), .other (.background (.wait 86400000000)), .other .tick,
    .other (.push 7 dueWindow)]

section Play

variable {F : Type} [SelectScore F] (sha256 : List UInt8 → List UInt8)

/-- The action of an entry where it stands, and the state after it. -/
def Flow.play (s : Flow F) (cue : Cue F) : Option (FlowAction F × Flow F) :=
  match cue with
  | .read a sub candidates base =>
      if (candidates.map (·.id)).Nodup ∧ ∀ k ∈ s.db.story.keys, k < base then
        let act : FlowAction F := .read a (.onTable s.db.story sub candidates {} base)
        (s.next sha256 act).map fun s' => (act, s')
      else none
  | .other (.read _ _) => none
  | .other (.freeze a id) =>
      if id ∈ s.db.digest then none
        else (s.next sha256 (.freeze a id)).map fun s' => (.freeze a id, s')
  | .other act => (s.next sha256 act).map fun s' => (act, s')

variable {sha256}

theorem Flow.play_step {s s' : Flow F} {cue : Cue F} {act : FlowAction F}
    (h : s.play sha256 cue = some (act, s')) : FlowStep sha256 s act s' := by
  have hplain : ∀ {b : FlowAction F}, b.Enabled s →
      ((s.next sha256 b).map fun s' => (b, s')) = some (act, s') → FlowStep sha256 s act s' := by
    intro b henabled h
    obtain ⟨s'', hnext, heq⟩ := Option.map_eq_some_iff.mp h
    obtain ⟨rfl, rfl⟩ := Prod.mk.inj heq
    exact ⟨henabled, hnext⟩
  unfold Flow.play at h
  split at h
  · next a sub candidates base =>
      by_cases hcan : (candidates.map (·.id)).Nodup ∧ ∀ k ∈ s.db.story.keys, k < base
      · rw [if_pos hcan] at h
        have henabled : (.read a (.onTable s.db.story sub candidates {} base) : FlowAction F).Enabled s :=
          Recompute.onTable_reads hcan.1 hcan.2
        exact hplain henabled h
      · rw [if_neg hcan] at h
        cases h
  · cases h
  · next a id =>
      by_cases hnew : id ∈ s.db.digest
      · rw [if_pos hnew] at h
        cases h
      · rw [if_neg hnew] at h
        have henabled : (FlowAction.freeze a id : FlowAction F).Enabled s := hnew
        exact hplain henabled h
  · next act hread hfreeze =>
      refine hplain ?_ h
      cases act with
      | read a r => exact absurd rfl (hread a r)
      | freeze a id => exact absurd rfl (hfreeze a id)
      | _ => trivial

theorem Flow.play_ends {script : List (Cue F)} {p : Flow F → Bool}
    (h : (Run.execute (Flow.play sha256) {} script).any p = true) :
    ∃ s, FlowRuns sha256 (Run.transitions (Flow.play sha256) {} script) s ∧ p s = true :=
  Run.execute_ends (fun _ _ _ _ => Flow.play_step) h

theorem Flow.play_runs {script : List (Cue F)}
    (h : ((Run.execute (Flow.play sha256) {} script).any fun _ => true) = true) :
    ∃ s, FlowRuns sha256 (Run.transitions (Flow.play sha256) {} script) s := by
  obtain ⟨s, hrun, _⟩ := Flow.play_ends h
  exact ⟨s, hrun⟩

end Play

end Bulletin
