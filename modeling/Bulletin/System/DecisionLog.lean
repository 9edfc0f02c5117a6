import Bulletin.System.FlowFate

/-! # The decision log of a digest

The items of a digest are frozen once, but every attempt at its window overwrites the log
and the snapshot with those of its own selection.
-/

namespace Bulletin

open Run

variable {F : Type} {sha256 : List UInt8 → List UInt8} {s s' : Flow F} {act : FlowAction F}
  {ts : List (Run.Transition (Flow F) (FlowAction F))} {id : Uuid}

/-- The step stores the decision log of a selection on the digest. -/
def LogWrite (t : Run.Transition (Flow F) (FlowAction F)) (id : Uuid) (chosen : Chosen F) : Prop :=
  ∃ (a : Nat) (x : Attempt F) (row : SubscriberRow), t.action = .recordDecisions a true ∧
    t.before.attempt[a]? = some x ∧ x.phase = .frozen row chosen id

/-- The step stores the replay snapshot of a selection on the digest. -/
def SnapshotWrite (t : Run.Transition (Flow F) (FlowAction F)) (id : Uuid)
    (chosen : Chosen F) : Prop :=
  ∃ (a : Nat) (x : Attempt F) (row : SubscriberRow), t.action = .recordCandidates a true ∧
    t.before.attempt[a]? = some x ∧ x.phase = .logged row chosen id

/-- The last log stored for the digest came from a selection of exactly its stories, in order. -/
def LogMatches (ts : List (Run.Transition (Flow F) (FlowAction F))) (id : Uuid)
    (d : DigestRow) : Prop :=
  (d.items = [] ∧ ∀ t ∈ ts, ∀ chosen, ¬ LogWrite t id chosen) ∨
    ∃ t chosen, LastOf (fun t => ∃ chosen, LogWrite t id chosen) ts t ∧ LogWrite t id chosen ∧
      chosen.items.map (·.storyId) = d.items.map (·.storyId)

/-- The same of the last snapshot, if one was stored. -/
def SnapshotMatches (ts : List (Run.Transition (Flow F) (FlowAction F))) (id : Uuid)
    (d : DigestRow) : Prop :=
  ∀ t chosen, LastOf (fun t => ∃ chosen, SnapshotWrite t id chosen) ts t →
    SnapshotWrite t id chosen →
    chosen.items.map (·.storyId) = d.items.map (·.storyId)

/-! ## Writes -/

theorem insert_column {β : Type} {table : Std.ExtTreeMap Uuid β compare} (k id : Uuid) (v : β)
    (ok : Bool) :
    (if ok then table.insert k v else table)[id]? = if ok ∧ k = id then some v else table[id]? := by
  cases ok with
  | false => simp
  | true => simp [Std.ExtTreeMap.getElem?_insert]

section Steps

variable [SelectScore F]

theorem Stepped.logStored (h : Stepped sha256 s act s') (id : Uuid) :
    (s'.decisions[id]? = s.decisions[id]? ∧ ∀ chosen, ¬ LogWrite ⟨s, act, s'⟩ id chosen) ∨
      ∃ chosen, LogWrite ⟨s, act, s'⟩ id chosen ∧ s'.decisions[id]? = some chosen.log := by
  have hother : (∀ a ok, act ≠ .recordDecisions a ok) →
      ∀ chosen, ¬ LogWrite ⟨s, act, s'⟩ id chosen := by
    intro hne chosen hwrite
    obtain ⟨a, _, _, hact, _⟩ := hwrite
    exact hne a true hact
  cases h with
  | moves a x act phase s' hx hmove =>
      cases hmove with
      | recordDecisions ok row chosen k hphase =>
          by_cases hwrite : ok = true ∧ k = id
          · obtain ⟨rfl, rfl⟩ := hwrite
            refine Or.inr ⟨chosen, ⟨a, x, row, rfl, hx, hphase⟩, ?_⟩
            show (if true then s.decisions.insert k chosen.log else s.decisions)[k]? = _
            rw [insert_column, if_pos ⟨rfl, rfl⟩]
          · refine Or.inl ⟨?_, ?_⟩
            · show (if ok then s.decisions.insert k chosen.log else s.decisions)[id]? = _
              rw [insert_column, if_neg hwrite]
            · intro chosen' hwrite'
              obtain ⟨b, y, row', hact, hy, hphase'⟩ := hwrite'
              obtain ⟨rfl, rfl⟩ := FlowAction.recordDecisions.inj hact
              obtain rfl := Option.some.inj (hx.symm.trans hy)
              exact hwrite ⟨rfl, (Phase.frozen.inj (hphase.symm.trans hphase')).2.2⟩
      | _ => exact Or.inl ⟨rfl, hother fun _ _ heq => by cases heq⟩
  | _ => exact Or.inl ⟨rfl, hother fun _ _ heq => by cases heq⟩

theorem Stepped.snapshotStored (h : Stepped sha256 s act s') (id : Uuid) :
    (s'.candidates[id]? = s.candidates[id]? ∧ ∀ chosen, ¬ SnapshotWrite ⟨s, act, s'⟩ id chosen) ∨
      ∃ chosen, SnapshotWrite ⟨s, act, s'⟩ id chosen ∧
        s'.candidates[id]? = some chosen.snapshot := by
  have hother : (∀ a ok, act ≠ .recordCandidates a ok) →
      ∀ chosen, ¬ SnapshotWrite ⟨s, act, s'⟩ id chosen := by
    intro hne chosen hwrite
    obtain ⟨a, _, _, hact, _⟩ := hwrite
    exact hne a true hact
  cases h with
  | moves a x act phase s' hx hmove =>
      cases hmove with
      | recordCandidates ok row chosen k hphase =>
          by_cases hwrite : ok = true ∧ k = id
          · obtain ⟨rfl, rfl⟩ := hwrite
            refine Or.inr ⟨chosen, ⟨a, x, row, rfl, hx, hphase⟩, ?_⟩
            show (if true then s.candidates.insert k chosen.snapshot else s.candidates)[k]? = _
            rw [insert_column, if_pos ⟨rfl, rfl⟩]
          · refine Or.inl ⟨?_, ?_⟩
            · show (if ok then s.candidates.insert k chosen.snapshot else s.candidates)[id]? = _
              rw [insert_column, if_neg hwrite]
            · intro chosen' hwrite'
              obtain ⟨b, y, row', hact, hy, hphase'⟩ := hwrite'
              obtain ⟨rfl, rfl⟩ := FlowAction.recordCandidates.inj hact
              obtain rfl := Option.some.inj (hx.symm.trans hy)
              exact hwrite ⟨rfl, (Phase.logged.inj (hphase.symm.trans hphase')).2.2⟩
      | _ => exact Or.inl ⟨rfl, hother fun _ _ heq => by cases heq⟩
  | _ => exact Or.inl ⟨rfl, hother fun _ _ heq => by cases heq⟩

/-! ## What attempts and digests hold -/

def Phase.chosen? {F : Type} : Phase F → Option (Chosen F)
  | chosen _ c | frozen _ c _ | logged _ c _ => some c
  | _ => none

theorem chosenOf_agrees (s : Flow F) (row : SubscriberRow) (r : Recompute F) (shown : DigestTable)
    (cfg : ScoringConfig F) (weights : Std.ExtTreeMap String F compare)
    (thread : Uuid → Option Uuid) :
    (s.chosenOf row r shown cfg weights thread).Agrees where
  log := decisionLog_selected
  snapshot := ⟨cfg, row.recurrence.displayFloor s.db.now row.lastRunAt, rfl⟩

/-- Selections belong to their logs, and items stand at their positions. -/
structure Ordered (s : Flow F) : Prop where
  chosen : ∀ {a : Nat} {x : Attempt F} {c : Chosen F}, s.attempt[a]? = some x →
    x.phase.chosen? = some c →
    c.Agrees
  digest : ∀ {id : Uuid} {d : DigestRow}, s.db.digest[id]? = some d → ∀ (story : Uuid) (k : Nat),
    (∃ item ∈ d.items, item.storyId = story ∧ item.position = k) ↔
      (d.items.map (·.storyId))[k]? = some story

theorem Moves.chosen? {a : Nat} {x : Attempt F} {phase : Phase F} (h : Moves s a x act phase s')
    {c : Chosen F} (hc : phase.chosen? = some c) : x.phase.chosen? = some c ∨ c.Agrees := by
  cases h with
  | choose row r shown cfg weights thread _ =>
      obtain rfl := Option.some.inj hc
      exact Or.inr (chosenOf_agrees s row r shown cfg weights thread)
  | freeze _ _ _ _ _ hphase _ _ | recordDecisions _ _ _ _ hphase =>
      rw [hphase]
      exact Or.inl hc
  | _ => cases hc

theorem Ordered.step (h : Stepped sha256 s act s') (hs : Ordered s) : Ordered s' := by
  constructor
  · intro a x c hx hc
    cases h.attempted hx with
    | kept hold => exact hs.chosen hold hc
    | begun _ _ _ _ hy _ =>
        subst hy
        cases hc
    | failed _ _ _ _ hy =>
        subst hy
        cases hc
    | moved y phase hy hmove heq =>
        subst heq
        rcases hmove.chosen? hc with hold | hagrees
        · exact hs.chosen hy hold
        · exact hagrees
  · intro id d hd
    cases h.digested hd with
    | kept hold => exact hs.digest hold
    | created a x row chosen _ _ _ _ hd =>
        subst hd
        exact newDigest_position
    | delivered a x row items d₀ _ _ _ hold hd =>
        have hordered := hs.digest hold
        subst hd
        exact hordered

theorem FlowRuns.ordered (h : FlowRuns sha256 ts s) : Ordered s := by
  refine Run.Runs.state_invariant h Ordered ?_ fun _ _ hstep hs => hs.step hstep.stepped
  constructor
  · intro a x c hx
    cases Std.ExtTreeMap.getElem?_empty.symm.trans hx
  · intro id d hd
    cases Std.ExtTreeMap.getElem?_empty.symm.trans hd

theorem LogWrite.agrees (h : FlowRuns sha256 ts s) {t : Run.Transition (Flow F) (FlowAction F)}
    (ht : t ∈ ts) {chosen : Chosen F} (hwrite : LogWrite t id chosen) : chosen.Agrees := by
  obtain ⟨_, _, _, hpre⟩ := h.before_of_mem ht
  obtain ⟨a, x, row, _, hx, hphase⟩ := hwrite
  exact (FlowRuns.ordered hpre).chosen hx (by rw [hphase]; rfl)

theorem SnapshotWrite.agrees (h : FlowRuns sha256 ts s) {t : Run.Transition (Flow F) (FlowAction F)}
    (ht : t ∈ ts) {chosen : Chosen F} (hwrite : SnapshotWrite t id chosen) : chosen.Agrees := by
  obtain ⟨_, _, _, hpre⟩ := h.before_of_mem ht
  obtain ⟨a, x, row, _, hx, hphase⟩ := hwrite
  exact (FlowRuns.ordered hpre).chosen hx (by rw [hphase]; rfl)

/-! ## The log describes the items when it is that of their selection -/

theorem describes_iff {chosen : Chosen F} {d : DigestRow} (hchosen : chosen.Agrees)
    (hd : ∀ (story : Uuid) (k : Nat), (∃ item ∈ d.items, item.storyId = story ∧ item.position = k) ↔
      (d.items.map (·.storyId))[k]? = some story) :
    Describes chosen.log d.items ↔ chosen.items.map (·.storyId) = d.items.map (·.storyId) := by
  constructor
  · intro h
    apply List.ext_getElem?
    intro k
    apply Option.ext
    intro story
    rw [← hchosen.log story k, ← hd story k]
    exact h story k
  · intro h story k
    rw [hchosen.log story k, hd story k, h]

/-- In every state of a run, a digest's decision log describes its frozen items exactly when the
last log stored was that of a selection of these stories, and so does a snapshot that was. -/
theorem decision_log_describes_iff (h : FlowRuns sha256 ts s) {d : DigestRow}
    (hd : s.db.digest[id]? = some d) :
    (Describes (s.decisions[id]?.getD []) d.items ↔ LogMatches ts id d) ∧
      (SnapshotMatches ts id d → ∀ snapshot, s.candidates[id]? = some snapshot →
        Replays snapshot d.items) := by
  have hordered := (FlowRuns.ordered h).digest hd
  constructor
  · rcases h.last_write (fun s k => s.decisions[k]?) LogWrite (·.log)
        (fun _ => Std.ExtTreeMap.getElem?_empty) (fun t ht =>
          (h.step_of_mem ht).stepped.logStored) id with
      ⟨hnone, hnever⟩ | ⟨t, chosen, hlast, hwrite, hlog⟩
    · rw [hnone]
      constructor
      · intro hdescribes
        refine Or.inl ⟨?_, hnever⟩
        cases hitems : d.items with
        | nil => rfl
        | cons item items =>
            obtain ⟨_, hrecord, _⟩ := (hdescribes item.storyId item.position).mpr
              ⟨item, hitems ▸ List.mem_cons_self, rfl, rfl⟩
            cases hrecord
      · intro hmatches
        rcases hmatches with ⟨hitems, _⟩ | ⟨t, chosen, hlast, hwrite, _⟩
        · rw [hitems]
          intro story k
          simp
        · exact absurd hwrite (hnever t hlast.mem chosen)
    · rw [hlog, Option.getD_some, describes_iff (hwrite.agrees h hlast.mem) hordered]
      constructor
      · intro heq
        exact Or.inr ⟨t, chosen, hlast, hwrite, heq⟩
      · intro hmatches
        rcases hmatches with ⟨_, hnever⟩ | ⟨t', chosen', hlast', hwrite', heq⟩
        · exact absurd hwrite (hnever t hlast.mem chosen)
        · obtain rfl := hlast.unique hlast'
          obtain ⟨a, x, row, hact, hx, hphase⟩ := hwrite
          obtain ⟨b, y, row', hact', hy, hphase'⟩ := hwrite'
          obtain rfl := (FlowAction.recordDecisions.inj (hact.symm.trans hact')).1
          obtain rfl := Option.some.inj (hx.symm.trans hy)
          rw [(Phase.frozen.inj (hphase.symm.trans hphase')).2.1]
          exact heq
  · intro hmatches snapshot hsnapshot
    rcases h.last_write (fun s k => s.candidates[k]?) SnapshotWrite (·.snapshot)
        (fun _ => Std.ExtTreeMap.getElem?_empty) (fun t ht =>
          (h.step_of_mem ht).stepped.snapshotStored) id with
      ⟨hnone, _⟩ | ⟨t, chosen, hlast, hwrite, hstored⟩
    · cases hnone.symm.trans hsnapshot
    · obtain rfl := Option.some.inj (hstored.symm.trans hsnapshot)
      obtain ⟨cfg, floor, heq⟩ := (hwrite.agrees h hlast.mem).snapshot
      exact ⟨cfg, floor, by rw [heq]; exact hmatches t chosen hlast hwrite⟩

end Steps

/-! ## A retry with another selection -/

def agreedScript : List (Cue ℚ) :=
  dueScript ++ Cue.upToFreeze 0 7 (some dueKey) [dueCluster 1] 100 500 ++ Cue.upToRender 0 ++ Cue.delivery 0

def agreedRun : List (Run.Transition (Flow ℚ) (FlowAction ℚ)) :=
  Run.transitions (Flow.play plainDigest) {} agreedScript

def recordsFrozen (t : Run.Transition (Flow ℚ) (FlowAction ℚ)) : Bool :=
  match t.action with
  | .recordDecisions 0 true => t.before.attempt[0]?.any fun x => match x.phase with
      | .frozen _ _ k => k = 500
      | _ => false
  | _ => false

def recordsFirst (t : Run.Transition (Flow ℚ) (FlowAction ℚ)) : Bool :=
  match t.action with
  | .recordDecisions a _ => t.before.attempt[a]?.all fun x => match x.phase with
      | .frozen _ chosen _ => chosen.items.map (·.storyId) = [100]
      | _ => true
  | _ => true

theorem decision_log_describes_iff_agreed :
    ∃ s d, FlowRuns plainDigest agreedRun s ∧ s.db.digest[(500 : Uuid)]? = some d ∧
      d.deliveredAt ≠ none ∧
      Describes (s.decisions[(500 : Uuid)]?.getD []) d.items := by
  obtain ⟨s, hrun, hend⟩ : ∃ s, FlowRuns plainDigest agreedRun s ∧
      (s.db.digest[(500 : Uuid)]?.any fun d =>
      d.deliveredAt.isSome ∧ d.items.map (·.storyId) = [100]) = true :=
        Flow.play_ends (by decide +kernel)
  obtain ⟨d, hd, hdigest⟩ := Option.any_eq_true _ _ |>.mp hend
  obtain ⟨hdelivered, hitems⟩ := of_decide_eq_true hdigest
  refine ⟨s, d, hrun, hd, Option.isSome_iff_ne_none.mp hdelivered, ?_⟩
  apply (decision_log_describes_iff hrun hd).1.mpr
  have hwritten : ∃ t ∈ agreedRun, ∃ chosen, LogWrite t 500 chosen := by
    have hany : agreedRun.any recordsFrozen = true := by decide +kernel
    obtain ⟨t, ht, hany⟩ := List.any_eq_true.mp hany
    unfold recordsFrozen at hany
    split at hany
    · next hact =>
        obtain ⟨x, hx, hphase⟩ := Option.any_eq_true _ _ |>.mp hany
        split at hphase
        · next row chosen k hphase' =>
            obtain rfl := of_decide_eq_true hphase
            exact ⟨t, ht, chosen, 0, x, row, hact, hx, hphase'⟩
        · cases hphase
    · cases hany
  obtain ⟨t, hlast⟩ := exists_lastOf hwritten
  obtain ⟨chosen, hwrite⟩ := hlast.holds
  refine Or.inr ⟨t, chosen, hlast, hwrite, ?_⟩
  have hall : ∀ t ∈ agreedRun, recordsFirst t = true := by decide +kernel
  obtain ⟨a, x, row, hact, hx, hphase⟩ := hwrite
  have hchosen := hall t hlast.mem
  unfold recordsFirst at hchosen
  rw [hact] at hchosen
  dsimp only at hchosen
  rw [hx, Option.all_some, hphase] at hchosen
  rw [hitems]
  exact of_decide_eq_true hchosen

def reselectedRun : List (Run.Transition (Flow ℚ) (FlowAction ℚ)) :=
  Run.transitions (Flow.play plainDigest) {} (dueScript ++
    Cue.upToFreeze 0 7 (some dueKey) [dueCluster 1] 100 500 ++ Cue.upToRender 0 ++
    [.other (.compose 0 false), .other (.settle 0)] ++
    Cue.upToFreeze 1 7 (some dueKey) [dueCluster 1, dueCluster 2] 200 501 ++ Cue.upToRender 1 ++
    Cue.delivery 1)

/-- The delivered digest shows story 100; its log has story 200 as selected too. -/
theorem reselected_log_overwritten :
    ∃ s d, FlowRuns plainDigest reselectedRun s ∧
      s.db.digest[(500 : Uuid)]? = some d ∧ d.deliveredAt ≠ none ∧
      ¬ Describes (s.decisions[(500 : Uuid)]?.getD []) d.items := by
  obtain ⟨s, hrun, hend⟩ : ∃ s, FlowRuns plainDigest reselectedRun s ∧
      ((s.db.digest[(500 : Uuid)]?.any fun d => d.deliveredAt.isSome ∧
        d.items.map (·.storyId) = [100]) &&
        (s.decisions[(500 : Uuid)]?.getD []).any fun record =>
          record.storyId = 200 ∧ record.verdict = .selected 1) = true :=
            Flow.play_ends (by decide +kernel)
  obtain ⟨hdigest, hlog⟩ := Bool.and_eq_true _ _ |>.mp hend
  obtain ⟨d, hd, hdigest⟩ := Option.any_eq_true _ _ |>.mp hdigest
  obtain ⟨hdelivered, hitems⟩ := of_decide_eq_true hdigest
  obtain ⟨record, hrecord, hselected⟩ := List.any_eq_true.mp hlog
  refine ⟨s, d, hrun, hd, Option.isSome_iff_ne_none.mp hdelivered, ?_⟩
  intro hdescribes
  obtain ⟨item, hitem, hid, _⟩ :=
    (hdescribes 200 1).mp ⟨record, hrecord, of_decide_eq_true hselected⟩
  have hmem := List.mem_map_of_mem (f := fun i : DigestItem => i.storyId) hitem
  rw [hitems, hid] at hmem
  exact absurd hmem (by decide)

end Bulletin
