import Bulletin.System.Summaries

/-! # What digests are offered

The gate of a candidate read looks at the band of the stored summary only. Whether the
summary is of what the cluster holds, and whether the cluster is quarantined, is decided
by the last steps that touched the one and the other.
-/

namespace Bulletin

variable {sha256 : List UInt8 → List UInt8} {currentModel : String} {s s' : Summaries}
  {act : SummaryAction} {ts : List (Run.Transition Summaries SummaryAction)} {key : GroupKey}

/-- Every cluster a gated read returns is not quarantined, and its summary passed the gate and is of
the events it has. -/
def CandidatesCurrent (sha256 : List UInt8 → List UInt8)
    (ts : List (Run.Transition Summaries SummaryAction)) : Prop :=
  ∀ t ∈ ts, ∀ read, t.action = .readCandidates read → read.requireSummary = true →
    ∀ key ∈ read.candidateClusters t.before.now t.before.cluster, ∃ row,
      t.before.cluster.lookup key = some row ∧
      row.gatePassed = true ∧ row.summaryQuarantinedAt = none ∧
      row.summaryHash = some (summaryHash sha256 (t.before.events key))

/-- What the sweep decides for the cluster at hand, if it is this one. -/
def decisionOf (sha256 : List UInt8 → List UInt8) (s : Summaries) (sweep : Nat)
    (outcome : SummaryOutcome) (key : GroupKey) : Option SweepWrite :=
  match (s.sweep sweep).due, (s.sweep sweep).reading with
  | c :: _, some (events, _) =>
    if c.key = key then some (attemptCluster sha256 events outcome c) else none
  | _, _ => none

/-- For a step that moves the content of a cluster or its stored summary: whether it leaves the two
in step, a build or a fetch with content of the hash that is stored, or a sweep with a summary of
the events the cluster still has. -/
def leavesInStep (sha256 : List UInt8 → List UInt8) (t : Run.Transition Summaries SummaryAction)
    (key : GroupKey) : Option Bool :=
  match t.action with
  | .build k _ events =>
      if k = key then
        some ((t.before.cluster.lookup key).any fun row =>
          row.summaryHash = some (summaryHash sha256 events))
      else none
  | .storeFullText k id text _ =>
      if k = key then (t.before.cluster.lookup key).map fun row =>
        row.summaryHash = some (summaryHash sha256 (updateEvent id (setFullText text) (t.before.events key)))
      else none
  | .record sweep _ outcome => match decisionOf sha256 t.before sweep outcome key with
      | some (.store _ hash) =>
          (t.before.cluster.lookup key).map fun _ => hash = summaryHash sha256 (t.before.events key)
      | _ => none
  | _ => none

/-- For a step that records an outcome for a cluster, or creates it: whether it quarantines it. -/
def quarantines (sha256 : List UInt8 → List UInt8) (t : Run.Transition Summaries SummaryAction)
    (key : GroupKey) : Option Bool :=
  match t.action with
  | .build k _ _ => if k = key ∧ t.before.cluster.lookup key = none then some false else none
  | .record sweep _ outcome => match decisionOf sha256 t.before sweep outcome key with
      | some (.store _ _) | some .touch => (t.before.cluster.lookup key).map fun _ => false
      | some (.fail _ _ quarantine) => (t.before.cluster.lookup key).map fun _ => quarantine
      | _ => none
  | _ => none

/-- The last of the steps with a verdict on the cluster has the verdict `b`. -/
def LastVerdict (verdict : Run.Transition Summaries SummaryAction → GroupKey → Option Bool)
    (ts : List (Run.Transition Summaries SummaryAction)) (key : GroupKey) (b : Bool) : Prop :=
  ∃ t, Run.LastOf (fun t => ∃ b, verdict t key = some b) ts t ∧ verdict t key = some b

/-- At every gated read, the last step to move the content or the summary of a cluster it returns
left the two in step, and the last outcome recorded for it was no quarantine. -/
def ReadsSettled (sha256 : List UInt8 → List UInt8)
    (ts : List (Run.Transition Summaries SummaryAction)) : Prop :=
  ∀ pre t post, ts = pre ++ t :: post → ∀ read, t.action = .readCandidates read →
    read.requireSummary = true →
    ∀ key ∈ read.candidateClusters t.before.now t.before.cluster,
      LastVerdict (leavesInStep sha256) pre key true ∧
        LastVerdict (quarantines sha256) pre key false

/-! ## The two columns -/

def inStep (sha256 : List UInt8 → List UInt8) (s : Summaries) (key : GroupKey) : Option Bool :=
  (s.cluster.lookup key).map fun row => row.summaryHash = some (summaryHash sha256 (s.events key))

def quarantined (s : Summaries) (key : GroupKey) : Option Bool :=
  (s.cluster.lookup key).map fun row => row.summaryQuarantinedAt.isSome

theorem decisionOf_record {sweep : Nat} {outcome : SummaryOutcome} {c : DueCluster}
    {rest : List DueCluster}
    {events : List Event} {readAt : DateTime} (hdue : (s.sweep sweep).due = c :: rest)
    (hreading : (s.sweep sweep).reading = some (events, readAt)) :
    decisionOf sha256 s sweep outcome key =
      if c.key = key then some (attemptCluster sha256 events outcome c) else none := by
  simp [decisionOf, hdue, hreading]

theorem decisionOf_other {sweep : Nat} {outcome : SummaryOutcome}
    (h : ∀ c rest, (s.sweep sweep).due = c :: rest → c.key ≠ key) :
    decisionOf sha256 s sweep outcome key = none := by
  unfold decisionOf
  cases hdue : (s.sweep sweep).due with
  | nil => rfl
  | cons c rest =>
      have hne := h c rest hdue
      cases (s.sweep sweep).reading <;> simp [hne]

theorem SummaryStep.inStep (h : SummaryStep sha256 currentModel s act s') (key : GroupKey) :
    inStep sha256 s' key = (leavesInStep sha256 ⟨s, act, s'⟩ key).or (inStep sha256 s key) := by
  cases h.summarized key with
  | build _ started events r _ hr hevents hrow =>
      simp only [Bulletin.inStep, leavesInStep, hevents, hrow, Option.map_some,
        if_true, Option.some_or]
      cases s.cluster.lookup key <;> rfl
  | storeFullText _ id text started _ hevents hrow =>
      simp only [Bulletin.inStep, leavesInStep, hevents, hrow, if_true]
      cases s.cluster.lookup key <;> simp [touchCluster]
  | record sweep started outcome c rest events readAt _ hdue hreading hevents hrow =>
      simp only [Bulletin.inStep, leavesInStep, decisionOf_record hdue hreading,
        if_true, hevents, hrow]
      cases s.cluster.lookup c.key with
      | none => cases attemptCluster sha256 events outcome c <;> simp
      | some row =>
          cases attemptCluster sha256 events outcome c <;>
            simp [SweepWrite.applyCluster, touchSummarized, storeSummary, recordSummaryFailure]
  | other _ _ _ hevents hrow hbuild hfetch hrecord =>
      have hnone : leavesInStep sha256 ⟨s, act, s'⟩ key = none := by
        cases act with
        | build k started events =>
            have hk : k ≠ key := fun heq => hbuild started events (by rw [heq])
            simp [leavesInStep, hk]
        | storeFullText k id text started =>
            have hk : k ≠ key := fun heq => hfetch id text started (by rw [heq])
            simp [leavesInStep, hk]
        | record sweep started outcome =>
            simp [leavesInStep,
              decisionOf_other (fun c rest => hrecord sweep started outcome c rest rfl)]
        | _ => rfl
      simp [hnone, Bulletin.inStep, hevents, hrow]

theorem SummaryStep.quarantined (h : SummaryStep sha256 currentModel s act s') (key : GroupKey) :
    quarantined s' key = (quarantines sha256 ⟨s, act, s'⟩ key).or (quarantined s key) := by
  cases h.summarized key with
  | build _ started events r _ hr hevents hrow =>
      simp only [Bulletin.quarantined, quarantines, hrow, Option.map_some]
      cases s.cluster.lookup key <;> simp [upsertCluster]
  | storeFullText _ id text started _ hevents hrow =>
      simp only [Bulletin.quarantined, quarantines, hrow]
      cases s.cluster.lookup key <;> simp [touchCluster]
  | record sweep started outcome c rest events readAt _ hdue hreading hevents hrow =>
      simp only [Bulletin.quarantined, quarantines, decisionOf_record hdue hreading, if_true, hrow]
      cases s.cluster.lookup c.key with
      | none => cases attemptCluster sha256 events outcome c <;> simp
      | some row =>
          cases attemptCluster sha256 events outcome c with
          | fail attempts error quarantine => cases quarantine <;>
            simp [SweepWrite.applyCluster, recordSummaryFailure]
          | touch | skip | store _ _ =>
            simp [SweepWrite.applyCluster, touchSummarized, storeSummary]
  | other _ _ _ hevents hrow hbuild hfetch hrecord =>
      have hnone : quarantines sha256 ⟨s, act, s'⟩ key = none := by
        cases act with
        | build k started events =>
            have hk : k ≠ key := fun heq => hbuild started events (by rw [heq])
            simp [quarantines, hk]
        | record sweep started outcome =>
            simp [quarantines,
              decisionOf_other (fun c rest => hrecord sweep started outcome c rest rfl)]
        | _ => rfl
      simp [hnone, Bulletin.quarantined, hrow]

/-! ## Runs -/

theorem SummaryRuns.inStep_iff (h : SummaryRuns sha256 currentModel ts s) {b : Bool} :
    inStep sha256 s key = some b ↔ LastVerdict (leavesInStep sha256) ts key b :=
  Run.Runs.last_value h (inStep sha256) (leavesInStep sha256) (fun _ => rfl)
    fun _ ht key => (h.step_of_mem ht).inStep key

theorem SummaryRuns.quarantined_iff (h : SummaryRuns sha256 currentModel ts s) {b : Bool} :
    quarantined s key = some b ↔ LastVerdict (quarantines sha256) ts key b :=
  Run.Runs.last_value h quarantined (quarantines sha256) (fun _ => rfl)
    fun _ ht key => (h.step_of_mem ht).quarantined key

/-- In every run the gated reads return only clusters that are not quarantined and carry a summary
of the events they have, exactly when they come where these clusters are settled. -/
theorem candidates_current_iff (h : SummaryRuns sha256 currentModel ts s) :
    CandidatesCurrent sha256 ts ↔ ReadsSettled sha256 ts := by
  constructor
  · intro hcurrent pre t post heq read hact hgate key hkey
    subst heq
    have hpre : SummaryRuns sha256 currentModel pre t.before := (Run.Runs.upto h).last.2.1
    obtain ⟨row, hrow, _, hquarantined, hhash⟩ :=
      hcurrent t (List.mem_append_right _ List.mem_cons_self) read hact hgate key hkey
    exact ⟨(SummaryRuns.inStep_iff hpre).mp (by simp [inStep, hrow, hhash]),
      (SummaryRuns.quarantined_iff hpre).mp (by simp [quarantined, hrow, hquarantined])⟩
  · intro hsettled t ht read hact hgate key hkey
    obtain ⟨pre, post, heq, hpre⟩ := h.before_of_mem ht
    obtain ⟨hstep, hfree⟩ := hsettled pre t post heq read hact hgate key hkey
    have hin := (SummaryRuns.inStep_iff hpre).mpr hstep
    have hout := (SummaryRuns.quarantined_iff hpre).mpr hfree
    obtain ⟨row, hrow, hpassed⟩ := CandidateRead.gated_of_mem hgate hkey
    simp only [inStep, quarantined, hrow, Option.map_some, Option.some.injEq,
      decide_eq_true_eq] at hin hout
    exact ⟨row, hrow, hpassed, by simpa using hout, hin⟩

/-! ## A quarantined cluster is offered -/

def noteRead : CandidateRead :=
  { subscriber := 7, subscribed := [], lastRun := none, horizonDays := 30, requireSummary := true }

/-- Whether the reads of a run return this cluster, each time with a row for which `p` holds. -/
def offeredAs (ts : List (Run.Transition Summaries SummaryAction)) (key : GroupKey)
    (p : SummarizedCluster → List Event → Bool) : Bool :=
  ts.any fun t => match t.action with
    | .readCandidates read => read.requireSummary &&
        decide (key ∈ read.candidateClusters t.before.now t.before.cluster) &&
        (t.before.cluster.lookup key).any fun row => p row (t.before.events key)
    | _ => false

theorem of_offeredAs {p : SummarizedCluster → List Event → Bool} (h : offeredAs ts key p = true) :
    ∃ t ∈ ts, ∃ read row, t.action = .readCandidates read ∧ read.requireSummary = true ∧
      key ∈ read.candidateClusters t.before.now t.before.cluster ∧
        t.before.cluster.lookup key = some row ∧
      p row (t.before.events key) = true := by
  unfold offeredAs at h
  obtain ⟨t, ht, hone⟩ := List.any_eq_true.mp h
  cases hact : t.action with
  | readCandidates read =>
      simp only [hact, Bool.and_eq_true, decide_eq_true_eq, Option.any_eq_true] at hone
      obtain ⟨⟨hgate, hkey⟩, row, hrow, hp⟩ := hone
      exact ⟨t, ht, read, row, hact, hgate, hkey, hrow, hp⟩
  | _ => simp [hact] at hone

theorem candidatesCurrent_of_all (h : ∀ t ∈ ts, (match t.action with
    | .readCandidates read => (read.candidateClusters t.before.now t.before.cluster).all fun key =>
        (t.before.cluster.lookup key).any fun row =>
          row.gatePassed && decide (row.summaryQuarantinedAt = none ∧
          row.summaryHash = some (summaryHash sha256 (t.before.events key)))
    | _ => true) = true) : CandidatesCurrent sha256 ts := by
  intro t ht read hact _ key hkey
  have hone := h t ht
  rw [hact] at hone
  have hrow := List.all_eq_true.mp hone key hkey
  simp only [Option.any_eq_true, Bool.and_eq_true, decide_eq_true_eq] at hrow
  exact hrow

def noteSweep (sweep : Nat) (started : DateTime) (outcome : SummaryOutcome) : List SummaryAction :=
  [.loadQueue sweep .ofPublic 10 [noteKey], .readEvents sweep, .record sweep started outcome]

/-- The cluster gets a second event and is summarized again before the digest reads. -/
def resummarizedScript : List SummaryAction :=
  .build noteKey 1 [noteEvent 1] :: noteSweep 0 1 noteSummary ++
    [.wait 2, .build noteKey 3 [noteEvent 1, noteEvent 2]] ++ noteSweep 1 3 noteSummary ++
      [.readCandidates noteRead]

def resummarizedRun : List (Run.Transition Summaries SummaryAction) :=
  Run.transitions (Summaries.play plainDigest "m") {} resummarizedScript

theorem candidates_current_iff_resummarized : ∃ s, SummaryRuns plainDigest "m" resummarizedRun s ∧
    noteRead.candidateClusters s.now s.cluster = [noteKey] ∧
      CandidatesCurrent plainDigest resummarizedRun ∧
    ReadsSettled plainDigest resummarizedRun := by
  obtain ⟨s, hrun, hread⟩ : ∃ s, SummaryRuns plainDigest "m" resummarizedRun s ∧
      decide (noteRead.candidateClusters s.now s.cluster = [noteKey]) = true :=
        Summaries.play_ends (by decide +kernel)
  have hcurrent : CandidatesCurrent plainDigest resummarizedRun :=
    candidatesCurrent_of_all (by decide +kernel)
  exact ⟨s, hrun, of_decide_eq_true hread, hcurrent, (candidates_current_iff hrun).mp hcurrent⟩

def quarantinedScript : List SummaryAction :=
  let rejected : SummaryOutcome := .failed (.rejected "number")
  .build noteKey 1 [noteEvent 1] :: noteSweep 0 1 noteSummary ++
    [.wait 2, .build noteKey 3 [noteEvent 1, noteEvent 2]] ++ noteSweep 1 3 rejected ++ noteSweep 2 3 rejected ++
    noteSweep 3 3 rejected ++ noteSweep 4 3 rejected ++ [.readCandidates noteRead]

def quarantinedRun : List (Run.Transition Summaries SummaryAction) :=
  Run.transitions (Summaries.play plainDigest "m") {} quarantinedScript

/-- The digest is offered it, with the summary of the first event alone. -/
theorem quarantined_cluster_offered : ∃ s, SummaryRuns plainDigest "m" quarantinedRun s ∧
    ∃ t ∈ quarantinedRun, ∃ read row, t.action = .readCandidates read ∧ read.requireSummary = true ∧
      noteKey ∈ read.candidateClusters t.before.now t.before.cluster ∧
      t.before.cluster.lookup noteKey = some row ∧ row.summaryQuarantinedAt = some 3 ∧
      row.summaryHash = some (summaryHash plainDigest [noteEvent 1]) ∧
      t.before.events noteKey = [noteEvent 1, noteEvent 2] ∧
        ¬ CandidatesCurrent plainDigest quarantinedRun := by
  obtain ⟨s, hrun, _⟩ : ∃ s, SummaryRuns plainDigest "m" quarantinedRun s ∧
      decide (s.now = 3) = true :=
    Summaries.play_ends (by decide +kernel)
  have hoffered : offeredAs quarantinedRun noteKey (fun row events =>
    decide (row.summaryQuarantinedAt = some 3 ∧
      row.summaryHash = some (summaryHash plainDigest [noteEvent 1]) ∧
          events = [noteEvent 1, noteEvent 2])) = true := by
    decide +kernel
  obtain ⟨t, ht, read, row, hact, hgate, hkey, hrow, hp⟩ := of_offeredAs hoffered
  obtain ⟨hquarantined, hhash, hevents⟩ := of_decide_eq_true hp
  refine ⟨s, hrun, t, ht, read, row, hact, hgate, hkey, hrow, hquarantined, hhash, hevents, ?_⟩
  intro hcurrent
  obtain ⟨row', hrow', _, hnone, _⟩ := hcurrent t ht read hact hgate noteKey hkey
  obtain rfl := Option.some.inj (hrow.symm.trans hrow')
  cases hnone.symm.trans hquarantined

end Bulletin
