import Bulletin.System.Summaries

/-! # Content changes and the summarization queue

A cluster whose content is not what it was summarized from has to be in the queue. A write
takes it out wrongly when it stamps the row with a time that covers a change it has not
seen.
-/

namespace Bulletin

variable {sha256 : List UInt8 → List UInt8} {currentModel : String} {s s' : Summaries}
  {act : SummaryAction} {ts : List (Run.Transition Summaries SummaryAction)} {key : GroupKey}

/-- Summarized by the current model at this time or later. -/
def SummarizedCluster.Settled (row : SummarizedCluster) (currentModel : String)
    (time : DateTime) : Prop :=
  row.summaryModel = some currentModel ∧ ∃ written, row.summarizedAt = some written ∧ time ≤ written

/-- In every row that is not quarantined, either the summary is of the events the cluster has, or
the cluster is in the queue. -/
def QueueKeeps (sha256 : List UInt8 → List UInt8) (currentModel : String) (s : Summaries) : Prop :=
  ∀ key row, s.cluster.lookup key = some row → row.withheld = false →
    row.summaryHash ≠ some (summaryHash sha256 (s.events key)) →
    ⟨key, row⟩ ∈ dueRows s.cluster key.scope currentModel

/-- The step hides a change of a cluster's content from the queue: a build or a fetch that began
before the last summary was written, a sweep that writes what it made of older events after the
change was stamped, or one that takes off the quarantine of such a row. -/
def Masks (sha256 : List UInt8 → List UInt8) (currentModel : String) (s : Summaries)
    (act : SummaryAction) (key : GroupKey) : Prop :=
  ∃ row, s.cluster.lookup key = some row ∧
    match act with
    | .build k started events => k = key ∧ row.summaryHash ≠ some (summaryHash sha256 events) ∧
        row.Settled currentModel started ∧ row.summaryQuarantinedAt.all (· < started) = true
    | .storeFullText k id text started => k = key ∧
        row.summaryHash ≠ some (summaryHash sha256 (updateEvent id (setFullText text) (s.events key))) ∧
        row.Settled currentModel started ∧ row.summaryQuarantinedAt.all (· < started) = true
    | .record sweep started outcome => ∃ c rest events readAt, (s.sweep sweep).due = c :: rest ∧
        (s.sweep sweep).reading = some (events, readAt) ∧ c.key = key ∧
        match attemptCluster sha256 events outcome c with
        | .skip => False
        | .touch => row.summaryHash ≠ some (summaryHash sha256 (s.events key)) ∧
            row.summaryModel = some currentModel ∧ row.updatedAt ≤ started
        | .store _ hash => hash ≠ summaryHash sha256 (s.events key) ∧ row.updatedAt ≤ started
        | .fail _ _ quarantine => row.summaryHash ≠ some (summaryHash sha256 (s.events key)) ∧
            row.Settled currentModel row.updatedAt ∧ (quarantine = true → started < row.updatedAt)
    | _ => False

/-! ## One row -/

def SummarizedCluster.Kept (row : SummarizedCluster) (sha256 : List UInt8 → List UInt8)
    (currentModel : String) (events : List Event) : Prop :=
  row.withheld = true ∨ row.summaryHash = some (Bulletin.summaryHash sha256 events) ∨
    row.stale currentModel = true

theorem stale_iff {row : SummarizedCluster} :
    row.stale currentModel = true ↔ ¬ row.Settled currentModel row.updatedAt := by
  unfold SummarizedCluster.stale SummarizedCluster.Settled
  cases h : row.summarizedAt with
  | none => simp
  | some written =>
      simp only [Option.all_some, Bool.or_eq_true, decide_eq_true_eq, bne_iff_ne, Option.some.injEq,
        exists_eq_left', not_and_or, not_le, ne_eq]
      exact or_comm

theorem withheld_eq_false {row : SummarizedCluster} :
    row.withheld = false ↔ row.summaryQuarantinedAt.all (· < row.updatedAt) = true := by
  unfold SummarizedCluster.withheld
  cases row.summaryQuarantinedAt <;> simp

theorem kept_iff {row : SummarizedCluster} {events : List Event} :
    row.Kept sha256 currentModel events ↔
    ¬ (row.summaryHash ≠ some (summaryHash sha256 events) ∧ row.Settled currentModel row.updatedAt ∧
      row.summaryQuarantinedAt.all (· < row.updatedAt) = true) := by
  unfold SummarizedCluster.Kept
  rw [stale_iff, ← withheld_eq_false]
  cases row.withheld with
  | true => simp
  | false =>
      simp
      tauto

theorem queueKeeps_iff : QueueKeeps sha256 currentModel s ↔
    ∀ key row, s.cluster.lookup key = some row → row.Kept sha256 currentModel (s.events key) := by
  unfold QueueKeeps
  refine forall_congr' fun key => forall_congr' fun row => forall_congr' fun hrow => ?_
  unfold SummarizedCluster.Kept
  simp only [mem_dueRows, hrow, SummarizedCluster.needsSummary, Bool.and_eq_true, Bool.not_eq_true',
    true_and]
  cases row.withheld with
  | true => simp
  | false =>
      simp
      tauto

theorem kept_bump {row : SummarizedCluster} {r : ClusterRollup} {started : DateTime}
    {events : List Event} :
    ({ row with rollup := r, updatedAt := started } : SummarizedCluster).Kept sha256 currentModel events ↔
      ¬ (row.summaryHash ≠ some (summaryHash sha256 events) ∧ row.Settled currentModel started ∧
        row.summaryQuarantinedAt.all (· < started) = true) := kept_iff

theorem kept_new {r : ClusterRollup} {started : DateTime} {events : List Event} :
    ({ rollup := r, updatedAt := started } : SummarizedCluster).Kept sha256 currentModel events :=
  Or.inr (Or.inr rfl)

theorem kept_touch {row : SummarizedCluster} {started : DateTime} {events : List Event} :
    (touchSummarized started row).Kept sha256 currentModel events ↔
      ¬ (row.summaryHash ≠ some (summaryHash sha256 events) ∧ row.summaryModel = some currentModel ∧
        row.updatedAt ≤ started) := by
  rw [kept_iff]
  simp [touchSummarized, SummarizedCluster.Settled]

theorem kept_store {row : SummarizedCluster} {started : DateTime} {summary : ClusterSummary}
    {hash : List UInt8} {events : List Event} :
    (storeSummary started summary hash currentModel row).Kept sha256 currentModel events ↔
      ¬ (hash ≠ summaryHash sha256 events ∧ row.updatedAt ≤ started) := by
  rw [kept_iff]
  simp [storeSummary, SummarizedCluster.Settled]

theorem kept_fail {row : SummarizedCluster} {started : DateTime} {attempts : Int} {error : String}
    {quarantine : Bool} {events : List Event} :
    (recordSummaryFailure started attempts error quarantine row).Kept sha256 currentModel events ↔
      ¬ (row.summaryHash ≠ some (summaryHash sha256 events) ∧
        row.Settled currentModel row.updatedAt ∧
        (quarantine = true → started < row.updatedAt)) := by
  rw [kept_iff]
  cases quarantine <;> simp [recordSummaryFailure, SummarizedCluster.Settled]

/-! ## Steps and runs -/

/-- A step keeps the row of a group in step with the queue exactly when it masks nothing. -/
theorem SummaryStep.kept_iff (h : SummaryStep sha256 currentModel s act s')
    (hkept : ∀ row, s.cluster.lookup key = some row → row.Kept sha256 currentModel (s.events key)) :
    (∀ row, s'.cluster.lookup key = some row → row.Kept sha256 currentModel (s'.events key)) ↔
      ¬ Masks sha256 currentModel s act key := by
  cases h.summarized key with
  | build _ started events r _ hr hevents hrow =>
      simp only [hevents, hrow, Option.some.injEq, forall_eq']
      cases hold : s.cluster.lookup key with
      | none => simp [upsertCluster, kept_new, Masks, hold]
      | some row => simp [upsertCluster, kept_bump, Masks, hold]
  | storeFullText _ id text started _ hevents hrow =>
      simp only [hevents, hrow]
      cases hold : s.cluster.lookup key with
      | none => simp [Masks, hold]
      | some row => simp [touchCluster, kept_bump, Masks, hold]
  | record sweep started outcome c rest events readAt _ hdue hreading hevents hrow =>
      simp only [hevents, hrow]
      cases hold : s.cluster.lookup c.key with
      | none => simp [Masks, hold]
      | some row =>
          have hrow_kept := hkept row hold
          simp only [Option.map_some, Option.some.injEq, forall_eq', Masks, hold, hdue, hreading,
            exists_eq_left', List.cons.injEq, and_assoc, exists_and_left, Prod.mk.injEq]
          cases attemptCluster sha256 events outcome c with
          | skip => simpa [SweepWrite.applyCluster] using hrow_kept
          | touch => simp [SweepWrite.applyCluster, kept_touch]
          | store summary hash => simp [SweepWrite.applyCluster, kept_store]
          | fail attempts error quarantine => simp [SweepWrite.applyCluster, kept_fail]
  | other _ _ _ hevents hrow hbuild hfetch hrecord =>
      rw [hevents, hrow]
      refine iff_of_true hkept ?_
      intro hmasks
      cases hmasks with
      | intro row hmasks =>
          cases act with
          | build k started events => exact hbuild started events (by rw [hmasks.2.1])
          | storeFullText k id text started => exact hfetch id text started (by rw [hmasks.2.1])
          | record sweep started outcome =>
              have hrest := hmasks.2
              simp only at hrest
              obtain ⟨c, rest, _, _, hdue, _, hkey, _⟩ := hrest
              exact hrecord sweep started outcome c rest rfl hdue hkey
          | _ => exact hmasks.2

theorem queueKeeps_start : QueueKeeps sha256 currentModel {} := by
  intro key row hrow
  simp at hrow

/-- In every run the queue keeps every change in every state exactly when no step masks one. -/
theorem no_change_lost_iff (h : SummaryRuns sha256 currentModel ts s) :
    (∀ t ∈ ts, QueueKeeps sha256 currentModel t.after) ↔
      ∀ t ∈ ts, ∀ key, ¬ Masks sha256 currentModel t.before t.action key := by
  have hstep : ∀ t ∈ ts, QueueKeeps sha256 currentModel t.before →
      (QueueKeeps sha256 currentModel t.after ↔
          ∀ key, ¬ Masks sha256 currentModel t.before t.action key) := by
    intro t ht hbefore
    rw [queueKeeps_iff] at hbefore ⊢
    exact forall_congr' fun key => (h.step_of_mem ht).kept_iff (hbefore key)
  constructor
  · intro hall t ht
    obtain ⟨pre, post, heq, hpre⟩ := h.before_of_mem ht
    have hbefore : QueueKeeps sha256 currentModel t.before :=
      Run.Runs.reached hpre queueKeeps_start fun u hu => hall u (heq ▸ List.mem_append_left _ hu)
    exact (hstep t ht hbefore).mp (hall t ht)
  · intro hno t ht
    obtain ⟨pre, post, heq, hpre⟩ := h.before_of_mem ht
    have hbefore : QueueKeeps sha256 currentModel t.before := by
      refine Run.Runs.state_invariant hpre (QueueKeeps sha256 currentModel) queueKeeps_start ?_
      intro u hu _ hkeeps
      have hmem : u ∈ ts := heq ▸ List.mem_append_left _ hu
      exact (hstep u hmem hkeeps).mpr (hno u hmem)
    exact (hstep t ht hbefore).mpr (hno t ht)

/-! ## A change beside a sweep -/

/-- Builds and fetches that begin after the last summary, and sweeps that find events and row as
they have read them. -/
theorem noMask_of_all (h : ∀ t ∈ ts, (match t.action with
    | .build key started _ | .storeFullText key _ _ started =>
        (t.before.cluster.lookup key).all fun row => row.summarizedAt.all (· < started)
    | .record sweep _ _ => match (t.before.sweep sweep).due, (t.before.sweep sweep).reading with
        | c :: _, some (events, _) => decide (t.before.events c.key = events) &&
            (t.before.cluster.lookup c.key).all fun row =>
              decide (row.summaryHash = c.summaryHash) && row.stale currentModel
        | _, _ => true
    | _ => true) = true) : ∀ t ∈ ts, ∀ key, ¬ Masks sha256 currentModel t.before t.action key := by
  intro t ht key hmasks
  have hone := h t ht
  obtain ⟨row, hrow, hmasks⟩ := hmasks
  cases ha : t.action with
  | build k started events | storeFullText k id text started =>
      simp only [ha] at hone hmasks
      obtain ⟨rfl, _, ⟨_, written, hwritten, hle⟩, _⟩ := hmasks
      simp only [hrow, hwritten, Option.all_some, decide_eq_true_eq] at hone
      exact absurd hone (not_lt.mpr hle)
  | record sweep started outcome =>
      simp only [ha] at hone hmasks
      obtain ⟨c, rest, events, readAt, hdue, hreading, rfl, hmasks⟩ := hmasks
      simp only [hdue, hreading, hrow, Option.all_some, Bool.and_eq_true, decide_eq_true_eq] at hone
      obtain ⟨hevents, hhash, hstale⟩ := hone
      rw [hevents] at hmasks
      unfold attemptCluster at hmasks
      by_cases hnil : events = []
      · simp [hnil] at hmasks
      · by_cases hhit : c.summaryHash = some (summaryHash sha256 events)
        · simp [hnil, hhit, hhash] at hmasks
        · cases outcome with
          | faithful summary => simp [hnil, hhit] at hmasks
          | failed failure =>
              simp only [if_neg hnil, if_neg hhit] at hmasks
              exact stale_iff.mp hstale hmasks.2.1
  | _ =>
      rw [ha] at hmasks
      exact hmasks

def summarizedTwiceScript : List SummaryAction :=
  [.build noteKey 1 [noteEvent 1], .loadQueue 0 .ofPublic 10 [noteKey], .readEvents 0, .wait 1,
    .record 0 2 noteSummary, .wait 1, .build noteKey 3 [noteEvent 1, noteEvent 2],
    .loadQueue 1 .ofPublic 10 [noteKey], .readEvents 1, .wait 1, .record 1 4 noteSummary]

def summarizedTwiceRun : List (Run.Transition Summaries SummaryAction) :=
  Run.transitions (Summaries.play plainDigest "m") {} summarizedTwiceScript

theorem no_change_lost_iff_summarizedTwice : ∃ s, SummaryRuns plainDigest "m" summarizedTwiceRun s ∧
    (s.cluster.lookup noteKey).map (·.summarizedAt) = some (some 4) ∧
    ∀ t ∈ summarizedTwiceRun, QueueKeeps plainDigest "m" t.after := by
  obtain ⟨s, hrun, hrow⟩ : ∃ s, SummaryRuns plainDigest "m" summarizedTwiceRun s ∧
      decide ((s.cluster.lookup noteKey).map (·.summarizedAt) = some (some 4)) = true :=
    Summaries.play_ends (by decide +kernel)
  exact ⟨s, hrun, of_decide_eq_true hrow,
    (no_change_lost_iff hrun).mpr (noMask_of_all (by decide +kernel))⟩

/-- The second event is built while the model runs on the first. -/
def maskedChangeScript : List SummaryAction :=
  [.build noteKey 1 [noteEvent 1], .loadQueue 0 .ofPublic 10 [noteKey], .readEvents 0, .wait 4,
    .build noteKey 5 [noteEvent 1, noteEvent 2], .wait 2, .record 0 7 noteSummary]

def maskedChangeRun : List (Run.Transition Summaries SummaryAction) :=
  Run.transitions (Summaries.play plainDigest "m") {} maskedChangeScript

/-- The summary is of the first event alone, and the cluster is not in the queue. -/
theorem change_under_model_lost : ∃ s row, SummaryRuns plainDigest "m" maskedChangeRun s ∧
    s.events noteKey = [noteEvent 1, noteEvent 2] ∧ s.cluster.lookup noteKey = some row ∧
    row.summaryQuarantinedAt = none ∧
      row.summaryHash = some (summaryHash plainDigest [noteEvent 1]) ∧
    row.summaryHash ≠ some (summaryHash plainDigest (s.events noteKey)) ∧
    dueRows s.cluster .ofPublic "m" = [] ∧ ¬ QueueKeeps plainDigest "m" s := by
  obtain ⟨s, hrun, hend⟩ : ∃ s, SummaryRuns plainDigest "m" maskedChangeRun s ∧ decide
      (s.events noteKey = [noteEvent 1, noteEvent 2] ∧ dueRows s.cluster .ofPublic "m" = [] ∧
        ((s.cluster.lookup noteKey).any fun row => row.summaryQuarantinedAt = none ∧
          row.summaryHash = some (summaryHash plainDigest [noteEvent 1]) ∧
          row.summaryHash ≠ some (summaryHash plainDigest [noteEvent 1, noteEvent 2]) ∧
          row.withheld = false)) = true := Summaries.play_ends (by decide +kernel)
  obtain ⟨hevents, hdue, hany⟩ := of_decide_eq_true hend
  obtain ⟨row, hrow, hin⟩ := (Option.any_eq_true _ _).mp hany
  obtain ⟨hquarantined, hhash, hmoved, hheld⟩ := of_decide_eq_true hin
  rw [← hevents] at hmoved
  refine ⟨s, row, hrun, hevents, hrow, hquarantined, hhash, hmoved, hdue, ?_⟩
  intro hkeeps
  have hin := hkeeps noteKey row hrow hheld hmoved
  rw [show noteKey.scope = .ofPublic from rfl, hdue] at hin
  exact List.not_mem_nil hin

end Bulletin
