import Mathlib.Algebra.Order.Floor.Div
import Bulletin.System.Summaries

/-! # Progress of the summarization queue

Sweeps run one after the other, no call fails and nothing else is written. Each takes the
first clusters of the queue, so the queue drains if a cluster leaves it once it has been
worked on.
-/

namespace Bulletin

variable {sha256 : List UInt8 → List UInt8} {currentModel : String} {scope : Scope} {limit : Nat}
  {s₀ s s' : Summaries} {act : SummaryAction} {ts : List (Run.Transition Summaries SummaryAction)}
  {key : GroupKey}

/-- What the sweeps of one scope do when every call succeeds. -/
def Sweeping (scope : Scope) (limit : Nat) : SummaryAction → Prop
  | .wait _ => True
  | .loadQueue sweep scope' limit' _ => sweep = 0 ∧ scope' = scope ∧ limit' = limit
  | .readEvents sweep => sweep = 0
  | .record sweep _ outcome => sweep = 0 ∧ ∃ summary, outcome = .faithful summary
  | _ => False

def SummaryAction.isLoad : SummaryAction → Bool
  | .loadQueue _ _ _ _ => true
  | _ => false

def sweepCount (ts : List (Run.Transition Summaries SummaryAction)) : Nat :=
  ts.countP fun t => t.action.isLoad

/-- The step finishes this cluster of a sweep, at this time. -/
def Processes (t : Run.Transition Summaries SummaryAction) (key : GroupKey)
    (started : DateTime) : Prop :=
  ∃ outcome c rest, t.action = .record 0 started outcome ∧
    (t.before.sweep 0).due = c :: rest ∧ c.key = key

def SummarizedCluster.Done (row : SummarizedCluster) (currentModel : String) : Prop :=
  row.needsSummary currentModel = false ∧ row.summaryModel = some currentModel

/-- What a sweep has worked on is done, and stays so; in the end nothing is due. -/
structure QueueDrains (currentModel : String) (scope : Scope)
    (ts : List (Run.Transition Summaries SummaryAction)) (s : Summaries) : Prop where
  done : ∀ pre t post, ts = pre ++ t :: post → ∀ key started, Processes t key started →
    ∀ u ∈ t :: post, ∃ row, u.after.cluster.lookup key = some row ∧ row.Done currentModel
  empty : dueRows s.cluster scope currentModel = []

/-- There is something to summarize, and no cached text of another model. -/
def SummarizedCluster.Ready (row : SummarizedCluster) (sha256 : List UInt8 → List UInt8)
    (currentModel : String) (events : List Event) : Prop :=
  events ≠ [] ∧ (row.summaryHash = some (Bulletin.summaryHash sha256 events) →
    row.summaryModel = some currentModel)

/-- Sweeps record at or after the stamp of the row. -/
def RecordsLater (ts : List (Run.Transition Summaries SummaryAction)) : Prop :=
  ∀ t ∈ ts, ∀ key started, Processes t key started → ∀ row, t.before.cluster.lookup key = some row →
    row.updatedAt ≤ started

/-! ## One cluster -/

/-- A cluster that is due leaves the queue when a sweep records it, exactly when it was ready and
its stamp is not later than the record. -/
theorem needsSummary_recorded {row : SummarizedCluster} {events : List Event}
    {summary : ClusterSummary} {started : DateTime} (hdue : row.needsSummary currentModel = true) :
    ((attemptCluster sha256 events (.faithful summary) (row.dueCluster key)).applyCluster started currentModel
        row).needsSummary currentModel = false ↔
      row.Ready sha256 currentModel events ∧ row.updatedAt ≤ started := by
  unfold attemptCluster SummarizedCluster.Ready
  by_cases hnil : events = []
  · simp [hnil, SweepWrite.applyCluster, hdue]
  · by_cases hhit : row.summaryHash = some (summaryHash sha256 events)
    · by_cases hmodel : row.summaryModel = some currentModel <;>
        simp [hnil, hhit, hmodel, SummarizedCluster.dueCluster,
          SweepWrite.applyCluster, touchSummarized,
          SummarizedCluster.needsSummary, SummarizedCluster.stale, SummarizedCluster.withheld]
    · simp [hnil, hhit, SummarizedCluster.dueCluster, SweepWrite.applyCluster, storeSummary,
        SummarizedCluster.needsSummary, SummarizedCluster.stale, SummarizedCluster.withheld]

theorem summaryModel_recorded {row : SummarizedCluster} {events : List Event}
    {summary : ClusterSummary}
    {started : DateTime} (hready : row.Ready sha256 currentModel events) :
    ((attemptCluster sha256 events (.faithful summary) (row.dueCluster key)).applyCluster started currentModel
        row).summaryModel = some currentModel := by
  unfold attemptCluster
  by_cases hhit : row.summaryHash = some (summaryHash sha256 events)
  · simp [hready.1, hhit, SummarizedCluster.dueCluster, SweepWrite.applyCluster,
      touchSummarized, hready.2 hhit]
  · simp [hready.1, hhit, SummarizedCluster.dueCluster, SweepWrite.applyCluster, storeSummary]

/-! ## One step -/

/-- What the sweep has loaded is as it was, and what it has read is still there. -/
structure Loaded (currentModel : String) (scope : Scope) (s₀ s : Summaries) : Prop where
  events : s.events = s₀.events
  keys : ((s.sweep 0).due.map (·.key)).Nodup
  rows : ∀ c ∈ (s.sweep 0).due, ∃ row, ⟨c.key, row⟩ ∈ dueRows s.cluster scope currentModel ∧
    c = row.dueCluster c.key
  reading : ∀ c rest events readAt, (s.sweep 0).due = c :: rest →
    (s.sweep 0).reading = some (events, readAt) →
    events = s.events c.key

inductive Swept (sha256 : List UInt8 → List UInt8) (currentModel : String) (scope : Scope)
    (limit : Nat) (s : Summaries) (act : SummaryAction) (s' : Summaries) : Prop
  | same (hcluster : s'.cluster = s.cluster) (hdue : (s'.sweep 0).due = (s.sweep 0).due)
      (hload : act.isLoad = false) (hnot : ∀ key started, ¬ Processes ⟨s, act, s'⟩ key started)
  | loaded (queue : List (Sigma fun _ : GroupKey => SummarizedCluster))
      (hcluster : s'.cluster = s.cluster)
      (hidle : (s.sweep 0).due = [])
      (hqueue : ClustersNeedingSummary s.cluster scope currentModel limit queue)
      (hdue : (s'.sweep 0).due = queue.map fun entry => entry.2.dueCluster entry.1)
      (hload : act.isLoad = true) (hnot : ∀ key started, ¬ Processes ⟨s, act, s'⟩ key started)
  | processed (c : DueCluster) (rest : List DueCluster) (row : SummarizedCluster)
      (started : DateTime)
      (summary : ClusterSummary) (hdue : (s.sweep 0).due = c :: rest)
      (hrest : (s'.sweep 0).due = rest)
      (hrow : ⟨c.key, row⟩ ∈ dueRows s.cluster scope currentModel)
      (hcluster : ∀ key, s'.cluster.lookup key = if key = c.key then
        some ((attemptCluster sha256 (s.events c.key) (.faithful summary) (row.dueCluster c.key)).applyCluster
          started currentModel row) else s.cluster.lookup key)
      (hload : act.isLoad = false)
      (hprocesses : ∀ key time, Processes ⟨s, act, s'⟩ key time ↔ key = c.key ∧ time = started)

theorem withSweep_self {w : ClusterSweep} : (s.withSweep 0 w).sweep 0 = w := by
  simp [Summaries.withSweep]

theorem SummaryStep.swept (h : SummaryStep sha256 currentModel s act s')
    (hact : Sweeping scope limit act)
    (hs : Loaded currentModel scope s₀ s) : Swept sha256 currentModel scope limit s act s' := by
  have hother : (∀ started outcome, act ≠ .record 0 started outcome) →
      ∀ key started, ¬ Processes ⟨s, act, s'⟩ key started := by
    intro hne key started hprocesses
    cases hprocesses with
    | intro outcome hrest =>
        cases hrest with
        | intro c hrest =>
            cases hrest with
            | intro rest hrest => exact hne started outcome hrest.1
  unfold SummaryStep Summaries.next at h
  cases act with
  | wait duration =>
      obtain rfl := Option.some.inj h
      exact .same rfl rfl rfl (hother fun _ _ heq => by cases heq)
  | loadQueue sweep scope' limit' queue =>
      obtain ⟨rfl, rfl, rfl⟩ := hact
      dsimp only at h
      split at h
      · next hready =>
          obtain rfl := Option.some.inj h
          exact .loaded (s.rows queue) rfl hready.1 hready.2 (by rw [withSweep_self]) rfl
            (hother fun _ _ heq => by cases heq)
      · cases h
  | readEvents sweep =>
      obtain rfl := hact
      dsimp only at h
      split at h
      · next c rest hdue hreading =>
          obtain rfl := Option.some.inj h
          exact .same rfl (by rw [withSweep_self, hdue]) rfl (hother fun _ _ heq => by cases heq)
      · cases h
  | record sweep started outcome =>
      obtain ⟨rfl, summary, rfl⟩ := hact
      dsimp only at h
      split at h
      · next c rest events readAt hdue hreading =>
          split at h
          · obtain rfl := Option.some.inj h
            obtain ⟨row, hrow, hc⟩ := hs.rows c (by simp [hdue])
            obtain rfl := hs.reading c rest events readAt hdue hreading
            refine .processed c rest row started summary hdue
              (by simp [withSweep_self]) hrow ?_ rfl ?_
            · intro key
              refine lookup_modifyRow.trans ?_
              by_cases hk : key = c.key
              · subst hk
                rw [if_pos rfl, if_pos rfl, (mem_dueRows.mp hrow).1, Option.map_some, ← hc]
              · rw [if_neg hk, if_neg hk]
            · intro key time
              constructor
              · intro hprocesses
                obtain ⟨_, c', rest', heq, hdue', rfl⟩ := hprocesses
                cases heq
                cases hdue.symm.trans hdue'
                exact ⟨rfl, rfl⟩
              · intro heq
                exact ⟨_, c, rest, by rw [heq.2], hdue, heq.1.symm⟩
          · cases h
      · cases h
  | build | storeFullText | passOver | abort | readCandidates => exact hact.elim

theorem Loaded.step (h : SummaryStep sha256 currentModel s act s') (hact : Sweeping scope limit act)
    (hs : Loaded currentModel scope s₀ s) : Loaded currentModel scope s₀ s' := by
  have hswept := h.swept hact hs
  -- only a read of events sets what is read, and only builds and fetches change the events
  have hrest : s'.events = s.events ∧ ∀ c rest events readAt, (s'.sweep 0).due = c :: rest →
      (s'.sweep 0).reading = some (events, readAt) → events = s'.events c.key := by
    unfold SummaryStep Summaries.next at h
    cases act with
    | wait duration =>
        obtain rfl := Option.some.inj h
        exact ⟨rfl, hs.reading⟩
    | loadQueue sweep scope' limit' queue =>
        obtain ⟨rfl, _, _⟩ := hact
        dsimp only at h
        split at h
        · obtain rfl := Option.some.inj h
          refine ⟨rfl, ?_⟩
          simp [withSweep_self]
        · cases h
    | readEvents sweep =>
        obtain rfl := hact
        dsimp only at h
        split at h
        · obtain rfl := Option.some.inj h
          refine ⟨rfl, ?_⟩
          intro c rest events readAt hdue hreading
          simp only [withSweep_self, List.cons.injEq, Option.some.injEq,
            Prod.mk.injEq] at hdue hreading
          rw [← hreading.1, hdue.1]
          rfl
        · cases h
    | record sweep started outcome =>
        obtain ⟨rfl, _⟩ := hact
        dsimp only at h
        split at h
        · split at h
          · obtain rfl := Option.some.inj h
            refine ⟨rfl, ?_⟩
            simp [withSweep_self]
          · cases h
        · cases h
    | build | storeFullText | passOver | abort | readCandidates => exact hact.elim
  refine ⟨hrest.1.trans hs.events, ?_, ?_, hrest.2⟩
  · cases hswept with
    | same _ hdue _ _ => exact hdue ▸ hs.keys
    | loaded queue _ _ hqueue hdue _ _ =>
        rw [hdue, List.map_map]
        refine (List.nodup_map_iff_inj_on hqueue.1).mpr ?_
        intro x hx y hy hkey
        have hx' := mem_dueRows.mp (hqueue.2.1 x hx)
        have hy' := mem_dueRows.mp (hqueue.2.1 y hy)
        cases x
        cases y
        obtain rfl : _ = _ := hkey
        obtain rfl := Option.some.inj (hx'.1.symm.trans hy'.1)
        rfl
    | processed c rest row started summary hdue hdue' _ _ _ _ =>
        have hkeys := hs.keys
        rw [hdue, List.map_cons] at hkeys
        rw [hdue']
        exact (List.nodup_cons.mp hkeys).2
  · cases hswept with
    | same hcluster hdue _ _ =>
        rw [hdue, hcluster]
        exact hs.rows
    | loaded queue hcluster _ hqueue hdue _ _ =>
        intro c hc
        rw [hdue] at hc
        obtain ⟨entry, hentry, rfl⟩ := List.mem_map.mp hc
        rw [hcluster]
        exact ⟨entry.2, hqueue.2.1 entry hentry, rfl⟩
    | processed c rest row started summary hdue hdue' _ hcluster _ _ =>
        intro c' hc'
        rw [hdue'] at hc'
        obtain ⟨row', hrow', heq⟩ := hs.rows c' (by rw [hdue]; exact List.mem_cons_of_mem _ hc')
        have hkeys := hs.keys
        rw [hdue, List.map_cons, List.nodup_cons] at hkeys
        have hne : c'.key ≠ c.key := fun heq => hkeys.1 (heq ▸ List.mem_map_of_mem hc')
        refine ⟨row', ?_, heq⟩
        rw [mem_dueRows] at hrow' ⊢
        rwa [hcluster, if_neg hne]

/-! ## The length of the queue -/

theorem nodup_dueKeys {table : SummarizedTable} :
    ((dueRows table scope currentModel).map Sigma.fst).Nodup :=
  List.NodupKeys.sublist List.filter_sublist table.nodupKeys

theorem mem_dueKeys {table : SummarizedTable} :
    key ∈ (dueRows table scope currentModel).map Sigma.fst ↔
    ∃ row, ⟨key, row⟩ ∈ dueRows table scope currentModel := by
  rw [List.mem_map]
  constructor
  · intro h
    obtain ⟨entry, hentry, rfl⟩ := h
    exact ⟨entry.2, hentry⟩
  · intro h
    obtain ⟨row, hrow⟩ := h
    exact ⟨_, hrow, rfl⟩

theorem length_dueRows {table table' : SummarizedTable} {row row' : SummarizedCluster}
    (hrow : ⟨key, row⟩ ∈ dueRows table scope currentModel)
    (htable : ∀ k, table'.lookup k = if k = key then some row' else table.lookup k)
    (hdone : row'.needsSummary currentModel = false) :
    (dueRows table' scope currentModel).length + 1 = (dueRows table scope currentModel).length := by
  have hperm : ((dueRows table' scope currentModel).map Sigma.fst).Perm
      (((dueRows table scope currentModel).map Sigma.fst).erase key) := by
    rw [List.perm_ext_iff_of_nodup nodup_dueKeys (nodup_dueKeys.erase key)]
    intro k
    rw [nodup_dueKeys.mem_erase_iff, mem_dueKeys, mem_dueKeys]
    by_cases hk : k = key
    · subst hk
      simp [mem_dueRows, htable, hdone]
    · simp [mem_dueRows, htable, hk]
  have hmem : key ∈ (dueRows table scope currentModel).map Sigma.fst := mem_dueKeys.mpr ⟨row, hrow⟩
  have hlength := hperm.length_eq
  have hpos := List.length_pos_of_mem hmem
  rw [List.length_erase_of_mem hmem, List.length_map, List.length_map] at hlength
  rw [List.length_map] at hpos
  omega

/-! ## Runs -/

section Runs

variable (h : Run.Runs (SummaryStep sha256 currentModel) s₀ ts s)
  (hsweeping : ∀ t ∈ ts, Sweeping scope limit t.action) (hidle : (s₀.sweep 0).due = [])
include h hsweeping hidle

theorem loaded_of_sweeping : Loaded currentModel scope s₀ s := by
  refine Run.Runs.state_invariant h (Loaded currentModel scope s₀) ?_ ?_
  · constructor <;> simp [hidle]
  · intro t ht hstep hs
    exact hs.step hstep (hsweeping t ht)

theorem swept_of_mem {t : Run.Transition Summaries SummaryAction} (ht : t ∈ ts) :
    t.before.events = s₀.events ∧
      Swept sha256 currentModel scope limit t.before t.action t.after := by
  obtain ⟨pre, post, heq, hpre⟩ := h.before_of_mem ht
  have hloaded := loaded_of_sweeping hpre (fun u hu =>
    hsweeping u (heq ▸ List.mem_append_left _ hu)) hidle
  exact ⟨hloaded.events, (h.step_of_mem ht).swept (hsweeping t ht) hloaded⟩

theorem kept_or_processed {row : SummarizedCluster} (hrow : s₀.cluster.lookup key = some row) :
    s.cluster.lookup key = some row ∨
      ∃ t ∈ ts, (∃ started, Processes t key started) ∧ t.before.cluster.lookup key = some row := by
  refine Run.Runs.invariant h (fun pre s => s.cluster.lookup key = some row ∨
    ∃ t ∈ pre, (∃ started, Processes t key started) ∧
      t.before.cluster.lookup key = some row) (Or.inl hrow) ?_
  intro pre t post heq _ _ hkept
  cases hkept with
  | inr hprocessed =>
      obtain ⟨u, hu, hprocesses⟩ := hprocessed
      exact Or.inr ⟨u, List.mem_append_left _ hu, hprocesses⟩
  | inl hkept =>
      have hmem : t ∈ ts := heq ▸ List.mem_append_right _ List.mem_cons_self
      cases (swept_of_mem h hsweeping hidle hmem).2 with
      | same hcluster _ _ _ | loaded _ hcluster _ _ _ _ _ => exact Or.inl (hcluster ▸ hkept)
      | processed c rest row' started summary _ _ _ hcluster _ hprocesses =>
          by_cases hk : key = c.key
          · exact Or.inr ⟨t, List.mem_append_right _ (List.mem_singleton_self t),
              ⟨started, (hprocesses key started).mpr ⟨hk, rfl⟩⟩, hkept⟩
          · refine Or.inl ?_
            rw [hcluster, if_neg hk]
            exact hkept

/-- A sweep leaves the cluster it worked on out of the queue exactly when that was ready. -/
theorem processed_iff {t : Run.Transition Summaries SummaryAction} (ht : t ∈ ts)
    {started : DateTime} (hprocesses : Processes t key started) {row : SummarizedCluster}
    (hrow : t.before.cluster.lookup key = some row) :
    ⟨key, row⟩ ∈ dueRows t.before.cluster scope currentModel ∧
      ∃ row', t.after.cluster.lookup key = some row' ∧
      (row'.needsSummary currentModel = false ↔
        row.Ready sha256 currentModel (s₀.events key) ∧ row.updatedAt ≤ started) ∧
      (row.Ready sha256 currentModel (s₀.events key) → row'.summaryModel = some currentModel) := by
  obtain ⟨hevents, hswept⟩ := swept_of_mem h hsweeping hidle ht
  cases hswept with
  | same _ _ _ hnot | loaded _ _ _ _ _ _ hnot => exact absurd hprocesses (hnot key started)
  | processed c rest row₀ time summary _ _ hdue hcluster _ hprocesses' =>
      obtain ⟨rfl, rfl⟩ := (hprocesses' key started).mp hprocesses
      obtain rfl := Option.some.inj ((mem_dueRows.mp hdue).1.symm.trans hrow)
      refine ⟨hdue, _, (hcluster _).trans (if_pos rfl), ?_, ?_⟩
      · rw [needsSummary_recorded (mem_dueRows.mp hdue).2.2, hevents]
      · rw [hevents]
        exact summaryModel_recorded

/-- While every cluster that is worked on leaves the queue, what has been worked on is done, and the
queue is no longer than what the sweeps so far have not reached and the sweep at hand has not
finished. -/
theorem drains_so_far (hready : ∀ key row, ⟨key, row⟩ ∈ dueRows s₀.cluster scope currentModel →
      row.Ready sha256 currentModel (s₀.events key)) (hlater : RecordsLater ts) :
    (∀ entry ∈ dueRows s.cluster scope currentModel,
      entry ∈ dueRows s₀.cluster scope currentModel) ∧
      (∀ t ∈ ts, ∀ key started, Processes t key started →
        ∃ row, s.cluster.lookup key = some row ∧ row.Done currentModel) ∧
      ((dueRows s.cluster scope currentModel).length ≤ (s.sweep 0).due.length ∨
        (dueRows s.cluster scope currentModel).length + limit * sweepCount ts ≤
          (dueRows s₀.cluster scope currentModel).length + (s.sweep 0).due.length) := by
  refine Run.Runs.invariant h (fun pre s =>
    (∀ entry ∈ dueRows s.cluster scope currentModel,
      entry ∈ dueRows s₀.cluster scope currentModel) ∧
      (∀ t ∈ pre, ∀ key started, Processes t key started →
        ∃ row, s.cluster.lookup key = some row ∧ row.Done currentModel) ∧
      ((dueRows s.cluster scope currentModel).length ≤ (s.sweep 0).due.length ∨
        (dueRows s.cluster scope currentModel).length + limit * sweepCount pre ≤
          (dueRows s₀.cluster scope currentModel).length + (s.sweep 0).due.length)) ?_ ?_
  · refine ⟨fun _ hentry => hentry, fun t ht => absurd ht List.not_mem_nil, Or.inr ?_⟩
    simp [sweepCount]
  · intro pre t post heq _ _ hI
    obtain ⟨hsub, hdone, hcount⟩ := hI
    have hmem : t ∈ ts := heq ▸ List.mem_append_right _ List.mem_cons_self
    have hsweeps : sweepCount (pre ++ [t]) = sweepCount pre + if t.action.isLoad then 1 else 0 := by
      simp [sweepCount, List.countP_append, List.countP_cons]
    -- a step that works on no cluster
    have hsame : t.after.cluster = t.before.cluster → (∀ key started, ¬ Processes t key started) →
        (∀ entry ∈ dueRows t.after.cluster scope currentModel,
          entry ∈ dueRows s₀.cluster scope currentModel) ∧
          ∀ u ∈ pre ++ [t], ∀ key started, Processes u key started →
            ∃ row, t.after.cluster.lookup key = some row ∧ row.Done currentModel := by
      intro hcluster hnot
      rw [hcluster]
      refine ⟨hsub, ?_⟩
      intro u hu key started hprocesses
      rcases List.mem_append.mp hu with hin | hlast
      · exact hdone u hin key started hprocesses
      · rw [List.mem_singleton.mp hlast] at hprocesses
        exact absurd hprocesses (hnot key started)
    cases (swept_of_mem h hsweeping hidle hmem).2 with
    | same hcluster hdue hload hnot =>
        obtain ⟨hsub', hdone'⟩ := hsame hcluster hnot
        refine ⟨hsub', hdone', ?_⟩
        rw [hcluster, hdue, hsweeps, hload]
        simpa using hcount
    | loaded queue hcluster hempty hqueue hdue hload hnot =>
        obtain ⟨hsub', hdone'⟩ := hsame hcluster hnot
        refine ⟨hsub', hdone', ?_⟩
        have hlength := hqueue.2.2.1
        rw [hcluster, hdue, List.length_map, hsweeps, hload, if_pos rfl, Nat.mul_succ]
        rw [hempty, List.length_nil] at hcount
        omega
    | processed c rest row started summary hdue hrest hrow hcluster hload hprocesses =>
        have hprocessed : Processes t c.key started := (hprocesses c.key started).mpr ⟨rfl, rfl⟩
        obtain ⟨_, row', hrow', hneeds, hmodel⟩ :=
          processed_iff h hsweeping hidle hmem hprocessed (mem_dueRows.mp hrow).1
        have hclear := hready c.key row (hsub _ hrow)
        have hleft : row'.needsSummary currentModel = false :=
          hneeds.mpr ⟨hclear, hlater t hmem c.key started hprocessed row (mem_dueRows.mp hrow).1⟩
        have htable : ∀ k, t.after.cluster.lookup k = if k = c.key then some row'
            else t.before.cluster.lookup k := by
          intro k
          by_cases hk : k = c.key
          · rw [if_pos hk, hk, hrow']
          · rw [hcluster, if_neg hk, if_neg hk]
        refine ⟨?_, ?_, ?_⟩
        · intro entry hentry
          refine hsub entry (mem_dueRows.mpr ?_)
          have hin := mem_dueRows.mp hentry
          by_cases hk : entry.1 = c.key
          · rw [htable, if_pos hk] at hin
            obtain rfl := Option.some.inj hin.1
            cases hleft.symm.trans hin.2.2
          · rwa [htable, if_neg hk] at hin
        · intro u hu key time hprocesses'
          by_cases hk : key = c.key
          · exact ⟨row', by rw [hk, hrow'], hleft, hmodel hclear⟩
          · rcases List.mem_append.mp hu with hin | hlast
            · rw [htable, if_neg hk]
              exact hdone u hin key time hprocesses'
            · rw [List.mem_singleton.mp hlast] at hprocesses'
              exact absurd ((hprocesses key time).mp hprocesses').1 hk
        · have hlength := length_dueRows hrow htable hleft
          rw [hdue, List.length_cons] at hcount
          rw [hrest, hsweeps, hload]
          simp only [Bool.false_eq_true, if_false, Nat.add_zero]
          omega

/-- After enough sweeps to hold every cluster that was due, those worked on are done and nothing is
due, exactly when none of the clusters was a cache hit of another model or had nothing to summarize,
and the sweeps record no earlier than the rows are stamped. -/
theorem queue_drains_iff (hlimit : 0 < limit) (hend : (s.sweep 0).due = [])
    (hsweeps : (dueRows s₀.cluster scope currentModel).length ⌈/⌉ limit ≤ sweepCount ts) :
    QueueDrains currentModel scope ts s ↔
      (∀ key row, ⟨key, row⟩ ∈ dueRows s₀.cluster scope currentModel →
        row.Ready sha256 currentModel (s₀.events key)) ∧ RecordsLater ts := by
  constructor
  · intro hdrains
    have hdone : ∀ t ∈ ts, ∀ key started, Processes t key started →
        ∀ row, t.before.cluster.lookup key = some row →
        row.Ready sha256 currentModel (s₀.events key) ∧ row.updatedAt ≤ started := by
      intro t ht key started hprocesses row hrow
      obtain ⟨pre, post, heq, _⟩ := h.before_of_mem ht
      obtain ⟨_, row', hrow', hneeds, _⟩ := processed_iff h hsweeping hidle ht hprocesses hrow
      obtain ⟨row'', hrow'', hleft, _⟩ :=
        hdrains.done pre t post heq key started hprocesses t List.mem_cons_self
      obtain rfl := Option.some.inj (hrow'.symm.trans hrow'')
      exact hneeds.mp hleft
    refine ⟨?_, fun t ht key started hprocesses row hrow =>
      (hdone t ht key started hprocesses row hrow).2⟩
    intro key row hdue
    obtain ⟨hrow, hscope, hneeds⟩ := mem_dueRows.mp hdue
    rcases kept_or_processed h hsweeping hidle hrow with hkept | ⟨t, ht,
      ⟨started, hprocesses⟩, hbefore⟩
    · have hstill : ⟨key, row⟩ ∈ dueRows s.cluster scope currentModel :=
        mem_dueRows.mpr ⟨hkept, hscope, hneeds⟩
      rw [hdrains.empty] at hstill
      cases hstill
    · exact (hdone t ht key started hprocesses row hbefore).1
  · intro hcond
    obtain ⟨hready, hlater⟩ := hcond
    constructor
    · intro pre t post heq key started hprocesses u hu
      obtain ⟨mid, rest, hsplit⟩ := List.append_of_mem hu
      have hts : ts = (pre ++ mid) ++ u :: rest := by rw [heq, hsplit, List.append_assoc]
      have hsub : ∀ v ∈ pre ++ mid ++ [u], v ∈ ts := by
        intro v hv
        rw [hts]
        simp only [List.mem_append, List.mem_cons] at hv ⊢
        tauto
      have hmem : t ∈ pre ++ mid ++ [u] := by
        have hhead : t ∈ mid ++ [u] := by
          cases mid with
          | nil => simp_all
          | cons v mid =>
              rw [List.cons_append, List.cons.injEq] at hsplit
              simp [hsplit.1]
        simp only [List.mem_append] at hhead ⊢
        tauto
      have hupto : Run.Runs (SummaryStep sha256 currentModel) s₀ (pre ++ mid ++ [u]) u.after :=
        Run.Runs.upto (hts ▸ h)
      exact (drains_so_far hupto (fun v hv => hsweeping v (hsub v hv)) hidle hready
        (fun v hv => hlater v (hsub v hv))).2.1 t hmem key started hprocesses
    · have hcount := (drains_so_far h hsweeping hidle hready hlater).2.2
      have hmul := (ceilDiv_le_iff_le_mul hlimit).mp hsweeps
      rw [hend, List.length_nil] at hcount
      exact List.length_eq_zero_iff.mp (by omega)

end Runs

/-! ## Two clusters and a limit of one -/

theorem sweeping_of_all (h : ∀ t ∈ ts, (match t.action with
    | .wait _ => true
    | .loadQueue sweep scope' limit' _ => decide (sweep = 0 ∧ scope' = scope ∧ limit' = limit)
    | .readEvents sweep => decide (sweep = 0)
    | .record sweep _ (.faithful _) => decide (sweep = 0)
    | _ => false) = true) : ∀ t ∈ ts, Sweeping scope limit t.action := by
  intro t ht
  have hone := h t ht
  cases hact : t.action with
  | record sweep started outcome =>
      cases outcome <;> simp_all [Sweeping]
  | _ => simp_all [Sweeping]

theorem recordsLater_of_all (h : ∀ t ∈ ts, (match t.action with
    | .record _ started _ => (t.before.sweep 0).due.all fun c =>
        (t.before.cluster.lookup c.key).all fun row => decide (row.updatedAt ≤ started)
    | _ => true) = true) : RecordsLater ts := by
  intro t ht key started hprocesses row hrow
  obtain ⟨outcome, c, rest, hact, hdue, rfl⟩ := hprocesses
  have hone := h t ht
  simp only [hact, hdue, hrow, List.all_cons, Option.all_some, Bool.and_eq_true,
    decide_eq_true_eq] at hone
  exact hone.1

def secondKey : GroupKey := ⟨.ofPublic, .rss, "second"⟩

def beforeUpgradeScript : List SummaryAction :=
  [.build noteKey 1 [noteEvent 1], .build secondKey 1 [noteEvent 2],
    .loadQueue 0 .ofPublic 10 [secondKey, noteKey], .readEvents 0, .record 0 1 noteSummary,
      .readEvents 0,
    .record 0 1 noteSummary, .wait 4]

def beforeUpgrade : Summaries :=
  (Run.execute (Summaries.play plainDigest "old") {} beforeUpgradeScript).getD {}

def changedClusters : Summaries :=
  (Run.execute (Summaries.play plainDigest "old") {} (beforeUpgradeScript ++
    [.build noteKey 5 [noteEvent 1, noteEvent 3],
      .build secondKey 5 [noteEvent 2, noteEvent 4]])).getD {}

def sweepOne (key : GroupKey) : List SummaryAction :=
  [.loadQueue 0 .ofPublic 1 [key], .readEvents 0, .record 0 5 noteSummary]

def drainedRun : List (Run.Transition Summaries SummaryAction) :=
  Run.transitions (Summaries.play plainDigest "new") changedClusters
    (sweepOne secondKey ++ sweepOne noteKey)

theorem queue_drains_iff_changed :
    ∃ s, Run.Runs (SummaryStep plainDigest "new") changedClusters drainedRun s ∧
    (dueRows changedClusters.cluster .ofPublic "new").length = 2 ∧
      QueueDrains "new" .ofPublic drainedRun s := by
  have hdue : (dueRows changedClusters.cluster .ofPublic "new").length = 2 := by decide +kernel
  obtain ⟨s, hrun, hend⟩ : ∃ s,
      Run.Runs (SummaryStep plainDigest "new") changedClusters drainedRun s ∧
      decide ((s.sweep 0).due = []) = true := Summaries.play_ends (by decide +kernel)
  have hsweeps : (dueRows changedClusters.cluster .ofPublic "new").length ⌈/⌉ 1 ≤
      sweepCount drainedRun := by
    rw [hdue]
    decide +kernel
  have hsweeping : ∀ t ∈ drainedRun, Sweeping .ofPublic 1 t.action :=
    sweeping_of_all (by decide +kernel)
  refine ⟨s, hrun, hdue, (queue_drains_iff hrun hsweeping (by decide +kernel) (by decide) (of_decide_eq_true hend)
    hsweeps).mpr ⟨?_, recordsLater_of_all (by decide +kernel)⟩⟩
  have hready : ((dueRows changedClusters.cluster .ofPublic "new").all fun entry =>
      decide (changedClusters.events entry.1 ≠ [] ∧
        entry.2.summaryHash ≠
            some (summaryHash plainDigest (changedClusters.events entry.1)))) = true := by
    decide +kernel
  intro key row hrow
  obtain ⟨hevents, hmoved⟩ := of_decide_eq_true (List.all_eq_true.mp hready ⟨key, row⟩ hrow)
  exact ⟨hevents, fun hhit => absurd hhit hmoved⟩

/-- The newest cluster is a cache hit, and comes first each time. -/
def starvedRun : List (Run.Transition Summaries SummaryAction) :=
  Run.transitions (Summaries.play plainDigest "new") beforeUpgrade
    (sweepOne secondKey ++ sweepOne secondKey)

/-- Both sweeps touch it, it stays due with its old summary, and the other cluster is never
reached. -/
theorem cached_summary_starves_queue :
    ∃ s, Run.Runs (SummaryStep plainDigest "new") beforeUpgrade starvedRun s ∧
    (∀ t ∈ starvedRun, Sweeping .ofPublic 1 t.action) ∧
    (dueRows beforeUpgrade.cluster .ofPublic "new").length = 2 ∧ sweepCount starvedRun = 2 ∧
    (s.cluster.lookup secondKey).map (·.summaryModel) = some (some "old") ∧
    s.cluster.lookup noteKey = beforeUpgrade.cluster.lookup noteKey ∧
    (dueRows s.cluster .ofPublic "new").length = 2 ∧
      ¬ QueueDrains "new" .ofPublic starvedRun s := by
  obtain ⟨s, hrun, hend⟩ : ∃ s,
      Run.Runs (SummaryStep plainDigest "new") beforeUpgrade starvedRun s ∧
      decide ((s.cluster.lookup secondKey).map (·.summaryModel) = some (some "old") ∧
        s.cluster.lookup noteKey = beforeUpgrade.cluster.lookup noteKey ∧
        (dueRows s.cluster .ofPublic "new").length = 2) = true :=
          Summaries.play_ends (by decide +kernel)
  obtain ⟨hmodel, hkept, hdue⟩ := of_decide_eq_true hend
  refine ⟨s, hrun, sweeping_of_all (by decide +kernel), by decide +kernel, by decide +kernel,
    hmodel, hkept, hdue, ?_⟩
  intro hdrains
  rw [hdrains.empty] at hdue
  cases hdue

end Bulletin
