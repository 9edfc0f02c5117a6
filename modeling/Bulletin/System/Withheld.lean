import Bulletin.System.Pipeline

/-! # Clusters that become candidates late

Whether a cluster is a candidate waits for its build and its summary. Whether its story is
shown is decided by the time of its events, against the last delivery and the cadence,
whenever the cluster came in.
-/

namespace Bulletin

variable {F : Type} [SelectScore F] {clusterId : GroupKey → Uuid}
  {sha256 : List UInt8 → List UInt8} {currentModel : String} {s : Pipeline F}
  {pre ts : List (Run.Transition (Pipeline F) (PipelineAction F))}
  {t : Run.Transition (Pipeline F) (PipelineAction F)}

def ReadBy (t : Run.Transition (Pipeline F) (PipelineAction F)) (a : Nat) (r : Recompute F) :
    Prop :=
  ∃ subscribed, t.action = .read a subscribed r

/-- When attempt `a` reads, the cluster `c` is inside the context horizon, and it was no candidate
at any fire of the subscriber since its last event. -/
def FirstOffered (pre : List (Run.Transition (Pipeline F) (PipelineAction F))) (a : Nat)
    (sub : Uuid) (c : LinkCluster) : Prop :=
  ∃ before t after r, pre = before ++ t :: after ∧ ReadBy t a r ∧
    t.before.flow.db.now - daysInterval contextHorizonDays ≤ c.lastEventTime ∧
    ∀ u ∈ before, ∀ b r', ReadBy u b r' → r'.subscriber = sub →
      c.lastEventTime ≤ u.before.flow.db.now → ∀ c' ∈ r'.candidates, c'.id ≠ c.id

/-- Attempt `a` ranks the stories it has linked from the candidates of `r`, for a subscriber it has
loaded as `row`, and this is the log of its decisions. -/
def Ranks (t : Run.Transition (Pipeline F) (PipelineAction F)) (a : Nat) (row : SubscriberRow)
    (r : Recompute F) (log : List (DecisionRecord F)) : Prop :=
  ∃ x shown cfg weights thread, t.action = .flow (.choose a cfg weights thread) ∧
    t.before.flow.attempt[a]? = some x ∧ x.phase = .linked row r shown ∧
    log = (t.before.flow.chosenOf row r shown cfg weights thread).log

def Competes (log : List (DecisionRecord F)) (story : LinkedStory) : Prop :=
  ∀ record ∈ log, record.storyId = story.id → record.verdict ≠ .dropped .staleForCadence

/-- At the first fire that has a cluster for a candidate, its story competes. -/
def WithheldSlips (ts : List (Run.Transition (Pipeline F) (PipelineAction F))) : Prop :=
  ∀ pre t post, ts = pre ++ t :: post → ∀ a row r log, Ranks t a row r log →
    ∀ c ∈ r.candidates, FirstOffered pre a r.subscriber c →
      ∀ story ∈ r.assignment.stories, c.id ∈ story.members → Competes log story

/-- Some cluster of the story has an event inside the display window, or none older than the last
delivery before the fire. -/
def ReachesBack (now : DateTime) (row : SubscriberRow) (r : Recompute F) (story : LinkedStory) :
    Prop :=
  ∃ c ∈ r.candidates, c.id ∈ story.members ∧
    (now - row.recurrence.displayWindow ≤ c.lastEventTime ∨
      ∃ run, row.lastRunAt = some run ∧ run ≤ c.lastEventTime)

/-! ## One fire -/

theorem competes_iff {row : SubscriberRow} {r : Recompute F} {flow : Flow F} {shown : DigestTable}
    {cfg : ScoringConfig F} {weights : Std.ExtTreeMap String F compare}
    {thread : Uuid → Option Uuid} (hsound : r.Sound) {story : LinkedStory}
    (hstory : story ∈ r.assignment.stories) :
    Competes (flow.chosenOf row r shown cfg weights thread).log story ↔
      ReachesBack flow.db.now row r story := by
  have hfloor : ReachesBack flow.db.now row r story ↔
      row.recurrence.displayFloor flow.db.now row.lastRunAt ≤ story.lastEventTime := by
    unfold ReachesBack
    rw [Recompute.le_story_lastEventTime hsound.ids hstory]
    simp only [displayFloor_le_iff]
  let fire := Fire.ofSubscriber row flow.db.now cfg weights thread
  have hlog : Competes (flow.chosenOf row r shown cfg weights thread).log story ↔
      ∀ d, d ∈ fire.linkAndSelect r shown ∧ d.verdict = .dropped .staleForCadence →
        d.id ≠ story.id := by
    unfold Competes Flow.chosenOf decisionLog
    rw [List.forall_mem_map]
    exact forall_congr' fun d => ⟨fun h hd hid => h hd.1 hid hd.2,
      fun h hd hid hv => h ⟨hd, hv⟩ hid⟩
  rw [hlog, hfloor]
  simp only [Fire.linkAndSelect, Fire.candidates_eq, select_stale]
  constructor
  · intro hcompetes
    by_contra hold
    exact hcompetes _ ⟨fire.candidateOf r shown story, List.mem_map_of_mem hstory, not_le.mp hold,
      rfl⟩ rfl
  · intro hle d hd hid
    obtain ⟨c, hc, hlt, rfl⟩ := hd
    obtain ⟨story', hstory', rfl⟩ := List.mem_map.mp hc
    obtain rfl := List.inj_on_of_nodup_map hsound.stories_nodup hstory' hstory hid
    exact not_le.mpr hlt hle

/-! ## Runs -/

/-- In every run the story of a cluster that becomes a candidate late competes at that fire, exactly
when it reaches back far enough there. -/
theorem withheld_slips_iff (h : PipelineRuns clusterId sha256 currentModel ts s) :
    WithheldSlips ts ↔
      ∀ pre t post, ts = pre ++ t :: post → ∀ a row r log, Ranks t a row r log →
        ∀ c ∈ r.candidates, FirstOffered pre a r.subscriber c →
          ∀ story ∈ r.assignment.stories, c.id ∈ story.members →
            ReachesBack t.before.flow.db.now row r story := by
  have hone : ∀ t ∈ ts, ∀ a row r log, Ranks t a row r log → ∀ story ∈ r.assignment.stories,
      (Competes log story ↔ ReachesBack t.before.flow.db.now row r story) := by
    intro t ht a row r log hranks story hstory
    obtain ⟨x, shown, cfg, weights, thread, _, hx, hphase, rfl⟩ := hranks
    obtain ⟨pre, _, _, hpre⟩ := h.before_of_mem ht
    exact competes_iff (PipelineRuns.readsSound hpre a x r hx (by rw [hphase]; rfl)) hstory
  constructor
  · intro hslips pre t post heq a row r log hranks c hc hfirst story hstory hmember
    have ht : t ∈ ts := heq ▸ List.mem_append_right _ List.mem_cons_self
    exact (hone t ht a row r log hranks story hstory).mp
      (hslips pre t post heq a row r log hranks c hc hfirst story hstory hmember)
  · intro hreaches pre t post heq a row r log hranks c hc hfirst story hstory hmember
    have ht : t ∈ ts := heq ▸ List.mem_append_right _ List.mem_cons_self
    exact (hone t ht a row r log hranks story hstory).mpr
      (hreaches pre t post heq a row r log hranks c hc hfirst story hstory hmember)

/-! ## A summary two digests late -/

/-- Attempt `a` ranks at this transition, and `p` holds of what it has loaded and read. -/
def ranksAs (t : Run.Transition (Pipeline F) (PipelineAction F)) (a : Nat)
    (p : SubscriberRow → Recompute F → List (DecisionRecord F) → Bool) : Bool :=
  match t.action with
  | .flow (.choose b cfg weights thread) =>
      decide (b = a) && (t.before.flow.attempt[a]?).any fun x =>
      match x.phase with
      | .linked row r shown => p row r (t.before.flow.chosenOf row r shown cfg weights thread).log
      | _ => false
  | _ => false

theorem of_ranksAs {a : Nat} {p : SubscriberRow → Recompute F → List (DecisionRecord F) → Bool}
    (h : ranksAs t a p = true) : ∃ row r log, Ranks t a row r log ∧ p row r log = true := by
  unfold ranksAs at h
  split at h
  · next b cfg weights thread hact =>
      rw [Bool.and_eq_true, decide_eq_true_eq, Option.any_eq_true] at h
      obtain ⟨rfl, x, hx, hp⟩ := h
      split at hp
      · next row r shown hphase =>
          exact ⟨row, r, _, ⟨x, shown, cfg, weights, thread, hact, hx, hphase, rfl⟩, hp⟩
      · cases hp
  · cases h

/-- The read is the `j`-th transition, and no read before it returned the cluster. -/
def firstOfferedAt (pre : List (Run.Transition (Pipeline F) (PipelineAction F))) (j a : Nat)
    (sub id : Uuid) (time : DateTime) : Bool :=
  ((pre[j]?).any fun t => match t.action with
    | .read b _ _ => decide (b = a ∧ t.before.flow.db.now - daysInterval contextHorizonDays ≤ time)
    | _ => false) &&
  (pre.take j).all fun u => match u.action with
    | .read _ _ r => decide (r.subscriber = sub → time ≤ u.before.flow.db.now →
        ∀ c ∈ r.candidates, c.id ≠ id)
    | _ => true

omit [SelectScore F] in
theorem of_firstOfferedAt {j a : Nat} {sub : Uuid} {c : LinkCluster}
    (h : firstOfferedAt pre j a sub c.id c.lastEventTime = true) : FirstOffered pre a sub c := by
  unfold firstOfferedAt at h
  rw [Bool.and_eq_true, Option.any_eq_true, List.all_eq_true] at h
  obtain ⟨⟨t, ht, hread⟩, hall⟩ := h
  split at hread
  · next b subscribed r hact =>
      obtain ⟨rfl, hhorizon⟩ := of_decide_eq_true hread
      refine ⟨pre.take j, t, pre.drop (j + 1), r, Run.split_at ht, ⟨subscribed, hact⟩, hhorizon, ?_⟩
      intro u hu b' r' hread' hsub htime
      obtain ⟨subscribed', hact'⟩ := hread'
      have hone := hall u hu
      rw [hact'] at hone
      exact of_decide_eq_true hone hsub htime
  · cases hread

theorem reachesBack_of_all (h : ∀ t ∈ ts, (match t.action with
    | .flow (.choose a _ _ _) => (t.before.flow.attempt[a]?).all fun x => match x.phase with
        | .linked row r _ => r.assignment.stories.all fun story => r.candidates.any fun c =>
            decide (c.id ∈ story.members) &&
              decide (row.recurrence.displayFloor t.before.flow.db.now row.lastRunAt ≤ c.lastEventTime)
        | _ => true
    | _ => true) = true) : ∀ t ∈ ts, ∀ a row r log, Ranks t a row r log →
      ∀ story ∈ r.assignment.stories, ReachesBack t.before.flow.db.now row r story := by
  intro t ht a row r log hranks story hstory
  obtain ⟨x, shown, cfg, weights, thread, hact, hx, hphase, _⟩ := hranks
  have hone := h t ht
  simp only [hact, hx, Option.all_some, hphase] at hone
  obtain ⟨c, hc, hin⟩ := List.any_eq_true.mp (List.all_eq_true.mp hone story hstory)
  rw [Bool.and_eq_true, decide_eq_true_eq, decide_eq_true_eq, displayFloor_le_iff] at hin
  exact ⟨c, hc, hin⟩

def fireToRank {F : Type} [Score F] (a sub base : Nat) : List (PipelineCue F) :=
  [.flow (.begin a sub none), .flow (.load a), .read a [] base, .flow (.persist a),
    .flow (.choose a (.default F) ∅ fun _ => none)]

def fireToDelivery {F : Type} (a id : Nat) : List (PipelineCue F) :=
  [.flow (.freeze a id), .flow (.recordDecisions a true), .flow (.recordCandidates a true),
    .flow (.render a), .flow (.compose a true), .flow (.send a), .flow (.markDelivered a)]

def eveningEvent : DateTime := 80000000000

def eveningScript : List (PipelineCue ℚ) :=
  [.flow (.signUp 7 .daily .utc 0 10), .wait 80000000000,
    .summary (.build noteKey eveningEvent [noteEvent 80000000000]), .wait 6400000000] ++
    fireToRank 1 7 100 ++ fireToDelivery 1 500

def summarizeCue (started : DateTime) : List (PipelineCue ℚ) :=
  [.wait 7200000000, .summary (.loadQueue 0 .ofPublic 10 [noteKey]), .summary (.readEvents 0),
    .summary (.record 0 started noteSummary)]

def timelyScript : List (PipelineCue ℚ) :=
  eveningScript ++ summarizeCue 93600000000 ++ [.wait 79200000000] ++ fireToRank 2 7 200

def timelyRun : List (Run.Transition (Pipeline ℚ) (PipelineAction ℚ)) :=
  Run.transitions (Pipeline.play (fun _ => 1) plainDigest "m") {} timelyScript

/-- Attempt `a` ranks at place `k` of the run, with cluster 1 a candidate since its read at `j`. -/
theorem firstRank (ts : List (Run.Transition (Pipeline ℚ) (PipelineAction ℚ))) (j k a : Nat)
    (p : SubscriberRow → Recompute ℚ → List (DecisionRecord ℚ) → Bool)
    (hranks : (ts[k]?.any fun t => ranksAs t a fun row r log => decide (r.subscriber = 7) &&
      p row r log && r.candidates.any fun c => decide (c.id = 1 ∧
        c.lastEventTime = eveningEvent)) = true)
    (hoffered : firstOfferedAt (ts.take k) j a 7 1 eveningEvent = true) :
    ∃ t post row r log c, ts = ts.take k ++ t :: post ∧ Ranks t a row r log ∧ p row r log = true ∧
      c ∈ r.candidates ∧ c.id = 1 ∧ FirstOffered (ts.take k) a r.subscriber c := by
  obtain ⟨t, ht, hone⟩ := (Option.any_eq_true _ _).mp hranks
  obtain ⟨row, r, log, hrank, hp⟩ := of_ranksAs hone
  rw [Bool.and_eq_true, Bool.and_eq_true, decide_eq_true_eq, List.any_eq_true] at hp
  obtain ⟨⟨hsub, hp⟩, c, hc, hcluster⟩ := hp
  obtain ⟨hid, htime⟩ := of_decide_eq_true hcluster
  refine ⟨t, _, row, r, log, c, Run.split_at ht, hrank, hp, hc, hid, ?_⟩
  rw [hsub]
  exact of_firstOfferedAt (hid.symm ▸ htime.symm ▸ hoffered)

theorem withheld_slips_iff_timely : ∃ s t post row r log c,
    PipelineRuns (fun _ => 1) plainDigest "m" timelyRun s ∧
    timelyRun = timelyRun.take 25 ++ t :: post ∧ Ranks t 2 row r log ∧ c ∈ r.candidates ∧
    FirstOffered (timelyRun.take 25) 2 r.subscriber c ∧ WithheldSlips timelyRun := by
  obtain ⟨s, hrun, _⟩ : ∃ s, PipelineRuns (fun _ => 1) plainDigest "m" timelyRun s ∧
      decide (s.flow.db.now = 172800000000) = true := Pipeline.play_ends (by decide +kernel)
  obtain ⟨t, post, row, r, log, c, heq, hrank, _, hc, _, hfirst⟩ :=
    firstRank timelyRun 23 25 2 (fun _ _ _ => true) (by decide +kernel) (by decide +kernel)
  refine ⟨s, t, post, row, r, log, c, hrun, heq, hrank, hc, hfirst,
    (withheld_slips_iff hrun).mpr ?_⟩
  intro pre t post heq a row r log hrank _ _ _ story hstory _
  exact reachesBack_of_all (by decide +kernel) t (heq ▸ List.mem_append_right _ List.mem_cons_self)
    a row r log hrank story hstory

def lateSummaryScript : List (PipelineCue ℚ) :=
  eveningScript ++ [.wait 86400000000] ++ fireToRank 2 7 200 ++ fireToDelivery 2 501 ++
    summarizeCue 180000000000 ++ [.wait 79200000000] ++ fireToRank 3 7 300

def lateSummaryRun : List (Run.Transition (Pipeline ℚ) (PipelineAction ℚ)) :=
  Run.transitions (Pipeline.play (fun _ => 1) plainDigest "m") {} lateSummaryScript

/-- The third fire is the first to have the cluster for a candidate, and drops its story. -/
theorem late_cluster_dropped : ∃ s t post row r log c,
    PipelineRuns (fun _ => 1) plainDigest "m" lateSummaryRun s ∧
    lateSummaryRun = lateSummaryRun.take 38 ++ t :: post ∧ Ranks t 3 row r log ∧ c ∈ r.candidates ∧
    FirstOffered (lateSummaryRun.take 38) 3 r.subscriber c ∧
    log.map (·.verdict) = [.dropped .staleForCadence] ∧ ¬ WithheldSlips lateSummaryRun := by
  obtain ⟨s, hrun, _⟩ : ∃ s, PipelineRuns (fun _ => 1) plainDigest "m" lateSummaryRun s ∧
      decide (s.flow.db.now = 259200000000) = true := Pipeline.play_ends (by decide +kernel)
  obtain ⟨t, post, row, r, log, c, heq, hrank, hp, hc, hid, hfirst⟩ :=
    firstRank lateSummaryRun 36 38 3
      (fun _ r log => decide (log.map (·.verdict) = [.dropped .staleForCadence]) &&
        r.assignment.stories.any fun story => decide (1 ∈ story.members) &&
          log.any fun record => decide (record.storyId = story.id ∧
            record.verdict = .dropped .staleForCadence))
      (by decide +kernel) (by decide +kernel)
  rw [Bool.and_eq_true, decide_eq_true_eq, List.any_eq_true] at hp
  obtain ⟨hlog, story, hstory, hdropped⟩ := hp
  rw [Bool.and_eq_true, decide_eq_true_eq, List.any_eq_true] at hdropped
  obtain ⟨hmember, record, hrecord, hverdict⟩ := hdropped
  obtain ⟨hstoryId, hverdict⟩ := of_decide_eq_true hverdict
  refine ⟨s, t, post, row, r, log, c, hrun, heq, hrank, hc, hfirst, hlog, ?_⟩
  intro hslips
  exact hslips _ t post heq 3 row r log hrank c hc hfirst story hstory (hid ▸ hmember) record
    hrecord hstoryId hverdict

end Bulletin
