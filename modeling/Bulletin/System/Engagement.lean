import Bulletin.Core.Run
import Bulletin.Link.Recompute
import Bulletin.Summarize.ClusterSweep
import Bulletin.Thread.Absorb
import Bulletin.Thread.Store

/-! # Engagement of stories

A story is new to a pass when its last event is later than the clock of the pass before.
Stories are persisted when a digest fires, under the times of their events.
-/

namespace Bulletin

/-! ## The stories a pass reads -/

/-- The source a row stands for, if a cluster of it can be read. -/
def StoryRow.source (clusterId : GroupKey → Uuid) (cluster : SummarizedTable) (sub : Uuid)
    (row : StoryRow) : Option StorySource :=
  let members := cluster.entries.filter fun entry =>
    clusterId entry.1 ∈ row.members ∧ entry.1.scope.visibleTo sub
  if members = [] then none
  else some {
    entities := (members.flatMap (·.2.rollup.entities)).dedup
    sources := (members.map (·.1.source)).dedup
    lastEventTime := row.lastEventTime }

/-- The live stories of a subscriber with an event in the window, each with its id. -/
def coOccurrenceSources (clusterId : GroupKey → Uuid) (cluster : SummarizedTable)
    (story : StoryTable) (sub : Uuid) (windowStart : DateTime) : List (Uuid × StorySource) :=
  ((story.toList.filter fun entry => entry.2.Live sub ∧
    windowStart ≤ entry.2.lastEventTime).filterMap
    fun entry => (entry.2.source clusterId cluster sub).map (entry.1, ·)).insertionSort
      fun x y => x.2.lastEventTime ≤ y.2.lastEventTime

/-! ## Passes of one subscriber -/

/-- A pass that has taken its clock, and what it has read: its cursor and the stories. -/
structure StoryPass where
  now : DateTime
  read : Option (DateTime × List (Uuid × StorySource))

/-- A committed pass: its clock and its cursor, what it has read, and what it has written. -/
structure CountedPass (F : Type) where
  now : DateTime
  since : DateTime
  sources : List (Uuid × StorySource)
  prior : List (ThreadRow F)
  care : List (ThreadCare F)
  upserts : List (ThreadUpsert F)

def CountedPass.lastEventOf {F : Type} (q : CountedPass F) (id : Uuid) : Option DateTime :=
  (q.sources.find? (·.1 = id)).map (·.2.lastEventTime)

structure Engagement (F : Type) where
  now : DateTime := 1
  cluster : SummarizedTable := ∅
  story : StoryTable := ∅
  thread : ThreadTable F := ∅
  watermark : Watermarks := ∅
  pass : Option StoryPass := none
  /-- The passes that have committed, the last one first. -/
  passes : List (CountedPass F) := []

inductive EngagementAction (F : Type) where
  | wait (duration : Nat)
  /-- A build or a sweep of the clusters. -/
  | build (cluster : SummarizedTable)
  /-- A recompute whose write began at `started`. -/
  | recompute (r : Recompute F) (started : DateTime)
  | markDelivered (stories : List Uuid)
  | start
  | read
  /-- The pass commits, with the care it has read and the communities it has found, and an id for
  each upsert that may need one. -/
  | commit (care : List (ThreadCare F)) (candidates : List (List String)) (resolution : Resolution)
      (newIds : List Uuid)
  | abort

section Steps

variable {F : Type} [SelectScore F] (clusterId : GroupKey → Uuid) (sub : Uuid)
  (cfg : MaintenanceConfig F)

namespace Engagement

def upserts (s : Engagement F) (now since : DateTime) (sources : List (Uuid × StorySource))
    (care : List (ThreadCare F)) (candidates : List (List String)) (resolution : Resolution) :
    List (ThreadUpsert F) :=
  maintainUpserts candidates resolution (sources.map (·.2.spine))
    ((loadThreads sub s.thread).map (·.spine)) care since now cfg

/-- The step an action makes, if it can. -/
def next (s : Engagement F) (act : EngagementAction F) : Option (Engagement F) :=
  match act with
  | .wait duration => some { s with now := s.now + duration }
  | .build cluster => some { s with cluster := cluster }
  | .recompute r started =>
      if started ≤ s.now then some { s with story := r.persist started s.story } else none
  | .markDelivered stories =>
    some { s with story := markStoriesDelivered s.now sub stories s.story }
  | .start =>
      match s.pass with
      | none => some { s with pass := some ⟨s.now, none⟩ }
      | some _ => none
  | .read =>
      match s.pass with
      | some ⟨now, none⟩ =>
          let sources := coOccurrenceSources clusterId s.cluster s.story sub (now - cfg.window)
          some { s with pass := some ⟨now, some (s.watermark.feedbackCursor sub, sources)⟩ }
      | _ => none
  | .commit care candidates resolution newIds =>
      match s.pass with
      | some ⟨now, some (since, sources)⟩ =>
          let upserts := s.upserts sub cfg now since sources care candidates resolution
          if newIds.length = upserts.length ∧ newIds.Nodup ∧ ∀ id ∈ newIds, id ∉ s.thread then
            some { s with
              pass := none
              thread := saveThreads sub upserts newIds s.thread
              watermark := s.watermark.advance sub now
              passes := ⟨now, since, sources, (loadThreads sub s.thread).map (·.spine), care,
                upserts⟩ :: s.passes }
          else none
      | _ => none
  | .abort => some { s with pass := none }

end Engagement

/-- One step. A recompute links the stories it has read. -/
def EngagementStep (s : Engagement F) (act : EngagementAction F) (s' : Engagement F) : Prop :=
  (∀ r started, act = .recompute r started → r.Reads s.story) ∧
    Engagement.next clusterId sub cfg s act = some s'

abbrev EngagementRuns (ts : List (Run.Transition (Engagement F) (EngagementAction F)))
    (s : Engagement F) : Prop :=
  Run.Runs (EngagementStep clusterId sub cfg) {} ts s

end Steps

/-! ## What is claimed of a pass -/

/-- The stories a pass has read, without what is no part of a spine. -/
def CountedPass.spines {F : Type} (q : CountedPass F) : List StorySource :=
  q.sources.map (·.2.spine)

section Contributions

variable (cfg : MaintenanceConfig ℚ) (q : CountedPass ℚ)

/-- What the pass adds up for an upsert from these stories, before the bounds. -/
def CountedPass.score (sources : List StorySource) (u : ThreadUpsert ℚ) : ℚ :=
  unclampedAffinity q.prior sources q.care q.since q.now cfg u

/-- The affinities the pass has written are what it adds up, within the bounds. -/
def CountedPass.Scored : Prop :=
  ∀ u ∈ q.upserts, u.affinity = clamp (q.score cfg q.spines u) (Score.lit 0) cfg.affinityMax

/-- What a story contributes to an upsert: what would be missing without it. -/
def CountedPass.contribution (u : ThreadUpsert ℚ) (i : Nat) : ℚ :=
  q.score cfg q.spines u - q.score cfg (q.spines.eraseIdx i) u

end Contributions

/-- No pass has read the story, or the last one to read it read an earlier last event. -/
def Engagement.Fresh {F : Type} (s : Engagement F) (id : Uuid) (lastEventTime : DateTime) : Prop :=
  (s.passes.findSome? (·.lastEventOf id)).all (· < lastEventTime) = true

instance {F : Type} (s : Engagement F) (id : Uuid) (lastEventTime : DateTime) :
    Decidable (s.Fresh id lastEventTime) :=
  inferInstanceAs (Decidable (_ = true))

def Engagement.lastClock {F : Type} (s : Engagement F) : DateTime := s.passes.head?.elim 0 (·.now)

/-- A pass that commits writes affinities to which each fresh story contributes one unit for each
thread it is on, and no other story anything. -/
def EngagedOnce (cfg : MaintenanceConfig ℚ)
    (t : Run.Transition (Engagement ℚ) (EngagementAction ℚ)) : Prop :=
  ∀ q, t.after.passes = q :: t.before.passes → q.Scored cfg ∧
    ∀ u ∈ q.upserts, ∀ (i : Nat) (id : Uuid) (source : StorySource),
      q.sources[i]? = some (id, source) → q.contribution cfg u i =
        if source.spine.overlaps u.entities = true ∧ t.before.Fresh id source.lastEventTime
        then cfg.engagementWeight else 0

section Claimed

variable {F : Type} [SelectScore F] (sub : Uuid) (cfg : MaintenanceConfig F)

/-- Of the stories that are on a thread the pass writes, the fresh ones are those with an event
after the clock of the pass before. -/
def InStep (s : Engagement F) : EngagementAction F → Prop
  | .commit _ candidates _ _ => ∀ now since sources, s.pass = some ⟨now, some (since, sources)⟩ →
      ∀ (id : Uuid) (source : StorySource), (id, source) ∈ sources →
        (∃ entities ∈ candidates ++ (unclaimed candidates ((loadThreads sub s.thread).map (·.spine))
          cfg.matchThreshold).map (·.entities), source.spine.overlaps entities = true) →
        (s.Fresh id source.lastEventTime ↔ s.lastClock < source.lastEventTime)
  | _ => True

end Claimed

/-! ## What a story adds -/

theorem newStories_eraseIdx {entities : List String} {sources : List StorySource} {since : DateTime}
    {i : Nat} {source : StorySource} (h : sources[i]? = some source) :
    newStories entities sources since = newStories entities (sources.eraseIdx i) since +
      if source.overlaps entities = true ∧ since < source.lastEventTime then 1 else 0 := by
  have hcount : ∀ ss : List StorySource, newStories entities ss since =
      ss.countP fun s => decide (since < s.lastEventTime) && s.overlaps entities := by
    intro ss
    unfold newStories
    rw [List.filter_filter, List.countP_eq_length_filter]
  obtain ⟨hi, rfl⟩ := List.getElem?_eq_some_iff.mp h
  rw [hcount, hcount, List.eraseIdx_eq_take_drop_succ]
  nth_rewrite 1 [← List.take_append_drop i sources]
  rw [← List.getElem_cons_drop (h := hi), List.countP_append, List.countP_append, List.countP_cons]
  by_cases hnew : sources[i].overlaps entities = true ∧ since < sources[i].lastEventTime
  · simp [hnew.1, hnew.2]
    omega
  · have hnot :
        ¬ (decide (since < sources[i].lastEventTime) && sources[i].overlaps entities) = true := by
      simpa [and_comm] using hnew
    simp [hnot, hnew]

/-- A story that a pass has read contributes a unit to the threads it is on when its last event is
after the cursor. -/
theorem contribution_eq {cfg : MaintenanceConfig ℚ} {q : CountedPass ℚ} {u : ThreadUpsert ℚ}
    {i : Nat} {id : Uuid} {source : StorySource} (h : q.sources[i]? = some (id, source)) :
    q.contribution cfg u i =
      if source.spine.overlaps u.entities = true ∧ q.since < source.lastEventTime
      then cfg.engagementWeight else 0 := by
  have hsource : q.spines[i]? = some source.spine := by
    unfold CountedPass.spines
    rw [List.getElem?_map, h]
    rfl
  have hnew : newStories u.entities q.spines q.since =
      newStories u.entities (q.spines.eraseIdx i) q.since +
        if source.spine.overlaps u.entities = true ∧ q.since < source.lastEventTime then 1 else 0 :=
    newStories_eraseIdx hsource
  unfold CountedPass.contribution CountedPass.score unclampedAffinity engagement
  rw [hnew]
  split
  · push_cast
    ring
  · push_cast
    ring

/-! ## The cursor and the clocks -/

section Runs

variable {F : Type} [SelectScore F] {clusterId : GroupKey → Uuid} {sub : Uuid}
  {cfg : MaintenanceConfig F} {s s' : Engagement F} {act : EngagementAction F}
  {ts : List (Run.Transition (Engagement F) (EngagementAction F))}

omit [SelectScore F] in
/-- The cursor is the clock of the last pass, and a pass in flight has a later one. -/
structure ClocksOrdered (sub : Uuid) (s : Engagement F) : Prop where
  cursor : s.watermark.feedbackCursor sub = s.lastClock
  last : s.lastClock ≤ s.now
  pass : ∀ p, s.pass = some p → s.lastClock ≤ p.now ∧ p.now ≤ s.now
  read : ∀ now since sources, s.pass = some ⟨now, some (since, sources)⟩ → since = s.lastClock

theorem EngagementStep.clocksOrdered (h : EngagementStep clusterId sub cfg s act s')
    (hs : ClocksOrdered sub s) : ClocksOrdered sub s' := by
  have hnext := h.2
  unfold Engagement.next at hnext
  cases act with
  | wait duration =>
      obtain rfl := Option.some.inj hnext
      have hle : s.now ≤ s.now + duration :=
        Int.le_add_of_nonneg_right (Int.natCast_nonneg duration)
      exact ⟨hs.cursor, le_trans hs.last hle,
        fun p hp => ⟨(hs.pass p hp).1, le_trans (hs.pass p hp).2 hle⟩, hs.read⟩
  | build _ | markDelivered _ =>
      obtain rfl := Option.some.inj hnext
      exact ⟨hs.cursor, hs.last, hs.pass, hs.read⟩
  | recompute r started =>
      obtain ⟨_, heq⟩ := Option.ite_none_right_eq_some.mp hnext
      obtain rfl := Option.some.inj heq
      exact ⟨hs.cursor, hs.last, hs.pass, hs.read⟩
  | start =>
      dsimp only at hnext
      split at hnext
      · obtain rfl := Option.some.inj hnext
        refine ⟨hs.cursor, hs.last, ?_, ?_⟩
        · rintro _ ⟨⟩
          exact ⟨hs.last, le_refl _⟩
        · rintro _ _ _ ⟨⟩
      · cases hnext
  | read =>
      dsimp only at hnext
      split at hnext
      · rename_i now hpass
        obtain rfl := Option.some.inj hnext
        refine ⟨hs.cursor, hs.last, ?_, ?_⟩
        · rintro _ ⟨⟩
          exact hs.pass ⟨now, none⟩ hpass
        · rintro _ _ _ ⟨⟩
          exact hs.cursor
      · cases hnext
  | commit care candidates resolution newIds =>
      dsimp only at hnext
      split at hnext
      · rename_i now since sources hpass
        obtain ⟨_, heq⟩ := Option.ite_none_right_eq_some.mp hnext
        obtain rfl := Option.some.inj heq
        have hclock := hs.pass _ hpass
        refine ⟨feedbackCursor_advance (hs.cursor ▸ hclock.1), hclock.2, ?_, ?_⟩
        · intro p hp
          cases hp
        · intro _ _ _ hp
          cases hp
      · cases hnext
  | abort =>
      obtain rfl := Option.some.inj hnext
      refine ⟨hs.cursor, hs.last, ?_, ?_⟩
      · intro p hp
        cases hp
      · intro _ _ _ hp
        cases hp

theorem EngagementRuns.clocksOrdered (h : EngagementRuns clusterId sub cfg ts s) :
    ClocksOrdered sub s := by
  refine Run.Runs.state_invariant h (ClocksOrdered sub) ?_ fun t _ hstep => hstep.clocksOrdered
  constructor
  · simp [Watermarks.feedbackCursor, Engagement.lastClock]
  · simp [Engagement.lastClock]
  · simp
  · simp

/-! ## Runs -/

structure Committed (sub : Uuid) (cfg : MaintenanceConfig F) (s : Engagement F)
    (candidates : List (List String)) (q : CountedPass F) : Prop where
  pass : s.pass = some ⟨q.now, some (q.since, q.sources)⟩
  prior : q.prior = (loadThreads sub s.thread).map (·.spine)
  upserts : ∃ resolution, q.upserts =
    maintainUpserts candidates resolution q.spines q.prior q.care q.since q.now cfg

theorem EngagementStep.committed (h : EngagementStep clusterId sub cfg s act s') {q : CountedPass F}
    (hq : s'.passes = q :: s.passes) : ∃ care candidates resolution newIds,
      act = .commit care candidates resolution newIds ∧ Committed sub cfg s candidates q := by
  have hno : s'.passes ≠ s.passes := by
    rw [hq]
    exact List.cons_ne_self q s.passes
  have hnext := h.2
  unfold Engagement.next at hnext
  cases act with
  | wait _ | build _ | markDelivered _ | abort =>
      obtain rfl := Option.some.inj hnext
      exact absurd rfl hno
  | recompute r started =>
      obtain ⟨_, heq⟩ := Option.ite_none_right_eq_some.mp hnext
      obtain rfl := Option.some.inj heq
      exact absurd rfl hno
  | start | read =>
      dsimp only at hnext
      split at hnext
      · obtain rfl := Option.some.inj hnext
        exact absurd rfl hno
      · cases hnext
  | commit care candidates resolution newIds =>
      dsimp only at hnext
      split at hnext
      · rename_i now since sources hpass
        obtain ⟨_, heq⟩ := Option.ite_none_right_eq_some.mp hnext
        obtain rfl := Option.some.inj heq
        obtain ⟨rfl, _⟩ := List.cons.inj hq
        exact ⟨care, candidates, resolution, newIds, rfl, hpass, rfl, resolution, rfl⟩
      · cases hnext

end Runs

section Exact

variable {clusterId : GroupKey → Uuid} {sub : Uuid} {cfg : MaintenanceConfig ℚ}
  {s s' : Engagement ℚ} {act : EngagementAction ℚ}
  {ts : List (Run.Transition (Engagement ℚ) (EngagementAction ℚ))}

theorem Committed.scored {candidates : List (List String)} {q : CountedPass ℚ}
    (h : Committed sub cfg s candidates q) : q.Scored cfg := by
  obtain ⟨resolution, hupserts⟩ := h.upserts
  have hids : (q.prior.map (·.id)).Nodup := by
    rw [h.prior, spine_ids]
    exact loadThreads_ids_nodup
  intro u hu
  rw [hupserts] at hu
  exact maintainUpserts_unclamped hids hu

theorem Committed.entities {candidates : List (List String)} {q : CountedPass ℚ}
    (h : Committed sub cfg s candidates q) {entities : List String} :
    (∃ u ∈ q.upserts, u.entities = entities) ↔ entities ∈ candidates ++
      (unclaimed candidates ((loadThreads sub s.thread).map (·.spine))
        cfg.matchThreshold).map (·.entities) := by
  obtain ⟨resolution, hupserts⟩ := h.upserts
  rw [hupserts, ← h.prior, ← maintainUpserts_entities, List.mem_map]

/-- What a pass writes has a unit of each fresh story exactly when its stories are in step with the
clocks, or a unit is nothing. -/
theorem EngagementStep.engagedOnce_iff (h : EngagementStep clusterId sub cfg s act s')
    (hs : ClocksOrdered sub s) : EngagedOnce cfg ⟨s, act, s'⟩ ↔
      cfg.engagementWeight = 0 ∨ InStep sub cfg s act := by
  constructor
  · intro honce
    refine or_iff_not_imp_left.mpr fun hweight => ?_
    cases act with
    | commit care candidates resolution newIds =>
        rintro now since sources hpass id source hmem ⟨entities, hin, hover⟩
        have hnext := h.2
        unfold Engagement.next at hnext
        rw [hpass] at hnext
        obtain ⟨_, heq⟩ := Option.ite_none_right_eq_some.mp hnext
        obtain rfl := Option.some.inj heq
        obtain ⟨_, hall⟩ := honce _ rfl
        obtain ⟨_, _, _, _, hact, hcommitted⟩ := h.committed rfl
        cases hact
        obtain ⟨u, hu, rfl⟩ := hcommitted.entities.mpr hin
        obtain ⟨i, hi⟩ := List.getElem?_of_mem hmem
        have hone := hall u hu i id source hi
        rw [contribution_eq hi] at hone
        dsimp only at hone
        rw [hs.read now since sources hpass] at hone
        by_cases hfresh : s.Fresh id source.lastEventTime
        · by_cases hafter : s.lastClock < source.lastEventTime
          · exact iff_of_true hfresh hafter
          · simp [hover, hfresh, hafter, Ne.symm hweight] at hone
        · by_cases hafter : s.lastClock < source.lastEventTime
          · simp [hover, hfresh, hafter, hweight] at hone
          · exact iff_of_false hfresh hafter
    | wait _ | build _ | recompute _ _ | markDelivered _ | start | read | abort => exact trivial
  · intro hstep q hq
    obtain ⟨care, candidates, resolution, newIds, rfl, hcommitted⟩ := h.committed hq
    refine ⟨hcommitted.scored, ?_⟩
    intro u hu i id source hi
    rw [contribution_eq hi, hs.read _ _ _ hcommitted.pass]
    rcases hstep with hzero | hin
    · rw [hzero, ite_self, ite_self]
    · by_cases hover : source.spine.overlaps u.entities = true
      · have hiff := hin _ _ _ hcommitted.pass id source (List.mem_of_getElem? hi)
          ⟨u.entities, hcommitted.entities.mp ⟨u, hu, rfl⟩, hover⟩
        simp [hover, hiff]
      · simp [hover]

/-- In every run every pass adds a unit for each story that came up or moved since the pass before
to each thread it is on, and nothing for another story, exactly when the stories the passes read are
in step with their clocks, or a unit is nothing. -/
theorem engaged_once_iff (h : EngagementRuns clusterId sub cfg ts s) :
    (∀ t ∈ ts, EngagedOnce cfg t) ↔
      cfg.engagementWeight = 0 ∨ ∀ t ∈ ts, InStep sub cfg t.before t.action := by
  have hone : ∀ t ∈ ts, EngagedOnce cfg t ↔
      cfg.engagementWeight = 0 ∨ InStep sub cfg t.before t.action := by
    intro t ht
    obtain ⟨pre, post, heq, hpre⟩ := h.before_of_mem ht
    exact (h.step_of_mem ht).engagedOnce_iff (EngagementRuns.clocksOrdered hpre)
  rw [forall₂_congr hone]
  by_cases hweight : cfg.engagementWeight = 0
  · simp [hweight]
  · simp [hweight]

end Exact

section Play

variable {F : Type} [SelectScore F] {clusterId : GroupKey → Uuid} {sub : Uuid}
  {cfg : MaintenanceConfig F} {s s' : Engagement F} {act : EngagementAction F}

/-! ## Executable runs -/

/-- A step of a script; a recompute reads its subscriber's stories where it stands. -/
inductive EngagementCue (F : Type) where
  | recompute (candidates : List LinkCluster) (base : Nat)
  | other (act : EngagementAction F)

/-- The action of an entry where it stands, and the state after it. -/
def Engagement.play (clusterId : GroupKey → Uuid) (sub : Uuid) (cfg : MaintenanceConfig F)
    (s : Engagement F) (cue : EngagementCue F) : Option (EngagementAction F × Engagement F) :=
  match cue with
  | .recompute candidates base =>
      if (candidates.map (·.id)).Nodup ∧ ∀ k ∈ s.story.keys, k < base then
        let act : EngagementAction F := .recompute (.onTable s.story sub candidates {} base) s.now
        (s.next clusterId sub cfg act).map fun s' => (act, s')
      else none
  | .other (.recompute _ _) => none
  | .other act => (s.next clusterId sub cfg act).map fun s' => (act, s')

theorem Engagement.play_step {cue : EngagementCue F}
    (h : s.play clusterId sub cfg cue = some (act, s')) :
    EngagementStep clusterId sub cfg s act s' := by
  unfold Engagement.play at h
  split at h
  · next candidates base =>
      obtain ⟨hcan, hplay⟩ := Option.ite_none_right_eq_some.mp h
      obtain ⟨m, hnext, heq⟩ := Option.map_eq_some_iff.mp hplay
      obtain ⟨rfl, rfl⟩ := Prod.mk.inj heq
      refine ⟨?_, hnext⟩
      rintro r started ⟨⟩
      exact Recompute.onTable_reads hcan.1 hcan.2
  · cases h
  · next act' hread =>
      obtain ⟨m, hnext, heq⟩ := Option.map_eq_some_iff.mp h
      obtain ⟨rfl, rfl⟩ := Prod.mk.inj heq
      exact ⟨fun r started hact => absurd hact (hread r started), hnext⟩

theorem Engagement.play_ends {script : List (EngagementCue F)} {p : Engagement F → Bool}
    (h : (Run.execute (Engagement.play clusterId sub cfg) {} script).any p = true) :
    ∃ s, EngagementRuns clusterId sub cfg
      (Run.transitions (Engagement.play clusterId sub cfg) {} script) s ∧ p s = true :=
  Run.execute_ends (fun _ _ _ _ => Engagement.play_step) h

end Play

/-! ## Late and early stories -/

/-- What each story that a pass has read contributes to what it writes, with whether the story is
fresh, and the affinities written. -/
def engagedBy (cfg : MaintenanceConfig ℚ)
    (t : Run.Transition (Engagement ℚ) (EngagementAction ℚ)) :
    Option (List (Uuid × Bool × ℚ) × List ℚ) :=
  match t.action, t.after.passes with
  | .commit _ _ _ _, q :: _ => some (q.sources.zipIdx.map fun (entry, i) => (entry.1,
      decide (t.before.Fresh entry.1 entry.2.lastEventTime),
      (q.upserts.map fun u => q.contribution cfg u i).sum), q.upserts.map (·.affinity))
  | _, _ => none

/-- The stories a pass has read that are out of step with the clock of the pass before. -/
def Engagement.outOfStep {F : Type} (s : Engagement F) : List (Uuid × StorySource) :=
  match s.pass with
  | some ⟨_, some (_, sources)⟩ => sources.filter fun entry =>
      ¬ (s.Fresh entry.1 entry.2.lastEventTime ↔ s.lastClock < entry.2.lastEventTime)
  | _ => []

/-- Group "1" is cluster 1 and any other cluster 2. -/
def twoClusters (key : GroupKey) : Uuid := if key.groupKey = "1" then 1 else 2

def engagementCfg : MaintenanceConfig ℚ := MaintenanceConfig.default ℚ

def postRollup (entities : List String) (eventTime : DateTime) : SummarizedCluster where
  rollup :=
    { title := "post"
      link := none
      firstEventTime := eventTime
      lastEventTime := eventTime
      entities := entities
      eventCount := 1
      contentDepth := .message
      maxSeverity := none
      connectionId := none }
  updatedAt := 0

def twoPosts : SummarizedTable :=
  AList.insert ⟨.ofPublic, .rss, "2"⟩ (postRollup ["user:b"] 0)
    (AList.insert ⟨.ofPublic, .rss, "1"⟩ (postRollup ["user:a"] 0) ∅)

def personsPass (newId : Uuid) : List (EngagementCue ℚ) :=
  [.other .start, .other .read, .other (.commit [] [["user:a", "user:b"]] {} [newId])]

def steadyPostScript : List (EngagementCue ℚ) :=
  [.other (.build twoPosts), .other (.wait 9), .recompute [feedCluster 1 ["user:a"] 5] 100] ++
    personsPass 500 ++ [.other (.wait 10), .recompute [feedCluster 1 ["user:a"] 15] 200] ++
    personsPass 501 ++ [.other (.wait 10)] ++ personsPass 502

def steadyPostRun : List (Run.Transition (Engagement ℚ) (EngagementAction ℚ)) :=
  Run.transitions (Engagement.play twoClusters 7 engagementCfg) {} steadyPostScript

/-- A pass runs, a post from before it is linked with one dated ahead, and two passes follow. -/
def lateAndEarlyScript : List (EngagementCue ℚ) :=
  [.other (.build twoPosts), .other (.wait 9)] ++ personsPass 500 ++ [.other (.wait 10),
    .recompute [feedCluster 1 ["user:a"] 5, feedCluster 2 ["user:b"] 100] 100, .other (.wait 10)] ++
    personsPass 501 ++ [.other (.wait 10)] ++ personsPass 502

def lateAndEarlyRun : List (Run.Transition (Engagement ℚ) (EngagementAction ℚ)) :=
  Run.transitions (Engagement.play twoClusters 7 engagementCfg) {} lateAndEarlyScript

theorem inStep_of_none {s : Engagement ℚ} {act : EngagementAction ℚ} (h : s.outOfStep = []) :
    InStep 7 engagementCfg s act := by
  cases act with
  | commit care candidates resolution newIds =>
      intro now since sources hpass id source hmem _
      unfold Engagement.outOfStep at h
      rw [hpass] at h
      have hall := List.filter_eq_nil_iff.mp h (id, source) hmem
      simpa using hall
  | wait _ | build _ | recompute _ _ | markDelivered _ | start | read | abort => exact trivial

theorem not_inStep_of_some {s : Engagement ℚ} {act : EngagementAction ℚ}
    (h : (match act with
      | .commit _ candidates _ _ => s.outOfStep.any fun entry =>
          candidates.any fun entities => entry.2.spine.overlaps entities
      | _ => false) = true) : ¬ InStep 7 engagementCfg s act := by
  intro hin
  split at h
  case h_2 => cases h
  rename_i care candidates resolution newIds
  obtain ⟨entry, hentry, hany⟩ := List.any_eq_true.mp h
  obtain ⟨entities, hentities, hover⟩ := List.any_eq_true.mp hany
  unfold Engagement.outOfStep at hentry
  split at hentry
  · rename_i now since sources hpass
    obtain ⟨hmem, hout⟩ := List.mem_filter.mp hentry
    exact of_decide_eq_true hout (hin now since sources hpass entry.1 entry.2 hmem
      ⟨entities, List.mem_append_left _ hentities, hover⟩)
  · cases hentry

theorem engaged_once_iff_steady : ∃ s, EngagementRuns twoClusters 7 engagementCfg steadyPostRun s ∧
    steadyPostRun.filterMap (engagedBy engagementCfg) =
      [([(100, true, 1 / 2)], [1 / 2]), ([(100, true, 1 / 2)], [1]), ([(100, false, 0)], [1])] ∧
    ∀ t ∈ steadyPostRun, EngagedOnce engagementCfg t := by
  obtain ⟨s, hrun, _⟩ : ∃ s, EngagementRuns twoClusters 7 engagementCfg steadyPostRun s ∧
      s.pass.isNone = true := Engagement.play_ends (by decide +kernel)
  have hall : (steadyPostRun.all fun t => t.before.outOfStep.isEmpty) = true := by decide +kernel
  refine ⟨s, hrun, by decide +kernel, (engaged_once_iff hrun).mpr (.inr ?_)⟩
  intro t ht
  exact inStep_of_none (List.isEmpty_iff.mp (List.all_eq_true.mp hall t ht))

/-- The late post, 100, is fresh to the second pass and not counted. The early one, 101, is counted
there, and by the third pass again. -/
theorem engagement_missed_and_repeated : ∃ s,
    EngagementRuns twoClusters 7 engagementCfg lateAndEarlyRun s ∧
    lateAndEarlyRun.filterMap (engagedBy engagementCfg) =
      [([], [0]), ([(100, true, 0), (101, true, 1 / 2)], [1 / 2]),
        ([(100, false, 0), (101, false, 1 / 2)], [1])] ∧
    ¬ ∀ t ∈ lateAndEarlyRun, EngagedOnce engagementCfg t := by
  obtain ⟨s, hrun, _⟩ : ∃ s, EngagementRuns twoClusters 7 engagementCfg lateAndEarlyRun s ∧
      s.pass.isNone = true := Engagement.play_ends (by decide +kernel)
  refine ⟨s, hrun, by decide +kernel, ?_⟩
  intro hall
  have hany : (lateAndEarlyRun.any fun t => match t.action with
      | .commit _ candidates _ _ => t.before.outOfStep.any fun entry =>
          candidates.any fun entities => entry.2.spine.overlaps entities
      | _ => false) = true := by decide +kernel
  obtain ⟨t, ht, hout⟩ := List.any_eq_true.mp hany
  obtain ⟨pre, _, _, hpre⟩ := hrun.before_of_mem ht
  rcases ((hrun.step_of_mem ht).engagedOnce_iff (EngagementRuns.clocksOrdered hpre)).mp
    (hall t ht) with hweight | hin
  · exact absurd hweight (by decide +kernel)
  · exact not_inStep_of_some hout hin

end Bulletin
