import Bulletin.Digest.Fire
import Bulletin.Thread.Store
import Bulletin.Thread.Weights

/-! # Signals against a thread and the gate

A pass turns the care signals of a subscriber into weights, and a fire adds the weights of a
story's entities to its relevance. No weight is negative and every story starts at one, so no
signal brings a story below the default floor; it can only take back what a thread has added.
-/

namespace Bulletin

/-! ## A pass after more signals -/

/-- What a pass reads of a subscriber. -/
structure CareState where
  subscriber : Uuid
  feedback : List FeedbackRow
  thread : ThreadTable ℚ
  watermark : Watermarks

/-- What a pass finds out besides: its clock, the communities and the stories. -/
structure PassInput where
  now : DateTime
  candidates : List (List String)
  resolution : Resolution
  sources : List StorySource
  cfg : MaintenanceConfig ℚ

def CareState.since (s : CareState) : DateTime := s.watermark.feedbackCursor s.subscriber

def CareState.hear (s : CareState) (rows : List FeedbackRow) : CareState :=
  { s with feedback := rows ++ s.feedback }

/-- The weights the next pass saves, unless it cannot read a signal. -/
def CareState.nextWeights (s : CareState) (p : PassInput) :
    Option (Std.ExtTreeMap String ℚ compare) :=
  (threadCareSince s.feedback s.subscriber s.since).map fun care =>
    passWeights p.candidates p.resolution (p.sources.map (·.spine))
      ((loadThreads s.subscriber s.thread).map (·.spine)) care s.since p.now p.cfg

/-- A fire with the default scoring that reads these weights. -/
def Fire.weighted (fire : Fire ℚ) (weights : Std.ExtTreeMap String ℚ compare) : Fire ℚ :=
  { fire with cfg := ScoringConfig.default ℚ, weights := weights }

/-- A story's relevance in a fire that reads these weights. -/
def weightedRelevance (fire : Fire ℚ) (r : Recompute ℚ) (digest : DigestTable)
    (story : LinkedStory) (weights : Std.ExtTreeMap String ℚ compare) : ℚ :=
  relevance ((fire.weighted weights).candidateOf r digest story) (ScoringConfig.default ℚ)

def FeedbackRow.Against (row : FeedbackRow) (sub thread : Uuid) : Prop :=
  row.subscriberId = sub ∧ row.targetType = .thread ∧ row.targetId = some thread ∧
    (row.signal = .careLess ∨ row.signal = .done)

/-- With some number of signals against the thread, the weights of the next pass make the fire
drop the story for its relevance. -/
def FeedbackRemoves (s : CareState) (p : PassInput) (fire : Fire ℚ) (r : Recompute ℚ)
    (digest : DigestTable) (thread : Uuid) (story : LinkedStory) : Prop :=
  ∃ rows, (∀ row ∈ rows, row.Against s.subscriber thread) ∧
    ∃ weights, (s.hear rows).nextWeights p = some weights ∧
      ∃ d ∈ (fire.weighted weights).linkAndSelect r digest,
        d.id = story.id ∧ d.verdict = .dropped .belowFloor

/-- One more `care_less`, whatever it is on, leaves the story's relevance or lowers it. -/
def CareLessNeverRaises (s : CareState) (p : PassInput) (fire : Fire ℚ) (r : Recompute ℚ)
    (digest : DigestTable) (story : LinkedStory) : Prop :=
  ∀ row : FeedbackRow, row.signal = .careLess → ∀ before after,
    s.nextWeights p = some before → (s.hear [row]).nextWeights p = some after →
      weightedRelevance fire r digest story after ≤ weightedRelevance fire r digest story before

/-! ## The thread term -/

section ThreadTerm

variable {fire : Fire ℚ} {r : Recompute ℚ} {digest : DigestTable} {story : LinkedStory}
  {weights : Std.ExtTreeMap String ℚ compare}

theorem sum_filterMap_getD (spine : List String) :
    (spine.filterMap fun e => weights[e]?).foldl (· + ·) (Score.lit 0) =
      (spine.map fun e => weights.getD e 0).sum := by
  have hfold : ∀ start : ℚ, (spine.filterMap fun e => weights[e]?).foldl (· + ·) start =
      start + (spine.map fun e => weights.getD e 0).sum := by
    induction spine with
    | nil => simp
    | cons e spine ih =>
        intro start
        rw [List.map_cons, List.sum_cons, Std.ExtTreeMap.getD_eq_getD_getElem?]
        cases he : weights[e]? with
        | none => simp [he, ih]
        | some weight => simp [he, ih, add_assoc]
  exact (hfold _).trans (by simp [Score.lit])

theorem candidateOf_relevance :
    ((fire.weighted weights).candidateOf r digest story).relevance =
      ((Fire.storySpine r story).map fun e => weights.getD e 0).sum := by
  show (if weights.isEmpty then Score.lit 0 else _) = _
  split
  · rename_i hempty
    have hzero : ∀ e, weights.getD e 0 = 0 := by
      intro e
      rw [Std.ExtTreeMap.isEmpty_iff.mp hempty]
      rfl
    simp [hzero, Score.lit]
  · exact sum_filterMap_getD _

theorem one_le_baseRelevance (c : Candidate ℚ) :
    1 ≤ baseRelevance c (ScoringConfig.default ℚ) := by
  unfold baseRelevance ScoringConfig.default
  cases c.hasPrivate <;> simp [Score.lit]

theorem not_belowFloor (hweights : ∀ e, 0 ≤ weights.getD e 0) {d : Decision ℚ}
    (hd : d ∈ (fire.weighted weights).linkAndSelect r digest) :
    d.verdict ≠ .dropped .belowFloor := by
  intro hverdict
  obtain ⟨c, hc, ⟨_, hbelow⟩, _⟩ := select_below.mp ⟨hd, hverdict⟩
  rw [Fire.candidates_eq] at hc
  obtain ⟨story, _, rfl⟩ := List.mem_map.mp hc
  have hbase := one_le_baseRelevance ((fire.weighted weights).candidateOf r digest story)
  have hterm : 0 ≤ ((fire.weighted weights).candidateOf r digest story).relevance := by
    rw [candidateOf_relevance]
    apply List.sum_nonneg
    intro x hx
    obtain ⟨e, _, rfl⟩ := List.mem_map.mp hx
    exact hweights e
  have hneg : baseRelevance ((fire.weighted weights).candidateOf r digest story)
      (ScoringConfig.default ℚ) +
        ((fire.weighted weights).candidateOf r digest story).relevance < 0 := by
    have hzero : (ScoringConfig.default ℚ).relevanceFloor = 0 := by
      simp [ScoringConfig.default, Score.lit]
    simp only [Score.lt, Score.partialCmp, beq_iff_eq, Option.some.injEq,
      compare_lt_iff_lt] at hbelow
    exact hzero ▸ hbelow
  linarith

theorem weightedRelevance_mono {low high : Std.ExtTreeMap String ℚ compare}
    (h : ∀ e, low.getD e 0 ≤ high.getD e 0) :
    weightedRelevance fire r digest story low ≤ weightedRelevance fire r digest story high := by
  unfold weightedRelevance relevance
  rw [candidateOf_relevance, candidateOf_relevance]
  apply add_le_add (le_refl _)
  apply List.sum_le_sum
  intro e _
  exact h e

end ThreadTerm

/-! ## No signal removes a story -/

section Remove

variable {s : CareState} {p : PassInput} {weights : Std.ExtTreeMap String ℚ compare}

theorem nextWeights_nonneg (h : s.nextWeights p = some weights) (e : String) :
    0 ≤ weights.getD e 0 := by
  obtain ⟨care, _, rfl⟩ := Option.map_eq_some_iff.mp h
  exact projectWeights_nonneg

theorem threadCareSince_cons {row : FeedbackRow} {feedback : List FeedbackRow} {sub : Uuid}
    {since : DateTime} {care after : List (ThreadCare ℚ)} (hless : row.signal = .careLess)
    (hcare : threadCareSince feedback sub since = some care)
    (hafter : threadCareSince (row :: feedback) sub since = some after) :
    after = care ∨ ∃ c, c.delta ≤ 0 ∧ after = c :: care := by
  unfold threadCareSince careRows at hcare hafter
  rw [List.filter_cons] at hafter
  split at hafter
  · right
    rw [List.mapM_cons, hcare] at hafter
    cases hrow : (row.threadCare : Option (ThreadCare ℚ)) with
    | none => simp [hrow] at hafter
    | some c =>
        obtain ⟨id, _, rfl⟩ := Option.map_eq_some_iff.mp hrow
        refine ⟨⟨id, row.signal.affinityDelta⟩, ?_, ?_⟩
        · simp [hless, Signal.affinityDelta, Score.lit]
        · simpa [hrow] using hafter.symm
  · left
    rw [hcare] at hafter
    exact (Option.some.inj hafter).symm

theorem hear_weights_le {row : FeedbackRow} {before after : Std.ExtTreeMap String ℚ compare}
    (hless : row.signal = .careLess) (hbefore : s.nextWeights p = some before)
    (hafter : (s.hear [row]).nextWeights p = some after) (e : String) :
    after.getD e 0 ≤ before.getD e 0 := by
  obtain ⟨care, hcare, rfl⟩ := Option.map_eq_some_iff.mp hbefore
  obtain ⟨heard, hheard, rfl⟩ := Option.map_eq_some_iff.mp hafter
  rcases threadCareSince_cons hless hcare hheard with rfl | ⟨c, hneg, rfl⟩
  · exact le_refl _
  · exact passWeights_cons_le hneg e

/-- Whatever the state, no number of signals against a thread drops a story for its relevance,
and one more `care_less` raises no story. -/
theorem dont_care_never_removes (s : CareState) (p : PassInput) (fire : Fire ℚ)
    (r : Recompute ℚ) (digest : DigestTable) (thread : Uuid) (story : LinkedStory) :
    ¬ FeedbackRemoves s p fire r digest thread story ∧
      CareLessNeverRaises s p fire r digest story := by
  constructor
  · rintro ⟨rows, _, weights, hweights, d, hd, _, hverdict⟩
    exact not_belowFloor (nextWeights_nonneg hweights) hd hverdict
  · intro row hless before after hbefore hafter
    exact weightedRelevance_mono (hear_weights_le hless hbefore hafter)

end Remove

/-! ## A story that signals do not remove -/

def unwantedThread : StoredThread ℚ where
  subscriberId := 7
  origin := .emergent
  pinned := false
  mergedInto := none
  entities := ["repo:acme"]
  affinity := 3
  state := .active
  confidence := .confirmed
  storyCount := 1
  sourceDiversity := 1
  baselineRate := 0
  firstSeen := some 0
  lastStoryTime := some 0

def unwantedState : CareState where
  subscriber := 7
  feedback := []
  thread := Std.ExtTreeMap.ofList [(1, unwantedThread)]
  watermark := ∅

def unwantedPass : PassInput where
  now := 10
  candidates := []
  resolution := {}
  sources := []
  cfg := MaintenanceConfig.default ℚ

def unwantedRead : Recompute ℚ where
  subscriber := 7
  candidates := [{ id := 4, entities := ["repo:acme"], firstEventTime := 5, lastEventTime := 5,
                   source := .github, eventCount := 1, contentDepth := .longform,
                   maxSeverity := none, isOwnPrivate := false }]
  prior := []
  tuning := {}
  mint := fun k => 100 + k

def unwantedStory : LinkedStory where
  id := 100
  clusters := [{ clusterId := 4, linkReason := none }]
  firstEventTime := 5
  lastEventTime := 5
  eventCount := 1
  sourceDiversity := 1
  contentDepth := .longform
  maxSeverity := none
  hasPrivate := false

def unwantedFire : Fire ℚ where
  windowEnd := 10
  cfg := ScoringConfig.default ℚ
  maxItems := 10
  now := 10
  displayFloor := 0
  weights := ∅
  thread := fun _ => none

/-- The story is on the spine of the thread, and no signals against the thread remove it. -/
theorem unwanted_story_stays :
    unwantedStory ∈ unwantedRead.assignment.stories ∧
    (∃ t ∈ loadThreads 7 unwantedState.thread, t.id = 1 ∧
      ∃ e ∈ Fire.storySpine unwantedRead unwantedStory, e ∈ t.entities) ∧
    ¬ FeedbackRemoves unwantedState unwantedPass unwantedFire unwantedRead ∅ 1
      unwantedStory := by
  refine ⟨by decide +kernel, ⟨unwantedThread.asRow 1, ?_, rfl, "repo:acme", ?_, ?_⟩, ?_⟩
  · have hload : loadThreads 7 unwantedState.thread = [unwantedThread.asRow 1] := rfl
    rw [hload]
    exact List.mem_singleton_self _
  · decide +kernel
  · exact List.mem_singleton_self _
  · rintro ⟨rows, _, weights, hweights, d, hd, _, hverdict⟩
    exact not_belowFloor (nextWeights_nonneg hweights) hd hverdict

end Bulletin
