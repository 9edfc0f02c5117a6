import Mathlib.Data.List.Destutter
import Bulletin.Digest.LastShown
import Bulletin.Digest.Select
import Bulletin.Link.Recompute

/-! # One fire

A fire links the candidate clusters of a subscriber and ranks the stories. The
memory of what was shown reaches a story through the id it was linked under.
-/

namespace Bulletin

/-- What a fire reads besides the candidate clusters and the tables of stories and digests. -/
structure Fire (F : Type) where
  /-- The window fired, before which a digest counts as shown. -/
  windowEnd : DateTime
  cfg : ScoringConfig F
  maxItems : Nat
  now : DateTime
  displayFloor : DateTime
  weights : Std.ExtTreeMap String F compare
  thread : Uuid → Option Uuid

namespace Fire

variable {F : Type} [SelectScore F]

omit [SelectScore F] in
/-- The sorted union of the entities of a story's clusters. -/
def storySpine (r : Recompute F) (story : LinkedStory) : List String :=
  ((story.members.filterMap fun c => r.candidates.find? fun x => x.id = c).flatMap
    (·.entities)).insertionSort (· ≤ ·) |>.destutter (· ≠ ·)

/-- The candidates of a fire, in the order of their stories. -/
def candidates (fire : Fire F) (r : Recompute F) (digest : DigestTable) : List (Candidate F) :=
  let shown := lastShown digest r.subscriber fire.windowEnd contextHorizonDays
  applyThreadWeights fire.weights (r.assignment.stories.map fun s =>
    { Candidate.fromStory s (storySpine r s) shown[s.id]? with threadId := fire.thread s.id })

/-- Link the candidate clusters and rank the stories. -/
def linkAndSelect (fire : Fire F) (r : Recompute F) (digest : DigestTable) : List (Decision F) :=
  select (fire.candidates r digest) fire.cfg fire.maxItems fire.now fire.displayFloor

/-! ## The candidate of a story -/

def candidateOf (fire : Fire F) (r : Recompute F) (digest : DigestTable) (story : LinkedStory) :
    Candidate F :=
  let shown := lastShown digest r.subscriber fire.windowEnd contextHorizonDays
  let spine := storySpine r story
  { (Candidate.fromStory story spine shown[story.id]? : Candidate F) with
    threadId := fire.thread story.id
    relevance := if fire.weights.isEmpty then Score.lit 0
      else (spine.filterMap fun e => fire.weights[e]?).foldl (· + ·) (Score.lit 0) }

variable {fire : Fire F} {r : Recompute F} {digest : DigestTable} {story : LinkedStory}

theorem candidates_eq :
    fire.candidates r digest = r.assignment.stories.map (fire.candidateOf r digest) := by
  unfold candidates applyThreadWeights candidateOf
  by_cases hempty : fire.weights.isEmpty = true
  · simp only [hempty, if_true, Candidate.fromStory]
  · simp only [hempty, Bool.false_eq_true, if_false, List.map_map]
    rfl

@[simp] theorem candidateOf_id : (fire.candidateOf r digest story).id = story.id := rfl

@[simp] theorem candidateOf_lastEventTime :
    (fire.candidateOf r digest story).lastEventTime = story.lastEventTime := rfl

@[simp] theorem candidateOf_lastShown : (fire.candidateOf r digest story).lastShown =
    (lastShown digest r.subscriber fire.windowEnd contextHorizonDays)[story.id]? := rfl

/-- How rich a story is, whatever the fire. -/
def storyRichness (story : LinkedStory) : Format :=
  (richnessOf story.sourceDiversity story.eventCount story.contentDepth).1

@[simp] theorem candidateOf_richness :
    (richness (fire.candidateOf r digest story)).1 = storyRichness story := rfl

/-! ## Treated as already shown -/

/-- The fire treats the story as already shown: it ranks it as a note, "still developing", with
a damped priority and against the budget for such stories. -/
def TreatsAsShown (fire : Fire F) (r : Recompute F) (digest : DigestTable) (story : LinkedStory) :
    Prop :=
  ∃ d ∈ fire.linkAndSelect r digest, d.id = story.id ∧ d.format = .note ∧
    d.richness = stillDeveloping ∧
    d.priority = priority (fire.candidateOf r digest story) fire.cfg fire.now *
      fire.cfg.resurfacePenalty ∧
    ((fire.linkAndSelect r digest).filter (·.resurfaces)).length ≤ fire.cfg.resurfaceCap

/-- Past the gates, a story is treated as shown exactly when its candidate is stale. -/
theorem treatsAsShown_iff (hnodup : (r.assignment.stories.map (·.id)).Nodup)
    (hstory : story ∈ r.assignment.stories)
    (hpasses : Passes fire.cfg fire.displayFloor (fire.candidateOf r digest story)) :
    fire.TreatsAsShown r digest story ↔ (fire.candidateOf r digest story).stale = true := by
  constructor
  · intro h
    obtain ⟨d, hd, hid, _, hrich, _⟩ := h
    obtain ⟨c, hc, hgate⟩ := mem_select hd
    rw [candidates_eq] at hc
    obtain ⟨story', hstory', rfl⟩ := List.mem_map.mp hc
    rcases hgate with hgate | ⟨_, v, rfl⟩
    · obtain ⟨cause, rfl⟩ := gate_eq_inl hgate
      exact absurd hrich (richnessOf_ne_stillDeveloping _ _ _)
    · obtain rfl := List.inj_on_of_nodup_map hnodup hstory' hstory hid
      have hgated : (gatedOf (fire.candidateOf r digest story') fire.cfg fire.now).richness =
          stillDeveloping := hrich
      exact gatedOf_richness.mp hgated
  · intro h
    have hmem : fire.candidateOf r digest story ∈ fire.candidates r digest := by
      rw [candidates_eq]
      exact List.mem_map_of_mem hstory
    obtain ⟨v, hv⟩ := @exists_select F _ _ fire.cfg fire.maxItems fire.now _ _ hmem hpasses
    refine ⟨_, hv, rfl, ?_, ?_, ?_, select_resurfaces⟩
    · show (if (fire.candidateOf r digest story).stale = true then Format.note else _) = _
      rw [if_pos h]
    · show (if (fire.candidateOf r digest story).stale = true then stillDeveloping else _) = _
      rw [if_pos h]
    · show (if (fire.candidateOf r digest story).stale = true then _ else _) = _
      rw [if_pos h]

/-! ## A fire with the default configuration -/

omit [SelectScore F] in
/-- A fire at its window's end, without threads, that shows the last three days. -/
def plain (F : Type) [Score F] (windowEnd : DateTime) : Fire F where
  windowEnd := windowEnd
  cfg := .default F
  maxItems := 10
  now := windowEnd
  displayFloor := windowEnd - daysInterval 3
  weights := ∅
  thread := fun _ => none

def items (fire : Fire F) (r : Recompute F) (digest : DigestTable) : List FrozenItem :=
  frozenItems (fire.linkAndSelect r digest)

end Fire

end Bulletin
