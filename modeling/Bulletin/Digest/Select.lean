import Mathlib.Data.List.Sort
import Mathlib.Data.Rat.Floor
import Bulletin.Common.Score
import Bulletin.Digest.Store

/-! # Scoring and selection

Selection is a function of precomputed features: relevance gates a story, richness says
how it is rendered, and priority orders the stories under caps. A story shown before
without anything new since is damped to a note.
-/

namespace Bulletin

/-- The operations selection needs beyond those of linking. -/
class SelectScore (F : Type) extends Score F where
  /-- One half to a power. -/
  powHalf : F → F
  /-- A cast to single precision. -/
  narrow : F → F
  totalCmp : F → F → Ordering

def powHalfLinear (x : ℚ) : ℚ :=
  let n := ⌊x⌋
  (1 / 2 : ℚ) ^ n * (1 - (x - n) / 2)

instance : SelectScore ℚ where
  powHalf := powHalfLinear
  narrow := fun x => x
  totalCmp := compare

/-- The row of `digest_config`. -/
structure ScoringConfig (F : Type) where
  relevanceFloor : F
  scopeBonus : F
  severityWeight : F
  recencyHalfLifeDays : F
  salienceHalfLifeDays : F
  threadHalfLifeDays : F
  storyCap : Nat
  noteCap : Nat
  /-- Stories of one thread in a digest; zero disables the cap. -/
  threadCap : Nat
  resurfacePenalty : F
  resurfaceCap : Nat

def ScoringConfig.default (F : Type) [Score F] : ScoringConfig F where
  relevanceFloor := Score.lit 0
  scopeBonus := Score.lit (1 / 2)
  severityWeight := Score.lit (1 / 10)
  recencyHalfLifeDays := Score.lit 3
  salienceHalfLifeDays := Score.lit 7
  threadHalfLifeDays := Score.lit 21
  storyCap := 5
  noteCap := 20
  threadCap := 2
  resurfacePenalty := Score.lit (1 / 4)
  resurfaceCap := 5

/-- A story considered for a digest, with its scoring features. -/
structure Candidate (F : Type) where
  id : Uuid
  lastEventTime : DateTime
  entities : List String
  relevance : F
  eventCount : Int
  sourceDiversity : Int
  contentDepth : ContentKind
  maxSeverity : Option Int
  hasPrivate : Bool
  /-- The story as last shown to the subscriber, if ever. -/
  lastShown : Option Shown
  threadId : Option Uuid

inductive DropCause where
  | staleForCadence
  | belowFloor
deriving DecidableEq, Repr

inductive Verdict where
  | selected (position : Nat)
  | overCap (rank : Nat)
  | dropped (cause : DropCause)
deriving DecidableEq, Repr

structure Decision (F : Type) where
  id : Uuid
  lastEventTime : DateTime
  relevance : F
  priority : F
  /-- The format by richness alone, frozen for the next digest. -/
  naturalFormat : Format
  /-- The format rendered. -/
  format : Format
  richness : String
  verdict : Verdict

def Decision.isSelected {F : Type} (d : Decision F) : Bool :=
  match d.verdict with
  | .selected _ => true
  | _ => false

/-- A candidate past the gates, carried through ranking. -/
structure Gated (F : Type) where
  id : Uuid
  lastEventTime : DateTime
  relevance : F
  priority : F
  naturalFormat : Format
  format : Format
  richness : String
  resurfaced : Bool
  threadId : Option Uuid

def Gated.intoDecision {F : Type} (g : Gated F) (verdict : Verdict) : Decision F where
  id := g.id
  lastEventTime := g.lastEventTime
  relevance := g.relevance
  priority := g.priority
  naturalFormat := g.naturalFormat
  format := g.format
  richness := g.richness
  verdict := verdict

/-! ## Candidates -/

section Scoring

variable {F : Type} [SelectScore F]

/-- The candidate of a linked story, with no thread term yet. -/
def Candidate.fromStory (story : LinkedStory) (entities : List String) (lastShown : Option Shown) :
    Candidate F where
  id := story.id
  lastEventTime := story.lastEventTime
  entities := entities
  relevance := Score.lit 0
  eventCount := story.eventCount
  sourceDiversity := story.sourceDiversity
  contentDepth := story.contentDepth
  maxSeverity := story.maxSeverity
  hasPrivate := story.hasPrivate
  lastShown := lastShown
  threadId := none

/-- Add the thread term: the weights of a candidate's entities. -/
def applyThreadWeights (weights : Std.ExtTreeMap String F compare) (cs : List (Candidate F)) :
    List (Candidate F) :=
  if weights.isEmpty then cs
  else cs.map fun c =>
    { c with relevance := (c.entities.filterMap fun e => weights[e]?).foldl (· + ·) (Score.lit 0) }

/-! ## Scores -/

def recencyDecay (now t : DateTime) (halfLifeDays : F) : F :=
  match Score.partialCmp halfLifeDays (Score.lit 0) with
  | some .lt | some .eq => Score.lit 1
  | _ =>
      let ageDays := Score.max (Score.lit (numSeconds (now - t)) / Score.lit 86400) (Score.lit 0)
      SelectScore.powHalf (ageDays / halfLifeDays)

def baseRelevance (c : Candidate F) (cfg : ScoringConfig F) : F :=
  Score.lit 1 + if c.hasPrivate then cfg.scopeBonus else Score.lit 0

def relevance (c : Candidate F) (cfg : ScoringConfig F) : F := baseRelevance c cfg + c.relevance

def priority (c : Candidate F) (cfg : ScoringConfig F) (now : DateTime) : F :=
  let sev := Score.lit (c.maxSeverity.getD 0)
  let recency := SelectScore.narrow (recencyDecay now c.lastEventTime cfg.recencyHalfLifeDays)
  let salienceDecay :=
    SelectScore.narrow (recencyDecay now c.lastEventTime cfg.salienceHalfLifeDays)
  let threadDecay := SelectScore.narrow (recencyDecay now c.lastEventTime cfg.threadHalfLifeDays)
  baseRelevance c cfg * recency + cfg.severityWeight * sev * salienceDecay +
    c.relevance * threadDecay

def richnessOf (sourceDiversity eventCount : Int) (contentDepth : ContentKind) : Format × String :=
  if sourceDiversity > 1 then (.story, "multi-source")
  else if eventCount > 1 then (.story, "multi-event")
  else
    match contentDepth with
    | .longform => (.story, "longform")
    | .announcement => (.note, "announcement")
    | .message => (.note, "message")

omit [SelectScore F] in
def richness (c : Candidate F) : Format × String :=
  richnessOf c.sourceDiversity c.eventCount c.contentDepth

/-- The story was shown before, with nothing new since and no growth from note to story. -/
def Candidate.stale (c : Candidate F) : Bool :=
  match c.lastShown with
  | none => false
  | some shown =>
      let newEvents := decide (c.lastEventTime > shown.lastEventTime)
      let graduated := decide (shown.format = .note ∧ (richness c).1 = .story)
      !newEvents && !graduated

omit [SelectScore F] in
theorem Candidate.stale_iff {c : Candidate F} :
    c.stale = true ↔ ∃ shown, c.lastShown = some shown ∧ c.lastEventTime ≤ shown.lastEventTime ∧
      ¬ (shown.format = .note ∧ (richness c).1 = .story) := by
  unfold Candidate.stale
  cases h : c.lastShown with
  | none => simp
  | some shown => simp [imp_iff_not_or]

/-! ## Selection -/

def dropDecision (c : Candidate F) (cfg : ScoringConfig F) (cause : DropCause) : Decision F where
  id := c.id
  lastEventTime := c.lastEventTime
  relevance := relevance c cfg
  priority := Score.lit 0
  naturalFormat := (richness c).1
  format := (richness c).1
  richness := (richness c).2
  verdict := .dropped cause

def stillDeveloping : String := "still developing"

/-- A candidate past the gates: damped to a note when it is a stale re-surface. -/
def gatedOf (c : Candidate F) (cfg : ScoringConfig F) (now : DateTime) : Gated F where
  id := c.id
  lastEventTime := c.lastEventTime
  relevance := relevance c cfg
  priority := if c.stale then priority c cfg now * cfg.resurfacePenalty else priority c cfg now
  naturalFormat := (richness c).1
  format := if c.stale then .note else (richness c).1
  richness := if c.stale then stillDeveloping else (richness c).2
  resurfaced := c.stale
  threadId := c.threadId

def gate (cfg : ScoringConfig F) (now displayFloor : DateTime) (c : Candidate F) :
    Decision F ⊕ Gated F :=
  if c.lastEventTime < displayFloor then .inl (dropDecision c cfg .staleForCadence)
  else if Score.lt (relevance c cfg) cfg.relevanceFloor then .inl (dropDecision c cfg .belowFloor)
  else .inr (gatedOf c cfg now)

/-- Higher priority first, then the more recent, then by id. -/
def rankOrder (x y : Gated F) : Ordering :=
  ((SelectScore.totalCmp y.priority x.priority).then (compare y.lastEventTime x.lastEventTime)).then
    (compare x.id y.id)

structure CapState where
  stories : Nat := 0
  notes : Nat := 0
  resurfaced : Nat := 0
  position : Nat := 0
  threadCounts : Std.ExtTreeMap Uuid Nat compare := ∅

omit [SelectScore F] in
def CapState.fits (st : CapState) (cfg : ScoringConfig F) (maxItems : Nat) (g : Gated F) : Bool :=
  let formatOk := match g.format with
    | .story => decide (st.stories < cfg.storyCap)
    | .note => decide (st.notes < cfg.noteCap)
  let resurfaceOk := !g.resurfaced || decide (st.resurfaced < cfg.resurfaceCap)
  let threadOk := match g.threadId with
    | some t => if cfg.threadCap > 0 then
      decide (st.threadCounts.getD t 0 < cfg.threadCap) else true
    | none => true
  formatOk && resurfaceOk && threadOk && decide (st.position < maxItems)

omit [SelectScore F] in
def CapState.take (st : CapState) (g : Gated F) : CapState where
  stories := if g.format = .story then st.stories + 1 else st.stories
  notes := if g.format = .note then st.notes + 1 else st.notes
  resurfaced := if g.resurfaced then st.resurfaced + 1 else st.resurfaced
  position := st.position + 1
  threadCounts := match g.threadId with
    | some t => st.threadCounts.insert t (st.threadCounts.getD t 0 + 1)
    | none => st.threadCounts

omit [SelectScore F] in
def capPass (cfg : ScoringConfig F) (maxItems : Nat) :
    CapState → Nat → List (Gated F) → List (Decision F)
  | _, _, [] => []
  | st, rank, g :: gs =>
      if st.fits cfg maxItems g then
        g.intoDecision (.selected st.position) :: capPass cfg maxItems (st.take g) (rank + 1) gs
      else g.intoDecision (.overCap rank) :: capPass cfg maxItems st (rank + 1) gs

/-- One decision for every candidate: selected, then over cap, then dropped. -/
def select (cs : List (Candidate F)) (cfg : ScoringConfig F) (maxItems : Nat)
    (now displayFloor : DateTime) : List (Decision F) :=
  let outcomes := cs.map (gate cfg now displayFloor)
  let dropped := outcomes.filterMap Sum.getLeft?
  let ranked := (outcomes.filterMap Sum.getRight?).insertionSort fun x y => rankOrder x y ≠ .gt
  let decided := capPass cfg maxItems {} 0 ranked
  (decided.filter (·.isSelected)) ++ (decided.filter fun d => !d.isSelected) ++
    dropped.insertionSort fun x y => x.id ≤ y.id

omit [SelectScore F] in
/-- The selected stories as the items to freeze, with their natural formats. -/
def frozenItems (decisions : List (Decision F)) : List FrozenItem :=
  (decisions.filter (·.isSelected)).map fun d => ⟨d.id, d.lastEventTime, d.naturalFormat⟩

end Scoring

/-! ## What selection returns -/

section Output

variable {F : Type} [SelectScore F] {cs : List (Candidate F)} {cfg : ScoringConfig F}
  {maxItems : Nat} {now displayFloor : DateTime}

omit [SelectScore F] in
theorem mem_capPass {st : CapState} {rank : Nat} {gs : List (Gated F)} {d : Decision F}
    (h : d ∈ capPass cfg maxItems st rank gs) : ∃ g ∈ gs, ∃ v, d = g.intoDecision v := by
  induction gs generalizing st rank with
  | nil => cases h
  | cons g gs ih =>
      unfold capPass at h
      by_cases hfits : st.fits cfg maxItems g = true
      · rw [if_pos hfits] at h
        rcases List.mem_cons.mp h with rfl | h
        · exact ⟨g, List.mem_cons_self, _, rfl⟩
        · obtain ⟨g', hg', v, hd⟩ := ih h
          exact ⟨g', List.mem_cons_of_mem _ hg', v, hd⟩
      · rw [if_neg hfits] at h
        rcases List.mem_cons.mp h with rfl | h
        · exact ⟨g, List.mem_cons_self, _, rfl⟩
        · obtain ⟨g', hg', v, hd⟩ := ih h
          exact ⟨g', List.mem_cons_of_mem _ hg', v, hd⟩

omit [SelectScore F] in
theorem exists_capPass {st : CapState} {rank : Nat} {gs : List (Gated F)} {g : Gated F}
    (h : g ∈ gs) :
    ∃ v, g.intoDecision v ∈ capPass cfg maxItems st rank gs := by
  induction gs generalizing st rank with
  | nil => cases h
  | cons g' gs ih =>
      unfold capPass
      by_cases hfits : st.fits cfg maxItems g' = true
      · rw [if_pos hfits]
        rcases List.mem_cons.mp h with rfl | h
        · exact ⟨_, List.mem_cons_self⟩
        · obtain ⟨v, hv⟩ := @ih (st.take g') (rank + 1) h
          exact ⟨v, List.mem_cons_of_mem _ hv⟩
      · rw [if_neg hfits]
        rcases List.mem_cons.mp h with rfl | h
        · exact ⟨_, List.mem_cons_self⟩
        · obtain ⟨v, hv⟩ := @ih st (rank + 1) h
          exact ⟨v, List.mem_cons_of_mem _ hv⟩

omit [SelectScore F] in
theorem capPass_not_dropped {st : CapState} {rank : Nat} {gs : List (Gated F)} {d : Decision F}
    {cause : DropCause} (h : d ∈ capPass cfg maxItems st rank gs) :
    d.verdict ≠ .dropped cause := by
  induction gs generalizing st rank with
  | nil => cases h
  | cons g gs ih =>
      unfold capPass at h
      by_cases hfits : st.fits cfg maxItems g = true
      · rw [if_pos hfits] at h
        rcases List.mem_cons.mp h with rfl | h
        · simp [Gated.intoDecision]
        · exact ih h
      · rw [if_neg hfits] at h
        rcases List.mem_cons.mp h with rfl | h
        · simp [Gated.intoDecision]
        · exact ih h

theorem gate_eq_inr {c : Candidate F} {g : Gated F} (h : gate cfg now displayFloor c = .inr g) :
    g = gatedOf c cfg now := by
  unfold gate at h
  by_cases hstale : c.lastEventTime < displayFloor
  · rw [if_pos hstale] at h
    cases h
  rw [if_neg hstale] at h
  by_cases hfloor : Score.lt (relevance c cfg) cfg.relevanceFloor = true
  · rw [if_pos hfloor] at h
    cases h
  rw [if_neg hfloor] at h
  exact (Sum.inr.inj h).symm

theorem gate_eq_inl {c : Candidate F} {d : Decision F} (h : gate cfg now displayFloor c = .inl d) :
    ∃ cause, d = dropDecision c cfg cause := by
  unfold gate at h
  by_cases hstale : c.lastEventTime < displayFloor
  · rw [if_pos hstale] at h
    exact ⟨_, (Sum.inl.inj h).symm⟩
  rw [if_neg hstale] at h
  by_cases hfloor : Score.lt (relevance c cfg) cfg.relevanceFloor = true
  · rw [if_pos hfloor] at h
    exact ⟨_, (Sum.inl.inj h).symm⟩
  rw [if_neg hfloor] at h
  cases h

/-- A decision is about a candidate: dropped at a gate, or ranked with its damping. -/
theorem mem_select {d : Decision F} (h : d ∈ select cs cfg maxItems now displayFloor) :
    ∃ c ∈ cs, gate cfg now displayFloor c = .inl d ∨
      gate cfg now displayFloor c = .inr (gatedOf c cfg now) ∧
        ∃ v, d = (gatedOf c cfg now).intoDecision v := by
  unfold select at h
  rcases List.mem_append.mp h with h | h
  · have hdecided : d ∈ capPass cfg maxItems {} 0
        (((cs.map (gate cfg now displayFloor)).filterMap Sum.getRight?).insertionSort
          fun x y => rankOrder x y ≠ .gt) := by
      rcases List.mem_append.mp h with h | h
      · exact (List.mem_filter.mp h).1
      · exact (List.mem_filter.mp h).1
    obtain ⟨g, hg, v, rfl⟩ := mem_capPass hdecided
    obtain ⟨o, ho, hgo⟩ := List.mem_filterMap.mp ((List.mem_insertionSort _).mp hg)
    obtain ⟨c, hc, rfl⟩ := List.mem_map.mp ho
    rw [Sum.getRight?_eq_some_iff] at hgo
    refine ⟨c, hc, Or.inr ?_⟩
    obtain rfl := gate_eq_inr hgo
    exact ⟨hgo, v, rfl⟩
  · obtain ⟨o, ho, hdo⟩ := List.mem_filterMap.mp ((List.mem_insertionSort _).mp h)
    obtain ⟨c, hc, rfl⟩ := List.mem_map.mp ho
    exact ⟨c, hc, Or.inl (Sum.getLeft?_eq_some_iff.mp hdo)⟩

def Passes (cfg : ScoringConfig F) (displayFloor : DateTime) (c : Candidate F) : Prop :=
  ¬ c.lastEventTime < displayFloor ∧ Score.lt (relevance c cfg) cfg.relevanceFloor = false

theorem gate_of_passes {c : Candidate F} (h : Passes cfg displayFloor c) :
    gate cfg now displayFloor c = .inr (gatedOf c cfg now) := by
  unfold gate
  rw [if_neg h.1, if_neg (by rw [h.2]; simp)]

theorem exists_select {c : Candidate F} (hc : c ∈ cs) (h : Passes cfg displayFloor c) :
    ∃ v, (gatedOf c cfg now).intoDecision v ∈ select cs cfg maxItems now displayFloor := by
  have hmem : gatedOf c cfg now ∈ ((cs.map (gate cfg now displayFloor)).filterMap
      Sum.getRight?).insertionSort fun x y => rankOrder x y ≠ .gt := by
    refine (List.mem_insertionSort _).mpr (List.mem_filterMap.mpr ⟨_, List.mem_map_of_mem hc, ?_⟩)
    rw [gate_of_passes h]
    rfl
  obtain ⟨v, hv⟩ := @exists_capPass F cfg maxItems {} 0 _ _ hmem
  refine ⟨v, ?_⟩
  unfold select
  refine List.mem_append_left _ (List.mem_append.mpr ?_)
  by_cases hs : ((gatedOf c cfg now).intoDecision v).isSelected = true
  · exact Or.inl (List.mem_filter.mpr ⟨hv, hs⟩)
  · exact Or.inr (List.mem_filter.mpr ⟨hv, by simpa using hs⟩)

/-- The decisions with a cause of a drop are those of the candidates a gate drops for it. -/
theorem mem_select_dropped {d : Decision F} {cause : DropCause} :
    d ∈ select cs cfg maxItems now displayFloor ∧ d.verdict = .dropped cause ↔
      ∃ c ∈ cs, gate cfg now displayFloor c = .inl (dropDecision c cfg cause) ∧
        d = dropDecision c cfg cause := by
  constructor
  · intro h
    obtain ⟨hd, hverdict⟩ := h
    unfold select at hd
    rcases List.mem_append.mp hd with hd | hd
    · exfalso
      have hdecided : d ∈ capPass cfg maxItems {} 0
          (((cs.map (gate cfg now displayFloor)).filterMap Sum.getRight?).insertionSort
            fun x y => rankOrder x y ≠ .gt) := by
        rcases List.mem_append.mp hd with hd | hd
        · exact (List.mem_filter.mp hd).1
        · exact (List.mem_filter.mp hd).1
      exact capPass_not_dropped hdecided hverdict
    · obtain ⟨o, ho, hdo⟩ := List.mem_filterMap.mp ((List.mem_insertionSort _).mp hd)
      obtain ⟨c, hc, rfl⟩ := List.mem_map.mp ho
      have hgate := Sum.getLeft?_eq_some_iff.mp hdo
      obtain ⟨cause', rfl⟩ := gate_eq_inl hgate
      cases hverdict
      exact ⟨c, hc, hgate, rfl⟩
  · intro h
    obtain ⟨c, hc, hgate, rfl⟩ := h
    refine ⟨?_, rfl⟩
    unfold select
    refine List.mem_append_right _ ((List.mem_insertionSort _).mpr (List.mem_filterMap.mpr
      ⟨_, List.mem_map_of_mem hc, ?_⟩))
    rw [hgate]
    rfl

theorem gate_stale {c : Candidate F} :
    gate cfg now displayFloor c = .inl (dropDecision c cfg .staleForCadence) ↔
      c.lastEventTime < displayFloor := by
  unfold gate
  by_cases hstale : c.lastEventTime < displayFloor
  · simp [hstale]
  · by_cases hfloor : Score.lt (relevance c cfg) cfg.relevanceFloor = true
    · simp [hstale, hfloor, dropDecision]
    · simp [hstale, hfloor]

theorem gate_below {c : Candidate F} :
    gate cfg now displayFloor c = .inl (dropDecision c cfg .belowFloor) ↔
      ¬ c.lastEventTime < displayFloor ∧
        Score.lt (relevance c cfg) cfg.relevanceFloor = true := by
  unfold gate
  by_cases hstale : c.lastEventTime < displayFloor
  · simp [hstale, dropDecision]
  · by_cases hfloor : Score.lt (relevance c cfg) cfg.relevanceFloor = true
    · simp [hstale, hfloor]
    · simp [hstale, hfloor]

/-- Too old to show is the cause of a drop exactly for the candidates below the display floor. -/
theorem select_stale {d : Decision F} : d ∈ select cs cfg maxItems now displayFloor ∧
    d.verdict = .dropped .staleForCadence ↔
      ∃ c ∈ cs, c.lastEventTime < displayFloor ∧ d = dropDecision c cfg .staleForCadence := by
  rw [mem_select_dropped]
  simp only [gate_stale]

theorem select_below {d : Decision F} : d ∈ select cs cfg maxItems now displayFloor ∧
    d.verdict = .dropped .belowFloor ↔
      ∃ c ∈ cs, (¬ c.lastEventTime < displayFloor ∧
        Score.lt (relevance c cfg) cfg.relevanceFloor = true) ∧
          d = dropDecision c cfg .belowFloor := by
  rw [mem_select_dropped]
  simp only [gate_below]

/-! ## The re-surface budget -/

def Decision.resurfaces {F : Type} (d : Decision F) : Bool :=
  d.isSelected && d.richness == stillDeveloping

theorem richnessOf_ne_stillDeveloping (sourceDiversity eventCount : Int)
    (contentDepth : ContentKind) :
    (richnessOf sourceDiversity eventCount contentDepth).2 ≠ stillDeveloping := by
  unfold richnessOf
  by_cases hsource : sourceDiversity > 1
  · rw [if_pos hsource]
    decide
  rw [if_neg hsource]
  by_cases hevent : eventCount > 1
  · rw [if_pos hevent]
    decide
  rw [if_neg hevent]
  cases contentDepth <;> decide

theorem gatedOf_richness {c : Candidate F} :
    (gatedOf c cfg now).richness = stillDeveloping ↔ c.stale = true := by
  show (if c.stale then stillDeveloping else (richness c).2) = _ ↔ _
  by_cases hstale : c.stale = true
  · rw [if_pos hstale]
    exact ⟨fun _ => hstale, fun _ => rfl⟩
  · rw [if_neg hstale]
    exact ⟨fun h => absurd h (richnessOf_ne_stillDeveloping _ _ _), fun h => absurd h hstale⟩

omit [SelectScore F] in
theorem capPass_resurfaces {st : CapState} {rank : Nat} {gs : List (Gated F)}
    (hst : st.resurfaced ≤ cfg.resurfaceCap)
    (hgs : ∀ g ∈ gs, g.richness = stillDeveloping → g.resurfaced = true) :
    ((capPass cfg maxItems st rank gs).filter (·.resurfaces)).length + st.resurfaced ≤
      cfg.resurfaceCap := by
  induction gs generalizing st rank with
  | nil => simpa [capPass] using hst
  | cons g gs ih =>
      have hrest : ∀ g ∈ gs, g.richness = stillDeveloping → g.resurfaced = true :=
        fun g' hg' => hgs g' (List.mem_cons_of_mem _ hg')
      unfold capPass
      by_cases hfits : st.fits cfg maxItems g = true
      · rw [if_pos hfits]
        by_cases hre : g.resurfaced = true
        · have hlt : st.resurfaced < cfg.resurfaceCap := by
            unfold CapState.fits at hfits
            simp only [hre, Bool.not_true, Bool.false_or, Bool.and_eq_true,
              decide_eq_true_eq] at hfits
            exact hfits.1.1.2
          have htake : (st.take g).resurfaced = st.resurfaced + 1 := by simp [CapState.take, hre]
          have hnext := @ih (st.take g) (rank + 1) (by omega) hrest
          have hone : ((g.intoDecision (.selected st.position) ::
              capPass cfg maxItems (st.take g) (rank + 1) gs).filter (·.resurfaces)).length ≤
              ((capPass cfg maxItems (st.take g) (rank + 1) gs).filter (·.resurfaces)).length + 1 := by
            rw [List.filter_cons]
            split <;> simp
          omega
        · have htake : (st.take g).resurfaced = st.resurfaced := by simp [CapState.take, hre]
          have hnext := @ih (st.take g) (rank + 1) (by omega) hrest
          have hnot : (g.intoDecision (.selected st.position)).resurfaces = false := by
            unfold Decision.resurfaces
            rw [Bool.and_eq_false_iff]
            exact Or.inr (beq_false_of_ne fun heq => hre (hgs g List.mem_cons_self heq))
          rw [List.filter_cons_of_neg (by rw [hnot]; simp)]
          omega
      · rw [if_neg hfits, List.filter_cons_of_neg (by simp [Decision.resurfaces, Decision.isSelected,
          Gated.intoDecision])]
        exact ih hst hrest

theorem select_resurfaces :
    ((select cs cfg maxItems now displayFloor).filter (·.resurfaces)).length ≤
      cfg.resurfaceCap := by
  have hranked : ∀ g ∈ ((cs.map (gate cfg now displayFloor)).filterMap Sum.getRight?).insertionSort
      (fun x y => rankOrder x y ≠ .gt), g.richness = stillDeveloping → g.resurfaced = true := by
    intro g hg hrich
    obtain ⟨o, ho, hgo⟩ := List.mem_filterMap.mp ((List.mem_insertionSort _).mp hg)
    obtain ⟨c, hc, rfl⟩ := List.mem_map.mp ho
    obtain rfl := gate_eq_inr (Sum.getRight?_eq_some_iff.mp hgo)
    exact gatedOf_richness.mp hrich
  have hbudget := @capPass_resurfaces F cfg maxItems {} 0 _ (Nat.zero_le _) hranked
  have hdropped : ∀ d ∈ ((cs.map (gate cfg now displayFloor)).filterMap Sum.getLeft?).insertionSort
      (fun x y => x.id ≤ y.id), ¬ d.resurfaces = true := by
    intro d hd
    obtain ⟨o, ho, hdo⟩ := List.mem_filterMap.mp ((List.mem_insertionSort _).mp hd)
    obtain ⟨c, hc, rfl⟩ := List.mem_map.mp ho
    obtain ⟨cause, rfl⟩ := gate_eq_inl (Sum.getLeft?_eq_some_iff.mp hdo)
    simp [Decision.resurfaces, Decision.isSelected, dropDecision]
  unfold select
  dsimp only
  rw [List.filter_append, List.filter_append, List.filter_eq_nil_iff.mpr hdropped, List.append_nil]
  have hover : ((capPass cfg maxItems {} 0 (((cs.map (gate cfg now displayFloor)).filterMap
      Sum.getRight?).insertionSort fun x y => rankOrder x y ≠ .gt)).filter
        fun d => !d.isSelected).filter (·.resurfaces) = [] := by
    refine List.filter_eq_nil_iff.mpr ?_
    intro d hd
    have hnot := (List.mem_filter.mp hd).2
    simp only [Bool.not_eq_true'] at hnot
    simp [Decision.resurfaces, hnot]
  rw [hover, List.append_nil]
  have hle : (((capPass cfg maxItems {} 0 (((cs.map (gate cfg now displayFloor)).filterMap
      Sum.getRight?).insertionSort fun x y => rankOrder x y ≠ .gt)).filter
        (·.isSelected)).filter (·.resurfaces)).length ≤
      ((capPass cfg maxItems {} 0 (((cs.map (gate cfg now displayFloor)).filterMap
      Sum.getRight?).insertionSort fun x y => rankOrder x y ≠ .gt)).filter (·.resurfaces)).length :=
    (List.filter_sublist.filter _).length_le
  exact le_trans hle hbudget

/-! ## Positions -/

omit [SelectScore F] in
theorem capPass_position {st : CapState} {rank k : Nat} {gs : List (Gated F)} {d : Decision F}
    (h : ((capPass cfg maxItems st rank gs).filter (·.isSelected))[k]? = some d) :
    d.verdict = .selected (st.position + k) := by
  induction gs generalizing st rank k with
  | nil => cases h
  | cons g gs ih =>
      unfold capPass at h
      by_cases hfits : st.fits cfg maxItems g = true
      · rw [if_pos hfits, List.filter_cons_of_pos rfl] at h
        cases k with
        | zero =>
            obtain rfl := Option.some.inj h
            rfl
        | succ k =>
            have hnext : d.verdict = .selected ((st.take g).position + k) := ih h
            rw [hnext]
            show Verdict.selected (st.position + 1 + k) = _
            congr 1
            omega
      · rw [if_neg hfits, List.filter_cons_of_neg (by simp [Decision.isSelected, Gated.intoDecision])] at h
        exact ih h

theorem select_selected :
    (select cs cfg maxItems now displayFloor).filter (·.isSelected) =
      (capPass cfg maxItems {} 0 (((cs.map (gate cfg now displayFloor)).filterMap
        Sum.getRight?).insertionSort fun x y => rankOrder x y ≠ .gt)).filter (·.isSelected) := by
  have hdropped : ∀ d ∈ ((cs.map (gate cfg now displayFloor)).filterMap Sum.getLeft?).insertionSort
      (fun x y => x.id ≤ y.id), ¬ d.isSelected = true := by
    intro d hd
    obtain ⟨o, ho, hdo⟩ := List.mem_filterMap.mp ((List.mem_insertionSort _).mp hd)
    obtain ⟨c, hc, rfl⟩ := List.mem_map.mp ho
    obtain ⟨cause, rfl⟩ := gate_eq_inl (Sum.getLeft?_eq_some_iff.mp hdo)
    simp [Decision.isSelected, dropDecision]
  have hover : ∀ ds : List (Decision F),
      (ds.filter fun d => !d.isSelected).filter (·.isSelected) = [] := by
    intro ds
    refine List.filter_eq_nil_iff.mpr ?_
    intro d hd
    simpa using (List.mem_filter.mp hd).2
  unfold select
  dsimp only
  rw [List.filter_append, List.filter_append, List.filter_eq_nil_iff.mpr hdropped,
    hover, List.append_nil, List.append_nil, List.filter_filter]
  simp only [Bool.and_self]

theorem select_position {k : Nat} {d : Decision F}
    (h : ((select cs cfg maxItems now displayFloor).filter (·.isSelected))[k]? = some d) :
    d.verdict = .selected k := by
  rw [select_selected] at h
  simpa using capPass_position h

end Output

end Bulletin
