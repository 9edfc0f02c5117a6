import Bulletin.Identity.Resolve
import Bulletin.Thread.Maintain

/-! # Aliases in a pass

The communities of a pass are made of representatives, and the stories it counts keep the tokens
they came with. A thread is scored as over resolved stories when no story meets it by an alias
alone.
-/

namespace Bulletin

/-- The story with each token replaced by what stands for it. -/
def StorySource.resolved (resolution : Resolution) (s : StorySource) : StorySource :=
  { s with entities := s.entities.map resolution.representative }

section Aliases

variable {F : Type}

structure ThreadMetrics (F : Type) where
  storyCount : Int
  sourceDiversity : Int
  lastStoryTime : Option DateTime
  affinity : F
  state : ThreadState
deriving DecidableEq

def ThreadUpsert.metrics (u : ThreadUpsert F) : ThreadMetrics F where
  storyCount := u.storyCount
  sourceDiversity := u.sourceDiversity
  lastStoryTime := u.lastStoryTime
  affinity := u.affinity
  state := u.state

/-- On every spine the story has a token just when a token of it is represented there. -/
def SpineAgrees (resolution : Resolution) (spines : List (List String))
    (sources : List StorySource) : Prop :=
  ∀ spine ∈ spines, ∀ s ∈ sources,
    (∃ e ∈ s.entities, e ∈ spine) ↔ ∃ e ∈ s.entities, resolution.representative e ∈ spine

variable [SelectScore F]

/-- The pass over the resolved stories measures what the pass over the stories does, and counts
no story that the other leaves out. -/
def AliasBlind (candidates : List (List String)) (resolution : Resolution)
    (sources : List StorySource) (prior : List (ThreadRow F)) (care : List (ThreadCare F))
    (since now : DateTime) (cfg : MaintenanceConfig F) : Prop :=
  let upserts := maintainUpserts candidates resolution sources prior care since now cfg
  let resolved := maintainUpserts candidates resolution (sources.map (·.resolved resolution)) prior
    care since now cfg
  upserts.map (·.metrics) = resolved.map (·.metrics) ∧
    ∀ u ∈ upserts,
      newStories u.entities sources since =
        newStories u.entities (sources.map (·.resolved resolution)) since ∧
      ∀ s ∈ sources, (s.resolved resolution).overlaps u.entities → s.overlaps u.entities

instance [DecidableEq F] (candidates : List (List String)) (resolution : Resolution)
    (sources : List StorySource) (prior : List (ThreadRow F)) (care : List (ThreadCare F))
    (since now : DateTime) (cfg : MaintenanceConfig F) :
    Decidable (AliasBlind candidates resolution sources prior care since now cfg) :=
  inferInstanceAs (Decidable (_ ∧ _))

variable {candidates : List (List String)} {resolution : Resolution} {sources : List StorySource}
  {prior : List (ThreadRow F)} {care : List (ThreadCare F)} {since now : DateTime}
  {cfg : MaintenanceConfig F} {entities : List String}

omit [SelectScore F] in
theorem overlaps_iff {s : StorySource} :
    s.overlaps entities = true ↔ ∃ e ∈ s.entities, e ∈ entities := by
  simp [StorySource.overlaps]

omit [SelectScore F] in
theorem resolved_overlaps_iff {s : StorySource} :
    (s.resolved resolution).overlaps entities = true ↔
      ∃ e ∈ s.entities, resolution.representative e ∈ entities := by
  simp [StorySource.overlaps, StorySource.resolved]

omit [SelectScore F] in
theorem filter_resolved
    (h : ∀ s ∈ sources, s.overlaps entities = (s.resolved resolution).overlaps entities) :
    (sources.map (·.resolved resolution)).filter (·.overlaps entities) =
      (sources.filter (·.overlaps entities)).map (·.resolved resolution) := by
  rw [List.filter_map]
  congr 1
  exact List.filter_congr fun s hs => (h s hs).symm

omit [SelectScore F] in
theorem newStories_resolved
    (h : ∀ s ∈ sources, s.overlaps entities = (s.resolved resolution).overlaps entities) :
    newStories entities (sources.map (·.resolved resolution)) since =
      newStories entities sources since := by
  unfold newStories
  rw [filter_resolved h, List.filter_map, List.length_map]
  rfl

theorem buildUpsert_resolved {id : Option Uuid} {absorb : List Uuid} {before : Option (ThreadRow F)}
    {careDelta : F}
    (h : ∀ s ∈ sources, s.overlaps entities = (s.resolved resolution).overlaps entities) :
    buildUpsert id absorb entities before (sources.map (·.resolved resolution)) resolution careDelta
        since now cfg =
      buildUpsert id absorb entities before sources resolution careDelta since now cfg := by
  unfold buildUpsert
  dsimp only
  rw [newStories_resolved h, filter_resolved h]
  simp only [List.foldl_map, List.flatMap_map, List.length_map, StorySource.resolved]

omit [SelectScore F] in
/-- Of two tests the wider one accepts as many elements as the other only where both agree. -/
theorem agree_of_countP {α : Type} {wide narrow : α → Bool} {l : List α}
    (hle : ∀ a ∈ l, narrow a = true → wide a = true)
    (hcount : l.countP wide = l.countP narrow) : ∀ a ∈ l, wide a = narrow a := by
  induction l with
  | nil => simp
  | cons a l ih =>
      have hrest := List.countP_mono_left fun x hx => hle x (List.mem_cons_of_mem _ hx)
      have hfirst := hle a List.mem_cons_self
      rw [List.countP_cons, List.countP_cons] at hcount
      have hsame : wide a = narrow a := by
        cases hwide : wide a <;> cases hnarrow : narrow a
        · rfl
        · simp [hwide, hnarrow] at hfirst
        · simp only [hwide, hnarrow, if_true, Bool.false_eq_true, if_false] at hcount
          omega
        · rfl
      rw [hsame] at hcount
      intro x hx
      rcases List.mem_cons.mp hx with rfl | hx
      · exact hsame
      · exact ih (fun x hx => hle x (List.mem_cons_of_mem _ hx)) (by omega) x hx

theorem maintainUpserts_storyCount :
    (maintainUpserts candidates resolution sources prior care since now cfg).map (·.storyCount) =
      (candidates ++ (unclaimed candidates prior cfg.matchThreshold).map (·.entities)).map
        fun spine => (sources.countP (·.overlaps spine) : Int) := by
  have hspines :=
    @maintainUpserts_entities F _ candidates resolution sources prior care since now cfg
  rw [← hspines, List.map_map]
  refine List.map_congr_left ?_
  intro u hu
  rcases List.mem_append.mp hu with hin | hin
  · obtain ⟨m, _, rfl⟩ := List.mem_map.mp hin
    simp [buildUpsert, List.countP_eq_length_filter]
  · obtain ⟨t, _, rfl⟩ := List.mem_map.mp hin
    simp [buildUpsert, List.countP_eq_length_filter]

/-- Where every spine meets the same stories, the pass over the resolved ones is the same pass. -/
theorem maintainUpserts_resolved
    (h : ∀ spine ∈ candidates ++ (unclaimed candidates prior cfg.matchThreshold).map (·.entities),
      ∀ s ∈ sources, s.overlaps spine = (s.resolved resolution).overlaps spine) :
    maintainUpserts candidates resolution (sources.map (·.resolved resolution)) prior care since now
        cfg =
      maintainUpserts candidates resolution sources prior care since now cfg := by
  unfold maintainUpserts
  dsimp only
  congr 1
  · refine List.map_congr_left ?_
    intro m hm
    have hin : m.entities ∈ candidates := by
      have hmem := List.mem_map_of_mem (f := (·.entities)) hm
      rwa [mapCommunitiesToThreads, mapCommunities_entities] at hmem
    exact buildUpsert_resolved (h _ (List.mem_append_left _ hin))
  · refine List.map_congr_left ?_
    intro t ht
    exact buildUpsert_resolved (h _ (List.mem_append_right _ (List.mem_map_of_mem ht)))

/-- A pass is blind to aliases just when each spine meets the tokens and the representatives of
the same stories. -/
theorem alias_blind_iff (candidates : List (List String)) (resolution : Resolution)
    (sources : List StorySource) (prior : List (ThreadRow F)) (care : List (ThreadCare F))
    (since now : DateTime) (cfg : MaintenanceConfig F) :
    AliasBlind candidates resolution sources prior care since now cfg ↔
      SpineAgrees resolution
        (candidates ++ (unclaimed candidates prior cfg.matchThreshold).map (·.entities)) sources := by
  have hspines :=
    @maintainUpserts_entities F _ candidates resolution sources prior care since now cfg
  constructor
  · rintro ⟨hmetrics, hcounted⟩ spine hspine
    have hcounts := congrArg (List.map ThreadMetrics.storyCount) hmetrics
    rw [List.map_map, List.map_map] at hcounts
    have hcount := maintainUpserts_storyCount.symm.trans (hcounts.trans maintainUpserts_storyCount)
    have hone := List.map_inj_left.mp hcount spine hspine
    rw [List.countP_map] at hone
    rw [← hspines] at hspine
    obtain ⟨u, hu, rfl⟩ := List.mem_map.mp hspine
    have hagree := agree_of_countP (hcounted u hu).2 (Int.ofNat_inj.mp hone)
    intro s hs
    rw [← overlaps_iff, ← resolved_overlaps_iff, hagree s hs]
  · intro h
    have hagree : ∀ spine ∈ candidates ++
        (unclaimed candidates prior cfg.matchThreshold).map (·.entities),
        ∀ s ∈ sources, s.overlaps spine = (s.resolved resolution).overlaps spine := by
      intro spine hspine s hs
      rw [Bool.eq_iff_iff, overlaps_iff, resolved_overlaps_iff]
      exact h spine hspine s hs
    refine ⟨by rw [maintainUpserts_resolved hagree], ?_⟩
    intro u hu
    have hspine := List.mem_map_of_mem (f := (·.entities)) hu
    rw [hspines] at hspine
    refine ⟨(newStories_resolved (hagree _ hspine)).symm, ?_⟩
    intro s hs hcounts
    rwa [hagree _ hspine s hs]

end Aliases

def aliasedStories : List StorySource :=
  [{ entities := ["repo:acme", "user:dana"], sources := [.github], lastEventTime := 3 },
   { entities := ["user:dlewis"], sources := [.rss], lastEventTime := 4 }]

def aliasedUsers : Resolution :=
  Identity.resolve ["repo:acme", "user:dana", "user:dlewis"]
    [(Identity.Edge.ofSource "user:dana" "user:dlewis" .feedback : Identity.Edge ℚ)] [] (1 / 2) []

/-- The second story is one of the thread by its alias, and is not counted. -/
theorem aliased_story_uncounted :
    ¬ AliasBlind [["repo:acme", "user:dana"]] aliasedUsers aliasedStories [] [] 0 5
      (MaintenanceConfig.default ℚ) := by
  decide +kernel

end Bulletin
