import Bulletin.Core.Buckets
import Bulletin.Thread.Model

/-! # A maintenance pass

A pass folds the care signals since its cursor and the stories of the window into the
threads. Each thread of before ends up in one upsert, as the one that is kept or among the
absorbed.
-/

namespace Bulletin

/-- A story as a pass counts it. -/
structure StorySource where
  entities : List String
  sources : List SourceKind
  lastEventTime : DateTime
deriving DecidableEq, Repr

/-- A live thread as a pass loads it. -/
structure ThreadRow (F : Type) where
  id : Uuid
  origin : ThreadOrigin
  pinned : Bool
  affinity : F
  entities : List String
  firstSeen : Option DateTime
  lastStoryTime : Option DateTime

def ThreadRow.asExisting {F : Type} (row : ThreadRow F) : ExistingThread where
  id := row.id
  entities := row.entities
  pinned := row.pinned

/-- What a pass writes of a thread: a new one for no id. -/
structure ThreadUpsert (F : Type) where
  id : Option Uuid
  origin : ThreadOrigin
  pinned : Bool
  entities : List String
  affinity : F
  state : ThreadState
  confidence : ConfidenceBand
  storyCount : Int
  sourceDiversity : Int
  baselineRate : F
  firstSeen : Option DateTime
  lastStoryTime : Option DateTime
  absorb : List Uuid

structure MaintenanceConfig (F : Type) where
  window : Int
  matchThreshold : F
  /-- Affinity for each new story. -/
  engagementWeight : F
  affinityMax : F
  horizons : Horizons

def MaintenanceConfig.default (F : Type) [Score F] : MaintenanceConfig F where
  window := daysInterval 90
  matchThreshold := Score.lit (3 / 10)
  engagementWeight := Score.lit (1 / 2)
  affinityMax := Score.lit 20
  horizons := {}

inductive Signal where
  | careMore
  | careLess
  | done
  | mustLink
  | cannotLink
deriving DecidableEq, Repr

/-- What a signal on a thread moves its affinity by; links act on the identity graph. -/
def Signal.affinityDelta {F : Type} [Score F] : Signal → F
  | careMore => Score.lit 1
  | careLess => Score.lit (-1)
  | done => Score.lit (-5)
  | mustLink | cannotLink => Score.lit 0

structure ThreadCare (F : Type) where
  threadId : Uuid
  delta : F

/-- Tokens of publishers and of single articles are not what a thread is about. -/
def isThreadSpineEntity (entity : String) : Bool :=
  !startsWith entity "domain:" && !startsWith entity "url:"

def StorySource.spine (s : StorySource) : StorySource :=
  { s with entities := s.entities.filter isThreadSpineEntity }

def ThreadRow.spine {F : Type} (row : ThreadRow F) : ThreadRow F :=
  { row with entities := row.entities.filter isThreadSpineEntity }

theorem spine_ids {F : Type} (prior : List (ThreadRow F)) :
    (prior.map (·.spine)).map (·.id) = prior.map (·.id) := by
  rw [List.map_map]
  rfl

def StorySource.overlaps (entities : List String) (s : StorySource) : Bool :=
  s.entities.any (· ∈ entities)

def ConfidenceBand.rank : ConfidenceBand → Nat
  | confirmed => 0
  | probable => 1
  | uncertain => 2

def ConfidenceBand.weaker (a b : ConfidenceBand) : ConfidenceBand :=
  if a.rank ≤ b.rank then b else a

/-- The stories on a thread with an event since the pass before. -/
def newStories (entities : List String) (sources : List StorySource) (since : DateTime) : Nat :=
  ((sources.filter (·.overlaps entities)).filter fun s => since < s.lastEventTime).length

section Pass

variable {F : Type} [SelectScore F]

def scoredAffinity (prior : Option (ThreadRow F)) (newStories : Nat) (careDelta : F)
    (since now : DateTime) (cfg : MaintenanceConfig F) : F :=
  decayAffinity ((prior.map (·.affinity)).getD (Score.lit 0)) (max (now - since) 0)
    cfg.horizons.affinityHalfLife (careDelta + cfg.engagementWeight * Score.lit newStories)
    cfg.affinityMax

/-- The state of a thread after the pass, from the stories that overlap its entities. -/
def buildUpsert (id : Option Uuid) (absorb : List Uuid) (entities : List String)
    (prior : Option (ThreadRow F)) (sources : List StorySource) (resolution : Resolution)
    (careDelta : F) (since now : DateTime) (cfg : MaintenanceConfig F) : ThreadUpsert F :=
  let own := sources.filter (·.overlaps entities)
  let lastStoryTime := own.foldl (fun t s => some (t.elim s.lastEventTime (max · s.lastEventTime)))
    (prior.bind (·.lastStoryTime))
  let firstSeen := own.foldl (fun t s => some (t.elim s.lastEventTime (min · s.lastEventTime)))
    (prior.bind (·.firstSeen))
  let pinned := prior.any (·.pinned)
  { id := id
    origin := (prior.map (·.origin)).getD .emergent
    pinned := pinned
    entities := entities
    affinity := scoredAffinity prior (newStories entities sources since) careDelta since now cfg
    state := ThreadState.transition lastStoryTime now pinned cfg.horizons
    confidence := (entities.map resolution.bandOf).foldl ConfidenceBand.weaker .confirmed
    storyCount := own.length
    sourceDiversity := (own.flatMap (·.sources)).dedup.length
    baselineRate := Score.lit own.length /
      Score.max (Score.lit (numSeconds cfg.window) / Score.lit 86400) (Score.lit 1)
    firstSeen := firstSeen.or (some now)
    lastStoryTime := lastStoryTime
    absorb := absorb }

def careByThread (care : List (ThreadCare F)) : Std.ExtTreeMap Uuid F compare :=
  care.foldl (fun deltas c =>
    deltas.insert c.threadId (deltas.getD c.threadId (Score.lit 0) + c.delta)) ∅

def ThreadUpsert.ids (u : ThreadUpsert F) : List Uuid := u.id.toList ++ u.absorb

def careFor (care : List (ThreadCare F)) (id : Option Uuid) (absorb : List Uuid) : F :=
  let deltas : Std.ExtTreeMap Uuid F compare := careByThread care
  (id.elim (Score.lit 0) fun id => deltas.getD id (Score.lit 0)) +
    (absorb.filterMap fun l => deltas[l]?).foldl (· + ·) (Score.lit 0)

/-- The threads that no community has claimed. -/
def unclaimed (candidates : List (List String)) (prior : List (ThreadRow F)) (matchThreshold : F) :
    List (ThreadRow F) :=
  let claimed := (mapCommunitiesToThreads candidates (prior.map (·.asExisting))
    matchThreshold).flatMap (·.ids)
  prior.filter fun t => t.id ∉ claimed

/-- What a pass writes: the mapped threads, then those no community claimed. -/
def maintainUpserts (candidates : List (List String)) (resolution : Resolution)
    (sources : List StorySource) (prior : List (ThreadRow F)) (care : List (ThreadCare F))
    (since now : DateTime) (cfg : MaintenanceConfig F) : List (ThreadUpsert F) :=
  let mappings := mapCommunitiesToThreads candidates (prior.map (·.asExisting)) cfg.matchThreshold
  let mapped := mappings.map fun m =>
    buildUpsert m.winner m.absorb m.entities
      (m.winner.bind fun id => prior.find? fun t => t.id = id) sources resolution
      (careFor care m.winner m.absorb) since now cfg
  let carried := (unclaimed candidates prior cfg.matchThreshold).map fun t =>
    buildUpsert (some t.id) [] t.entities (some t) sources resolution
      (careFor care (some t.id) []) since now cfg
  mapped ++ carried

/-! ## What a pass writes -/

variable {candidates : List (List String)} {resolution : Resolution} {sources : List StorySource}
  {prior : List (ThreadRow F)} {care : List (ThreadCare F)} {since now : DateTime}
  {cfg : MaintenanceConfig F}

theorem mapCommunities_entities {existing : List ExistingThread} {matchThreshold : F}
    {claimed : List Uuid} : (mapCommunities existing matchThreshold claimed candidates).map
      (·.entities) = candidates := by
  induction candidates generalizing claimed with
  | nil => rfl
  | cons cand cands ih =>
      have hone : ∀ ms : List ExistingThread, (mapCommunity cand ms).1.entities = cand := by
        intro ms
        match ms with
        | [] => rfl
        | [_] => rfl
        | _ :: _ :: _ => rfl
      rw [mapCommunities, List.map_cons, hone, ih]

/-- The spines a pass writes are the communities and those of the threads it carries forward. -/
theorem maintainUpserts_entities :
    (maintainUpserts candidates resolution sources prior care since now cfg).map (·.entities) =
      candidates ++ (unclaimed candidates prior cfg.matchThreshold).map (·.entities) := by
  unfold maintainUpserts
  dsimp only
  rw [List.map_append, List.map_map, List.map_map]
  exact congrArg₂ (· ++ ·) mapCommunities_entities rfl

theorem maintainUpserts_affinity {u : ThreadUpsert F}
    (hu : u ∈ maintainUpserts candidates resolution sources prior care since now cfg) :
    ∃ before, u.affinity = scoredAffinity before (newStories u.entities sources since)
      (careFor care u.id u.absorb) since now cfg := by
  rcases List.mem_append.mp hu with hin | hin
  · obtain ⟨m, _, rfl⟩ := List.mem_map.mp hin
    exact ⟨_, rfl⟩
  · obtain ⟨t, _, rfl⟩ := List.mem_map.mp hin
    exact ⟨_, rfl⟩

theorem maintainUpserts_ids_eq :
    (maintainUpserts candidates resolution sources prior care since now cfg).flatMap (·.ids) =
      let claimed := (mapCommunitiesToThreads candidates (prior.map (·.asExisting))
        cfg.matchThreshold).flatMap (·.ids)
      claimed ++ (prior.filter fun t => t.id ∉ claimed).map (·.id) := by
  have hone : ∀ ts : List (ThreadRow F), ts.map (·.id) = ts.flatMap fun t => [t.id] := by
    intro ts
    induction ts with
    | nil => rfl
    | cons t ts ih => simp [ih]
  unfold maintainUpserts
  dsimp only
  rw [List.flatMap_append, List.flatMap_map, List.flatMap_map, hone]
  rfl

theorem maintainUpserts_ids (hnodup : (prior.map (·.id)).Nodup) :
    ((maintainUpserts candidates resolution sources prior care since now cfg).flatMap (·.ids)).Perm
      (prior.map (·.id)) := by
  have hids : (prior.map (·.asExisting)).map (·.id) = prior.map (·.id) := by
    rw [List.map_map]
    rfl
  obtain ⟨hclaimed, hin⟩ := @mapCommunities_ids F _ (prior.map (·.asExisting)) cfg.matchThreshold []
    candidates (hids ▸ hnodup)
  rw [hids] at hin
  rw [maintainUpserts_ids_eq]
  refine (List.perm_ext_iff_of_nodup ?_ hnodup).mpr ?_
  · refine List.nodup_append.mpr ⟨hclaimed, hnodup.sublist (List.filter_sublist.map _), ?_⟩
    intro a ha b hb heq
    obtain ⟨t, ht, rfl⟩ := List.mem_map.mp hb
    exact of_decide_eq_true (List.mem_filter.mp ht).2 (heq ▸ ha)
  · intro id
    rw [List.mem_append]
    constructor
    · intro h
      rcases h with h | h
      · exact (hin id h).2
      · exact (List.filter_sublist.map _).subset h
    · intro h
      obtain ⟨t, ht, rfl⟩ := List.mem_map.mp h
      by_cases hmem : t.id ∈ (mapCommunitiesToThreads candidates (prior.map (·.asExisting))
          cfg.matchThreshold).flatMap (·.ids)
      · exact Or.inl hmem
      · exact Or.inr (List.mem_map_of_mem (List.mem_filter.mpr ⟨ht, decide_eq_true hmem⟩))

end Pass

/-! ## Care in exact arithmetic -/

theorem careByThread_getD (care : List (ThreadCare ℚ)) (id : Uuid) :
    (careByThread care).getD id 0 = ((care.filter (·.threadId = id)).map (·.delta)).sum := by
  unfold careByThread
  have hsum := Buckets.getD_foldl_add (fun c : ThreadCare ℚ => c.threadId) (·.delta) care
    (∅ : Std.ExtTreeMap Uuid ℚ compare) id
  simpa [Score.lit] using hsum

theorem sum_care_mem (care : List (ThreadCare ℚ)) {ids : List Uuid} (hnodup : ids.Nodup) :
    ((care.filter (·.threadId ∈ ids)).map (·.delta)).sum =
      (ids.map fun id => ((care.filter (·.threadId = id)).map (·.delta)).sum).sum := by
  induction ids with
  | nil => simp
  | cons id ids ih =>
      obtain ⟨hid, hids⟩ := List.nodup_cons.mp hnodup
      rw [List.map_cons, List.sum_cons, ← ih hids]
      simp only [List.mem_cons, Bool.decide_or]
      clear ih
      -- no signal is both on the first thread and on one of the others
      induction care with
      | nil => simp
      | cons c care ih =>
          by_cases hfirst : c.threadId = id
          · subst hfirst
            simp [hid, ih, add_assoc]
          · by_cases hrest : c.threadId ∈ ids
            · simp [hfirst, hrest, ih, add_left_comm]
            · simp [hfirst, hrest, ih]

theorem careFor_eq_ids (care : List (ThreadCare ℚ)) (id : Option Uuid) (absorb : List Uuid) :
    careFor care id absorb = ((id.toList ++ absorb).map fun id =>
      ((care.filter (·.threadId = id)).map (·.delta)).sum).sum := by
  have habsorb : ∀ deltas : Std.ExtTreeMap Uuid ℚ compare, ∀ start : ℚ,
      (absorb.filterMap fun l => deltas[l]?).foldl (· + ·) start =
        start + (absorb.map fun l => deltas.getD l 0).sum := by
    intro deltas
    induction absorb with
    | nil => simp
    | cons l absorb ih =>
        intro start
        rw [List.map_cons, List.sum_cons, Std.ExtTreeMap.getD_eq_getD_getElem?]
        cases hl : deltas[l]? with
        | none => simp [hl, ih]
        | some delta => simp [hl, ih, add_assoc]
  rw [List.map_append, List.sum_append]
  simp only [← careByThread_getD]
  unfold careFor
  dsimp only
  rw [habsorb]
  cases id with
  | none => simp [Score.lit]
  | some id => simp [Score.lit]

theorem careFor_eq_sum (care : List (ThreadCare ℚ)) (id : Option Uuid) (absorb : List Uuid)
    (hnodup : (id.toList ++ absorb).Nodup) :
    careFor care id absorb =
      ((care.filter (·.threadId ∈ id.toList ++ absorb)).map (·.delta)).sum := by
  rw [sum_care_mem care hnodup, careFor_eq_ids]

end Bulletin
