import Std.Data.ExtTreeMap
import Bulletin.Common.Entity
import Bulletin.Digest.Select

/-! # Threads

A thread outlives the stories that feed it. A maintenance pass matches the communities of
the day with the threads of before, oldest id first, and moves the affinity of each.
-/

namespace Bulletin

inductive ThreadOrigin where
  | declared
  | emergent
deriving DecidableEq, Repr

inductive ThreadState where
  | active
  | dormant
  | archived
deriving DecidableEq, Repr

structure Horizons where
  dormancy : Int := daysInterval 21
  archive : Int := daysInterval 90
  affinityHalfLife : Int := daysInterval 30

/-- Without a story a thread goes dormant, then archived unless it is pinned. -/
def ThreadState.transition (lastStoryTime : Option DateTime) (now : DateTime) (pinned : Bool)
    (horizons : Horizons) : ThreadState :=
  match lastStoryTime with
  | none => .active
  | some last =>
      let age := now - last
      if age < horizons.dormancy then .active
      else if pinned || decide (age < horizons.archive) then .dormant
      else .archived

inductive ConfidenceBand where
  | confirmed
  | probable
  | uncertain
deriving DecidableEq, Repr

/-- Which tokens stand for one identity, and how surely. -/
structure Resolution where
  rep : Std.ExtTreeMap String String compare := ∅
  band : Std.ExtTreeMap String ConfidenceBand compare := ∅

/-- A token that was not seen stands for itself. -/
def Resolution.representative (resolution : Resolution) (id : String) : String :=
  resolution.rep.getD id id

def Resolution.bandOf (resolution : Resolution) (id : String) : ConfidenceBand :=
  resolution.band.getD (resolution.representative id) .confirmed

/-! ## Communities and threads -/

structure ExistingThread where
  id : Uuid
  entities : List String
  pinned : Bool
deriving DecidableEq, Repr

/-- What becomes of a community: a thread keeps its id, a new thread, or several become one. -/
inductive ThreadMapping where
  | keep (id : Uuid) (entities : List String)
  | fresh (entities : List String)
  | merge (winner : Uuid) (merged : List Uuid) (entities : List String)
deriving DecidableEq, Repr

def jaccard {F : Type} [Score F] (a b : List String) : F :=
  let a := a.dedup
  let b := b.dedup
  if a = [] ∧ b = [] then Score.lit 1
  else
    let inter := (a.filter (· ∈ b)).length
    let union := (a ++ b.filter (· ∉ a)).length
    if union = 0 then Score.lit 0 else Score.lit inter / Score.lit union

section Mapping

variable {F : Type} [Score F]

def matchingThreads (existing : List ExistingThread) (matchThreshold : F) (claimed : List Uuid)
    (cand : List String) : List ExistingThread :=
  (existing.filter fun e => e.id ∉ claimed ∧
    Score.ge (jaccard cand e.entities : F) matchThreshold).insertionSort fun x y => x.id ≤ y.id

def mapCommunity (cand : List String) : List ExistingThread → ThreadMapping × List Uuid
  | [] => (.fresh cand, [])
  | [only] => (.keep only.id cand, [only.id])
  | winner :: others =>
      -- a pinned thread is never merged away
      let merged := (others.filter fun e => !e.pinned).map (·.id)
      (.merge winner.id merged cand, winner.id :: merged)

/-- One community after the other; what one claims the next ones do not see. -/
def mapCommunities (existing : List ExistingThread) (matchThreshold : F) :
    List Uuid → List (List String) → List ThreadMapping
  | _, [] => []
  | claimed, cand :: cands =>
      let mapped := mapCommunity cand (matchingThreads existing matchThreshold claimed cand)
      mapped.1 :: mapCommunities existing matchThreshold (claimed ++ mapped.2) cands

def mapCommunitiesToThreads (candidates : List (List String)) (existing : List ExistingThread)
    (matchThreshold : F) : List ThreadMapping :=
  mapCommunities existing matchThreshold [] candidates

end Mapping

def ThreadMapping.winner : ThreadMapping → Option Uuid
  | fresh _ => none
  | keep id _ => some id
  | merge winner _ _ => some winner

def ThreadMapping.absorb : ThreadMapping → List Uuid
  | merge _ merged _ => merged
  | fresh _ | keep _ _ => []

def ThreadMapping.entities : ThreadMapping → List String
  | fresh entities | keep _ entities | merge _ _ entities => entities

def ThreadMapping.ids (m : ThreadMapping) : List Uuid := m.winner.toList ++ m.absorb

/-! ## Claims of ids -/

section Claimed

variable {F : Type} [Score F] {existing : List ExistingThread} {matchThreshold : F}
  {claimed : List Uuid} {cand : List String} {cands : List (List String)}

theorem mapCommunity_ids (ms : List ExistingThread) :
    (mapCommunity cand ms).1.ids = (mapCommunity cand ms).2 := by
  match ms with
  | [] => rfl
  | [only] => rfl
  | _ :: _ :: _ => rfl

theorem mapCommunity_sublist (ms : List ExistingThread) :
    List.Sublist (mapCommunity cand ms).2 (ms.map (·.id)) := by
  match ms with
  | [] => exact List.Sublist.refl _
  | [only] => exact List.Sublist.refl _
  | winner :: second :: rest =>
      exact List.Sublist.cons_cons _ (List.filter_sublist.map _)

theorem mem_matchingThreads {e : ExistingThread} :
    e ∈ matchingThreads existing matchThreshold claimed cand ↔
      e ∈ existing ∧ e.id ∉ claimed ∧
        Score.ge (jaccard cand e.entities : F) matchThreshold = true := by
  simp [matchingThreads]

theorem matchingThreads_nodup (hnodup : (existing.map (·.id)).Nodup) :
    ((matchingThreads existing matchThreshold claimed cand).map (·.id)).Nodup := by
  have hperm := (List.perm_insertionSort (fun x y : ExistingThread => x.id ≤ y.id)
    (existing.filter fun e => e.id ∉ claimed ∧
      Score.ge (jaccard cand e.entities : F) matchThreshold)).map (·.id)
  exact hperm.nodup_iff.mpr (hnodup.sublist (List.filter_sublist.map _))

theorem mapCommunities_ids (hnodup : (existing.map (·.id)).Nodup) :
    ((mapCommunities existing matchThreshold claimed cands).flatMap (·.ids)).Nodup ∧
      ∀ id ∈ (mapCommunities existing matchThreshold claimed cands).flatMap (·.ids),
        id ∉ claimed ∧ id ∈ existing.map (·.id) := by
  induction cands generalizing claimed with
  | nil => simp [mapCommunities]
  | cons cand cands ih =>
      have hsub : List.Sublist
          (mapCommunity cand (matchingThreads existing matchThreshold claimed cand)).2
          ((matchingThreads existing matchThreshold claimed cand).map (·.id)) :=
        mapCommunity_sublist _
      have hfirst : ∀ id ∈ (mapCommunity cand (matchingThreads existing matchThreshold claimed cand)).2,
          id ∉ claimed ∧ id ∈ existing.map (·.id) := by
        intro id hid
        obtain ⟨e, he, rfl⟩ := List.mem_map.mp (hsub.subset hid)
        obtain ⟨hin, hfree, _⟩ := mem_matchingThreads.mp he
        exact ⟨hfree, List.mem_map_of_mem hin⟩
      obtain ⟨hrest, hafter⟩ := @ih (claimed ++
        (mapCommunity cand (matchingThreads existing matchThreshold claimed cand)).2)
      simp only [mapCommunities, List.flatMap_cons, mapCommunity_ids]
      constructor
      · refine List.nodup_append.mpr ⟨(matchingThreads_nodup hnodup).sublist hsub, hrest, ?_⟩
        intro a ha b hb heq
        exact (hafter b hb).1 (List.mem_append_right _ (heq ▸ ha))
      · intro id hid
        rcases List.mem_append.mp hid with hin | hin
        · exact hfirst id hin
        · exact ⟨fun hclaimed => (hafter id hin).1 (List.mem_append_left _ hclaimed),
            (hafter id hin).2⟩

end Claimed

/-! ## Affinity -/

section Affinity

variable {F : Type} [SelectScore F]

def clamp (x low high : F) : F :=
  if Score.lt x low then low else if Score.gt x high then high else x

/-- Halve the affinity for each half-life that has passed, and add what is new. -/
def decayAffinity (prior : F) (elapsed halfLife : Int) (delta max : F) : F :=
  let hl := Max.max (numSeconds halfLife) 1
  let e := Max.max (numSeconds elapsed) 0
  let decayed := prior * SelectScore.powHalf (Score.lit e / Score.lit hl)
  clamp (SelectScore.narrow decayed + delta) (Score.lit 0) max

/-- Each thread shares its affinity among its entities, a dormant one a quarter of it. -/
def projectWeights (threads : List (ThreadState × F × List String)) :
    Std.ExtTreeMap String F compare :=
  threads.foldl (fun weights thread =>
    let (state, affinity, entities) := thread
    match state with
    | .archived => weights
    | .active | .dormant =>
        let factor : F := if state = .active then Score.lit 1 else Score.lit (1 / 4)
        if entities = [] then weights
        else
          match Score.partialCmp affinity (Score.lit 0) with
          | some .lt | some .eq => weights
          | _ =>
              let share := affinity * factor / Score.lit entities.length
              entities.foldl (fun weights e =>
                weights.insert e (weights.getD e (Score.lit 0) + share)) weights) ∅

end Affinity

end Bulletin
