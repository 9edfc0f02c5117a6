import Mathlib.Data.Int.ConditionallyCompleteOrder
import Mathlib.Order.ConditionallyCompleteLattice.Basic
import Mathlib.Order.WithBot
import Bulletin.Ingest.Event

/-! # The rollup of a group

One pass folds the events of a group into the columns of its cluster: the latest event
stands for the group, the other columns are unions and maxima.
-/

namespace Bulletin

structure ClusterRollup where
  title : String
  link : Option String
  firstEventTime : DateTime
  lastEventTime : DateTime
  entities : List String
  /-- Unbounded, where the column has 32 bits. -/
  eventCount : Int
  contentDepth : ContentKind
  maxSeverity : Option Int
  connectionId : Option Uuid
deriving DecidableEq, Repr

def maxHint : Option Int → Option Int → Option Int
  | none, b => b
  | some a, none => some a
  | some a, some b => some (max a b)

structure RollupPass where
  representative : Event
  first : DateTime
  entities : List String := []
  contentDepth : ContentKind := .message
  maxSeverity : Option Int := none

def RollupPass.add (pass : RollupPass) (ev : Event) : RollupPass where
  -- a tie goes to the later event of the list
  representative := if pass.representative.eventTime ≤ ev.eventTime then ev else pass.representative
  first := min pass.first ev.eventTime
  entities := pass.entities ++ ev.entities
  contentDepth := max pass.contentDepth ev.contentKind
  maxSeverity := maxHint pass.maxSeverity ev.severityHint

def rollup (events : List Event) : Option ClusterRollup :=
  events.head?.map fun head =>
    let pass := events.foldl RollupPass.add { representative := head, first := head.eventTime }
    { title := pass.representative.title
      link := pass.representative.links.head?
      firstEventTime := pass.first
      lastEventTime := pass.representative.eventTime
      entities := sortDedup pass.entities
      eventCount := events.length
      contentDepth := pass.contentDepth
      maxSeverity := pass.maxSeverity
      connectionId := pass.representative.connectionId }

theorem rollup_eq_none {events : List Event} : rollup events = none ↔ events = [] := by
  unfold rollup
  rw [Option.map_eq_none_iff, List.head?_eq_none_iff]

/-! ## One column at a time -/

def latest (x y : Event) : Event := if x.eventTime ≤ y.eventTime then y else x

theorem rollupPass_foldl (events : List Event) (pass : RollupPass) :
    events.foldl RollupPass.add pass =
    { representative := events.foldl latest pass.representative
      first := (events.map (·.eventTime)).foldl min pass.first
      entities := pass.entities ++ events.flatMap (·.entities)
      contentDepth := (events.map (·.contentKind)).foldl max pass.contentDepth
      maxSeverity := (events.map (·.severityHint)).foldl maxHint pass.maxSeverity } := by
  induction events generalizing pass with
  | nil => simp
  | cons e events ih =>
      rw [List.foldl_cons, ih]
      simp [RollupPass.add, latest]

theorem foldl_max_le_iff {α : Type*} [LinearOrder α] {l : List α} {a b : α} :
    l.foldl max a ≤ b ↔ a ≤ b ∧ ∀ x ∈ l, x ≤ b := by
  induction l generalizing a with
  | nil => simp
  | cons y l ih =>
      rw [List.foldl_cons, ih, max_le_iff, List.forall_mem_cons, and_assoc]

theorem foldl_max_congr {α : Type*} [LinearOrder α] {l l' : List α} {a : α}
    (h : ∀ b, a ≤ b → ((∀ x ∈ l, x ≤ b) ↔ ∀ x ∈ l', x ≤ b)) : l.foldl max a = l'.foldl max a := by
  apply eq_of_forall_ge_iff
  intro b
  rw [foldl_max_le_iff, foldl_max_le_iff]
  exact and_congr_right fun hb => h b hb

/-- The columns a write to an event can move. -/
def Moved (g : Event → Event) : Prop :=
  ∀ e, (g e).eventTime = e.eventTime ∧ (g e).title = e.title ∧ (g e).links = e.links ∧
    (g e).connectionId = e.connectionId

theorem foldl_latest_map {g : Event → Event} (hg : Moved g) (events : List Event) (head : Event) :
    (events.map g).foldl latest (g head) = g (events.foldl latest head) := by
  induction events generalizing head with
  | nil => rfl
  | cons e events ih =>
      rw [List.map_cons, List.foldl_cons, List.foldl_cons, ← ih]
      congr 1
      unfold latest
      rw [(hg head).1, (hg e).1]
      split <;> rfl

/-- A write to the events of a group moves the entities, the depth and the severity of its
rollup. -/
theorem rollup_map {g : Event → Event} (hg : Moved g) (events : List Event) :
    rollup (events.map g) = (rollup events).map fun r =>
      { r with
        entities := sortDedup (events.flatMap fun e => (g e).entities)
        contentDepth := (events.map fun e => (g e).contentKind).foldl max .message
        maxSeverity := (events.map fun e => (g e).severityHint).foldl maxHint none } := by
  unfold rollup
  rw [List.head?_map, Option.map_map, Option.map_map]
  congr 1
  funext head
  have hfirst : (events.map g).map (·.eventTime) = events.map (·.eventTime) := by
    rw [List.map_map]
    exact List.map_congr_left fun e _ => (hg e).1
  have hlast := hg (events.foldl latest head)
  dsimp only [Function.comp]
  rw [rollupPass_foldl, rollupPass_foldl]
  dsimp only
  rw [hfirst, foldl_latest_map hg, (hg head).1, hlast.1, hlast.2.1, hlast.2.2.1, hlast.2.2.2,
    List.length_map, List.nil_append, List.map_map, List.map_map, List.flatMap_map]
  rfl

theorem rollup_columns {events : List Event} {r : ClusterRollup} (h : rollup events = some r) :
    r.entities = sortDedup (events.flatMap (·.entities)) ∧
      r.contentDepth = (events.map (·.contentKind)).foldl max .message ∧
      r.maxSeverity = (events.map (·.severityHint)).foldl maxHint none := by
  unfold rollup at h
  obtain ⟨head, _, rfl⟩ := Option.map_eq_some_iff.mp h
  rw [rollupPass_foldl]
  refine ⟨?_, rfl, rfl⟩
  rw [List.nil_append]

theorem rollup_eventCount {events : List Event} {r : ClusterRollup} (h : rollup events = some r) :
    r.eventCount = events.length := by
  unfold rollup at h
  obtain ⟨head, _, rfl⟩ := Option.map_eq_some_iff.mp h
  rfl

theorem length_eq_of_rollup {events events' : List Event} (h : rollup events = rollup events') :
    events.length = events'.length := by
  cases hr : rollup events with
  | none =>
      rw [rollup_eq_none.mp hr, rollup_eq_none.mp (h.symm.trans hr)]
  | some r =>
      have hcount := (rollup_eventCount hr).symm.trans (rollup_eventCount (h.symm.trans hr))
      exact Int.ofNat.inj hcount

/-! ## Writes that add nothing -/

section Writes

variable {events : List Event} {id : Uuid}

theorem moved_update {f : Event → Event} (hf : Moved f) :
    Moved fun e => if e.id = id then f e else e := by
  intro e
  by_cases h : e.id = id
  · simp only [if_pos h]
    exact hf e
  · simp only [if_neg h, and_self]

theorem moved_applyEnrichment {now : DateTime} {tokens : List String} {salience : Int} :
    Moved (applyEnrichment now tokens salience) := fun _ => ⟨rfl, rfl, rfl, rfl⟩

theorem moved_setFullText {text : String} : Moved (setFullText text) :=
  fun _ => ⟨rfl, rfl, rfl, rfl⟩

theorem moved_recordFetchFailure {permanent : Bool} : Moved (recordFetchFailure permanent) :=
  fun _ => ⟨rfl, rfl, rfl, rfl⟩

def hintLevel (hint : Option Int) : WithBot Int := hint.elim ⊥ fun v => ((v : Int) : WithBot Int)

theorem hintLevel_injective : Function.Injective hintLevel := by
  intro a b h
  cases a with
  | none =>
      cases b with
      | none => rfl
      | some b => exact absurd h.symm (WithBot.coe_ne_bot)
  | some a =>
      cases b with
      | none => exact absurd h (WithBot.coe_ne_bot)
      | some b => exact congrArg some (WithBot.coe_injective h)

theorem hintLevel_max (a b : Option Int) :
    hintLevel (maxHint a b) = max (hintLevel a) (hintLevel b) := by
  cases a with
  | none => exact (max_eq_right bot_le).symm
  | some a =>
      cases b with
      | none => exact (max_eq_left bot_le).symm
      | some b => exact WithBot.coe_max a b

theorem hintLevel_foldl (hints : List (Option Int)) (a : Option Int) :
    hintLevel (hints.foldl maxHint a) = (hints.map hintLevel).foldl max (hintLevel a) := by
  induction hints generalizing a with
  | nil => rfl
  | cons h hints ih => rw [List.foldl_cons, ih, hintLevel_max, List.map_cons, List.foldl_cons]

theorem foldl_maxHint_congr {f g : Event → Option Int}
    (h : ∀ b : WithBot Int, (∀ e ∈ events, hintLevel (f e) ≤ b) ↔
      ∀ e ∈ events, hintLevel (g e) ≤ b) :
    (events.map f).foldl maxHint none = (events.map g).foldl maxHint none := by
  apply hintLevel_injective
  rw [hintLevel_foldl, hintLevel_foldl, List.map_map, List.map_map]
  refine foldl_max_congr fun b _ => ?_
  rw [List.forall_mem_map, List.forall_mem_map]
  exact h b

theorem hint_enriched_le {now : DateTime} {tokens : List String} {salience : Int} {e : Event}
    {b : WithBot Int} :
    hintLevel (applyEnrichment now tokens salience e).severityHint ≤ b ↔
      hintLevel e.severityHint ≤ b ∧ (0 < salience → ((salience : Int) : WithBot Int) ≤ b) := by
  unfold applyEnrichment
  dsimp only
  by_cases hpos : 0 < salience
  · rw [if_pos hpos]
    have hmax : ∀ v : Int, hintLevel (some (max v salience)) ≤ b ↔
        ((v : Int) : WithBot Int) ≤ b ∧ ((salience : Int) : WithBot Int) ≤ b := by
      intro v
      rw [← max_le_iff, ← WithBot.coe_max]
      rfl
    rw [hmax]
    cases e.severityHint with
    | none =>
        refine ⟨fun h => ⟨bot_le, fun _ => h.2⟩, fun h => ⟨?_, h.2 hpos⟩⟩
        exact le_trans (WithBot.coe_le_coe.mpr (le_of_lt hpos)) (h.2 hpos)
    | some v => exact ⟨fun h => ⟨h.1, fun _ => h.2⟩, fun h => ⟨h.1, h.2 hpos⟩⟩
  · rw [if_neg hpos]
    exact ⟨fun h => ⟨h, fun hp => absurd hp hpos⟩, fun h => h.1⟩

/-- The group has every token, and a hint at least as high. -/
def AddsNothing (events : List Event) (tokens : List String) (salience : Int) : Prop :=
  (∀ t ∈ tokens, ∃ e ∈ events, t ∈ e.entities) ∧
    (0 < salience → ∃ e ∈ events, ∃ h, e.severityHint = some h ∧ salience ≤ h)

theorem mem_entities_enriched {now : DateTime} {tokens : List String} {salience : Int} {t : String}
    (h : AddsNothing events tokens salience) :
    (t ∈ events.flatMap fun e => (if e.id = id then applyEnrichment now tokens salience e else e).entities) ↔
      t ∈ events.flatMap (·.entities) := by
  rw [List.mem_flatMap, List.mem_flatMap]
  constructor
  · intro ht
    obtain ⟨e, he, ht⟩ := ht
    by_cases hid : e.id = id
    · rw [if_pos hid] at ht
      rcases List.mem_append.mp (mem_sortDedup.mp ht) with hold | hnew
      · exact ⟨e, he, hold⟩
      · exact h.1 t hnew
    · rw [if_neg hid] at ht
      exact ⟨e, he, ht⟩
  · intro ht
    obtain ⟨e, he, ht⟩ := ht
    refine ⟨e, he, ?_⟩
    by_cases hid : e.id = id
    · rw [if_pos hid]
      exact mem_sortDedup.mpr (List.mem_append_left _ ht)
    · rw [if_neg hid]
      exact ht

theorem hints_enriched_le {now : DateTime} {tokens : List String} {salience : Int} {b : WithBot Int}
    (h : AddsNothing events tokens salience) :
    (∀ e ∈ events,
        hintLevel (if e.id = id then applyEnrichment now tokens salience e else e).severityHint ≤ b) ↔
      ∀ e ∈ events, hintLevel e.severityHint ≤ b := by
  constructor
  · intro hall e he
    have hnew := hall e he
    by_cases hid : e.id = id
    · rw [if_pos hid] at hnew
      exact (hint_enriched_le.mp hnew).1
    · rwa [if_neg hid] at hnew
  · intro hall e he
    by_cases hid : e.id = id
    · rw [if_pos hid]
      refine hint_enriched_le.mpr ⟨hall e he, ?_⟩
      intro hpos
      obtain ⟨e', he', v, hv, hle⟩ := h.2 hpos
      have hb := hall e' he'
      rw [hv] at hb
      exact le_trans (WithBot.coe_le_coe.mpr hle) hb
    · rw [if_neg hid]
      exact hall e he

theorem rollup_enriched {now : DateTime} {tokens : List String} {salience : Int}
    (h : AddsNothing events tokens salience) :
    rollup (updateEvent id (applyEnrichment now tokens salience) events) = rollup events := by
  unfold updateEvent
  rw [rollup_map (moved_update moved_applyEnrichment)]
  cases hr : rollup events with
  | none => rfl
  | some r =>
      obtain ⟨hentities, hdepth, hseverity⟩ := rollup_columns hr
      have hkind : (events.map fun e =>
          (if e.id = id then applyEnrichment now tokens salience e else e).contentKind) =
          events.map (·.contentKind) := by
        apply List.map_congr_left
        intro e _
        split <;> rfl
      rw [Option.map_some, sortDedup_congr fun t => mem_entities_enriched h,
        foldl_maxHint_congr fun b => hints_enriched_le h, hkind, ← hentities, ← hdepth, ← hseverity]

theorem foldl_maxHint_eq_some {hints : List (Option Int)} {a : Option Int} {v : Int}
    (h : hints.foldl maxHint a = some v) : a = some v ∨ some v ∈ hints := by
  induction hints generalizing a with
  | nil => exact Or.inl h
  | cons hint hints ih =>
      rcases ih h with hmax | hin
      · cases a with
        | none => exact Or.inr (List.mem_cons.mpr (Or.inl hmax.symm))
        | some x =>
            cases hint with
            | none => exact Or.inl hmax
            | some y =>
                rcases max_choice x y with hx | hy
                · exact Or.inl ((congrArg some hx).symm.trans hmax)
                · exact Or.inr (List.mem_cons.mpr (Or.inl (((congrArg some hy).symm.trans hmax).symm)))
      · exact Or.inr (List.mem_cons_of_mem _ hin)

theorem addsNothing_of_rollup {now : DateTime} {tokens : List String} {salience : Int}
    (hid : ∃ e ∈ events, e.id = id)
    (h : rollup (updateEvent id (applyEnrichment now tokens salience) events) = rollup events) :
    AddsNothing events tokens salience := by
  obtain ⟨e, he, hid⟩ := hid
  have hwritten : applyEnrichment now tokens salience e ∈
      updateEvent id (applyEnrichment now tokens salience) events :=
    List.mem_map.mpr ⟨e, he, if_pos hid⟩
  obtain ⟨r, hr⟩ := Option.ne_none_iff_exists'.mp fun hnil =>
    List.ne_nil_of_mem he (rollup_eq_none.mp hnil)
  obtain ⟨hentities, _, hseverity⟩ := rollup_columns hr
  obtain ⟨hentities', _, hseverity'⟩ := rollup_columns (h.trans hr)
  constructor
  · intro t ht
    have hin : t ∈ r.entities := by
      rw [hentities', mem_sortDedup]
      exact List.mem_flatMap.mpr ⟨_, hwritten, mem_sortDedup.mpr (List.mem_append_right _ ht)⟩
    rw [hentities, mem_sortDedup] at hin
    exact List.mem_flatMap.mp hin
  · intro hpos
    have hle : hintLevel (applyEnrichment now tokens salience e).severityHint ≤
        hintLevel r.maxSeverity := by
      rw [hseverity', hintLevel_foldl]
      exact (foldl_max_le_iff.mp (le_refl _)).2 _
        (List.mem_map_of_mem (List.mem_map_of_mem (f := fun e : Event => e.severityHint) hwritten))
    have hsalience := (hint_enriched_le.mp hle).2 hpos
    cases hmax : r.maxSeverity with
    | none =>
        rw [hmax] at hsalience
        exact absurd (le_bot_iff.mp hsalience) (WithBot.coe_ne_bot)
    | some v =>
        rw [hmax] at hsalience
        rcases foldl_maxHint_eq_some (hseverity.symm.trans hmax) with hnone | hin
        · cases hnone
        · obtain ⟨e', he', hv⟩ := List.mem_map.mp hin
          exact ⟨e', he', v, hv, WithBot.coe_le_coe.mp hsalience⟩

/-- A fetched article only moves the depth, up to its ceiling if it is long. -/
theorem rollup_fullText {text : String} (hid : ∃ e ∈ events, e.id = id) :
    rollup (updateEvent id (setFullText text) events) = (rollup events).map fun r =>
      if longformMinChars ≤ text.length then { r with contentDepth := .longform } else r := by
  unfold updateEvent
  rw [rollup_map (moved_update moved_setFullText)]
  cases hr : rollup events with
  | none => rfl
  | some r =>
      obtain ⟨hentities, hdepth, hseverity⟩ := rollup_columns hr
      have hsame : ∀ {β : Type} (φ : Event → β), (∀ e, φ (setFullText text e) = φ e) →
          (fun e => φ (if e.id = id then setFullText text e else e)) = φ := by
        intro β φ hφ
        funext e
        split
        · exact hφ e
        · rfl
      rw [Option.map_some, Option.map_some, hsame (·.entities) (fun _ => rfl),
        hsame (·.severityHint) (fun _ => rfl), ← hentities, ← hseverity]
      by_cases hlong : longformMinChars ≤ text.length
      · rw [if_pos hlong]
        have hmax : (events.map fun e => (if e.id = id then setFullText text e else e).contentKind).foldl max
            .message = .longform := by
          apply le_antisymm
          · exact foldl_max_le_iff.mpr ⟨by decide, fun k _ => by cases k <;> decide⟩
          · obtain ⟨e, he, hid⟩ := hid
            refine (foldl_max_le_iff.mp (le_refl _)).2 ContentKind.longform
              (List.mem_map.mpr ⟨e, he, ?_⟩)
            rw [if_pos hid]
            exact if_pos hlong
        rw [hmax]
      · rw [if_neg hlong, hsame (·.contentKind) (fun e => if_neg hlong), ← hdepth]

theorem rollup_fetchFailure {permanent : Bool} :
    rollup (updateEvent id (recordFetchFailure permanent) events) = rollup events := by
  unfold updateEvent
  rw [rollup_map (moved_update moved_recordFetchFailure)]
  cases hr : rollup events with
  | none => rfl
  | some r =>
      obtain ⟨hentities, hdepth, hseverity⟩ := rollup_columns hr
      have hsame : ∀ {β : Type} (φ : Event → β), (∀ e, φ (recordFetchFailure permanent e) = φ e) →
          (fun e => φ (if e.id = id then recordFetchFailure permanent e else e)) = φ := by
        intro β φ hφ
        funext e
        split
        · exact hφ e
        · rfl
      rw [Option.map_some, hsame (·.entities) (fun _ => rfl), hsame (·.contentKind) (fun _ => rfl),
        hsame (·.severityHint) (fun _ => rfl), ← hentities, ← hdepth, ← hseverity]

end Writes

end Bulletin
