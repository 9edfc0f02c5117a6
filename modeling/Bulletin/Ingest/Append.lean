import Bulletin.Ingest.Builder

/-! # Appending to the log

What was appended once is in the log for good: an event that is there already is left as it
is, and nothing is taken out.
-/

namespace Bulletin

/-- Append events one after the other, each at its time and under its id. -/
def insertAll (arrivals : List (DateTime × Uuid × NewEvent)) (log : List Event) : List Event :=
  arrivals.foldl (fun log a => insertEvent a.1 a.2.1 a.2.2 log) log

/-- The log has the event under its identity within its scope. -/
def InLog (log : List Event) (ev : NewEvent) : Prop :=
  ∃ e ∈ log, e.fingerprint = ev.fingerprint ∧ e.key.scope = ev.key.scope

instance (log : List Event) (ev : NewEvent) : Decidable (InLog log ev) :=
  inferInstanceAs (Decidable (∃ e ∈ log, e.fingerprint = ev.fingerprint ∧
    e.key.scope = ev.key.scope))

section InLog

variable {now : DateTime} {id : Uuid} {ev other : NewEvent} {log : List Event}
  {arrivals : List (DateTime × Uuid × NewEvent)}

theorem inLog_insertEvent : InLog (insertEvent now id ev log) ev := by
  unfold insertEvent
  split
  · rename_i hsame
    obtain ⟨e, he, hsame⟩ := List.any_eq_true.mp hsame
    exact ⟨e, he, of_decide_eq_true hsame⟩
  · exact ⟨_, List.mem_append_right log (List.mem_singleton_self _), rfl, rfl⟩

theorem subset_insertEvent : log ⊆ insertEvent now id ev log := by
  unfold insertEvent
  split
  · exact List.Subset.refl log
  · exact List.subset_append_left log _

theorem subset_insertAll : log ⊆ insertAll arrivals log := by
  induction arrivals generalizing log with
  | nil => exact List.Subset.refl log
  | cons a arrivals ih => exact List.Subset.trans subset_insertEvent ih

theorem InLog.mono {log' : List Event} (h : InLog log ev) (hsub : log ⊆ log') :
    InLog log' ev := by
  obtain ⟨e, he, hsame⟩ := h
  exact ⟨e, hsub he, hsame⟩

theorem inLog_insertAll {a : DateTime × Uuid × NewEvent} (ha : a ∈ arrivals) :
    InLog (insertAll arrivals log) a.2.2 := by
  induction arrivals generalizing log with
  | nil => cases ha
  | cons b arrivals ih =>
      rcases List.mem_cons.mp ha with rfl | hin
      · exact inLog_insertEvent.mono subset_insertAll
      · exact ih hin

end InLog

/-! ## Identities -/

def DistinctRows (log : List Event) : Prop :=
  log.Pairwise fun x y => ¬ (x.fingerprint = y.fingerprint ∧ x.key.scope = y.key.scope)

/-- The rows of an event's identity. -/
def rowsOf (ev : NewEvent) (log : List Event) : List Event :=
  log.filter fun e => e.fingerprint = ev.fingerprint ∧ e.key.scope = ev.key.scope

section Identities

variable {now : DateTime} {id : Uuid} {ev : NewEvent} {log : List Event}
  {arrivals : List (DateTime × Uuid × NewEvent)}

theorem DistinctRows.insertEvent (h : DistinctRows log) :
    DistinctRows (insertEvent now id ev log) := by
  unfold Bulletin.insertEvent
  split
  · exact h
  · rename_i hnew
    refine List.pairwise_append.mpr ⟨h, List.pairwise_singleton _ _, ?_⟩
    intro x hx y hy hsame
    obtain rfl := List.mem_singleton.mp hy
    exact hnew (List.any_eq_true.mpr ⟨x, hx, decide_eq_true hsame⟩)

theorem DistinctRows.insertAll (h : DistinctRows log) : DistinctRows (insertAll arrivals log) := by
  induction arrivals generalizing log with
  | nil => exact h
  | cons a arrivals ih => exact ih h.insertEvent

theorem DistinctRows.once (h : DistinctRows log) (hev : InLog log ev) :
    (rowsOf ev log).length = 1 := by
  obtain ⟨e, he, hsame⟩ := hev
  have hmem : e ∈ rowsOf ev log := List.mem_filter.mpr ⟨he, decide_eq_true hsame⟩
  have hpair : (rowsOf ev log).Pairwise fun x y =>
      ¬ (x.fingerprint = y.fingerprint ∧ x.key.scope = y.key.scope) := h.filter _
  have hall : ∀ x ∈ rowsOf ev log, x.fingerprint = ev.fingerprint ∧ x.key.scope = ev.key.scope :=
    fun x hx => of_decide_eq_true (List.mem_filter.mp hx).2
  cases hrows : rowsOf ev log with
  | nil => simp [hrows] at hmem
  | cons x rest =>
      cases rest with
      | nil => rfl
      | cons y rest =>
          rw [hrows] at hpair hall
          have hx := hall x List.mem_cons_self
          have hy := hall y (List.mem_cons_of_mem x List.mem_cons_self)
          have hapart := (List.pairwise_cons.mp hpair).1 y List.mem_cons_self
          exact absurd ⟨hx.1.trans hy.1.symm, hx.2.trans hy.2.symm⟩ hapart

theorem length_insertEvent (h : ∀ e ∈ log, e.fingerprint ≠ ev.fingerprint) :
    (insertEvent now id ev log).length = log.length + 1 := by
  unfold insertEvent
  rw [if_neg, List.length_append, List.length_singleton]
  rw [List.any_eq_true]
  rintro ⟨e, he, hsame⟩
  exact h e he (of_decide_eq_true hsame).1

theorem length_insertAll_pair {ev' : NewEvent} (hne : ev.fingerprint ≠ ev'.fingerprint)
    (hlog : ∀ e ∈ log, e.fingerprint ≠ ev.fingerprint ∧ e.fingerprint ≠ ev'.fingerprint)
    (now now' : DateTime) (id id' : Uuid) :
    (insertAll [(now, id, ev), (now', id', ev')] log).length = log.length + 2 := by
  show (insertEvent now' id' ev' (insertEvent now id ev log)).length = _
  rw [length_insertEvent, length_insertEvent fun e he => (hlog e he).1]
  intro e he
  unfold insertEvent at he
  split at he
  · exact (hlog e he).2
  · rcases List.mem_append.mp he with hin | hlast
    · exact (hlog e hin).2
    · rw [List.mem_singleton.mp hlast]
      exact hne

end Identities

/-! ## Scoped transactions -/

inductive ScopeCtx where
  | noSubscriber
  | ofSubscriber (sub : Uuid)
  | admin
deriving DecidableEq, Repr

def ScopeCtx.forScope : Scope → ScopeCtx
  | .ofPublic => noSubscriber
  | .ofPrivate owner => ofSubscriber owner

def pushGroup (ev : NewEvent) : List (ScopeCtx × List NewEvent) → List (ScopeCtx × List NewEvent)
  | [] => [(.forScope ev.key.scope, [ev])]
  | (ctx, evs) :: groups =>
      if ctx = .forScope ev.key.scope then (ctx, evs ++ [ev]) :: groups
      else (ctx, evs) :: pushGroup ev groups

/-- The events of each context, in the order they came; the contexts are in no order. -/
def contextGroups (events : List NewEvent) : List (ScopeCtx × List NewEvent) :=
  events.foldl (fun groups ev => pushGroup ev groups) []

def eventsIn (ctx : ScopeCtx) (events : List NewEvent) : List NewEvent :=
  events.filter fun ev => ScopeCtx.forScope ev.key.scope = ctx

section Groups

variable {events : List NewEvent} {ev : NewEvent}

theorem eventsIn_append (ctx : ScopeCtx) : eventsIn ctx (events ++ [ev]) =
    if ScopeCtx.forScope ev.key.scope = ctx then eventsIn ctx events ++ [ev]
      else eventsIn ctx events := by
  unfold eventsIn
  rw [List.filter_append]
  split
  · rename_i h
    rw [List.filter_cons_of_pos (by simpa using h), List.filter_nil]
  · rename_i h
    rw [List.filter_cons_of_neg (by simpa using h), List.filter_nil, List.append_nil]

theorem pushGroup_groups {ctxs : List ScopeCtx} (hnodup : ctxs.Nodup)
    (hnew : ScopeCtx.forScope ev.key.scope ∉ ctxs →
      eventsIn (ScopeCtx.forScope ev.key.scope) events = []) :
    pushGroup ev (ctxs.map fun ctx => (ctx, eventsIn ctx events)) =
      (if ScopeCtx.forScope ev.key.scope ∈ ctxs then ctxs
        else ctxs ++ [ScopeCtx.forScope ev.key.scope]).map fun ctx =>
          (ctx, eventsIn ctx (events ++ [ev])) := by
  induction ctxs with
  | nil => simp [pushGroup, eventsIn_append, hnew List.not_mem_nil]
  | cons ctx ctxs ih =>
      obtain ⟨hout, hrest⟩ := List.nodup_cons.mp hnodup
      rw [List.map_cons]
      unfold pushGroup
      by_cases hctx : ctx = ScopeCtx.forScope ev.key.scope
      · have hothers : ctxs.map (fun c => (c, eventsIn c events)) =
            ctxs.map fun c => (c, eventsIn c (events ++ [ev])) := by
          refine List.map_congr_left fun c hc => ?_
          rw [eventsIn_append, if_neg]
          rintro rfl
          exact hout (hctx ▸ hc)
        rw [if_pos hctx, if_pos (hctx ▸ List.mem_cons_self), List.map_cons,
          hothers, eventsIn_append, if_pos hctx.symm]
      · have hmem : ScopeCtx.forScope ev.key.scope ∈ ctx :: ctxs ↔
            ScopeCtx.forScope ev.key.scope ∈ ctxs := by
          simp [Ne.symm hctx]
        have hsame : eventsIn ctx (events ++ [ev]) = eventsIn ctx events := by
          rw [eventsIn_append, if_neg (Ne.symm hctx)]
        rw [if_neg hctx, ih hrest fun h => hnew fun hin => h (hmem.mp hin)]
        by_cases hin : ScopeCtx.forScope ev.key.scope ∈ ctxs
        · rw [if_pos hin, if_pos (hmem.mpr hin), List.map_cons, hsame]
        · rw [if_neg hin, if_neg fun h => hin (hmem.mp h), List.cons_append, List.map_cons, hsame]

theorem contextGroups_eq (events : List NewEvent) : ∃ ctxs : List ScopeCtx, ctxs.Nodup ∧
    (∀ ev ∈ events, ScopeCtx.forScope ev.key.scope ∈ ctxs) ∧
    contextGroups events = ctxs.map fun ctx => (ctx, eventsIn ctx events) := by
  induction events using List.reverseRecOn with
  | nil => exact ⟨[], List.nodup_nil, nofun, rfl⟩
  | append_singleton events ev ih =>
      obtain ⟨ctxs, hnodup, hcovered, heq⟩ := ih
      have hnew : ScopeCtx.forScope ev.key.scope ∉ ctxs →
          eventsIn (ScopeCtx.forScope ev.key.scope) events = [] := by
        intro hout
        refine List.filter_eq_nil_iff.mpr fun x hx heq => ?_
        exact hout (of_decide_eq_true heq ▸ hcovered x hx)
      refine ⟨if ScopeCtx.forScope ev.key.scope ∈ ctxs then ctxs
        else ctxs ++ [ScopeCtx.forScope ev.key.scope], ?_, ?_, ?_⟩
      · split
        · exact hnodup
        · rename_i hout
          rw [List.nodup_append]
          refine ⟨hnodup, List.nodup_singleton _, ?_⟩
          rintro c hc d hd rfl
          exact hout (List.mem_singleton.mp hd ▸ hc)
      · intro x hx
        rcases List.mem_append.mp hx with hold | hlast
        · have hin := hcovered x hold
          split
          · exact hin
          · exact List.mem_append_left _ hin
        · obtain rfl := List.mem_singleton.mp hlast
          split
          · assumption
          · exact List.mem_append_right _ (List.mem_singleton_self _)
      · unfold contextGroups
        rw [List.foldl_append]
        show pushGroup ev (contextGroups events) = _
        rw [heq]
        exact pushGroup_groups hnodup hnew

theorem mem_contextGroups {group : ScopeCtx × List NewEvent} (h : group ∈ contextGroups events) :
    group.2 = eventsIn group.1 events := by
  obtain ⟨ctxs, _, _, heq⟩ := contextGroups_eq events
  rw [heq] at h
  obtain ⟨ctx, _, rfl⟩ := List.mem_map.mp h
  rfl

theorem exists_contextGroup (hev : ev ∈ events) : ∃ group ∈ contextGroups events, ev ∈ group.2 := by
  obtain ⟨ctxs, _, hcovered, heq⟩ := contextGroups_eq events
  rw [heq]
  exact ⟨_, List.mem_map_of_mem (hcovered ev hev), List.mem_filter.mpr ⟨hev, decide_eq_true rfl⟩⟩

end Groups

end Bulletin
