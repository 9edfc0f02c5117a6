import Bulletin.System.Builds

/-! # What one subscriber's events leave alone

The events of a subscriber's own scope, and the builds of it, touch nothing outside it: two
states that differ only there still do after any step that both take.
-/

namespace Bulletin

/-! ## The rest of the log -/

/-- The log without the events of a subscriber's own. -/
def shown (sub : Uuid) (log : List Event) : List Event :=
  log.filter fun e => e.key.scope ≠ .ofPrivate sub

section Shown

variable {sub : Uuid} {log log' : List Event}

/-- A read that only takes events of other scopes does not see the others. -/
theorem filter_shown {p : Event → Bool} (hp : ∀ e, p e = true → e.key.scope ≠ .ofPrivate sub) :
    (shown sub log).filter p = log.filter p := by
  unfold shown
  rw [List.filter_filter]
  refine List.filter_congr fun e _ => ?_
  cases hpe : p e with
  | false => rfl
  | true => simp [hp e hpe]

theorem filter_eq_of_shown {p : Event → Bool} (hp : ∀ e, p e = true → e.key.scope ≠ .ofPrivate sub)
    (h : shown sub log = shown sub log') : log.filter p = log'.filter p := by
  rw [← filter_shown hp, h, filter_shown hp]

theorem listGroupEvents_of_shown (h : shown sub log = shown sub log') {key : GroupKey}
    (hkey : key.scope ≠ .ofPrivate sub) : listGroupEvents log key = listGroupEvents log' key := by
  unfold listGroupEvents
  rw [filter_eq_of_shown ?_ h]
  intro e he
  rw [of_decide_eq_true he]
  exact hkey

theorem dirtyGroups_of_shown (h : shown sub log = shown sub log') {scope : Scope}
    (hscope : scope ≠ .ofPrivate sub) (lo hi : DateTime) :
    dirtyGroups log scope lo hi = dirtyGroups log' scope lo hi := by
  unfold dirtyGroups
  rw [filter_eq_of_shown ?_ h]
  intro e he
  rw [(of_decide_eq_true he).1]
  exact hscope

theorem pendingPublicEvents_of_shown (h : shown sub log = shown sub log') (builtThrough : DateTime)
    (limit : Nat) :
    pendingPublicEvents log builtThrough limit = pendingPublicEvents log' builtThrough limit := by
  unfold pendingPublicEvents
  rw [filter_eq_of_shown ?_ h]
  intro e he
  rw [(of_decide_eq_true he).1]
  exact nofun

theorem dueEventsForFetch_of_shown (h : shown sub log = shown sub log') (limit : Nat) :
    dueEventsForFetch log limit = dueEventsForFetch log' limit := by
  unfold dueEventsForFetch
  rw [filter_eq_of_shown ?_ h]
  intro e he
  rw [(of_decide_eq_true he).1]
  exact nofun

variable {now : DateTime} {id : Uuid} {ev : NewEvent} {f : Event → Event}

theorem shown_insertEvent_hidden (hev : ev.key.scope = .ofPrivate sub) :
    shown sub (insertEvent now id ev log) = shown sub log := by
  unfold insertEvent shown
  split
  · rfl
  · rw [List.filter_append, List.filter_cons_of_neg (by simp [hev]),
      List.filter_nil, List.append_nil]

theorem shown_insertEvent (hev : ev.key.scope ≠ .ofPrivate sub) :
    shown sub (insertEvent now id ev log) = insertEvent now id ev (shown sub log) := by
  have hsame : ((shown sub log).any fun e => e.fingerprint = ev.fingerprint ∧
      e.key.scope = ev.key.scope) =
      log.any fun e => e.fingerprint = ev.fingerprint ∧ e.key.scope = ev.key.scope := by
    unfold shown
    rw [List.any_filter]
    congr 1
    funext e
    by_cases hscope : e.key.scope = ev.key.scope
    · simp [hscope, hev]
    · simp [hscope]
  unfold insertEvent
  rw [hsame]
  split
  · rfl
  · unfold shown
    rw [List.filter_append, List.filter_cons_of_pos (by simpa using hev), List.filter_nil]

theorem shown_updateEvent (hf : ∀ e, (f e).key = e.key) :
    shown sub (updateEvent id f log) = updateEvent id f (shown sub log) := by
  unfold shown updateEvent
  rw [List.filter_map]
  congr 1
  refine List.filter_congr fun e _ => ?_
  dsimp only [Function.comp]
  split
  · rw [hf]
  · rfl

theorem shown_updateEvent_congr (h : shown sub log = shown sub log') (hf : ∀ e, (f e).key = e.key) :
    shown sub (updateEvent id f log) = shown sub (updateEvent id f log') := by
  rw [shown_updateEvent hf, shown_updateEvent hf, h]

end Shown

/-! ## States that differ in one scope -/

/-- Builds are numbered across scopes, and no one reads the number. -/
def Build.unnumbered (b : Build) : Build := { b with number := 0 }

def shownIngest (sub : Uuid) (txs : List OpenIngest) : List OpenIngest :=
  txs.filter fun tx => tx.event.key.scope ≠ .ofPrivate sub

/-- Two states differ at most in the scope of one subscriber. -/
structure Content.Alike (sub : Uuid) (s t : Content) : Prop where
  now : s.now = t.now
  event : shown sub s.event = shown sub t.event
  cluster : ∀ key : GroupKey, key.scope ≠ .ofPrivate sub → s.cluster key = t.cluster key
  builtThrough : ∀ scope ≠ .ofPrivate sub, s.builtThrough scope = t.builtThrough scope
  ingest : shownIngest sub s.ingest = shownIngest sub t.ingest
  build : ∀ scope ≠ .ofPrivate sub,
    (s.build scope).map Build.unnumbered = (t.build scope).map Build.unnumbered
  enriching : s.enriching = t.enriching
  fetching : s.fetching = t.fetching

def ContentAction.scope : ContentAction → Option Scope
  | beginIngest _ ev => some ev.key.scope
  | commitIngest tx | rollbackIngest tx => some tx.event.key.scope
  | beginBuild scope _ _ | listGroups scope | readGroup scope _ | upsertGroup scope
  | commitBuild scope | rollbackBuild scope => some scope
  | _ => none

section Alike

variable {sub : Uuid} {s s' t t' u : Content} {act : ContentAction}

theorem Content.Alike.refl (s : Content) : s.Alike sub s :=
  ⟨rfl, rfl, fun _ _ => rfl, fun _ _ => rfl, rfl, fun _ _ => rfl, rfl, rfl⟩

theorem Content.Alike.symm (h : s.Alike sub t) : t.Alike sub s where
  now := h.now.symm
  event := h.event.symm
  cluster := fun key hkey => (h.cluster key hkey).symm
  builtThrough := fun scope hscope => (h.builtThrough scope hscope).symm
  ingest := h.ingest.symm
  build := fun scope hscope => (h.build scope hscope).symm
  enriching := h.enriching.symm
  fetching := h.fetching.symm

theorem Content.Alike.trans (h : s.Alike sub t) (k : t.Alike sub u) : s.Alike sub u where
  now := h.now.trans k.now
  event := h.event.trans k.event
  cluster := fun key hkey => (h.cluster key hkey).trans (k.cluster key hkey)
  builtThrough := fun scope hscope =>
    (h.builtThrough scope hscope).trans (k.builtThrough scope hscope)
  ingest := h.ingest.trans k.ingest
  build := fun scope hscope => (h.build scope hscope).trans (k.build scope hscope)
  enriching := h.enriching.trans k.enriching
  fetching := h.fetching.trans k.fetching

theorem Content.Alike.withBuild (h : s.Alike sub t) {scope : Scope} {b b' : Option Build}
    (hb : scope ≠ .ofPrivate sub → b.map Build.unnumbered = b'.map Build.unnumbered) :
    (s.withBuild scope b).Alike sub (t.withBuild scope b') where
  now := h.now
  event := h.event
  cluster := h.cluster
  builtThrough := h.builtThrough
  ingest := h.ingest
  build := by
    intro other hother
    by_cases heq : other = scope
    · subst heq
      rw [withBuild_self, withBuild_self]
      exact hb hother
    · rw [withBuild_of_ne heq, withBuild_of_ne heq]
      exact h.build other hother
  enriching := h.enriching
  fetching := h.fetching

theorem Content.alike_hiddenBuild (s : Content) (b : Option Build) :
    (s.withBuild (.ofPrivate sub) b).Alike sub s where
  now := rfl
  event := rfl
  cluster := fun _ _ => rfl
  builtThrough := fun _ _ => rfl
  ingest := rfl
  build := by
    intro other hother
    rw [withBuild_of_ne hother]
  enriching := rfl
  fetching := rfl

/-- The builds of a scope on both sides are one but for the number. -/
theorem Content.Alike.build_eq (h : s.Alike sub t) {scope : Scope} (hscope : scope ≠ .ofPrivate sub)
    {b b' : Build} (hb : s.build scope = some b) (hb' : t.build scope = some b') :
    b.unnumbered = b'.unnumbered := by
  have heq := h.build scope hscope
  rw [hb, hb'] at heq
  exact Option.some.inj heq

theorem Build.fields_eq {b b' : Build} (h : b.unnumbered = b'.unnumbered) :
    b.groups = b'.groups ∧ b.reading = b'.reading ∧ b.hwm = b'.hwm ∧
      ∀ cluster, b.commit cluster = b'.commit cluster := by
  refine ⟨?_, ?_, ?_, ?_⟩
  · exact (congrArg Build.groups h : b.unnumbered.groups = b'.unnumbered.groups)
  · exact (congrArg Build.reading h : b.unnumbered.reading = b'.unnumbered.reading)
  · exact (congrArg Build.hwm h : b.unnumbered.hwm = b'.unnumbered.hwm)
  · intro cluster
    exact (congrArg (Build.commit · cluster) h :
      b.unnumbered.commit cluster = b'.unnumbered.commit cluster)

theorem Build.list_alike {b b' : Build} (h : b.unnumbered = b'.unnumbered) {log log' : List Event}
    (hlog : shown sub log = shown sub log') {scope : Scope} (hscope : scope ≠ .ofPrivate sub) :
    (b.list log scope).unnumbered = (b'.list log' scope).unnumbered := by
  show b.unnumbered.list log scope = b'.unnumbered.list log' scope
  unfold Build.list
  rw [h, dirtyGroups_of_shown hlog hscope]

theorem Build.read_alike {b b' : Build} (h : b.unnumbered = b'.unnumbered) {log log' : List Event}
    (hlog : shown sub log = shown sub log') {left : List GroupKey} {key : GroupKey}
    (hkey : key.scope ≠ .ofPrivate sub) :
    (b.read log left key).unnumbered = (b'.read log' left key).unnumbered := by
  show b.unnumbered.read log left key = b'.unnumbered.read log' left key
  unfold Build.read
  rw [h, listGroupEvents_of_shown hlog hkey]

theorem Build.upsert_alike {b b' : Build} (h : b.unnumbered = b'.unnumbered) {key : GroupKey}
    {events : List Event} :
    (b.upsert key events).unnumbered = (b'.upsert key events).unnumbered := by
  show b.unnumbered.upsert key events = b'.unnumbered.upsert key events
  rw [h]

theorem Build.Placed.commit_hidden {b : Build} (hb : b.Placed s (.ofPrivate sub))
    (hreading : b.reading = none) {cluster : ClusterCache} {key : GroupKey}
    (hkey : key.scope ≠ .ofPrivate sub) : b.commit cluster key = cluster key := by
  have hnone : b.rows key = none := by
    cases hrows : b.rows key with
    | none => rfl
    | some events =>
        have hholds : b.holds key = some events := (Build.holds_rows hreading).trans hrows
        exact absurd (hb.held key events hholds).1 hkey
  unfold Build.commit
  rw [hnone]

theorem Ingested.alike_hidden (h : Ingested s act s') (hs : ContentPlaced s)
    (hact : act.scope = some (.ofPrivate sub)) : s'.Alike sub s := by
  have hself : s.Alike sub s := Content.Alike.refl s
  cases h with
  | beginIngest id ev _ =>
      obtain hev : ev.key.scope = .ofPrivate sub := Option.some.inj hact
      refine { hself with ingest := ?_ }
      simp [shownIngest, hev]
  | commitIngest tx _ =>
      obtain htx : tx.event.key.scope = .ofPrivate sub := Option.some.inj hact
      refine { hself with event := shown_insertEvent_hidden htx, ingest := ?_ }
      unfold shownIngest
      rw [← List.erase_filter, List.erase_of_not_mem]
      simp [htx]
  | rollbackIngest tx _ =>
      obtain htx : tx.event.key.scope = .ofPrivate sub := Option.some.inj hact
      refine { hself with ingest := ?_ }
      unfold shownIngest
      rw [← List.erase_filter, List.erase_of_not_mem]
      simp [htx]
  | beginBuild scope started enrichGrace _ _ =>
      obtain rfl : scope = .ofPrivate sub := Option.some.inj hact
      exact { s.alike_hiddenBuild _ with }
  | listGroups scope b _ _ | readGroup scope _ b _ _ _ _ _ | upsertGroup scope b _ _ _ _
  | rollbackBuild scope b _ =>
      obtain rfl : scope = .ofPrivate sub := Option.some.inj hact
      exact s.alike_hiddenBuild _
  | commitBuild scope b hb _ hreading =>
      obtain rfl : scope = .ofPrivate sub := Option.some.inj hact
      refine { s.alike_hiddenBuild none with cluster := ?_, builtThrough := ?_ }
      · intro key hkey
        exact (hs.build hb).commit_hidden hreading hkey
      · intro scope hscope
        exact Function.update_of_ne hscope _ _
  | _ => cases hact

theorem Ingested.alike_seen (h : Ingested s act s') (h' : Ingested t act t') (hs : ContentPlaced s)
    (hact : act.scope ≠ some (.ofPrivate sub)) (halike : s.Alike sub t) :
    s'.Alike sub t' := by
  cases h with
  | wait duration =>
      cases h'
      exact { halike with now := by rw [halike.now] }
  | beginIngest id ev _ =>
      cases h'
      refine { halike with ingest := ?_ }
      unfold shownIngest
      rw [List.filter_append, List.filter_append, halike.now]
      exact congrArg (· ++ _) halike.ingest
  | commitIngest tx _ =>
      cases h'
      have hev : tx.event.key.scope ≠ .ofPrivate sub := fun heq => hact (congrArg some heq)
      refine { halike with event := ?_, ingest := ?_ }
      · rw [shown_insertEvent hev, shown_insertEvent hev, halike.event]
      · unfold shownIngest
        rw [← List.erase_filter, ← List.erase_filter]
        exact congrArg (List.erase · tx) halike.ingest
  | rollbackIngest tx _ =>
      cases h'
      refine { halike with ingest := ?_ }
      unfold shownIngest
      rw [← List.erase_filter, ← List.erase_filter]
      exact congrArg (List.erase · tx) halike.ingest
  | beginBuild scope started enrichGrace _ _ =>
      cases h'
      refine { halike.withBuild ?_ with }
      intro hscope
      rw [halike.builtThrough scope hscope]
      rfl
  | listGroups scope b hb _ =>
      cases h' with
      | listGroups _ b' hb' _ =>
          refine halike.withBuild fun hscope => ?_
          exact congrArg some (Build.list_alike (halike.build_eq hscope hb hb') halike.event hscope)
  | readGroup scope key b left hb hgroups _ hkey =>
      cases h' with
      | readGroup _ _ b' left' hb' hgroups' _ _ =>
          refine halike.withBuild fun hscope => ?_
          have heq := halike.build_eq hscope hb hb'
          obtain ⟨hgroups_eq, _, _, _⟩ := Build.fields_eq heq
          obtain rfl : left = left' := by
            rw [hgroups, hgroups'] at hgroups_eq
            exact Option.some.inj hgroups_eq
          have hin : key ∈ b.groups.getD [] := by
            rw [hgroups]
            exact hkey
          have hkscope : key.scope ≠ .ofPrivate sub := by
            rw [((hs.build hb).left key hin).2.1]
            exact hscope
          exact congrArg some (Build.read_alike heq halike.event hkscope)
  | upsertGroup scope b key events hb hreading =>
      cases h' with
      | upsertGroup _ b' key' events' hb' hreading' =>
          refine halike.withBuild fun hscope => ?_
          have heq := halike.build_eq hscope hb hb'
          obtain ⟨_, hreading_eq, _, _⟩ := Build.fields_eq heq
          rw [hreading, hreading'] at hreading_eq
          obtain ⟨rfl, rfl⟩ := Prod.mk.inj (Option.some.inj hreading_eq)
          exact congrArg some (Build.upsert_alike heq)
  | commitBuild scope b hb _ hreading =>
      cases h' with
      | commitBuild _ b' hb' _ hreading' =>
          have hscope : scope ≠ .ofPrivate sub := fun heq => hact (congrArg some heq)
          obtain ⟨_, _, hhwm, hcommit⟩ := Build.fields_eq (halike.build_eq hscope hb hb')
          have hfree : (s.withBuild scope none).Alike sub (t.withBuild scope none) :=
            halike.withBuild fun _ => rfl
          refine { hfree with cluster := ?_, builtThrough := ?_ }
          · intro key hkey
            show b.commit s.cluster key = b'.commit t.cluster key
            rw [hcommit]
            unfold Build.commit
            rw [halike.cluster key hkey]
          · intro other hother
            dsimp only
            rw [halike.builtThrough scope hscope, hhwm]
            by_cases heq : other = scope
            · subst heq
              rw [Function.update_self, Function.update_self]
            · rw [Function.update_of_ne heq, Function.update_of_ne heq]
              exact halike.builtThrough other hother
  | rollbackBuild scope b _ =>
      cases h'
      exact halike.withBuild fun _ => rfl
  | readPending sweep limit _ =>
      cases h'
      refine { halike with enriching := ?_ }
      rw [halike.enriching, halike.builtThrough .ofPublic nofun,
        pendingPublicEvents_of_shown halike.event]
  | applyEnrichment sweep newEntities salience e rest hsweep =>
      cases h' with
      | applyEnrichment _ _ _ e' rest' hsweep' =>
          rw [halike.enriching] at hsweep
          obtain ⟨rfl, rfl⟩ := List.cons.inj (hsweep.symm.trans hsweep')
          refine { halike with event := ?_, enriching := by rw [halike.enriching] }
          rw [halike.now]
          exact shown_updateEvent_congr halike.event fun _ => rfl
  | enrichmentFailed sweep e rest hsweep =>
      cases h' with
      | enrichmentFailed _ e' rest' hsweep' =>
          rw [halike.enriching] at hsweep
          obtain ⟨rfl, rfl⟩ := List.cons.inj (hsweep.symm.trans hsweep')
          exact { halike with enriching := by rw [halike.enriching] }
  | readDue limit _ =>
      cases h'
      exact { halike with fetching := by rw [dueEventsForFetch_of_shown halike.event] }
  | storeFullText target text _ _ =>
      cases h'
      refine { halike with event := ?_, cluster := ?_, fetching := by rw [halike.fetching] }
      · exact shown_updateEvent_congr halike.event fun _ => rfl
      · intro key hkey
        unfold touchGroup
        rw [halike.now, halike.cluster target.key nofun]
        dsimp only
        by_cases heq : key = target.key
        · subst heq
          rw [Function.update_self, Function.update_self]
        · rw [Function.update_of_ne heq, Function.update_of_ne heq]
          exact halike.cluster key hkey
  | fetchFailed target permanent _ =>
      cases h'
      refine { halike with event := ?_, fetching := by rw [halike.fetching] }
      exact shown_updateEvent_congr halike.event fun _ => rfl
  | skipFetch target _ =>
      cases h'
      exact { halike with fetching := by rw [halike.fetching] }

end Alike

end Bulletin
