import Bulletin.System.Content

/-! # What builds have read

The log only grows, and what ties an event to its group and its time never changes. So
what a build has listed and read stays in the log, whatever happens around it.
-/

namespace Bulletin

variable {s s' : Content} {act : ContentAction} {scope : Scope}

/-! ## The log -/

/-- The columns of an event that nothing writes. -/
structure EventStamp where
  id : Uuid
  key : GroupKey
  ingestTime : DateTime
deriving DecidableEq

def Event.stamp (e : Event) : EventStamp := ⟨e.id, e.key, e.ingestTime⟩

def OpenIngest.stamp (tx : OpenIngest) : EventStamp := ⟨tx.id, tx.event.key, tx.started⟩

def Content.stamps (s : Content) : List EventStamp := s.event.map Event.stamp

/-- The step commits an ingest transaction, and its event was not there yet. -/
def Inserts (s : Content) (act : ContentAction) (tx : OpenIngest) : Prop :=
  act = .commitIngest tx ∧ tx ∈ s.ingest ∧
    ∀ e ∈ s.event, ¬ (e.fingerprint = tx.event.fingerprint ∧ e.key.scope = tx.event.key.scope)

/-- The row that an ingest transaction inserts. -/
def OpenIngest.row (tx : OpenIngest) : Event :=
  { tx.event with
    id := tx.id
    ingestTime := tx.started
    enrichedAt := if tx.event.key.source.benefitsFromEnrichment then none else some tx.started }

theorem map_updateEvent {β : Type} {f : Event → β} {id : Uuid} {g : Event → Event}
    {log : List Event} (hg : ∀ e, f (g e) = f e) : (updateEvent id g log).map f = log.map f := by
  unfold updateEvent
  rw [List.map_map]
  apply List.map_congr_left
  intro e _
  dsimp only [Function.comp]
  split
  · exact hg e
  · rfl

/-- The columns that no sweep writes: the log keeps them, and grows by those of the events that
ingest transactions commit. -/
theorem Ingested.columns {β : Type} (f : Event → β) (h : Ingested s act s')
    (henrich : ∀ now tokens salience e, f (Bulletin.applyEnrichment now tokens salience e) = f e)
    (htext : ∀ text e, f (setFullText text e) = f e)
    (hfail : ∀ permanent e, f (recordFetchFailure permanent e) = f e) :
    (s'.event.map f = s.event.map f ∧ ∀ tx, ¬ Inserts s act tx) ∨
      ∃ tx, Inserts s act tx ∧ s'.event.map f = s.event.map f ++ [f tx.row] := by
  have hother : (∀ tx, act ≠ .commitIngest tx) → ∀ tx, ¬ Inserts s act tx :=
    fun hne tx hinserts => hne tx hinserts.1
  cases h with
  | commitIngest tx htx =>
      by_cases hold : s.event.any fun e => e.fingerprint = tx.event.fingerprint ∧
        e.key.scope = tx.event.key.scope
      · have hsame : insertEvent tx.started tx.id tx.event s.event = s.event := if_pos hold
        refine Or.inl ⟨congrArg (List.map f) hsame, ?_⟩
        intro tx' hinserts
        obtain rfl := ContentAction.commitIngest.inj hinserts.1
        obtain ⟨e, he, hid⟩ := List.any_eq_true.mp hold
        exact hinserts.2.2 e he (of_decide_eq_true hid)
      · refine Or.inr ⟨tx, ⟨rfl, htx, ?_⟩, ?_⟩
        · intro e he hid
          exact hold (List.any_eq_true.mpr ⟨e, he, decide_eq_true hid⟩)
        · show (insertEvent tx.started tx.id tx.event s.event).map f = _
          unfold insertEvent
          rw [if_neg hold, List.map_append]
          rfl
  | applyEnrichment sweep newEntities salience e rest _ =>
      exact Or.inl ⟨map_updateEvent (henrich _ _ _), hother fun _ heq => by cases heq⟩
  | storeFullText target text _ _ =>
      exact Or.inl ⟨map_updateEvent (htext _), hother fun _ heq => by cases heq⟩
  | fetchFailed target permanent _ =>
      exact Or.inl ⟨map_updateEvent (hfail _), hother fun _ heq => by cases heq⟩
  | _ => exact Or.inl ⟨rfl, hother fun _ heq => by cases heq⟩

theorem Ingested.stamps (h : Ingested s act s') :
    (s'.stamps = s.stamps ∧ ∀ tx, ¬ Inserts s act tx) ∨
      ∃ tx, Inserts s act tx ∧ s'.stamps = s.stamps ++ [tx.stamp] :=
  h.columns Event.stamp (fun _ _ _ _ => rfl) (fun _ _ => rfl) fun _ _ => rfl

theorem Ingested.stamp_kept (h : Ingested s act s') {x : EventStamp} (hx : x ∈ s.stamps) :
    x ∈ s'.stamps := by
  rcases h.stamps with ⟨hsame, _⟩ | ⟨tx, _, hnew⟩
  · rwa [hsame]
  · rw [hnew]
    exact List.mem_append_left _ hx

theorem Ingested.stamp_from (h : Ingested s act s') {x : EventStamp} (hx : x ∈ s'.stamps) :
    x ∈ s.stamps ∨ ∃ tx, Inserts s act tx ∧ tx.stamp = x := by
  rcases h.stamps with ⟨hsame, _⟩ | ⟨tx, hinserts, hnew⟩
  · exact Or.inl (hsame ▸ hx)
  · rw [hnew] at hx
    rcases List.mem_append.mp hx with hold | hlast
    · exact Or.inl hold
    · exact Or.inr ⟨tx, hinserts, (List.mem_singleton.mp hlast).symm⟩

/-! ## The build of one scope -/

theorem Content.withBuild_self {b : Option Build} : (s.withBuild scope b).build scope = b :=
  Function.update_self _ _ _

theorem Content.withBuild_of_ne {other : Scope} {b : Option Build} (h : scope ≠ other) :
    (s.withBuild other b).build scope = s.build scope := Function.update_of_ne h _ _

/-- What a step does to the build of a scope and its watermark. -/
inductive BuildMove (s : Content) (act : ContentAction) (s' : Content) (scope : Scope) : Prop
  | same (hbuild : s'.build scope = s.build scope) (hthrough : s'.builtThrough scope = s.builtThrough scope)
      (hnot : act ≠ .commitBuild scope) (hbuilds : s.builds ≤ s'.builds)
  | begun (started : DateTime) (enrichGrace : Nat) (hfree : s.build scope = none)
      (hbuild : s'.build scope =
        some (Build.start s.builds scope started enrichGrace (s.builtThrough scope)))
      (hthrough : s'.builtThrough scope = s.builtThrough scope) (hevent : s'.event = s.event)
      (hnot : act ≠ .commitBuild scope) (hbuilds : s'.builds = s.builds + 1)
  | listed (b : Build) (hb : s.build scope = some b) (hgroups : b.groups = none)
      (hbuild : s'.build scope = some (b.list s.event scope))
      (hthrough : s'.builtThrough scope = s.builtThrough scope) (hevent : s'.event = s.event)
      (hnot : act ≠ .commitBuild scope) (hbuilds : s'.builds = s.builds)
  | read (key : GroupKey) (b : Build) (left : List GroupKey) (hb : s.build scope = some b)
      (hgroups : b.groups = some left) (hreading : b.reading = none) (hkey : key ∈ left)
      (hbuild : s'.build scope = some (b.read s.event left key))
      (hthrough : s'.builtThrough scope = s.builtThrough scope) (hevent : s'.event = s.event)
      (hnot : act ≠ .commitBuild scope) (hbuilds : s'.builds = s.builds)
  | upserted (key : GroupKey) (b : Build) (events : List Event) (hb : s.build scope = some b)
      (hreading : b.reading = some (key, events)) (hbuild : s'.build scope = some (b.upsert key events))
      (hthrough : s'.builtThrough scope = s.builtThrough scope) (hevent : s'.event = s.event)
      (hnot : act ≠ .commitBuild scope) (hbuilds : s'.builds = s.builds)
  | committed (b : Build) (hact : act = .commitBuild scope) (hb : s.build scope = some b)
      (hgroups : b.groups = some []) (hreading : b.reading = none) (hbuild : s'.build scope = none)
      (hthrough : s'.builtThrough scope = max (s.builtThrough scope) b.hwm)
      (hevent : s'.event = s.event)
      (hbuilds : s'.builds = s.builds)
  | rolledBack (b : Build) (hb : s.build scope = some b) (hbuild : s'.build scope = none)
      (hthrough : s'.builtThrough scope = s.builtThrough scope) (hevent : s'.event = s.event)
      (hnot : act ≠ .commitBuild scope) (hbuilds : s'.builds = s.builds)

theorem Ingested.build (h : Ingested s act s') (scope : Scope) : BuildMove s act s' scope := by
  cases h with
  | beginBuild other started enrichGrace hfree _ =>
      by_cases heq : scope = other
      · subst heq
        exact .begun started enrichGrace hfree Content.withBuild_self rfl rfl
          (fun h => by cases h) rfl
      · exact .same (Content.withBuild_of_ne heq) rfl (fun h => by cases h) (Nat.le_succ _)
  | listGroups other b hb hgroups =>
      by_cases heq : scope = other
      · subst heq
        exact .listed b hb hgroups Content.withBuild_self rfl rfl (fun h => by cases h) rfl
      · exact .same (Content.withBuild_of_ne heq) rfl (fun h => by cases h) (le_refl _)
  | readGroup other key b left hb hgroups hreading hkey =>
      by_cases heq : scope = other
      · subst heq
        exact .read key b left hb hgroups hreading hkey Content.withBuild_self rfl rfl
          (fun h => by cases h) rfl
      · exact .same (Content.withBuild_of_ne heq) rfl (fun h => by cases h) (le_refl _)
  | upsertGroup other b key events hb hreading =>
      by_cases heq : scope = other
      · subst heq
        exact .upserted key b events hb hreading Content.withBuild_self rfl rfl
          (fun h => by cases h) rfl
      · exact .same (Content.withBuild_of_ne heq) rfl (fun h => by cases h) (le_refl _)
  | commitBuild other b hb hgroups hreading =>
      by_cases heq : scope = other
      · subst heq
        exact .committed b rfl hb hgroups hreading Content.withBuild_self
          (Function.update_self _ _ _) rfl rfl
      · refine .same (Content.withBuild_of_ne heq) (Function.update_of_ne heq _ _) ?_ (le_refl _)
        intro h
        exact heq (ContentAction.commitBuild.inj h).symm
  | rollbackBuild other b hb =>
      by_cases heq : scope = other
      · subst heq
        exact .rolledBack b hb Content.withBuild_self rfl rfl (fun h => by cases h) rfl
      · exact .same (Content.withBuild_of_ne heq) rfl (fun h => by cases h) (le_refl _)
  | _ => exact .same rfl rfl (fun h => by cases h) (le_refl _)

/-! ## What a build holds is in the log -/

/-- The groups a build has listed are dirty, and what it has read of them is there. -/
structure Build.Placed (s : Content) (scope : Scope) (b : Build) : Prop where
  lo : b.lo = s.builtThrough scope
  number : b.number < s.builds
  unlisted : b.groups = none → b.reading = none ∧ ∀ key, b.rows key = none
  left : ∀ key ∈ b.groups.getD [], b.holds key = none ∧ key.scope = scope ∧
    ∃ x ∈ s.stamps, x.key = key ∧ b.lo < x.ingestTime ∧ x.ingestTime ≤ b.hwm
  nodup : (b.groups.getD []).Nodup
  reading : ∀ key events, b.reading = some (key, events) → b.rows key = none
  held : ∀ key events, b.holds key = some events → key.scope = scope ∧ rollup events ≠ none ∧
    (∃ x ∈ s.stamps, x.key = key ∧ b.lo < x.ingestTime ∧ x.ingestTime ≤ b.hwm) ∧
    ∀ e ∈ events, ∃ x ∈ s.stamps, x.id = e.id ∧ x.key = key

theorem Build.Placed.reading_ne {b : Build} (hb : b.Placed s scope) {key : GroupKey}
    {events : List Event} (h : b.reading = some (key, events)) : rollup events ≠ none := by
  refine (hb.held key events ?_).2.1
  unfold Build.holds
  rw [h]
  exact if_pos rfl

/-- An open ingest transaction has an id of its own and a start after the epoch. -/
structure ContentPlaced (s : Content) : Prop where
  now : 0 < s.now
  started : ∀ tx ∈ s.ingest, 0 < tx.started
  ids : (s.stamps.map (·.id) ++ s.ingest.map (·.id)).Nodup
  time : ∀ x ∈ s.stamps, 0 < x.ingestTime
  build : ∀ {scope : Scope} {b : Build}, s.build scope = some b → b.Placed s scope

theorem mem_stamps_of_mem {e : Event} (he : e ∈ s.event) : e.stamp ∈ s.stamps :=
  List.mem_map_of_mem he

theorem Build.Placed.mono {b : Build} (hb : b.Placed s scope)
    (hstamps : ∀ x ∈ s.stamps, x ∈ s'.stamps)
    (hthrough : s'.builtThrough scope = s.builtThrough scope) (hbuilds : s.builds ≤ s'.builds) :
    b.Placed s' scope where
  lo := hb.lo.trans hthrough.symm
  number := lt_of_lt_of_le hb.number hbuilds
  unlisted := hb.unlisted
  left := by
    intro key hkey
    obtain ⟨hnone, hscope, x, hx, hrange⟩ := hb.left key hkey
    exact ⟨hnone, hscope, x, hstamps x hx, hrange⟩
  nodup := hb.nodup
  reading := hb.reading
  held := by
    intro key events hkey
    obtain ⟨hscope, hne, ⟨x, hx, hrange⟩, hevents⟩ := hb.held key events hkey
    refine ⟨hscope, hne, ⟨x, hstamps x hx, hrange⟩, ?_⟩
    intro e he
    obtain ⟨y, hy, hid⟩ := hevents e he
    exact ⟨y, hstamps y hy, hid⟩

theorem listGroupEvents_ne_nil {key : GroupKey} (h : ∃ x ∈ s.stamps, x.key = key) :
    listGroupEvents s.event key ≠ [] := by
  intro hnil
  obtain ⟨x, hx, rfl⟩ := h
  obtain ⟨e, he, rfl⟩ := List.mem_map.mp hx
  exact listGroupEvents_eq_nil.mp hnil e he rfl

theorem Build.Placed.step (h : Ingested s act s') {b' : Build}
    (hplaced : ∀ b, s.build scope = some b → b.Placed s scope)
    (hb' : s'.build scope = some b') : b'.Placed s' scope := by
  have hkept : ∀ x ∈ s.stamps, x ∈ s'.stamps := fun x hx => h.stamp_kept hx
  cases h.build scope with
  | same hbuild hthrough _ hbuilds =>
    exact (hplaced b' (hbuild.symm.trans hb')).mono hkept hthrough hbuilds
  | begun started enrichGrace _ hbuild hthrough _ _ hbuilds =>
      obtain rfl := Option.some.inj (hbuild.symm.trans hb')
      constructor
      · exact hthrough.symm
      · exact hbuilds ▸ Nat.lt_succ_self _
      · exact fun _ => ⟨rfl, fun _ => rfl⟩
      · intro key hkey
        cases hkey
      · exact List.nodup_nil
      · intro key events hreading
        cases hreading
      · intro key events hheld
        cases hheld
  | listed b hb hgroups hbuild hthrough _ _ hbuilds =>
      obtain rfl := Option.some.inj (hbuild.symm.trans hb')
      have hold := (hplaced b hb).mono hkept hthrough hbuilds.ge
      obtain ⟨hreading, hrows⟩ := hold.unlisted hgroups
      have hnone : ∀ key, b.holds key = none := by
        intro key
        unfold Build.holds
        rw [hreading]
        exact hrows key
      constructor
      · exact hold.lo
      · exact hold.number
      · intro hlisted
        cases hlisted
      · intro key hkey
        obtain ⟨e, he, hkey, hscope, hlo, hhi⟩ := mem_dirtyGroups.mp hkey
        exact ⟨hnone key, hscope, e.stamp, hkept _ (mem_stamps_of_mem he), hkey, hlo, hhi⟩
      · exact List.nodup_dedup _
      · exact hold.reading
      · exact hold.held
  | read key b left hb hgroups hreading hkey hbuild hthrough _ _ hbuilds =>
      obtain rfl := Option.some.inj (hbuild.symm.trans hb')
      have hold := (hplaced b hb).mono hkept hthrough hbuilds.ge
      have hleft : b.groups.getD [] = left := by rw [hgroups]; rfl
      have hnodup : left.Nodup := hleft ▸ hold.nodup
      obtain ⟨hnone, hscope, hdirty⟩ := hold.left key (hleft.symm ▸ hkey)
      have hlisted : ∃ x ∈ s.stamps, x.key = key := by
        obtain ⟨_, _, x, hx, hkey, _⟩ := (hplaced b hb).left key (hleft.symm ▸ hkey)
        exact ⟨x, hx, hkey⟩
      constructor
      · exact hold.lo
      · exact hold.number
      · intro hunlisted
        cases hunlisted
      · intro k hk
        have hin : k ∈ left := List.mem_of_mem_erase hk
        have hne : key ≠ k := fun heq => (List.Nodup.not_mem_erase hnodup) (heq ▸ hk)
        obtain ⟨hnone', hscope', hdirty'⟩ := hold.left k (hleft.symm ▸ hin)
        refine ⟨?_, hscope', hdirty'⟩
        rw [Build.holds_read hreading, if_neg hne]
        exact hnone'
      · exact hnodup.erase key
      · intro k events hk
        obtain ⟨rfl, _⟩ := Prod.mk.inj (Option.some.inj hk)
        have hrows := hnone
        unfold Build.holds at hrows
        rw [hreading] at hrows
        exact hrows
      · intro k events hk
        rw [Build.holds_read hreading] at hk
        by_cases heq : key = k
        · subst heq
          rw [if_pos rfl] at hk
          obtain rfl := Option.some.inj hk
          refine ⟨hscope, fun hnil => listGroupEvents_ne_nil hlisted (rollup_eq_none.mp hnil), hdirty, ?_⟩
          intro e he
          obtain ⟨hmem, hkey'⟩ := mem_listGroupEvents.mp he
          exact ⟨e.stamp, hkept _ (mem_stamps_of_mem hmem), rfl, hkey'⟩
        · rw [if_neg heq] at hk
          exact hold.held k events hk
  | upserted key b events hb hreading hbuild hthrough _ _ hbuilds =>
      obtain rfl := Option.some.inj (hbuild.symm.trans hb')
      have hold := (hplaced b hb).mono hkept hthrough hbuilds.ge
      have hsame : ∀ k, (b.upsert key events).holds k = b.holds k :=
        fun k => Build.holds_upsert hreading (hold.reading_ne hreading)
      constructor
      · exact hold.lo
      · exact hold.number
      · intro hunlisted
        cases hreading.symm.trans (hold.unlisted hunlisted).1
      · intro k hk
        rw [hsame]
        exact hold.left k hk
      · exact hold.nodup
      · intro k L hk
        cases hk
      · intro k L hk
        rw [hsame] at hk
        exact hold.held k L hk
  | committed _ _ _ _ _ hbuild _ _ _ => cases hbuild.symm.trans hb'
  | rolledBack _ _ hbuild _ _ _ _ => cases hbuild.symm.trans hb'

/-! ## Ids are drawn once -/

/-- What a step does to the open ingest transactions. -/
inductive IngestMove (s : Content) (act : ContentAction) (s' : Content) : Prop
  | same (hingest : s'.ingest = s.ingest) (hstamps : s'.stamps = s.stamps)
  | begun (id : Uuid) (ev : NewEvent) (hfresh : s.Fresh id)
      (hingest : s'.ingest = s.ingest ++ [⟨id, s.now, ev⟩])
      (hstamps : s'.stamps = s.stamps)
  | dropped (tx : OpenIngest) (htx : tx ∈ s.ingest) (hingest : s'.ingest = s.ingest.erase tx)
      (hstamps : s'.stamps = s.stamps)
  | inserted (tx : OpenIngest) (hinserts : Inserts s act tx)
      (hingest : s'.ingest = s.ingest.erase tx)
      (hstamps : s'.stamps = s.stamps ++ [tx.stamp])

theorem Ingested.ingest (h : Ingested s act s') : IngestMove s act s' := by
  have hstamps := h.stamps
  cases h with
  | beginIngest id ev hfresh => exact .begun id ev hfresh rfl rfl
  | commitIngest tx htx =>
      rcases hstamps with ⟨hsame, _⟩ | ⟨tx', hinserts, hnew⟩
      · exact .dropped tx htx rfl hsame
      · obtain rfl := ContentAction.commitIngest.inj hinserts.1
        exact .inserted tx hinserts rfl hnew
  | rollbackIngest tx htx => exact .dropped tx htx rfl rfl
  | applyEnrichment _ _ _ _ _ _ | storeFullText _ _ _ _ | fetchFailed _ _ _ =>
      rcases hstamps with ⟨hsame, _⟩ | ⟨tx, hinserts, _⟩
      · exact .same rfl hsame
      · cases hinserts.1
  | _ => exact .same rfl rfl

theorem Ingested.now_le (h : Ingested s act s') : s.now ≤ s'.now := by
  cases h with
  | wait duration => exact Int.le_add_of_nonneg_right (Int.natCast_nonneg duration)
  | _ => exact le_refl _

theorem perm_erase_snoc {tx : OpenIngest} (htx : tx ∈ s.ingest) :
    ((s.stamps ++ [tx.stamp]).map (·.id) ++ (s.ingest.erase tx).map (·.id)).Perm
      (s.stamps.map (·.id) ++ s.ingest.map (·.id)) := by
  rw [List.map_append, List.append_assoc]
  refine List.Perm.append_left _ ?_
  exact ((List.perm_cons_erase htx).map (·.id)).symm

theorem ContentPlaced.step (h : Ingested s act s') (hs : ContentPlaced s) : ContentPlaced s' := by
  have hnow : 0 < s'.now := lt_of_lt_of_le hs.now h.now_le
  have hbuild : ∀ {scope : Scope} {b : Build}, s'.build scope = some b → b.Placed s' scope :=
    fun hb => Build.Placed.step h (fun _ hb => hs.build hb) hb
  cases h.ingest with
  | same hingest hstamps =>
      exact ⟨hnow, hingest ▸ hs.started, by rw [hingest, hstamps]; exact hs.ids,
        hstamps ▸ hs.time, hbuild⟩
  | begun id ev hfresh hingest hstamps =>
      refine ⟨hnow, ?_, ?_, hstamps ▸ hs.time, hbuild⟩
      · intro tx htx
        rw [hingest] at htx
        rcases List.mem_append.mp htx with hold | hlast
        · exact hs.started tx hold
        · rw [List.mem_singleton.mp hlast]
          exact hs.now
      · rw [hingest, hstamps, List.map_append, ← List.append_assoc]
        refine List.nodup_append.mpr ⟨hs.ids, List.nodup_singleton _, ?_⟩
        intro x hx y hy heq
        obtain rfl := List.mem_singleton.mp hy
        subst heq
        rcases List.mem_append.mp hx with hin | hopen
        · obtain ⟨_, hstamp, hid⟩ := List.mem_map.mp hin
          obtain ⟨e, he, rfl⟩ := List.mem_map.mp hstamp
          exact hfresh.1 e he hid
        · obtain ⟨tx, htx, hid⟩ := List.mem_map.mp hopen
          exact hfresh.2 tx htx hid
  | dropped tx htx hingest hstamps =>
      refine ⟨hnow, ?_, ?_, hstamps ▸ hs.time, hbuild⟩
      · intro tx' htx'
        rw [hingest] at htx'
        exact hs.started tx' (List.mem_of_mem_erase htx')
      · rw [hingest, hstamps]
        exact hs.ids.sublist (List.Sublist.append_left (List.erase_sublist.map _) _)
  | inserted tx hinserts hingest hstamps =>
      refine ⟨hnow, ?_, ?_, ?_, hbuild⟩
      · intro tx' htx'
        rw [hingest] at htx'
        exact hs.started tx' (List.mem_of_mem_erase htx')
      · rw [hingest, hstamps]
        exact (perm_erase_snoc hinserts.2.1).nodup_iff.mpr hs.ids
      · intro x hx
        rw [hstamps] at hx
        rcases List.mem_append.mp hx with hold | hlast
        · exact hs.time x hold
        · rw [List.mem_singleton.mp hlast]
          exact hs.started tx hinserts.2.1

theorem ContentPlaced.start : ContentPlaced {} where
  now := by decide
  started := by
    intro tx htx
    cases htx
  ids := List.nodup_nil
  time := by
    intro x hx
    cases hx
  build := by
    intro scope b hb
    cases hb

theorem ContentRuns.placed {ts : List (Run.Transition Content ContentAction)}
    (h : ContentRuns ts s) : ContentPlaced s :=
  Run.Runs.state_invariant h ContentPlaced ContentPlaced.start fun _ _ hstep hs =>
    hs.step hstep.ingested

theorem Inserts.fresh {tx : OpenIngest} (h : Inserts s act tx) (hs : ContentPlaced s)
    {x : EventStamp} (hx : x ∈ s.stamps) : x.id ≠ tx.id := by
  intro heq
  have hdisjoint := List.disjoint_of_nodup_append hs.ids
  exact hdisjoint (List.mem_map_of_mem (f := fun x : EventStamp => x.id) hx)
    (heq ▸ List.mem_map_of_mem (f := fun tx : OpenIngest => tx.id) h.2.1)

theorem ContentPlaced.stamp_unique (hs : ContentPlaced s) {x y : EventStamp} (hx : x ∈ s.stamps)
    (hy : y ∈ s.stamps) (h : x.id = y.id) : x = y :=
  List.inj_on_of_nodup_map (List.Nodup.of_append_left hs.ids) hx hy h

theorem Ingested.builtThrough_le (h : Ingested s act s') (scope : Scope) :
    s.builtThrough scope ≤ s'.builtThrough scope := by
  cases h.build scope with
  | same _ hthrough _ _ | begun _ _ _ _ hthrough _ _ _ | listed _ _ _ _ hthrough _ _ _
  | read _ _ _ _ _ _ _ _ hthrough _ _ _ | upserted _ _ _ _ _ _ hthrough _ _ _
  | rolledBack _ _ _ hthrough _ _ _ => exact hthrough.ge
  | committed _ _ _ _ _ _ hthrough _ _ => exact hthrough ▸ le_max_left _ _

end Bulletin
