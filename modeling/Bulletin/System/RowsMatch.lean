import Bulletin.System.Builds

/-! # Rows and the events behind them

A cluster row is right when it is the rollup of the events of its group. A group a build
is still going to read may be behind; the others are right unless a write reached the log
where no build looks any more.
-/

namespace Bulletin

variable {s s' : Content} {act : ContentAction} {ts : List (Run.Transition Content ContentAction)}
  {key : GroupKey}

/-! ## Ahead of the builds -/

/-- No build reads a group for an event of this time any more, unless it has the group still to
read. -/
def Content.Behind (s : Content) (scope : Scope) (time : DateTime) : Prop :=
  time ≤ s.builtThrough scope ∨ ∃ b, s.build scope = some b ∧ b.groups ≠ none ∧ time ≤ b.hwm

/-- A build that is open or still to come reads the group again. -/
def Content.Ahead (s : Content) (key : GroupKey) : Prop :=
  (∃ b, s.build key.scope = some b ∧ key ∈ b.groups.getD []) ∨
    ∃ x ∈ s.stamps, x.key = key ∧ ¬ s.Behind key.scope x.ingestTime

/-- The rollup a group has, or will have when the open build commits. -/
def Content.rollupOf (s : Content) (key : GroupKey) : Option ClusterRollup :=
  match (s.build key.scope).bind fun b => b.holds key with
  | some events => rollup events
  | none => (s.cluster key).map (·.rollup)

/-- The group is to be read again, or its rollup is that of its events. -/
def Content.UpToDate (s : Content) (key : GroupKey) : Prop :=
  s.Ahead key ∨ s.rollupOf key = rollup (listGroupEvents s.event key)

/-- Everything has finished and every event is behind the watermark of its scope. -/
structure Content.Quiescent (s : Content) : Prop where
  ingest : s.ingest = []
  build : ∀ scope, s.build scope = none
  enriching : ∀ sweep, s.enriching sweep = []
  fetching : s.fetching = []
  behind : ∀ e ∈ s.event, e.ingestTime ≤ s.builtThrough e.key.scope

/-- The step changes the rollup of a group's events where no build is going to read them again: an
ingest behind the builds, an enrichment with something new, or a long article next to a build that
has read the group without one. -/
def Misses (s : Content) (act : ContentAction) (key : GroupKey) : Prop :=
  ¬ s.Ahead key ∧
    match act with
    | .commitIngest tx => Inserts s act tx ∧ tx.event.key = key ∧ s.Behind key.scope tx.started
    | .applyEnrichment sweep newEntities salience =>
      ∃ e rest, s.enriching sweep = e :: rest ∧ e.key = key ∧
        ¬ AddsNothing (listGroupEvents s.event key) newEntities salience
    | .storeFullText target text => target.key = key ∧ longformMinChars ≤ text.length ∧
        ∃ b events r, s.build .ofPublic = some b ∧ b.holds key = some events ∧
          rollup events = some r ∧
          r.contentDepth ≠ .longform
    | _ => False

/-! ## Where the sweeps' reads come from -/

structure SweepsPlaced (s : Content) : Prop where
  enriching : ∀ sweep, ∀ e ∈ s.enriching sweep, e.stamp ∈ s.stamps
  fetching : ∀ target ∈ s.fetching, ∃ x ∈ s.stamps, x.id = target.id ∧ x.key = target.key

theorem SweepsPlaced.step (h : Ingested s act s') (hs : SweepsPlaced s) : SweepsPlaced s' := by
  have hkept : ∀ x ∈ s.stamps, x ∈ s'.stamps := fun x hx => h.stamp_kept hx
  have henriching : ∀ sweep, ∀ e ∈ s.enriching sweep, e.stamp ∈ s'.stamps :=
    fun sweep e he => hkept _ (hs.enriching sweep e he)
  have hfetching : ∀ target ∈ s.fetching, ∃ x ∈ s'.stamps, x.id = target.id ∧
      x.key = target.key := by
    intro target htarget
    obtain ⟨x, hx, hid⟩ := hs.fetching target htarget
    exact ⟨x, hkept x hx, hid⟩
  have hrest : ∀ {sweep : Nat} {rest : List Event}, (∀ e ∈ rest, e.stamp ∈ s'.stamps) →
      ∀ sweep', ∀ e ∈ Function.update s.enriching sweep rest sweep', e.stamp ∈ s'.stamps := by
    intro sweep rest hnew sweep' e he
    by_cases heq : sweep' = sweep
    · subst heq
      rw [Function.update_self] at he
      exact hnew e he
    · rw [Function.update_of_ne heq] at he
      exact henriching sweep' e he
  cases h with
  | readPending sweep limit _ =>
      refine ⟨hrest ?_, hfetching⟩
      intro e he
      exact mem_stamps_of_mem (mem_pendingPublicEvents he).1
  | applyEnrichment sweep newEntities salience e rest hsweep =>
      exact ⟨hrest fun x hx => henriching sweep x (hsweep ▸ List.mem_cons_of_mem _ hx), hfetching⟩
  | enrichmentFailed sweep e rest hsweep =>
      exact ⟨hrest fun x hx => henriching sweep x (hsweep ▸ List.mem_cons_of_mem _ hx), hfetching⟩
  | readDue limit _ =>
      refine ⟨henriching, ?_⟩
      intro target htarget
      obtain ⟨e, he, rfl⟩ := List.mem_map.mp htarget
      obtain ⟨hmem, hscope, _⟩ := mem_dueEventsForFetch he
      refine ⟨e.stamp, mem_stamps_of_mem hmem, rfl, ?_⟩
      show e.key = ⟨.ofPublic, e.key.source, e.key.groupKey⟩
      rw [← hscope]
  | storeFullText target _ _ _ | fetchFailed target _ _ | skipFetch target _ =>
      exact ⟨henriching, fun t ht => hfetching t (List.mem_of_mem_erase ht)⟩
  | _ => exact ⟨henriching, hfetching⟩

theorem SweepsPlaced.start : SweepsPlaced {} where
  enriching := by
    intro sweep e he
    cases he
  fetching := by
    intro target htarget
    cases htarget

theorem ContentRuns.sweepsPlaced (h : ContentRuns ts s) : SweepsPlaced s :=
  Run.Runs.state_invariant h SweepsPlaced SweepsPlaced.start fun _ _ hstep hs =>
    hs.step hstep.ingested

/-! ## Steps of the builds -/

theorem behind_congr {scope : Scope} {time : DateTime} (hbuild : s'.build scope = s.build scope)
    (hthrough : s'.builtThrough scope = s.builtThrough scope) :
    s'.Behind scope time ↔ s.Behind scope time := by
  unfold Content.Behind
  rw [hbuild, hthrough]

theorem Content.Ahead.mono (h : s.Ahead key) (hbuild : s'.build key.scope = s.build key.scope)
    (hthrough : s'.builtThrough key.scope = s.builtThrough key.scope)
    (hstamps : ∀ x ∈ s.stamps, x ∈ s'.stamps) :
    s'.Ahead key := by
  rcases h with hleft | ⟨x, hx, hkey, hnot⟩
  · exact Or.inl (hbuild.symm ▸ hleft)
  · exact Or.inr ⟨x, hstamps x hx, hkey,
      fun hbehind => hnot ((behind_congr hbuild hthrough).mp hbehind)⟩

theorem ahead_of_stamp {x : EventStamp} (hevent : s'.event = s.event) (hx : x ∈ s.stamps)
    (hkey : x.key = key) (hnot : ¬ s'.Behind key.scope x.ingestTime) : s'.Ahead key := by
  refine Or.inr ⟨x, ?_, hkey, hnot⟩
  unfold Content.stamps
  rwa [hevent]

/-- A step that moves neither the rollup of the group's events, nor its row, nor the builds of its
scope. -/
theorem Content.UpToDate.unmoved (h : s.UpToDate key)
    (hbuild : s'.build key.scope = s.build key.scope)
    (hthrough : s'.builtThrough key.scope = s.builtThrough key.scope)
    (hstamps : ∀ x ∈ s.stamps, x ∈ s'.stamps)
    (hgroup : rollup (listGroupEvents s'.event key) = rollup (listGroupEvents s.event key))
    (hrow : (s'.cluster key).map (·.rollup) = (s.cluster key).map (·.rollup)) :
    s'.UpToDate key := by
  rcases h with hahead | hright
  · exact Or.inl (hahead.mono hbuild hthrough hstamps)
  · refine Or.inr ?_
    unfold Content.rollupOf at hright ⊢
    rw [hbuild, hrow, hgroup]
    exact hright

theorem rollupOf_none (h : s.build key.scope = none) :
    s.rollupOf key = (s.cluster key).map (·.rollup) := by
  unfold Content.rollupOf
  rw [h]
  rfl

theorem rollupOf_some {b : Build} (h : s.build key.scope = some b) :
    s.rollupOf key = match b.holds key with
      | some events => rollup events
      | none => (s.cluster key).map (·.rollup) := by
  unfold Content.rollupOf
  rw [h]
  rfl

theorem Content.UpToDate.begun {started : DateTime} {enrichGrace : Nat} (h : s.UpToDate key)
    (hfree : s.build key.scope = none)
    (hbuild : s'.build key.scope =
      some (Build.start s.builds key.scope started enrichGrace (s.builtThrough key.scope)))
    (hthrough : s'.builtThrough = s.builtThrough) (hevent : s'.event = s.event)
    (hcluster : s'.cluster = s.cluster) :
    s'.UpToDate key := by
  rcases h with hahead | hright
  · rcases hahead with ⟨b, hb, _⟩ | ⟨x, hx, hkey, hnot⟩
    · cases hfree.symm.trans hb
    · refine Or.inl (ahead_of_stamp hevent hx hkey ?_)
      intro hbehind
      rcases hbehind with hle | ⟨b, hb, hlisted, _⟩
      · exact hnot (Or.inl (hthrough ▸ hle))
      · obtain rfl := Option.some.inj (hbuild.symm.trans hb)
        exact hlisted rfl
  · refine Or.inr ?_
    rw [rollupOf_some hbuild, hevent, hcluster]
    rw [rollupOf_none hfree] at hright
    exact hright

theorem Content.UpToDate.listed {b : Build} (h : s.UpToDate key) (hs : ContentPlaced s)
    (hb : s.build key.scope = some b) (hgroups : b.groups = none)
    (hbuild : s'.build key.scope = some (b.list s.event key.scope))
    (hthrough : s'.builtThrough = s.builtThrough) (hevent : s'.event = s.event)
    (hcluster : s'.cluster = s.cluster) :
    s'.UpToDate key := by
  rcases h with hahead | hright
  · rcases hahead with ⟨b', hb', hleft⟩ | ⟨x, hx, hkey, hnot⟩
    · obtain rfl := Option.some.inj (hb.symm.trans hb')
      rw [hgroups] at hleft
      cases hleft
    · have hlo : s.builtThrough key.scope < x.ingestTime := not_le.mp fun hle => hnot (Or.inl hle)
      by_cases hhi : x.ingestTime ≤ b.hwm
      · refine Or.inl (Or.inl ⟨_, hbuild, ?_⟩)
        obtain ⟨e, he, rfl⟩ := List.mem_map.mp hx
        exact mem_dirtyGroups.mpr ⟨e, he, hkey, rfl, (hs.build hb).lo ▸ hlo, hhi⟩
      · refine Or.inl (ahead_of_stamp hevent hx hkey ?_)
        intro hbehind
        rcases hbehind with hle | ⟨b', hb', _, hle⟩
        · exact hnot (Or.inl (hthrough ▸ hle))
        · obtain rfl := Option.some.inj (hbuild.symm.trans hb')
          exact hhi hle
  · refine Or.inr ?_
    rw [rollupOf_some hbuild, hevent, hcluster]
    rw [rollupOf_some hb] at hright
    exact hright

theorem Content.UpToDate.read {b : Build} {left : List GroupKey} {k : GroupKey} (h : s.UpToDate key)
    (hb : s.build key.scope = some b) (hgroups : b.groups = some left) (hreading : b.reading = none)
    (hbuild : s'.build key.scope = some (b.read s.event left k))
    (hthrough : s'.builtThrough = s.builtThrough) (hevent : s'.event = s.event)
    (hcluster : s'.cluster = s.cluster) :
    s'.UpToDate key := by
  by_cases hk : k = key
  · subst hk
    refine Or.inr ?_
    rw [rollupOf_some hbuild, Build.holds_read hreading, if_pos rfl, hevent]
  · rcases h with hahead | hright
    · rcases hahead with ⟨b', hb', hleft⟩ | ⟨x, hx, hkey, hnot⟩
      · obtain rfl := Option.some.inj (hb.symm.trans hb')
        rw [hgroups] at hleft
        exact Or.inl (Or.inl ⟨_, hbuild, (List.mem_erase_of_ne (Ne.symm hk)).mpr hleft⟩)
      · refine Or.inl (ahead_of_stamp hevent hx hkey ?_)
        intro hbehind
        rcases hbehind with hle | ⟨b', hb', _, hle⟩
        · exact hnot (Or.inl (hthrough ▸ hle))
        · obtain rfl := Option.some.inj (hbuild.symm.trans hb')
          exact hnot (Or.inr ⟨b, hb, hgroups ▸ Option.some_ne_none _, hle⟩)
    · refine Or.inr ?_
      rw [rollupOf_some hbuild, Build.holds_read hreading, if_neg hk, hevent, hcluster]
      rw [rollupOf_some hb] at hright
      exact hright

theorem Content.UpToDate.upserted {b : Build} {k : GroupKey} {events : List Event}
    (h : s.UpToDate key)
    (hs : ContentPlaced s) (hb : s.build key.scope = some b)
    (hreading : b.reading = some (k, events))
    (hbuild : s'.build key.scope = some (b.upsert k events))
    (hthrough : s'.builtThrough = s.builtThrough) (hevent : s'.event = s.event)
    (hcluster : s'.cluster = s.cluster) :
    s'.UpToDate key := by
  rcases h with hahead | hright
  · rcases hahead with ⟨b', hb', hleft⟩ | ⟨x, hx, hkey, hnot⟩
    · obtain rfl := Option.some.inj (hb.symm.trans hb')
      exact Or.inl (Or.inl ⟨_, hbuild, hleft⟩)
    · refine Or.inl (ahead_of_stamp hevent hx hkey ?_)
      intro hbehind
      rcases hbehind with hle | ⟨b', hb', hlisted, hle⟩
      · exact hnot (Or.inl (hthrough ▸ hle))
      · obtain rfl := Option.some.inj (hbuild.symm.trans hb')
        exact hnot (Or.inr ⟨b, hb, hlisted, hle⟩)
  · refine Or.inr ?_
    rw [rollupOf_some hbuild,
      Build.holds_upsert hreading ((hs.build hb).reading_ne hreading), hevent, hcluster]
    rw [rollupOf_some hb] at hright
    exact hright

theorem Content.UpToDate.committed {b : Build} (h : s.UpToDate key)
    (hb : s.build key.scope = some b)
    (hgroups : b.groups = some []) (hreading : b.reading = none)
    (hbuild : s'.build key.scope = none)
    (hthrough : s'.builtThrough key.scope = max (s.builtThrough key.scope) b.hwm)
    (hevent : s'.event = s.event)
    (hcluster : s'.cluster = b.commit s.cluster) : s'.UpToDate key := by
  rcases h with hahead | hright
  · rcases hahead with ⟨b', hb', hleft⟩ | ⟨x, hx, hkey, hnot⟩
    · obtain rfl := Option.some.inj (hb.symm.trans hb')
      rw [hgroups] at hleft
      cases hleft
    · refine Or.inl (ahead_of_stamp hevent hx hkey ?_)
      intro hbehind
      rcases hbehind with hle | ⟨b', hb', _⟩
      · rw [hthrough] at hle
        rcases le_max_iff.mp hle with hold | hnew
        · exact hnot (Or.inl hold)
        · exact hnot (Or.inr ⟨b, hb, hgroups ▸ Option.some_ne_none _, hnew⟩)
      · cases hbuild.symm.trans hb'
  · refine Or.inr ?_
    rw [rollupOf_none hbuild, hcluster, Build.commit_rollup hreading, hevent]
    rw [rollupOf_some hb] at hright
    exact hright

theorem Content.UpToDate.rolledBack {b : Build} (h : s.UpToDate key) (hs : ContentPlaced s)
    (hb : s.build key.scope = some b) (hbuild : s'.build key.scope = none)
    (hthrough : s'.builtThrough = s.builtThrough) (hevent : s'.event = s.event)
    (hcluster : s'.cluster = s.cluster) :
    s'.UpToDate key := by
  have hplaced := hs.build hb
  -- what was dirty for the build is dirty for the next one
  have hdirty : (∃ x ∈ s.stamps, x.key = key ∧ b.lo < x.ingestTime) → s'.UpToDate key := by
    intro hx
    obtain ⟨x, hx, hkey, hlo⟩ := hx
    refine Or.inl (ahead_of_stamp hevent hx hkey ?_)
    intro hbehind
    rcases hbehind with hle | ⟨b', hb', _⟩
    · rw [hthrough, ← hplaced.lo] at hle
      exact absurd hlo (not_lt.mpr hle)
    · cases hbuild.symm.trans hb'
  rcases h with hahead | hright
  · rcases hahead with ⟨b', hb', hleft⟩ | ⟨x, hx, hkey, hnot⟩
    · obtain rfl := Option.some.inj (hb.symm.trans hb')
      obtain ⟨_, _, x, hx, hkey, hlo, _⟩ := hplaced.left key hleft
      exact hdirty ⟨x, hx, hkey, hlo⟩
    · exact hdirty ⟨x, hx, hkey, hplaced.lo ▸ not_le.mp fun hle => hnot (Or.inl hle)⟩
  · cases hheld : b.holds key with
    | some events =>
        obtain ⟨_, _, ⟨x, hx, hkey, hlo, _⟩, _⟩ := hplaced.held key events hheld
        exact hdirty ⟨x, hx, hkey, hlo⟩
    | none =>
        refine Or.inr ?_
        rw [rollupOf_none hbuild, hcluster, hevent]
        rw [rollupOf_some hb, hheld] at hright
        exact hright

/-! ## Writes to the log -/

theorem insertEvent_eq (now : DateTime) (id : Uuid) (ev : NewEvent) (log : List Event) :
    ((∃ e ∈ log, e.fingerprint = ev.fingerprint ∧ e.key.scope = ev.key.scope) ∧
        insertEvent now id ev log = log) ∨
      ((∀ e ∈ log, ¬ (e.fingerprint = ev.fingerprint ∧ e.key.scope = ev.key.scope)) ∧
        ∃ e, e.stamp = ⟨id, ev.key, now⟩ ∧ insertEvent now id ev log = log ++ [e]) := by
  unfold insertEvent
  split
  · next hold =>
      obtain ⟨e, he, hid⟩ := List.any_eq_true.mp hold
      exact Or.inl ⟨⟨e, he, of_decide_eq_true hid⟩, rfl⟩
  · next hnew =>
      refine Or.inr ⟨?_, _, rfl, rfl⟩
      intro e he hid
      exact hnew (List.any_eq_true.mpr ⟨e, he, decide_eq_true hid⟩)

theorem touchGroup_rollup {now : DateTime} {k : GroupKey} {raise : Bool} {cluster : ClusterCache} :
    ((touchGroup now k raise cluster) key).map (·.rollup) =
      ((cluster key).map (·.rollup)).map fun r =>
      if key = k ∧ raise = true then { r with contentDepth := .longform } else r := by
  unfold touchGroup
  by_cases hkey : key = k
  · subst hkey
    rw [Function.update_self, Option.map_map, Option.map_map]
    congr 1
    funext row
    cases raise <;> simp
  · rw [Function.update_of_ne hkey, Option.map_map]
    congr 1
    funext row
    exact (if_neg fun h => hkey h.1).symm

theorem upToDate_ingested {tx : OpenIngest} (htx : tx ∈ s.ingest) (h : s.UpToDate key)
    (hbuild : s'.build = s.build) (hthrough : s'.builtThrough = s.builtThrough)
    (hcluster : s'.cluster = s.cluster)
    (hevent : s'.event = insertEvent tx.started tx.id tx.event s.event) :
    s'.UpToDate key ↔ ¬ Misses s (.commitIngest tx) key := by
  have hbuild' := congrFun hbuild key.scope
  have hthrough' := congrFun hthrough key.scope
  have hrow : (s'.cluster key).map (·.rollup) = (s.cluster key).map (·.rollup) := by rw [hcluster]
  rcases insertEvent_eq tx.started tx.id tx.event s.event with
    ⟨⟨e, he, hid⟩, hold⟩ | ⟨hnew, e, hstamp, happend⟩
  · rw [hold] at hevent
    refine iff_of_true (h.unmoved hbuild' hthrough' ?_ (by rw [hevent]) hrow) ?_
    · intro x hx
      unfold Content.stamps
      rwa [hevent]
    · intro hmiss
      exact hmiss.2.1.2.2 e he hid
  · rw [happend] at hevent
    have hstamps : s'.stamps = s.stamps ++ [tx.stamp] := by
      unfold Content.stamps
      rw [hevent, List.map_append, List.map_singleton, hstamp]
      rfl
    have hkept : ∀ x ∈ s.stamps, x ∈ s'.stamps := by
      intro x hx
      rw [hstamps]
      exact List.mem_append_left _ hx
    have hekey : e.key = tx.event.key := congrArg EventStamp.key hstamp
    by_cases hkey : tx.event.key = key
    · by_cases hahead : s.Ahead key
      · exact iff_of_true (Or.inl (hahead.mono hbuild' hthrough' hkept)) fun hmiss => hmiss.1 hahead
      · by_cases hbehind : s.Behind key.scope tx.started
        · refine iff_of_false ?_ fun hnot => hnot ⟨hahead, ⟨rfl, htx, hnew⟩, hkey, hbehind⟩
          intro hup
          rcases hup with hahead' | hright'
          · rcases hahead' with ⟨b, hb, hleft⟩ | ⟨x, hx, hxkey, hnot⟩
            · exact hahead (Or.inl ⟨b, hbuild' ▸ hb, hleft⟩)
            · have hnot' : ¬ s.Behind key.scope x.ingestTime :=
                fun hx => hnot ((behind_congr hbuild' hthrough').mpr hx)
              rw [hstamps] at hx
              rcases List.mem_append.mp hx with hold | hlast
              · exact hahead (Or.inr ⟨x, hold, hxkey, hnot'⟩)
              · rw [List.mem_singleton.mp hlast] at hnot'
                exact hnot' hbehind
          · -- the row counts one event too few
            have hright := h.resolve_left hahead
            unfold Content.rollupOf at hright hright'
            rw [hbuild', hrow] at hright'
            have hlength := length_eq_of_rollup (hright.symm.trans hright')
            rw [hevent, length_listGroupEvents_append (hekey.trans hkey)] at hlength
            exact absurd hlength (Nat.ne_of_lt (Nat.lt_succ_self _))
        · refine iff_of_true (Or.inl (Or.inr ⟨tx.stamp, ?_, hkey, ?_⟩)) fun hmiss =>
            hbehind hmiss.2.2.2
          · rw [hstamps]
            exact List.mem_append_right _ (List.mem_singleton_self _)
          · exact fun hx => hbehind ((behind_congr hbuild' hthrough').mp hx)
    · refine iff_of_true (h.unmoved hbuild' hthrough' hkept ?_ hrow) fun hmiss => hkey hmiss.2.2.1
      rw [hevent, listGroupEvents_append_of_ne (fun heq => hkey (hekey.symm.trans heq))]

theorem ContentPlaced.id_ne (hs : ContentPlaced s) {x : EventStamp} (hx : x ∈ s.stamps)
    (hne : x.key ≠ key) {e : Event} (he : e ∈ listGroupEvents s.event key) : e.id ≠ x.id := by
  intro hid
  obtain ⟨hmem, hkey⟩ := mem_listGroupEvents.mp he
  have heq := hs.stamp_unique (mem_stamps_of_mem hmem) hx hid
  exact hne (heq ▸ hkey)

theorem mem_group_of_stamp {x : EventStamp} (hx : x ∈ s.stamps) (hkey : x.key = key) :
    ∃ e ∈ listGroupEvents s.event key, e.id = x.id := by
  obtain ⟨e, he, rfl⟩ := List.mem_map.mp hx
  exact ⟨e, mem_listGroupEvents.mpr ⟨he, hkey⟩, rfl⟩

theorem upToDate_enriched {sweep : Nat} {newEntities : List String} {salience : Int} {e : Event}
    {rest : List Event} (hs : ContentPlaced s) (hsweep : s.enriching sweep = e :: rest)
    (he : e.stamp ∈ s.stamps)
    (h : s.UpToDate key) (hbuild : s'.build = s.build) (hthrough : s'.builtThrough = s.builtThrough)
    (hcluster : s'.cluster = s.cluster)
    (hevent : s'.event = updateEvent e.id (applyEnrichment s.now newEntities salience) s.event) :
    s'.UpToDate key ↔ ¬ Misses s (.applyEnrichment sweep newEntities salience) key := by
  have hbuild' := congrFun hbuild key.scope
  have hthrough' := congrFun hthrough key.scope
  have hrow : (s'.cluster key).map (·.rollup) = (s.cluster key).map (·.rollup) := by rw [hcluster]
  have hstamps : s'.stamps = s.stamps := by
    unfold Content.stamps
    rw [hevent]
    exact map_updateEvent fun _ => rfl
  have hgroup : listGroupEvents s'.event key =
      updateEvent e.id (applyEnrichment s.now newEntities salience)
          (listGroupEvents s.event key) := by
    rw [hevent]
    exact listGroupEvents_updateEvent (fun _ => rfl) (fun _ => rfl) (fun _ => rfl)
  by_cases hkey : e.key = key
  · by_cases hadds : AddsNothing (listGroupEvents s.event key) newEntities salience
    · refine iff_of_true (h.unmoved hbuild' hthrough' (hstamps ▸ fun _ hx => hx) ?_ hrow) ?_
      · rw [hgroup, rollup_enriched hadds]
      · intro hmiss
        obtain ⟨_, e', rest', hsweep', _, hnot⟩ := hmiss
        exact hnot hadds
    · by_cases hahead : s.Ahead key
      · exact iff_of_true (Or.inl (hahead.mono hbuild' hthrough' (hstamps ▸ fun _ hx => hx)))
          fun hmiss => hmiss.1 hahead
      · refine iff_of_false ?_ fun hnot => hnot ⟨hahead, e, rest, hsweep, hkey, hadds⟩
        intro hup
        have hahead' : ¬ s'.Ahead key := fun hx =>
          hahead (hx.mono hbuild'.symm hthrough'.symm (hstamps ▸ fun _ hx => hx))
        have hright' := hup.resolve_left hahead'
        have hright := h.resolve_left hahead
        unfold Content.rollupOf at hright hright'
        rw [hbuild', hrow] at hright'
        have hsame : rollup (updateEvent e.id (applyEnrichment s.now newEntities salience)
            (listGroupEvents s.event key)) = rollup (listGroupEvents s.event key) := by
          rw [← hgroup]
          exact hright'.symm.trans hright
        exact hadds (addsNothing_of_rollup (mem_group_of_stamp he hkey) hsame)
  · refine iff_of_true (h.unmoved hbuild' hthrough' (hstamps ▸ fun _ hx => hx) ?_ hrow) ?_
    · have hother : ∀ e' ∈ listGroupEvents s.event key, e'.id ≠ e.id :=
        fun e' he' => hs.id_ne he hkey he'
      rw [hgroup, updateEvent_of_not_mem hother]
    · intro hmiss
      obtain ⟨_, e', rest', hsweep', hkey', _⟩ := hmiss
      obtain ⟨rfl, _⟩ := List.cons.inj (hsweep.symm.trans hsweep')
      exact hkey hkey'

theorem upToDate_fetched {target : FetchTarget} {text : String} (hs : ContentPlaced s)
    {x : EventStamp} (hx : x ∈ s.stamps) (hid : x.id = target.id) (hxkey : x.key = target.key)
    (h : s.UpToDate key) (hbuild : s'.build = s.build) (hthrough : s'.builtThrough = s.builtThrough)
    (hcluster : s'.cluster = touchGroup s.now target.key (longformMinChars ≤ text.length) s.cluster)
    (hevent : s'.event = updateEvent target.id (setFullText text) s.event) :
    s'.UpToDate key ↔ ¬ Misses s (.storeFullText target text) key := by
  have hbuild' := congrFun hbuild key.scope
  have hthrough' := congrFun hthrough key.scope
  have hstamps : s'.stamps = s.stamps := by
    unfold Content.stamps
    rw [hevent]
    exact map_updateEvent fun _ => rfl
  have hgroup : listGroupEvents s'.event key =
      updateEvent target.id (setFullText text) (listGroupEvents s.event key) := by
    rw [hevent]
    exact listGroupEvents_updateEvent (fun _ => rfl) (fun _ => rfl) (fun _ => rfl)
  have hrow : (s'.cluster key).map (·.rollup) = ((s.cluster key).map (·.rollup)).map fun r =>
      if key = target.key ∧ longformMinChars ≤ text.length then { r with contentDepth := .longform }
          else r := by
    rw [hcluster, touchGroup_rollup]
    simp only [decide_eq_true_eq]
  by_cases hkey : target.key = key
  · have hrollup : rollup (listGroupEvents s'.event key) =
        (rollup (listGroupEvents s.event key)).map fun r =>
        if longformMinChars ≤ text.length then { r with contentDepth := .longform } else r := by
      rw [hgroup]
      exact rollup_fullText (hid ▸ mem_group_of_stamp hx (hxkey.trans hkey))
    by_cases hlong : longformMinChars ≤ text.length
    · by_cases hahead : s.Ahead key
      · exact iff_of_true (Or.inl (hahead.mono hbuild' hthrough' (hstamps ▸ fun _ hx => hx)))
          fun hmiss => hmiss.1 hahead
      · have hahead' : ¬ s'.Ahead key := fun hx =>
          hahead (hx.mono hbuild'.symm hthrough'.symm (hstamps ▸ fun _ hx => hx))
        have hright := h.resolve_left hahead
        have hpublic : key.scope = .ofPublic := hkey ▸ rfl
        refine (or_iff_right hahead').trans ?_
        simp only [hlong, if_true, and_true, hkey] at hrollup hrow
        rw [hrollup, ← hright]
        cases hb : s.build key.scope with
        | none =>
            rw [rollupOf_none hb, rollupOf_none (hbuild'.trans hb), hrow]
            refine iff_of_true rfl ?_
            intro hmiss
            obtain ⟨_, _, _, b, _, _, hb', _⟩ := hmiss
            cases hb.symm.trans (hpublic ▸ hb')
        | some b =>
            rw [rollupOf_some hb, rollupOf_some (hbuild'.trans hb)]
            cases hheld : b.holds key with
            | none =>
                refine iff_of_true hrow ?_
                intro hmiss
                obtain ⟨_, _, _, b', _, _, hb', hheld', _⟩ := hmiss
                obtain rfl := Option.some.inj (hb.symm.trans (hpublic ▸ hb'))
                cases hheld.symm.trans hheld'
            | some events =>
                obtain ⟨r, hr⟩ := Option.ne_none_iff_exists'.mp
                  ((hs.build hb).held key events hheld).2.1
                dsimp only
                rw [hr, Option.map_some, Option.some.injEq]
                constructor
                · intro hsame hmiss
                  obtain ⟨_, _, _, b', events', r', hb', hheld', hr', hdepth⟩ := hmiss
                  obtain rfl := Option.some.inj (hb.symm.trans (hpublic ▸ hb'))
                  obtain rfl := Option.some.inj (hheld.symm.trans hheld')
                  obtain rfl := Option.some.inj (hr.symm.trans hr')
                  exact hdepth (congrArg ClusterRollup.contentDepth hsame)
                · intro hnot
                  have hdepth : r.contentDepth = .longform := by
                    by_contra hne
                    exact hnot ⟨hahead, hkey, hlong, b, events, r, hpublic ▸ hb, hheld, hr, hne⟩
                  rw [← hdepth]
    · refine iff_of_true (h.unmoved hbuild' hthrough' (hstamps ▸ fun _ hx => hx) ?_ ?_) fun hmiss =>
        hlong hmiss.2.2.1
      · rw [hrollup]
        simp only [hlong, if_false, Option.map_id']
      · rw [hrow]
        simp only [hlong, and_false, if_false, Option.map_id']
  · refine iff_of_true (h.unmoved hbuild' hthrough' (hstamps ▸ fun _ hx => hx) ?_ ?_) fun hmiss =>
      hkey hmiss.2.1
    · rw [hgroup, updateEvent_of_not_mem fun e he =>
        hid ▸ hs.id_ne hx (fun heq => hkey (hxkey.symm.trans heq)) he]
    · rw [hrow]
      simp only [Ne.symm hkey, false_and, if_false, Option.map_id']

theorem upToDate_fetchFailed {target : FetchTarget} {permanent : Bool} (h : s.UpToDate key)
    (hbuild : s'.build = s.build) (hthrough : s'.builtThrough = s.builtThrough)
    (hcluster : s'.cluster = s.cluster)
    (hevent : s'.event = updateEvent target.id (recordFetchFailure permanent) s.event) :
    s'.UpToDate key := by
  refine h.unmoved (congrFun hbuild _) (congrFun hthrough _) ?_ ?_ (by rw [hcluster])
  · intro x hx
    unfold Content.stamps
    have hsame : (updateEvent target.id (recordFetchFailure permanent) s.event).map Event.stamp =
        s.event.map Event.stamp := map_updateEvent fun _ => rfl
    rw [hevent, hsame]
    exact hx
  · rw [hevent, listGroupEvents_updateEvent (f := recordFetchFailure permanent) (fun _ => rfl) (fun _ => rfl)
      (fun _ => rfl), rollup_fetchFailure]

/-! ## Runs -/

theorem Content.UpToDate.same (h : s.UpToDate key) (hbuild : s'.build key.scope = s.build key.scope)
    (hthrough : s'.builtThrough key.scope = s.builtThrough key.scope) (hevent : s'.event = s.event)
    (hrow : (s'.cluster key).map (·.rollup) = (s.cluster key).map (·.rollup)) :
    s'.UpToDate key := by
  refine h.unmoved hbuild hthrough ?_ (by rw [hevent]) hrow
  intro x hx
  unfold Content.stamps
  rwa [hevent]

/-- A step keeps a group up to date exactly when it is no miss. -/
theorem Ingested.upToDate_iff (hstep : Ingested s act s') (hs : ContentPlaced s)
    (hsweeps : SweepsPlaced s) (h : s.UpToDate key) : s'.UpToDate key ↔ ¬ Misses s act key := by
  cases hstep with
  | commitIngest tx htx => exact upToDate_ingested htx h rfl rfl rfl rfl
  | applyEnrichment sweep newEntities salience e rest hsweep =>
      exact upToDate_enriched hs hsweep (hsweeps.enriching sweep e (hsweep ▸ List.mem_cons_self)) h rfl rfl rfl rfl
  | storeFullText target text htarget _ =>
      obtain ⟨x, hx, hid, hkey⟩ := hsweeps.fetching target htarget
      exact upToDate_fetched hs hx hid hkey h rfl rfl rfl rfl
  | fetchFailed target permanent _ =>
      exact iff_of_true (upToDate_fetchFailed h rfl rfl rfl rfl) fun hmiss => hmiss.2
  | beginBuild scope started enrichGrace hfree _ =>
      refine iff_of_true ?_ fun hmiss => hmiss.2
      by_cases hscope : key.scope = scope
      · subst hscope
        exact h.begun hfree Content.withBuild_self rfl rfl rfl
      · exact h.same (Content.withBuild_of_ne hscope) rfl rfl rfl
  | listGroups scope b hb hgroups =>
      refine iff_of_true ?_ fun hmiss => hmiss.2
      by_cases hscope : key.scope = scope
      · subst hscope
        exact h.listed hs hb hgroups Content.withBuild_self rfl rfl rfl
      · exact h.same (Content.withBuild_of_ne hscope) rfl rfl rfl
  | readGroup scope k b left hb hgroups hreading _ =>
      refine iff_of_true ?_ fun hmiss => hmiss.2
      by_cases hscope : key.scope = scope
      · subst hscope
        exact h.read hb hgroups hreading Content.withBuild_self rfl rfl rfl
      · exact h.same (Content.withBuild_of_ne hscope) rfl rfl rfl
  | upsertGroup scope b k events hb hreading =>
      refine iff_of_true ?_ fun hmiss => hmiss.2
      by_cases hscope : key.scope = scope
      · subst hscope
        exact h.upserted hs hb hreading Content.withBuild_self rfl rfl rfl
      · exact h.same (Content.withBuild_of_ne hscope) rfl rfl rfl
  | commitBuild scope b hb hgroups hreading =>
      refine iff_of_true ?_ fun hmiss => hmiss.2
      by_cases hscope : key.scope = scope
      · subst hscope
        exact h.committed hb hgroups hreading Content.withBuild_self
          (Function.update_self _ _ _) rfl rfl
      · refine h.same (Content.withBuild_of_ne hscope) (Function.update_of_ne hscope _ _) rfl ?_
        -- a build holds rows of its own scope only
        have hnone : b.holds key = none := by
          rw [Option.eq_none_iff_forall_ne_some]
          intro events hheld
          exact hscope ((hs.build hb).held key events hheld).1
        show ((b.commit s.cluster) key).map (·.rollup) = _
        rw [Build.commit_rollup hreading, hnone]
  | rollbackBuild scope b hb =>
      refine iff_of_true ?_ fun hmiss => hmiss.2
      by_cases hscope : key.scope = scope
      · subst hscope
        exact h.rolledBack hs hb Content.withBuild_self rfl rfl rfl
      · exact h.same (Content.withBuild_of_ne hscope) rfl rfl rfl
  | _ => exact iff_of_true (h.same rfl rfl rfl rfl) fun hmiss => hmiss.2

theorem Content.Quiescent.not_ahead (hq : s.Quiescent) : ¬ s.Ahead key := by
  intro hahead
  rcases hahead with ⟨b, hb, _⟩ | ⟨x, hx, rfl, hnot⟩
  · cases (hq.build key.scope).symm.trans hb
  · obtain ⟨e, he, rfl⟩ := List.mem_map.mp hx
    exact hnot (Or.inl (hq.behind e he))

theorem Content.UpToDate.row (h : s.UpToDate key) (hq : s.Quiescent) :
    (s.cluster key).map (·.rollup) = rollup (listGroupEvents s.event key) := by
  have hright := h.resolve_left hq.not_ahead
  rwa [rollupOf_none (hq.build key.scope)] at hright

theorem upToDate_start : ({} : Content).UpToDate key := Or.inr rfl

theorem ContentRuns.upToDate (h : ContentRuns ts s)
    (hno : ∀ t ∈ ts, ¬ Misses t.before t.action key) :
    s.UpToDate key := by
  refine Run.Runs.invariant h (fun _ s => s.UpToDate key) upToDate_start ?_
  intro pre t post heq hpre hstep hup
  have ht : t ∈ ts := heq ▸ List.mem_append_right _ List.mem_cons_self
  exact (hstep.ingested.upToDate_iff (ContentRuns.placed hpre) (ContentRuns.sweepsPlaced hpre) hup).mpr (hno t ht)

/-- Every cluster row of a state reached at quiescence is the rollup of its events. -/
def RowsMatch (ts : List (Run.Transition Content ContentAction)) : Prop :=
  ∀ t ∈ ts, t.after.Quiescent →
    ∀ key, (t.after.cluster key).map (·.rollup) = rollup (listGroupEvents t.after.event key)

/-- In every run, every group stays right or due to be read again exactly when no step is a miss,
and then the rows match their events whenever the run comes to rest. -/
theorem rows_match_iff (h : ContentRuns ts s) :
    ((∀ t ∈ ts, ∀ key, t.after.UpToDate key) ↔ ∀ t ∈ ts, ∀ key, ¬ Misses t.before t.action key) ∧
      ((∀ t ∈ ts, ∀ key, ¬ Misses t.before t.action key) → RowsMatch ts) := by
  have hiff : (∀ t ∈ ts, ∀ key, t.after.UpToDate key) ↔
      ∀ t ∈ ts, ∀ key, ¬ Misses t.before t.action key := by
    constructor
    · intro hall t ht key
      obtain ⟨pre, post, heq, hpre⟩ := h.before_of_mem ht
      have hbefore : t.before.UpToDate key :=
        Run.Runs.reached hpre (Q := fun s => s.UpToDate key) upToDate_start
        fun u hu => hall u (heq ▸ List.mem_append_left _ hu) key
      exact ((h.step_of_mem ht).ingested.upToDate_iff (ContentRuns.placed hpre) (ContentRuns.sweepsPlaced hpre)
        hbefore).mp (hall t ht key)
    · intro hno t ht key
      obtain ⟨pre, post, heq, hpre⟩ := h.before_of_mem ht
      have hbefore : t.before.UpToDate key := ContentRuns.upToDate hpre
        fun u hu => hno u (heq ▸ List.mem_append_left _ hu) key
      exact ((h.step_of_mem ht).ingested.upToDate_iff (ContentRuns.placed hpre) (ContentRuns.sweepsPlaced hpre)
        hbefore).mpr (hno t ht key)
  refine ⟨hiff, ?_⟩
  intro hno t ht hq key
  exact (hiff.mpr hno t ht key).row hq

/-! ## An enrichment before and after the build -/

/-- A write comes while no build of its scope is open, to a group that is still to be built. -/
def beforeBuild (t : Run.Transition Content ContentAction) : Bool :=
  match t.action with
  | .commitIngest tx => decide (t.before.builtThrough tx.event.key.scope < tx.started) &&
      (t.before.build tx.event.key.scope).isNone
  | .applyEnrichment sweep _ _ => (t.before.enriching sweep).all fun e =>
      (t.before.build e.key.scope).isNone && t.before.stamps.any fun x =>
        decide (x.key = e.key ∧ t.before.builtThrough e.key.scope < x.ingestTime)
  | .storeFullText _ _ => (t.before.build .ofPublic).isNone
  | _ => true

theorem noMiss_of_all (h : ∀ t ∈ ts, beforeBuild t = true) :
    ∀ t ∈ ts, ∀ key, ¬ Misses t.before t.action key := by
  intro t ht key hmiss
  have hone := h t ht
  unfold beforeBuild at hone
  obtain ⟨hahead, hact⟩ := hmiss
  have hfree : ∀ {time : DateTime}, (t.before.build key.scope).isNone = true →
      t.before.builtThrough key.scope < time → ¬ t.before.Behind key.scope time := by
    intro time hnone hlt hbehind
    rcases hbehind with hle | ⟨b, hb, _⟩
    · exact absurd hlt (not_lt.mpr hle)
    · rw [hb] at hnone
      cases hnone
  cases ha : t.action with
  | commitIngest tx =>
      rw [ha] at hone hact
      obtain ⟨_, rfl, hbehind⟩ := hact
      obtain ⟨hlt, hnone⟩ := Bool.and_eq_true_iff.mp hone
      exact hfree hnone (of_decide_eq_true hlt) hbehind
  | applyEnrichment sweep newEntities salience =>
      rw [ha] at hone hact
      obtain ⟨e, rest, hsweep, rfl, _⟩ := hact
      obtain ⟨hnone, hany⟩ :=
        Bool.and_eq_true_iff.mp (List.all_eq_true.mp hone e (hsweep ▸ List.mem_cons_self))
      obtain ⟨x, hx, hin⟩ := List.any_eq_true.mp hany
      obtain ⟨hkey, hlt⟩ := of_decide_eq_true hin
      exact hahead (Or.inr ⟨x, hx, hkey, hfree hnone hlt⟩)
  | storeFullText target text =>
      rw [ha] at hone hact
      obtain ⟨_, _, b, _, _, hb, _⟩ := hact
      rw [hb] at hone
      cases hone
  | _ =>
      rw [ha] at hact
      exact hact

def linkedKey : GroupKey := ⟨.ofPublic, .rss, "feed"⟩

def linkedEntry (links : List String) : NewEvent :=
  { fingerprint := [1], key := linkedKey, eventTime := 0, title := "entry", links := links,
    contentKind := .message }

def ingestOf (links : List String) : List ContentAction :=
  [.beginIngest 1 (linkedEntry links), .commitIngest ⟨1, 1, linkedEntry links⟩]

def buildAt (started : DateTime) (enrichGrace : Nat) : List ContentAction :=
  [.wait 5, .beginBuild .ofPublic started enrichGrace, .listGroups .ofPublic,
    .readGroup .ofPublic linkedKey, .upsertGroup .ofPublic, .commitBuild .ofPublic]

def withinGraceScript : List ContentAction :=
  ingestOf ["article"] ++ [.readPending 0 10, .applyEnrichment 0 ["cve:a"] 7, .readDue 10,
    .storeFullText ⟨1, .rss, "feed",
      ["article"]⟩ (String.ofList (List.replicate 400 'a'))] ++ buildAt 6 2

def withinGraceRun : List (Run.Transition Content ContentAction) :=
  Run.transitions Content.play {} withinGraceScript

theorem rows_match_iff_withinGrace : ∃ s, ContentRuns withinGraceRun s ∧
    (s.cluster linkedKey).map (fun row => (row.rollup.entities, row.rollup.contentDepth, row.rollup.maxSeverity)) =
      some (["cve:a"], .longform, some 7) ∧
    RowsMatch withinGraceRun := by
  obtain ⟨s, hrun, hrow⟩ : ∃ s, ContentRuns withinGraceRun s ∧
      decide ((s.cluster linkedKey).map (fun row =>
      (row.rollup.entities, row.rollup.contentDepth, row.rollup.maxSeverity)) =
        some (["cve:a"], .longform, some 7)) = true := by
    apply Content.play_ends
    -- the article is not measured again while the run is played
    have hlong : longformMinChars ≤ (String.ofList (List.replicate 400 'a')).length := by
      rw [String.length_ofList, List.length_replicate]
      exact Nat.le_refl _
    rw [withinGraceScript, Run.execute_append, Run.execute_append]
    simp only [Run.execute, Content.play, Content.next, setFullText_long hlong,
      decide_eq_true hlong]
    decide +kernel
  exact ⟨s, hrun, of_decide_eq_true hrow,
    (rows_match_iff hrun).2 (noMiss_of_all (by decide +kernel))⟩

def afterBuildScript : List ContentAction :=
  ingestOf [] ++ [.readPending 0 10] ++ buildAt 6 2 ++ [.applyEnrichment 0 ["cve:a"] 7]

def afterBuildRun : List (Run.Transition Content ContentAction) :=
  Run.transitions Content.play {} afterBuildScript

def afterBuild : Content := (Run.execute Content.play {} afterBuildScript).getD {}

theorem afterBuild_eq : Run.execute Content.play {} afterBuildScript = some afterBuild := rfl

/-- Nothing is left to do, and the row has neither the entity nor the severity of its event. -/
theorem enriched_after_build : ContentRuns afterBuildRun afterBuild ∧ afterBuild.Quiescent ∧
    pendingPublicEvents afterBuild.event (afterBuild.builtThrough .ofPublic) 10 = [] ∧
    dueEventsForFetch afterBuild.event 10 = [] ∧
    (afterBuild.cluster linkedKey).map (fun row => (row.rollup.entities, row.rollup.maxSeverity)) =
      some ([], none) ∧
    (rollup (listGroupEvents afterBuild.event linkedKey)).map (fun r =>
      (r.entities, r.maxSeverity)) =
      some (["cve:a"], some 7) ∧
    (afterBuild.cluster linkedKey).map (·.rollup) ≠
      rollup (listGroupEvents afterBuild.event linkedKey) := by
  have hrun : ContentRuns afterBuildRun afterBuild :=
    Run.execute_runs (fun s _ _ _ => Content.play_step (s := s)) afterBuild_eq
  have hquiet : afterBuild.Quiescent := by
    constructor
    · decide +kernel
    · intro scope
      cases scope <;> rfl
    · intro sweep
      cases sweep <;> rfl
    · decide +kernel
    · decide +kernel
  exact ⟨hrun, hquiet, by decide +kernel, by decide +kernel, by decide +kernel,
    by decide +kernel, by decide +kernel⟩

end Bulletin
