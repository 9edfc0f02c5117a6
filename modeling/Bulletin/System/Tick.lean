import Bulletin.System.Attested

/-! # What the tick enqueues

Every minute the tick asks two cheap questions about the log, and enqueues a public build, with its
enrichment sweep, or a fetch of articles when the answer is yes. The jobs run later, next to each
other. They find work exactly where the tick enqueues them.
-/

namespace Bulletin

/-- An event waits to be built and has aged past the grace, or waits to be enriched. -/
def publicBuildDue (log : List Event) (builtThrough now : DateTime) (enrichGrace : Nat) : Bool :=
  log.any fun e => e.key.scope = .ofPublic ∧ builtThrough < e.ingestTime ∧
    (e.ingestTime ≤ now - enrichGrace ∨ e.enrichedAt = none)

def eventsNeedingFetchExist (log : List Event) : Bool :=
  log.any fun e => e.key.scope = .ofPublic ∧ e.fullText = none ∧
    e.fullTextAttempts < maxFetchAttempts ∧ e.key.source.hasFetchableArticle ∧ e.links ≠ []

namespace Content

def publicBuildDue (s : Content) (enrichGrace : Nat) : Bool :=
  Bulletin.publicBuildDue s.event (s.builtThrough .ofPublic) s.now enrichGrace

/-- No job of the tick is under way. -/
structure Idle (s : Content) : Prop where
  build : s.build .ofPublic = none
  enriching : ∀ sweep, s.enriching sweep = []
  fetching : s.fetching = []

/-- No build has a group to fold and no sweep has an event to enrich. -/
def NothingToBuild (s : Content) : Prop :=
  (∀ b, s.build .ofPublic = some b → b.groups.getD [] = []) ∧ ∀ sweep, s.enriching sweep = []

end Content

/-- The steps of the jobs: public builds with the configured grace, sweeps and fetches. -/
def OfJobs (enrichGrace : Nat) : ContentAction → Prop
  | .wait _ | .beginIngest _ _ | .commitIngest _ | .rollbackIngest _ => False
  | .beginBuild scope _ grace => scope = .ofPublic ∧ grace = enrichGrace
  | .listGroups scope | .readGroup scope _ | .upsertGroup scope | .commitBuild scope
  | .rollbackBuild scope => scope = .ofPublic
  | .readPending _ _ | .applyEnrichment _ _ _ | .enrichmentFailed _ | .readDue _
  | .storeFullText _ _ | .fetchFailed _ _ | .skipFetch _ => True

def JobStep (enrichGrace : Nat) (s : Content) (act : ContentAction) (s' : Content) : Prop :=
  ContentStep s act s' ∧ OfJobs enrichGrace act

/-- A run of the jobs from any state, in any order. -/
abbrev JobRuns (enrichGrace : Nat) (s : Content)
    (us : List (Run.Transition Content ContentAction)) (s' : Content) : Prop :=
  Run.Runs (JobStep enrichGrace) s us s'

variable {s s' : Content} {act : ContentAction} {enrichGrace : Nat} {e e' : Event}
  {ts us : List (Run.Transition Content ContentAction)}

/-! ## What the jobs leave wanted -/

/-- Nothing more is wanted of the later event than of the earlier one. -/
structure Event.Served (e e' : Event) : Prop where
  key : e'.key = e.key
  ingestTime : e'.ingestTime = e.ingestTime
  links : e'.links = e.links
  enriched : e'.enrichedAt = none → e.enrichedAt = none
  fetched : e'.fullText = none → e.fullText = none
  attempts : e'.fullTextAttempts < maxFetchAttempts → e.fullTextAttempts < maxFetchAttempts

theorem Event.Served.refl : e.Served e :=
  ⟨rfl, rfl, rfl, fun h => h, fun h => h, fun h => h⟩

theorem Event.Served.trans {e'' : Event} (h : e.Served e') (k : e'.Served e'') : e.Served e'' where
  key := k.key.trans h.key
  ingestTime := k.ingestTime.trans h.ingestTime
  links := k.links.trans h.links
  enriched := fun hnone => h.enriched (k.enriched hnone)
  fetched := fun hnone => h.fetched (k.fetched hnone)
  attempts := fun hlt => h.attempts (k.attempts hlt)

theorem served_recordFetchFailure {permanent : Bool} :
    e.Served (recordFetchFailure permanent e) where
  key := rfl
  ingestTime := rfl
  links := rfl
  enriched := fun h => h
  fetched := fun h => h
  attempts := by
    intro hlt
    unfold recordFetchFailure at hlt
    cases permanent with
    | false => exact lt_of_le_of_lt (Int.le_add_one (le_refl _)) hlt
    | true => exact absurd hlt (lt_irrefl _)

theorem served_setFullText {text : String} : e.Served (setFullText text e) where
  key := rfl
  ingestTime := rfl
  links := rfl
  enriched := fun h => h
  fetched := by
    intro hnone
    cases hnone
  attempts := fun hlt => lt_of_le_of_lt (Int.le_add_one (le_refl _)) hlt

theorem served_applyEnrichment {now : DateTime} {newEntities : List String} {salience : Int} :
    e.Served (applyEnrichment now newEntities salience e) where
  key := rfl
  ingestTime := rfl
  links := rfl
  enriched := by
    intro hnone
    cases hnone
  fetched := fun h => h
  attempts := fun h => h

/-- No time passes while jobs run, nothing arrives, and the watermark does not fall. -/
structure Content.Serves (s s' : Content) : Prop where
  now : s'.now = s.now
  through : s.builtThrough .ofPublic ≤ s'.builtThrough .ofPublic
  event : ∀ e' ∈ s'.event, ∃ e ∈ s.event, e.Served e'

theorem Content.Serves.refl : s.Serves s := ⟨rfl, le_refl _, fun e he => ⟨e, he, .refl⟩⟩

theorem Content.Serves.trans {s'' : Content} (h : s.Serves s') (k : s'.Serves s'') :
    s.Serves s'' where
  now := k.now.trans h.now
  through := le_trans h.through k.through
  event := by
    intro e'' he''
    obtain ⟨e', he', hlater⟩ := k.event e'' he''
    obtain ⟨e, he, hserved⟩ := h.event e' he'
    exact ⟨e, he, hserved.trans hlater⟩

theorem served_of_mem_updateEvent {id : Uuid} {f : Event → Event} {log : List Event}
    (hf : ∀ e : Event, e.Served (f e)) (h : e' ∈ updateEvent id f log) :
    ∃ e ∈ log, e.Served e' := by
  obtain ⟨e, he, rfl⟩ := mem_updateEvent h
  refine ⟨e, he, ?_⟩
  split
  · exact hf e
  · exact .refl

theorem Ingested.serves (h : Ingested s act s') (hjobs : OfJobs enrichGrace act) :
    s.Serves s' := by
  have hsame : ∀ e ∈ s.event, ∃ m ∈ s.event, m.Served e := fun e he => ⟨e, he, .refl⟩
  cases h with
  | wait _ => exact hjobs.elim
  | beginIngest _ _ _ => exact hjobs.elim
  | commitIngest _ _ => exact hjobs.elim
  | rollbackIngest _ _ => exact hjobs.elim
  | commitBuild scope b _ _ _ =>
      refine ⟨rfl, ?_, hsame⟩
      change s.builtThrough .ofPublic ≤ Function.update s.builtThrough scope _ .ofPublic
      obtain rfl : scope = .ofPublic := hjobs
      rw [Function.update_self]
      exact le_max_left _ _
  | applyEnrichment _ _ _ _ _ _ =>
      exact ⟨rfl, le_refl _,
        fun _ h => served_of_mem_updateEvent (fun _ => served_applyEnrichment) h⟩
  | storeFullText _ _ _ _ =>
      exact ⟨rfl, le_refl _, fun _ h => served_of_mem_updateEvent (fun _ => served_setFullText) h⟩
  | fetchFailed _ _ _ =>
      exact ⟨rfl, le_refl _,
        fun _ h => served_of_mem_updateEvent (fun _ => served_recordFetchFailure) h⟩
  | _ => exact ⟨rfl, le_refl _, hsame⟩

theorem Content.Serves.buildDue (h : s.Serves s') (hdue : s'.publicBuildDue enrichGrace = true) :
    s.publicBuildDue enrichGrace = true := by
  obtain ⟨e', he', hwaits⟩ := List.any_eq_true.mp hdue
  obtain ⟨hscope, hunbuilt, hwaits⟩ := of_decide_eq_true hwaits
  obtain ⟨e, he, hserved⟩ := h.event e' he'
  refine List.any_eq_true.mpr ⟨e, he, decide_eq_true ⟨hserved.key ▸ hscope, ?_, ?_⟩⟩
  · rw [← hserved.ingestTime]
    exact lt_of_le_of_lt h.through hunbuilt
  · rw [← hserved.ingestTime, ← h.now]
    exact hwaits.imp_right hserved.enriched

theorem Content.Serves.fetchDue (h : s.Serves s')
    (hdue : eventsNeedingFetchExist s'.event = true) : eventsNeedingFetchExist s.event = true := by
  obtain ⟨e', he', hwaits⟩ := List.any_eq_true.mp hdue
  obtain ⟨hscope, hnone, hattempts, hsource, hlinks⟩ := of_decide_eq_true hwaits
  obtain ⟨e, he, hserved⟩ := h.event e' he'
  rw [hserved.key] at hscope hsource
  rw [hserved.links] at hlinks
  exact List.any_eq_true.mpr ⟨e, he, decide_eq_true
    ⟨hscope, hserved.fetched hnone, hserved.attempts hattempts, hsource, hlinks⟩⟩

/-! ## What the jobs find -/

theorem pending_due {limit : Nat}
    (he : e ∈ pendingPublicEvents s.event (s.builtThrough .ofPublic) limit) :
    s.publicBuildDue enrichGrace = true := by
  obtain ⟨hmem, hscope, hnone, _, hunbuilt⟩ := mem_pendingPublicEvents he
  exact List.any_eq_true.mpr ⟨e, hmem, decide_eq_true ⟨hscope, hunbuilt, .inr hnone⟩⟩

theorem stamp_due {x : EventStamp} (hx : x ∈ s.stamps) (hscope : x.key.scope = .ofPublic)
    (hlo : s.builtThrough .ofPublic < x.ingestTime) (hhi : x.ingestTime ≤ s.now - enrichGrace) :
    s.publicBuildDue enrichGrace = true := by
  obtain ⟨e, he, rfl⟩ := List.mem_map.mp hx
  exact List.any_eq_true.mpr ⟨e, he, decide_eq_true ⟨hscope, hlo, .inl hhi⟩⟩

theorem fetch_due {limit : Nat} (he : e ∈ dueEventsForFetch s.event limit) :
    eventsNeedingFetchExist s.event = true := by
  obtain ⟨hmem, hwaits⟩ := mem_dueEventsForFetch he
  exact List.any_eq_true.mpr ⟨e, hmem, decide_eq_true hwaits⟩

def Content.BuildsAged (s : Content) (enrichGrace : Nat) : Prop :=
  ∀ b, s.build .ofPublic = some b → b.hwm ≤ s.now - enrichGrace

theorem Content.BuildsAged.step (hs : s.BuildsAged enrichGrace) (h : Ingested s act s')
    (hjobs : OfJobs enrichGrace act) : s'.BuildsAged enrichGrace := by
  intro b' hb'
  have hnow : s'.now = s.now := (h.serves hjobs).now
  rw [hnow]
  cases h with
  | beginBuild scope started grace hfree hstarted =>
      obtain ⟨rfl, rfl⟩ := hjobs
      change (s.withBuild .ofPublic _).build .ofPublic = some b' at hb'
      rw [Content.withBuild_self] at hb'
      obtain rfl := Option.some.inj hb'
      exact Int.sub_le_sub_right hstarted _
  | listGroups scope b hb _ =>
      obtain rfl : scope = .ofPublic := hjobs
      obtain rfl := Option.some.inj (Content.withBuild_self.symm.trans hb')
      exact hs b hb
  | readGroup scope key b left hb _ _ _ =>
      obtain rfl : scope = .ofPublic := hjobs
      obtain rfl := Option.some.inj (Content.withBuild_self.symm.trans hb')
      exact hs b hb
  | upsertGroup scope b key events hb _ =>
      obtain rfl : scope = .ofPublic := hjobs
      obtain rfl := Option.some.inj (Content.withBuild_self.symm.trans hb')
      exact hs b hb
  | commitBuild scope b hb _ _ =>
      obtain rfl : scope = .ofPublic := hjobs
      change (s.withBuild .ofPublic none).build .ofPublic = some b' at hb'
      rw [Content.withBuild_self] at hb'
      cases hb'
  | rollbackBuild scope b hb =>
      obtain rfl : scope = .ofPublic := hjobs
      rw [Content.withBuild_self] at hb'
      cases hb'
  | wait _ => exact hjobs.elim
  | beginIngest _ _ _ => exact hjobs.elim
  | commitIngest _ _ => exact hjobs.elim
  | rollbackIngest _ _ => exact hjobs.elim
  | _ => exact hs b' hb'

theorem held_due (hplaced : ContentPlaced s) (haged : s.BuildsAged enrichGrace) {b : Build}
    (hb : s.build .ofPublic = some b) {key : GroupKey} {events : List Event}
    (hholds : b.holds key = some events) : s.publicBuildDue enrichGrace = true := by
  obtain ⟨hscope, _, ⟨x, hx, rfl, hlo, hhi⟩, _⟩ := (hplaced.build hb).held key events hholds
  rw [(hplaced.build hb).lo] at hlo
  exact stamp_due hx hscope hlo (le_trans hhi (haged b hb))

theorem listed_due (hplaced : ContentPlaced s) (haged : s.BuildsAged enrichGrace) {b : Build}
    (hb : s.build .ofPublic = some b) (hgroups : b.groups.getD [] ≠ []) :
    s.publicBuildDue enrichGrace = true := by
  obtain ⟨key, hkey⟩ := List.exists_mem_of_ne_nil _ hgroups
  obtain ⟨_, hscope, x, hx, rfl, hlo, hhi⟩ := (hplaced.build hb).left key hkey
  rw [(hplaced.build hb).lo] at hlo
  exact stamp_due hx hscope hlo (le_trans hhi (haged b hb))

/-! ## Where nothing is due -/

theorem Ingested.enriching_nil (h : Ingested s act s')
    (hnot : ¬ s.publicBuildDue enrichGrace = true) (hs : ∀ sweep, s.enriching sweep = [])
    (sweep : Nat) : s'.enriching sweep = [] := by
  cases h with
  | readPending other limit _ =>
      change Function.update s.enriching other _ sweep = []
      by_cases heq : sweep = other
      · rw [heq, Function.update_self]
        exact List.eq_nil_iff_forall_not_mem.mpr fun _ he => hnot (pending_due he)
      · rw [Function.update_of_ne heq]
        exact hs sweep
  | applyEnrichment other _ _ read rest hsweep => cases (hs other).symm.trans hsweep
  | enrichmentFailed other read rest hsweep => cases (hs other).symm.trans hsweep
  | _ => exact hs sweep

theorem Ingested.fetching_nil (h : Ingested s act s')
    (hnot : ¬ eventsNeedingFetchExist s.event = true) (hs : s.fetching = []) :
    s'.fetching = [] := by
  have hnone : ∀ target, target ∉ s.fetching := by
    intro target
    rw [hs]
    exact List.not_mem_nil
  cases h with
  | readDue limit _ =>
      refine List.map_eq_nil_iff.mpr (List.eq_nil_iff_forall_not_mem.mpr ?_)
      exact fun _ he => hnot (fetch_due he)
  | storeFullText target _ htarget _ => exact absurd htarget (hnone target)
  | fetchFailed target _ htarget => exact absurd htarget (hnone target)
  | skipFetch target htarget => exact absurd htarget (hnone target)
  | _ => exact hs

theorem Ingested.kept (h : Ingested s act s') (hjobs : OfJobs enrichGrace act)
    (hplaced : ContentPlaced s) (haged : s.BuildsAged enrichGrace)
    (hnot : ¬ s.publicBuildDue enrichGrace = true) (henriching : ∀ sweep, s.enriching sweep = [])
    (hfetching : s.fetching = []) : s'.event = s.event ∧ s'.cluster = s.cluster := by
  have hnone : ∀ target, target ∉ s.fetching := by
    intro target
    rw [hfetching]
    exact List.not_mem_nil
  cases h with
  | commitIngest _ _ => exact hjobs.elim
  | commitBuild scope b hb _ hreading =>
      obtain rfl : scope = .ofPublic := hjobs
      refine ⟨rfl, funext fun key => ?_⟩
      change b.commit s.cluster key = s.cluster key
      unfold Build.commit
      cases hrows : b.rows key with
      | none => rfl
      | some events =>
          have hholds : b.holds key = some events := (Build.holds_rows hreading).trans hrows
          exact absurd (held_due hplaced haged hb hholds) hnot
  | applyEnrichment sweep _ _ read rest hsweep => cases (henriching sweep).symm.trans hsweep
  | storeFullText target _ htarget _ => exact absurd htarget (hnone target)
  | fetchFailed target _ htarget => exact absurd htarget (hnone target)
  | _ => exact ⟨rfl, rfl⟩

structure Content.Working (s : Content) (enrichGrace : Nat) (m : Content) : Prop where
  serves : s.Serves m
  placed : ContentPlaced m
  aged : m.BuildsAged enrichGrace

theorem Content.Working.start (hplaced : ContentPlaced s) (hidle : s.Idle) :
    s.Working enrichGrace s where
  serves := .refl
  placed := hplaced
  aged := by
    intro b hb
    cases hidle.build.symm.trans hb

theorem Content.Working.step {t : Run.Transition Content ContentAction}
    (hs : s.Working enrichGrace t.before) (h : JobStep enrichGrace t.before t.action t.after) :
    s.Working enrichGrace t.after where
  serves := hs.serves.trans (h.1.ingested.serves h.2)
  placed := hs.placed.step h.1.ingested
  aged := hs.aged.step h.1.ingested h.2

theorem JobRuns.nothing_to_build (h : JobRuns enrichGrace s us s') (hplaced : ContentPlaced s)
    (hidle : s.Idle) (hnot : ¬ s.publicBuildDue enrichGrace = true) : s'.NothingToBuild := by
  have hinv : s.Working enrichGrace s' ∧ ∀ sweep, s'.enriching sweep = [] := by
    refine h.state_invariant
      (fun m => s.Working enrichGrace m ∧ ∀ sweep, m.enriching sweep = []) ?_ ?_
    · exact ⟨.start hplaced hidle, hidle.enriching⟩
    · intro t _ hstep hs
      have hnone : ¬ t.before.publicBuildDue enrichGrace = true :=
        fun hdue => hnot (hs.1.serves.buildDue hdue)
      exact ⟨hs.1.step hstep, hstep.1.ingested.enriching_nil hnone hs.2⟩
  refine ⟨fun b hb => ?_, hinv.2⟩
  by_contra hgroups
  exact hnot (hinv.1.serves.buildDue (listed_due hinv.1.placed hinv.1.aged hb hgroups))

theorem JobRuns.nothing_to_fetch (h : JobRuns enrichGrace s us s') (hplaced : ContentPlaced s)
    (hidle : s.Idle) (hnot : ¬ eventsNeedingFetchExist s.event = true) : s'.fetching = [] := by
  have hinv : s.Working enrichGrace s' ∧ s'.fetching = [] := by
    refine h.state_invariant (fun m => s.Working enrichGrace m ∧ m.fetching = []) ?_ ?_
    · exact ⟨.start hplaced hidle, hidle.fetching⟩
    · intro t _ hstep hs
      refine ⟨hs.1.step hstep, hstep.1.ingested.fetching_nil ?_ hs.2⟩
      exact fun hdue => hnot (hs.1.serves.fetchDue hdue)
  exact hinv.2

theorem JobRuns.kept (h : JobRuns enrichGrace s us s') (hplaced : ContentPlaced s)
    (hidle : s.Idle) (hbuild : ¬ s.publicBuildDue enrichGrace = true)
    (hfetch : ¬ eventsNeedingFetchExist s.event = true) :
    s'.event = s.event ∧ s'.cluster = s.cluster := by
  have hinv : s.Working enrichGrace s' ∧ ((∀ sweep, s'.enriching sweep = []) ∧
      s'.fetching = []) ∧ s'.event = s.event ∧ s'.cluster = s.cluster := by
    refine h.state_invariant (fun m => s.Working enrichGrace m ∧
      ((∀ sweep, m.enriching sweep = []) ∧ m.fetching = []) ∧
        m.event = s.event ∧ m.cluster = s.cluster) ?_ ?_
    · exact ⟨.start hplaced hidle, ⟨hidle.enriching, hidle.fetching⟩, rfl, rfl⟩
    · rintro t _ hstep ⟨hs, ⟨henriching, hfetching⟩, hevent, hcluster⟩
      have hnot : ¬ t.before.publicBuildDue enrichGrace = true :=
        fun hdue => hbuild (hs.serves.buildDue hdue)
      obtain ⟨hevent', hcluster'⟩ :=
        hstep.1.ingested.kept hstep.2 hs.placed hs.aged hnot henriching hfetching
      refine ⟨hs.step hstep, ⟨hstep.1.ingested.enriching_nil hnot henriching, ?_⟩,
        hevent'.trans hevent, hcluster'.trans hcluster⟩
      exact hstep.1.ingested.fetching_nil (fun hdue => hfetch (hs.serves.fetchDue hdue)) hfetching
  exact hinv.2.2

/-! ## Where something is due -/

/-- Events of a source that no sweep reads are stored as enriched. -/
theorem Ingested.pending_enrichable (h : Ingested s act s')
    (hs : ∀ e ∈ s.event, e.enrichedAt = none → e.key.source.benefitsFromEnrichment = true)
    (he : e ∈ s'.event) (hnone : e.enrichedAt = none) :
    e.key.source.benefitsFromEnrichment = true := by
  have hupdate : ∀ {id : Uuid} {f : Event → Event}, (∀ e : Event, e.Served (f e)) →
      e ∈ updateEvent id f s.event → e.key.source.benefitsFromEnrichment = true := by
    intro id f hf he
    obtain ⟨m, hm, hserved⟩ := served_of_mem_updateEvent hf he
    rw [hserved.key]
    exact hs m hm (hserved.enriched hnone)
  cases h with
  | commitIngest tx _ =>
      change e ∈ insertEvent tx.started tx.id tx.event s.event at he
      unfold insertEvent at he
      split at he
      · exact hs e he hnone
      · rcases List.mem_append.mp he with hold | hlast
        · exact hs e hold hnone
        · obtain rfl := List.mem_singleton.mp hlast
          dsimp only at hnone
          split at hnone
          · assumption
          · cases hnone
  | applyEnrichment _ _ _ _ _ _ => exact hupdate (fun _ => served_applyEnrichment) he
  | storeFullText _ _ _ _ => exact hupdate (fun _ => served_setFullText) he
  | fetchFailed _ _ _ => exact hupdate (fun _ => served_recordFetchFailure) he
  | _ => exact hs e he hnone

theorem ContentRuns.pending_enrichable (h : ContentRuns ts s) (he : e ∈ s.event)
    (hnone : e.enrichedAt = none) : e.key.source.benefitsFromEnrichment = true := by
  have hinv : ∀ e ∈ s.event, e.enrichedAt = none →
      e.key.source.benefitsFromEnrichment = true := by
    refine h.state_invariant (fun m => ∀ e ∈ m.event, e.enrichedAt = none →
      e.key.source.benefitsFromEnrichment = true) (by simp) ?_
    intro t _ hstep hs e he hnone
    exact hstep.ingested.pending_enrichable hs he hnone
  exact hinv e he hnone

theorem take_one_ne_nil {α : Type} {l : List α} {x : α} (h : x ∈ l) : l.take 1 ≠ [] := by
  intro hnil
  rcases List.take_eq_nil_iff.mp hnil with hzero | rfl
  · cases hzero
  · cases h

theorem sweep_finds (henrichable : e.key.source.benefitsFromEnrichment = true) (hidle : s.Idle)
    (he : e ∈ s.event) (hscope : e.key.scope = .ofPublic)
    (hunbuilt : s.builtThrough .ofPublic < e.ingestTime) (hnone : e.enrichedAt = none) :
    ∃ us s', JobRuns enrichGrace s us s' ∧ ¬ s'.NothingToBuild := by
  have hstep : JobStep enrichGrace s (.readPending 0 1) _ := ⟨if_pos (hidle.enriching 0), trivial⟩
  refine ⟨_, _, Run.Runs.snoc Run.Runs.nil hstep, fun hnothing => ?_⟩
  have hempty := hnothing.2 0
  dsimp only at hempty
  rw [Function.update_self] at hempty
  refine take_one_ne_nil (x := e) ?_ hempty
  rw [List.mem_insertionSort, List.mem_filter]
  exact ⟨he, decide_eq_true ⟨hscope, hnone, henrichable, hunbuilt⟩⟩

theorem listGroups_step {m : Content} {b : Build} (hb : m.build .ofPublic = some b)
    (hgroups : b.groups = none) : JobStep enrichGrace m (.listGroups .ofPublic)
      (m.withBuild .ofPublic (some (b.list m.event .ofPublic))) := by
  refine ⟨?_, rfl⟩
  change (m.build .ofPublic).bind _ = _
  rw [hb, Option.bind_some]
  exact if_pos hgroups

theorem build_finds (hidle : s.Idle) (he : e ∈ s.event) (hscope : e.key.scope = .ofPublic)
    (hunbuilt : s.builtThrough .ofPublic < e.ingestTime)
    (haged : e.ingestTime ≤ s.now - enrichGrace) :
    ∃ us s', JobRuns enrichGrace s us s' ∧ ¬ s'.NothingToBuild := by
  let b := Build.start s.builds .ofPublic s.now enrichGrace (s.builtThrough .ofPublic)
  let m : Content := { s.withBuild .ofPublic (some b) with builds := s.builds + 1 }
  have hbegin : JobStep enrichGrace s (.beginBuild .ofPublic s.now enrichGrace) m :=
    ⟨if_pos ⟨hidle.build, le_refl _⟩, rfl, rfl⟩
  have hb : m.build .ofPublic = some b := by
    change (s.withBuild .ofPublic (some b)).build .ofPublic = some b
    exact Content.withBuild_self
  refine ⟨_, _, Run.Runs.snoc (Run.Runs.snoc Run.Runs.nil hbegin) (listGroups_step hb rfl),
    fun hnothing => ?_⟩
  have hempty := hnothing.1 _ Content.withBuild_self
  have hdirty : e.key ∈ dirtyGroups s.event .ofPublic (s.builtThrough .ofPublic)
      (s.now - enrichGrace) := mem_dirtyGroups.mpr ⟨e, he, rfl, hscope, hunbuilt, haged⟩
  exact List.ne_nil_of_mem hdirty hempty

theorem fetch_finds (hidle : s.Idle) (hdue : eventsNeedingFetchExist s.event = true) :
    ∃ us s', JobRuns enrichGrace s us s' ∧ s'.fetching ≠ [] := by
  obtain ⟨e, he, hwaits⟩ := List.any_eq_true.mp hdue
  have hstep : JobStep enrichGrace s (.readDue 1) _ := ⟨if_pos hidle.fetching, trivial⟩
  refine ⟨_, _, Run.Runs.snoc Run.Runs.nil hstep, ?_⟩
  refine mt List.map_eq_nil_iff.mp (take_one_ne_nil (x := e) ?_)
  rw [List.mem_insertionSort, List.mem_filter]
  exact ⟨he, hwaits⟩

/-- In every state of a run in which no job is under way: the tick enqueues a build exactly where
the jobs, in whatever order they go on while the clock stands and nothing arrives, come to have a
group to fold or an event to enrich; a fetch exactly where they come to have an article to fetch;
and where it enqueues neither, jobs that run anyway leave the log and the clusters as they are. -/
theorem tick_exact (h : ContentRuns ts s) (hidle : s.Idle) :
    (s.publicBuildDue enrichGrace = true ↔
      ∃ us s', JobRuns enrichGrace s us s' ∧ ¬ s'.NothingToBuild) ∧
    (eventsNeedingFetchExist s.event = true ↔
      ∃ us s', JobRuns enrichGrace s us s' ∧ s'.fetching ≠ []) ∧
    (¬ s.publicBuildDue enrichGrace = true → ¬ eventsNeedingFetchExist s.event = true →
      ∀ us s', JobRuns enrichGrace s us s' → s'.event = s.event ∧ s'.cluster = s.cluster) := by
  have hplaced : ContentPlaced s := ContentRuns.placed h
  refine ⟨⟨fun hdue => ?_, ?_⟩, ⟨fetch_finds hidle, ?_⟩, ?_⟩
  · obtain ⟨e, he, hwaits⟩ := List.any_eq_true.mp hdue
    obtain ⟨hscope, hunbuilt, haged | hnone⟩ := of_decide_eq_true hwaits
    · exact build_finds hidle he hscope hunbuilt haged
    · exact sweep_finds (h.pending_enrichable he hnone) hidle he hscope hunbuilt hnone
  · rintro ⟨us, s', hrun, hfound⟩
    by_contra hnot
    exact hfound (hrun.nothing_to_build hplaced hidle hnot)
  · rintro ⟨us, s', hrun, hfound⟩
    by_contra hnot
    exact hfound (hrun.nothing_to_fetch hplaced hidle hnot)
  · exact fun hbuild hfetch us s' hrun => hrun.kept hplaced hidle hbuild hfetch

def waitingScript : List ContentAction :=
  [.beginIngest 1 channelEntry, .commitIngest ⟨1, 1, channelEntry⟩, .wait 5]

def waitingRun : List (Run.Transition Content ContentAction) :=
  Run.transitions Content.play {} waitingScript

def waiting : Content := (Run.execute Content.play {} waitingScript).getD {}

theorem waiting_eq : Run.execute Content.play {} waitingScript = some waiting := rfl

theorem tick_exact_waiting : ContentRuns waitingRun waiting ∧ waiting.Idle ∧
    (∃ us s', JobRuns 2 waiting us s' ∧ ¬ s'.NothingToBuild) ∧
    ¬ ∃ us s', JobRuns 2 waiting us s' ∧ s'.fetching ≠ [] := by
  have hrun : ContentRuns waitingRun waiting :=
    Run.execute_runs (fun s _ _ _ => Content.play_step (s := s)) waiting_eq
  have hidle : waiting.Idle := ⟨rfl, fun _ => rfl, rfl⟩
  refine ⟨hrun, hidle, (tick_exact hrun hidle).1.mp (by decide +kernel), ?_⟩
  exact mt (tick_exact hrun hidle).2.1.mpr (by decide +kernel)

end Bulletin
