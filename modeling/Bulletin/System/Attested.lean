import Bulletin.Enrich.Ground
import Bulletin.Ingest.Append
import Bulletin.System.Builds

/-! # Nothing is invented

The enrichment sweep adds to an event what a model proposes for it. It proposes for the event as the
sweep has read it; by the time its answer is written the article may have been fetched, and builds
have folded the event as they found it.
-/

namespace Bulletin

open Text

structure Extraction extends Enrichment where
  impact : String := ""

/-- The severity of a class of impact; what is no class is routine. -/
def impactScore (impact : String) : Int :=
  match String.ofList (asciiLower (trim impact).toList) with
  | "major" => 3
  | "significant" => 2
  | "notable" => 1
  | _ => 0

theorem impactScore_le (impact : String) : impactScore impact ≤ 3 := by
  unfold impactScore
  split <;> decide

/-- What is written of an answer: the tokens of the event's own texts, and the severity. -/
def enrichEvent (tables : CharTables) (answer : Extraction) (e : Event) : List String × Int :=
  (groundEntities tables e.title e.bestText answer.toEnrichment, impactScore answer.impact)

/-- A sweep writes what is grounded of some answer in the event it has read. -/
def Grounds (tables : CharTables) (s : Content) (act : ContentAction) : Prop :=
  ∀ sweep newEntities salience, act = .applyEnrichment sweep newEntities salience →
    ∃ e rest answer, s.enriching sweep = e :: rest ∧
      (newEntities, salience) = enrichEvent tables answer e

def SweepStep (tables : CharTables) (s : Content) (act : ContentAction) (s' : Content) : Prop :=
  ContentStep s act s' ∧ Grounds tables s act

/-- A run from an empty log, whatever the model answers. -/
abbrev SweepRuns (tables : CharTables) (ts : List (Run.Transition Content ContentAction))
    (s : Content) : Prop :=
  Run.Runs (SweepStep tables) {} ts s

/-! ## What a token rests on -/

/-- The words of the token are a run of words of the title, the body or the article. -/
def Attests (tables : CharTables) (e : Event) (token : String) : Prop :=
  ∃ (ns : Namespace) (value slug : String), token = ns.name ++ ":" ++ slug ∧
    (Grounded tables e.title e.body value slug ∨
      ∃ text, e.fullText = some text ∧ Grounded tables e.title (some text) value slug)

/-- A later state of an event, which has all that could be taken from it before. What the sweeps
note of their own work (the attempts at an article, the time of an enrichment) is left open. -/
structure Event.Becomes (e e' : Event) : Prop where
  id : e'.id = e.id
  fingerprint : e'.fingerprint = e.fingerprint
  ingestTime : e'.ingestTime = e.ingestTime
  key : e'.key = e.key
  title : e'.title = e.title
  body : e'.body = e.body
  links : e'.links = e.links
  eventTime : e'.eventTime = e.eventTime
  connectionId : e'.connectionId = e.connectionId
  /-- A long article earns an event its depth. -/
  contentKind : e'.contentKind = e.contentKind ∨ e'.contentKind = .longform ∧
    ∃ text, e'.fullText = some text ∧ longformMinChars ≤ text.length
  fullText : ∀ text, e.fullText = some text → e'.fullText = some text
  entities : e.entities ⊆ e'.entities
  hint : hintLevel e.severityHint ≤ hintLevel e'.severityHint

section Becomes

variable {tables : CharTables} {e e' e'' : Event} {token : String}

theorem Event.Becomes.refl : e.Becomes e :=
  ⟨rfl, rfl, rfl, rfl, rfl, rfl, rfl, rfl, rfl, .inl rfl, fun _ h => h, List.Subset.refl _,
    le_refl _⟩

theorem Event.Becomes.trans (h : e.Becomes e') (k : e'.Becomes e'') : e.Becomes e'' where
  id := k.id.trans h.id
  fingerprint := k.fingerprint.trans h.fingerprint
  ingestTime := k.ingestTime.trans h.ingestTime
  key := k.key.trans h.key
  title := k.title.trans h.title
  body := k.body.trans h.body
  links := k.links.trans h.links
  eventTime := k.eventTime.trans h.eventTime
  connectionId := k.connectionId.trans h.connectionId
  contentKind := by
    rcases k.contentKind with hsame | hraised
    · rw [hsame]
      refine h.contentKind.imp_right ?_
      rintro ⟨hlongform, text, htext, hlong⟩
      exact ⟨hlongform, text, k.fullText text htext, hlong⟩
    · exact .inr hraised
  fullText := fun text ht => k.fullText text (h.fullText text ht)
  entities := List.Subset.trans h.entities k.entities
  hint := le_trans h.hint k.hint

theorem Attests.later (h : Attests tables e token) (hbecomes : e.Becomes e') :
    Attests tables e' token := by
  obtain ⟨ns, value, slug, htoken, hgrounded⟩ := h
  refine ⟨ns, value, slug, htoken, ?_⟩
  rw [hbecomes.title, hbecomes.body]
  refine hgrounded.imp_right ?_
  rintro ⟨text, htext, hin⟩
  exact ⟨text, hbecomes.fullText text htext, hin⟩

/-- What is grounded in the best text of an event is grounded in one of its texts. -/
theorem attests_of_mem {answer : Enrichment}
    (h : token ∈ groundEntities tables e.title e.bestText answer) : Attests tables e token := by
  obtain ⟨ns, slug, htoken, value, _, hgrounded⟩ := mem_groundEntities.mp h
  refine ⟨ns, value, slug, htoken, ?_⟩
  unfold Event.bestText at hgrounded
  split at hgrounded
  · rename_i text htext
    split at hgrounded
    · exact .inr ⟨text, htext, hgrounded⟩
    · exact .inl hgrounded
  · exact .inl hgrounded

theorem enrichEvent_spec {answer : Extraction} {newEntities : List String} {salience : Int}
    (h : (newEntities, salience) = enrichEvent tables answer e) :
    (∀ token ∈ newEntities, Attests tables e token) ∧ salience ≤ 3 := by
  obtain ⟨htokens, hsalience⟩ := Prod.mk.inj h
  rw [htokens, hsalience]
  exact ⟨fun _ htoken => attests_of_mem htoken, impactScore_le answer.impact⟩

theorem becomes_applyEnrichment {now : DateTime} {newEntities : List String} {salience : Int} :
    e.Becomes (applyEnrichment now newEntities salience e) where
  id := rfl
  fingerprint := rfl
  ingestTime := rfl
  key := rfl
  title := rfl
  body := rfl
  links := rfl
  eventTime := rfl
  connectionId := rfl
  contentKind := .inl rfl
  fullText := fun _ h => h
  entities := by
    intro token htoken
    exact mem_sortDedup.mpr (List.mem_append_left _ htoken)
  hint := (hint_enriched_le.mp (le_refl _)).1

theorem becomes_setFullText {text : String} (hnone : e.fullText = none) :
    e.Becomes (setFullText text e) where
  id := rfl
  fingerprint := rfl
  ingestTime := rfl
  key := rfl
  title := rfl
  body := rfl
  links := rfl
  eventTime := rfl
  connectionId := rfl
  contentKind := by
    unfold setFullText
    dsimp only
    split
    · rename_i hlong
      exact .inr ⟨rfl, text, rfl, hlong⟩
    · exact .inl rfl
  fullText := by
    intro text' htext
    cases hnone.symm.trans htext
  entities := List.Subset.refl _
  hint := le_refl _

theorem becomes_recordFetchFailure {permanent : Bool} :
    e.Becomes (recordFetchFailure permanent e) :=
  ⟨rfl, rfl, rfl, rfl, rfl, rfl, rfl, rfl, rfl, .inl rfl, fun _ h => h, List.Subset.refl _,
    le_refl _⟩

end Becomes

/-! ## The log -/

structure Content.Unfetched (s : Content) : Prop where
  once : (s.fetching.map (·.id)).Nodup
  none : ∀ target ∈ s.fetching, ∀ e ∈ s.event, e.id = target.id → e.fullText = none

/-- Where an event of the log after a step comes from. -/
inductive EventMove (s : Content) (act : ContentAction) (e' : Event) : Prop
  | kept (e : Event) (he : e ∈ s.event) (hbecomes : e.Becomes e')
      (hentities : e'.entities = e.entities) (hhint : e'.severityHint = e.severityHint)
  | enriched (e read : Event) (rest : List Event) (sweep : Nat) (newEntities : List String)
      (salience : Int) (hact : act = .applyEnrichment sweep newEntities salience) (he : e ∈ s.event)
      (hsweep : s.enriching sweep = read :: rest) (hid : e.id = read.id)
      (heq : e' = applyEnrichment s.now newEntities salience e)
  | inserted (tx : OpenIngest) (hinserts : Inserts s act tx) (heq : e' = tx.row)

section Log

variable {s s' : Content} {act : ContentAction} {e e' : Event}

theorem EventMove.same (he : e' ∈ s.event) : EventMove s act e' := .kept e' he .refl rfl rfl

theorem mem_updateEvent {id : Uuid} {f : Event → Event} {log : List Event}
    (h : e' ∈ updateEvent id f log) : ∃ e ∈ log, e' = if e.id = id then f e else e := by
  obtain ⟨e, he, rfl⟩ := List.mem_map.mp h
  exact ⟨e, he, rfl⟩

theorem Ingested.eventMove (h : Ingested s act s') (hunfetched : s.Unfetched)
    (he' : e' ∈ s'.event) : EventMove s act e' := by
  cases h with
  | commitIngest tx htx =>
      change e' ∈ insertEvent tx.started tx.id tx.event s.event at he'
      unfold insertEvent at he'
      split at he'
      · exact .same he'
      · rename_i hnew
        rcases List.mem_append.mp he' with hold | hlast
        · exact .same hold
        · refine .inserted tx ⟨rfl, htx, ?_⟩ (List.mem_singleton.mp hlast)
          intro e he hid
          exact hnew (List.any_eq_true.mpr ⟨e, he, decide_eq_true hid⟩)
  | applyEnrichment sweep newEntities salience read rest hsweep =>
      obtain ⟨e, he, rfl⟩ := mem_updateEvent he'
      split
      · rename_i hid
        exact .enriched e read rest sweep newEntities salience rfl he hsweep hid rfl
      · exact .same he
  | storeFullText target text htarget _ =>
      obtain ⟨e, he, rfl⟩ := mem_updateEvent he'
      split
      · rename_i hid
        exact .kept e he (becomes_setFullText (hunfetched.none target htarget e he hid)) rfl rfl
      · exact .same he
  | fetchFailed target permanent _ =>
      obtain ⟨e, he, rfl⟩ := mem_updateEvent he'
      split
      · exact .kept e he becomes_recordFetchFailure rfl rfl
      · exact .same he
  | _ => exact .same he'

/-- An event as it was once read is in the log, as it has become. -/
def Content.Remembers (s : Content) (e : Event) : Prop := ∃ e' ∈ s.event, e.Becomes e'

theorem remembers_of_mem (he : e ∈ s.event) : s.Remembers e := ⟨e, he, .refl⟩

theorem Ingested.becomes (h : Ingested s act s') (hunfetched : s.Unfetched) (he : e ∈ s.event) :
    s'.Remembers e := by
  have hupdate : ∀ {id : Uuid} {f : Event → Event}, (e.id = id → e.Becomes (f e)) →
      ∃ e' ∈ updateEvent id f s.event, e.Becomes e' := by
    intro id f hf
    refine ⟨_, List.mem_map_of_mem he, ?_⟩
    split
    · rename_i hid
      exact hf hid
    · exact .refl
  cases h with
  | commitIngest tx htx => exact ⟨e, subset_insertEvent he, .refl⟩
  | applyEnrichment sweep newEntities salience read rest hsweep =>
      exact hupdate fun _ => becomes_applyEnrichment
  | storeFullText target text htarget _ =>
      exact hupdate fun hid => becomes_setFullText (hunfetched.none target htarget e he hid)
  | fetchFailed target permanent _ => exact hupdate fun _ => becomes_recordFetchFailure
  | _ => exact ⟨e, he, .refl⟩

theorem Ingested.remembers (h : Ingested s act s') (hunfetched : s.Unfetched)
    (he : s.Remembers e) : s'.Remembers e := by
  obtain ⟨m, hm, hbecomes⟩ := he
  obtain ⟨e', he', hlater⟩ := h.becomes hunfetched hm
  exact ⟨e', he', hbecomes.trans hlater⟩

theorem ContentPlaced.ids_nodup (hs : ContentPlaced s) : (s.event.map (·.id)).Nodup := by
  have hids := (List.nodup_append.mp hs.ids).1
  unfold Content.stamps at hids
  rwa [List.map_map] at hids

theorem ContentPlaced.event_unique (hs : ContentPlaced s) {x y : Event} (hx : x ∈ s.event)
    (hy : y ∈ s.event) (hid : x.id = y.id) : x = y :=
  List.inj_on_of_nodup_map hs.ids_nodup hx hy hid

end Log

/-! ## Articles are fetched once -/

section Fetch

variable {s s' : Content} {act : ContentAction} {e : Event}

theorem dueEventsForFetch_nodup {log : List Event} {limit : Nat}
    (h : (log.map (·.id)).Nodup) : ((dueEventsForFetch log limit).map (·.id)).Nodup := by
  refine ((List.take_sublist _ _).map _).nodup ?_
  refine ((List.perm_insertionSort _ _).map _).nodup_iff.mpr ?_
  exact (List.filter_sublist.map _).nodup h

theorem Ingested.fullText (h : Ingested s act s') (he : e ∈ s'.event) :
    e.fullText = none ∨ (∃ m ∈ s.event, m.id = e.id ∧ e.fullText = m.fullText) ∨
      ∃ target text, act = .storeFullText target text ∧ e.id = target.id := by
  cases h with
  | commitIngest tx htx =>
      change e ∈ insertEvent tx.started tx.id tx.event s.event at he
      unfold insertEvent at he
      split at he
      · exact .inr (.inl ⟨e, he, rfl, rfl⟩)
      · rcases List.mem_append.mp he with hold | hlast
        · exact .inr (.inl ⟨e, hold, rfl, rfl⟩)
        · obtain rfl := List.mem_singleton.mp hlast
          exact .inl rfl
  | applyEnrichment sweep newEntities salience read rest hsweep =>
      obtain ⟨m, hm, rfl⟩ := mem_updateEvent he
      refine .inr (.inl ⟨m, hm, ?_⟩)
      split <;> exact ⟨rfl, rfl⟩
  | storeFullText target text htarget _ =>
      obtain ⟨m, hm, rfl⟩ := mem_updateEvent he
      split
      · rename_i hid
        exact .inr (.inr ⟨target, text, rfl, hid⟩)
      · exact .inr (.inl ⟨m, hm, rfl, rfl⟩)
  | fetchFailed target permanent _ =>
      obtain ⟨m, hm, rfl⟩ := mem_updateEvent he
      refine .inr (.inl ⟨m, hm, ?_⟩)
      split <;> exact ⟨rfl, rfl⟩
  | _ => exact .inr (.inl ⟨e, he, rfl, rfl⟩)

theorem Content.Unfetched.erase (hs : s.Unfetched) (h : Ingested s act s') {target : FetchTarget}
    (htarget : target ∈ s.fetching) (hfetching : s'.fetching = s.fetching.erase target)
    (hact : ∀ other text, act = .storeFullText other text → other = target) :
    s'.Unfetched where
  once := hfetching ▸ (List.erase_sublist.map _).nodup hs.once
  none := by
    intro other hother e he hid
    rw [hfetching] at hother
    have hin := List.mem_of_mem_erase hother
    rcases h.fullText he with hnone | ⟨m, hm, hmid, hsame⟩ | ⟨stored, text, heq, hstored⟩
    · exact hnone
    · exact hsame.trans (hs.none other hin m hm (hmid.trans hid))
    · -- the target that is stored is worked off, and no other has its id
      obtain rfl := hact stored text heq
      have hsame : other = stored :=
        List.inj_on_of_nodup_map hs.once hin htarget (hid.symm.trans hstored)
      rw [hsame] at hother
      exact absurd hother hs.once.of_map.not_mem_erase

theorem Content.Unfetched.kept (hs : s.Unfetched) (h : Ingested s act s')
    (hfetching : s'.fetching = s.fetching)
    (hact : ∀ target text, act ≠ .storeFullText target text) : s'.Unfetched where
  once := hfetching ▸ hs.once
  none := by
    intro target htarget e he hid
    rw [hfetching] at htarget
    rcases h.fullText he with hnone | ⟨m, hm, hmid, hsame⟩ | ⟨stored, text, heq, _⟩
    · exact hnone
    · exact hsame.trans (hs.none target htarget m hm (hmid.trans hid))
    · exact absurd heq (hact stored text)

theorem Content.Unfetched.step (hs : s.Unfetched) (h : Ingested s act s')
    (hplaced : ContentPlaced s) : s'.Unfetched := by
  have hcopy := h
  cases h with
  | readDue limit hidle =>
      constructor
      · show (((dueEventsForFetch s.event limit).map Event.fetchTarget).map (·.id)).Nodup
        rw [List.map_map]
        exact dueEventsForFetch_nodup hplaced.ids_nodup
      · intro target htarget e he hid
        obtain ⟨due, hdue, rfl⟩ := List.mem_map.mp htarget
        obtain ⟨hmem, _, hnone, _⟩ := mem_dueEventsForFetch hdue
        rwa [hplaced.event_unique he hmem hid]
  | storeFullText target text htarget _ =>
      refine hs.erase hcopy htarget rfl ?_
      intro other text' heq
      exact (ContentAction.storeFullText.inj heq).1.symm
  | fetchFailed target permanent htarget =>
      exact hs.erase hcopy htarget rfl fun _ _ heq => by cases heq
  | skipFetch target htarget =>
      exact hs.erase hcopy htarget rfl fun _ _ heq => by cases heq
  | _ => exact hs.kept hcopy rfl fun _ _ heq => by cases heq

end Fetch

/-! ## What the sweeps and the builds have read -/

def Event.Enrichable (e : Event) : Prop :=
  e.key.scope = .ofPublic ∧ e.key.source.benefitsFromEnrichment = true

/-- A row says of its group what events of the log say: the columns of its face are those of one
event. -/
structure RowFrom (log : List Event) (key : GroupKey) (r : ClusterRollup) : Prop where
  face : ∃ e ∈ log, e.key = key ∧ r.title = e.title ∧ r.link = e.links.head? ∧
    r.lastEventTime = e.eventTime ∧ r.connectionId = e.connectionId
  entities : ∀ token ∈ r.entities, ∃ e ∈ log, e.key = key ∧ token ∈ e.entities
  severity : ∀ v : Int, r.maxSeverity = some v →
    ∃ e ∈ log, e.key = key ∧ (v : WithBot Int) ≤ hintLevel e.severityHint

structure Content.ReadsLog (s : Content) : Prop where
  placed : ContentPlaced s
  unfetched : s.Unfetched
  enriching : ∀ sweep, ∀ e ∈ s.enriching sweep, e.Enrichable ∧ s.Remembers e
  holds : ∀ scope b, s.build scope = some b → ∀ key events, b.holds key = some events →
    ∀ e ∈ events, e.key = key ∧ s.Remembers e
  rows : ∀ key row, s.cluster key = some row → RowFrom s.event key row.rollup

section Reads

variable {s s' : Content} {act : ContentAction} {e : Event} {events : List Event} {key : GroupKey}
  {r : ClusterRollup}

theorem foldl_latest_mem (head : Event) : events.foldl latest head ∈ head :: events := by
  induction events generalizing head with
  | nil => exact List.mem_singleton_self head
  | cons e events ih =>
      have hlatest : latest head e = head ∨ latest head e = e := by
        unfold latest
        split
        · exact .inr rfl
        · exact .inl rfl
      rcases List.mem_cons.mp (ih (latest head e)) with heq | hin
      · rw [List.foldl_cons, heq]
        rcases hlatest with hhead | he
        · rw [hhead]
          exact List.mem_cons_self
        · rw [he]
          exact List.mem_cons_of_mem _ List.mem_cons_self
      · exact List.mem_cons_of_mem _ (List.mem_cons_of_mem _ hin)

theorem rollup_face (h : rollup events = some r) : ∃ e ∈ events, r.title = e.title ∧
    r.link = e.links.head? ∧ r.lastEventTime = e.eventTime ∧ r.connectionId = e.connectionId := by
  unfold rollup at h
  obtain ⟨head, hhead, rfl⟩ := Option.map_eq_some_iff.mp h
  rw [rollupPass_foldl]
  refine ⟨events.foldl latest head, ?_, rfl, rfl, rfl, rfl⟩
  rcases List.mem_cons.mp (foldl_latest_mem head) with heq | hin
  · rw [heq]
    exact List.mem_of_head? hhead
  · exact hin

theorem rowFrom_rollup (h : rollup events = some r) (hkey : ∀ e ∈ events, e.key = key) :
    RowFrom events key r := by
  obtain ⟨hentities, _, hseverity⟩ := rollup_columns h
  constructor
  · obtain ⟨e, he, hface⟩ := rollup_face h
    exact ⟨e, he, hkey e he, hface⟩
  · intro token htoken
    rw [hentities, mem_sortDedup] at htoken
    obtain ⟨e, he, hin⟩ := List.mem_flatMap.mp htoken
    exact ⟨e, he, hkey e he, hin⟩
  · intro v hv
    rcases foldl_maxHint_eq_some (hseverity.symm.trans hv) with hnone | hin
    · cases hnone
    · obtain ⟨e, he, hhint⟩ := List.mem_map.mp hin
      refine ⟨e, he, hkey e he, ?_⟩
      rw [hhint]
      exact le_refl _

theorem RowFrom.later (h : RowFrom events key r) (hkeeps : ∀ e ∈ events, s.Remembers e) :
    RowFrom s.event key r := by
  constructor
  · obtain ⟨e, he, hkey, htitle, hlink, htime, hconnection⟩ := h.face
    obtain ⟨e', he', hbecomes⟩ := hkeeps e he
    refine ⟨e', he', hbecomes.key.trans hkey, htitle.trans hbecomes.title.symm, ?_,
      htime.trans hbecomes.eventTime.symm, hconnection.trans hbecomes.connectionId.symm⟩
    rw [hlink, hbecomes.links]
  · intro token htoken
    obtain ⟨e, he, hkey, hin⟩ := h.entities token htoken
    obtain ⟨e', he', hbecomes⟩ := hkeeps e he
    exact ⟨e', he', hbecomes.key.trans hkey, hbecomes.entities hin⟩
  · intro v hv
    obtain ⟨e, he, hkey, hle⟩ := h.severity v hv
    obtain ⟨e', he', hbecomes⟩ := hkeeps e he
    exact ⟨e', he', hbecomes.key.trans hkey, le_trans hle hbecomes.hint⟩

theorem Content.ReadsLog.enriching_step (hs : s.ReadsLog) (h : Ingested s act s') (sweep : Nat)
    (he : e ∈ s'.enriching sweep) : e.Enrichable ∧ s'.Remembers e := by
  have hkept : ∀ {sweep : Nat} {e : Event}, e ∈ s.enriching sweep →
      e.Enrichable ∧ s'.Remembers e := by
    intro sweep e he
    obtain ⟨henrichable, hremembers⟩ := hs.enriching sweep e he
    exact ⟨henrichable, h.remembers hs.unfetched hremembers⟩
  have hupdate : ∀ {other : Nat} {reads : List Event},
      (∀ e ∈ reads, e.Enrichable ∧ s'.Remembers e) →
      e ∈ Function.update s.enriching other reads sweep → e.Enrichable ∧ s'.Remembers e := by
    intro other reads hreads he
    by_cases heq : sweep = other
    · subst heq
      rw [Function.update_self] at he
      exact hreads e he
    · rw [Function.update_of_ne heq] at he
      exact hkept he
  cases h with
  | readPending other limit _ =>
      refine hupdate ?_ he
      intro e he
      obtain ⟨hmem, hscope, _, hsource, _⟩ := mem_pendingPublicEvents he
      exact ⟨⟨hscope, hsource⟩, remembers_of_mem hmem⟩
  | applyEnrichment other newEntities salience read rest hsweep =>
      exact hupdate (fun x hx => hkept (hsweep ▸ List.mem_cons_of_mem _ hx)) he
  | enrichmentFailed other read rest hsweep =>
      exact hupdate (fun x hx => hkept (hsweep ▸ List.mem_cons_of_mem _ hx)) he
  | _ => exact hkept he

theorem Content.ReadsLog.holds_step (hs : s.ReadsLog) (h : Ingested s act s') {scope : Scope}
    {b' : Build} (hb' : s'.build scope = some b') (hholds : b'.holds key = some events)
    (he : e ∈ events) : e.key = key ∧ s'.Remembers e := by
  have hkept : ∀ {b : Build} {events : List Event}, s.build scope = some b →
      b.holds key = some events → e ∈ events → e.key = key ∧ s'.Remembers e := by
    intro b events hb hholds he
    obtain ⟨hkey, hremembers⟩ := hs.holds scope b hb key events hholds e he
    exact ⟨hkey, h.remembers hs.unfetched hremembers⟩
  cases h.build scope with
  | same hbuild _ _ _ => exact hkept (hbuild.symm.trans hb') hholds he
  | begun started enrichGrace _ hbuild _ _ _ _ =>
      obtain rfl := Option.some.inj (hbuild.symm.trans hb')
      cases hholds
  | listed b hb _ hbuild _ _ _ _ =>
      obtain rfl := Option.some.inj (hbuild.symm.trans hb')
      exact hkept hb hholds he
  | read k b left hb _ hreading _ hbuild _ _ _ _ =>
      obtain rfl := Option.some.inj (hbuild.symm.trans hb')
      rw [Build.holds_read hreading] at hholds
      split at hholds
      · rename_i heq
        subst heq
        obtain rfl := Option.some.inj hholds
        obtain ⟨hmem, hkey⟩ := mem_listGroupEvents.mp he
        exact ⟨hkey, h.becomes hs.unfetched hmem⟩
      · exact hkept hb hholds he
  | upserted k b read hb hreading hbuild _ _ _ _ =>
      obtain rfl := Option.some.inj (hbuild.symm.trans hb')
      rw [Build.holds_upsert hreading ((hs.placed.build hb).reading_ne hreading)] at hholds
      exact hkept hb hholds he
  | committed _ _ _ _ _ hbuild _ _ _ => cases hbuild.symm.trans hb'
  | rolledBack _ _ hbuild _ _ _ _ => cases hbuild.symm.trans hb'

theorem Content.ReadsLog.rows_step (hs : s.ReadsLog) (h : Ingested s act s') {row : CachedCluster}
    (hrow : s'.cluster key = some row) : RowFrom s'.event key row.rollup := by
  have hkeeps : ∀ e ∈ s.event, s'.Remembers e := fun e he => h.becomes hs.unfetched he
  cases h with
  | commitBuild scope b hb _ hreading =>
      change b.commit s.cluster key = some row at hrow
      unfold Build.commit at hrow
      cases hrows : b.rows key with
      | none =>
          rw [hrows] at hrow
          exact hs.rows key row hrow
      | some events =>
          rw [hrows] at hrow
          obtain ⟨r, hr, rfl⟩ := Option.map_eq_some_iff.mp hrow
          have hholds : b.holds key = some events := (Build.holds_rows hreading).trans hrows
          have hread := hs.holds scope b hb key events hholds
          exact (rowFrom_rollup hr fun e he => (hread e he).1).later fun e he => (hread e he).2
  | storeFullText target text _ _ =>
      change touchGroup s.now target.key _ s.cluster key = some row at hrow
      unfold touchGroup at hrow
      by_cases heq : key = target.key
      · rw [heq, Function.update_self] at hrow
        obtain ⟨old, hold, rfl⟩ := Option.map_eq_some_iff.mp hrow
        have hfrom := (hs.rows target.key old hold).later hkeeps
        rw [heq]
        dsimp only
        split
        · exact ⟨hfrom.face, hfrom.entities, hfrom.severity⟩
        · exact hfrom
      · rw [Function.update_of_ne heq] at hrow
        exact (hs.rows key row hrow).later hkeeps
  | _ => exact (hs.rows key row hrow).later hkeeps

theorem Content.ReadsLog.step (hs : s.ReadsLog) (h : Ingested s act s') : s'.ReadsLog where
  placed := hs.placed.step h
  unfetched := hs.unfetched.step h hs.placed
  enriching := fun sweep _ he => hs.enriching_step h sweep he
  holds := fun _ _ hb _ _ hholds _ he => hs.holds_step h hb hholds he
  rows := fun _ _ hrow => hs.rows_step h hrow

theorem Content.ReadsLog.start : ({} : Content).ReadsLog where
  placed := ContentPlaced.start
  unfetched := ⟨List.nodup_nil, by simp⟩
  enriching := by
    intro sweep e he
    cases he
  holds := by
    intro scope b hb
    cases hb
  rows := by
    intro key row hrow
    cases hrow

end Reads

/-! ## What an event rests on -/

/-- What an event of the log has beyond the row its transaction inserted is attested by its own
texts, and its severity is one of a class; a group the sweep does not read has nothing more. -/
structure Rests (tables : CharTables) (tx : OpenIngest) (e : Event) : Prop where
  row : tx.row.Becomes e
  entities : ∀ token ∈ e.entities, token ∈ tx.event.entities ∨ Attests tables e token
  hint : hintLevel e.severityHint ≤ max (hintLevel tx.event.severityHint) ((3 : Int) : WithBot Int)
  unread : ¬ e.Enrichable →
    e.entities = tx.event.entities ∧ e.severityHint = tx.event.severityHint

section Rests

variable {tables : CharTables} {tx : OpenIngest} {s s' : Content} {act : ContentAction}
  {e e' read : Event} {ts : List (Run.Transition Content ContentAction)}

theorem rests_row : Rests tables tx tx.row where
  row := .refl
  entities := fun _ htoken => .inl htoken
  hint := le_max_left _ _
  unread := fun _ => ⟨rfl, rfl⟩

theorem Rests.later (h : Rests tables tx e) (hbecomes : e.Becomes e')
    (hentities : e'.entities = e.entities) (hhint : e'.severityHint = e.severityHint) :
    Rests tables tx e' where
  row := h.row.trans hbecomes
  entities := by
    intro token htoken
    rw [hentities] at htoken
    exact (h.entities token htoken).imp_right fun hattests => hattests.later hbecomes
  hint := by
    rw [hhint]
    exact h.hint
  unread := by
    unfold Event.Enrichable
    rw [hbecomes.key, hentities, hhint]
    exact h.unread

/-- What is written is attested in the event as it was read, which has become the event. -/
theorem Rests.enriched {now : DateTime} {newEntities : List String} {salience : Int}
    (h : Rests tables tx e) (hread : read.Becomes e) (henrichable : read.Enrichable)
    (hnew : ∀ token ∈ newEntities, Attests tables read token) (hsalience : salience ≤ 3) :
    Rests tables tx (applyEnrichment now newEntities salience e) where
  row := h.row.trans becomes_applyEnrichment
  entities := by
    intro token htoken
    rcases List.mem_append.mp (mem_sortDedup.mp htoken) with hold | hin
    · exact (h.entities token hold).imp_right fun hattests => hattests.later becomes_applyEnrichment
    · exact .inr (((hnew token hin).later hread).later becomes_applyEnrichment)
  hint := hint_enriched_le.mpr
    ⟨h.hint, fun _ => le_max_of_le_right (WithBot.coe_le_coe.mpr hsalience)⟩
  unread := by
    intro hnot
    refine absurd ?_ hnot
    unfold Event.Enrichable at henrichable ⊢
    rw [← hread.key] at henrichable
    exact henrichable

/-- Some transaction of the run inserted the event. -/
def InsertedIn (tables : CharTables) (ts : List (Run.Transition Content ContentAction))
    (e : Event) : Prop :=
  ∃ t ∈ ts, ∃ tx, Inserts t.before t.action tx ∧ Rests tables tx e

theorem SweepStep.insertedIn {t : Run.Transition Content ContentAction}
    (hstep : SweepStep tables t.before t.action t.after) (hs : t.before.ReadsLog)
    (hlog : ∀ e ∈ t.before.event, InsertedIn tables ts e) (he' : e' ∈ t.after.event) :
    InsertedIn tables (ts ++ [t]) e' := by
  have hmore : ∀ {u}, u ∈ ts → u ∈ ts ++ [t] := fun hu => List.mem_append_left _ hu
  cases hstep.1.ingested.eventMove hs.unfetched he' with
  | kept e he hbecomes hentities hhint =>
      obtain ⟨u, hu, tx, hinserts, hrests⟩ := hlog e he
      exact ⟨u, hmore hu, tx, hinserts, hrests.later hbecomes hentities hhint⟩
  | enriched e read rest sweep newEntities salience hact he hsweep hid heq =>
      obtain ⟨read', rest', answer, hsweep', hanswer⟩ := hstep.2 sweep newEntities salience hact
      obtain ⟨rfl, rfl⟩ := List.cons.inj (hsweep.symm.trans hsweep')
      obtain ⟨hattested, hsalience⟩ := enrichEvent_spec hanswer
      obtain ⟨henrichable, m, hm, hread⟩ := hs.enriching sweep read (hsweep ▸ List.mem_cons_self)
      obtain rfl := hs.placed.event_unique he hm (hid.trans hread.id.symm)
      obtain ⟨u, hu, tx, hinserts, hrests⟩ := hlog e he
      rw [heq]
      exact ⟨u, hmore hu, tx, hinserts, hrests.enriched hread henrichable hattested hsalience⟩
  | inserted tx hinserts heq =>
      rw [heq]
      exact ⟨t, List.mem_append_right _ (List.mem_singleton_self t), tx, hinserts, rests_row⟩

/-- However builds, fetches and sweeps are interleaved and whatever the model answers: an event of
the log is the row some transaction inserted, but for its article and the depth a long one earns,
tokens that its title, its body or its article attests, and a severity of a class, the last two only
in groups the sweep reads; and a row of the clusters says nothing that no event of its group says. -/
theorem nothing_invented (h : SweepRuns tables ts s) :
    (∀ e ∈ s.event, InsertedIn tables ts e) ∧
      ∀ key row, s.cluster key = some row → RowFrom s.event key row.rollup := by
  have hinv : s.ReadsLog ∧ ∀ e ∈ s.event, InsertedIn tables ts e := by
    refine h.invariant (fun ts s => s.ReadsLog ∧ ∀ e ∈ s.event, InsertedIn tables ts e) ?_ ?_
    · exact ⟨Content.ReadsLog.start, by simp⟩
    · intro pre t post _ _ hstep hpre
      refine ⟨hpre.1.step hstep.1.ingested, ?_⟩
      intro e he
      exact hstep.insertedIn hpre.1 hpre.2 he
  exact ⟨hinv.2, hinv.1.rows⟩

theorem ContentRuns.sweeps (h : ContentRuns ts s)
    (hgrounds : ∀ t ∈ ts, Grounds tables t.before t.action) : SweepRuns tables ts s := by
  refine h.invariant (SweepRuns tables) Run.Runs.nil ?_
  intro pre t post heq _ hstep hpre
  exact Run.Runs.snoc hpre ⟨hstep, hgrounds t (heq ▸ List.mem_append_right _ List.mem_cons_self)⟩

end Rests

/-! ## A standoff at sea -/

def channelKey : GroupKey := ⟨.ofPublic, .rss, "standoff"⟩

def channelEntry : NewEvent :=
  { fingerprint := [1], key := channelKey, eventTime := 0, contentKind := .message,
    title := "Warning shots in the English Channel" }

def channelAnswer : Extraction :=
  { places := ["the English Channel", "Baltic Sea"], impact := " Significant" }

def channelScript : List ContentAction :=
  [.beginIngest 1 channelEntry, .commitIngest ⟨1, 1, channelEntry⟩, .readPending 0 10,
    .applyEnrichment 0 ["place:english-channel"] 2, .wait 5, .beginBuild .ofPublic 6 2,
    .listGroups .ofPublic, .readGroup .ofPublic channelKey, .upsertGroup .ofPublic,
    .commitBuild .ofPublic]

def channelRun : List (Run.Transition Content ContentAction) :=
  Run.transitions Content.play {} channelScript

def groundedOf (answer : Extraction) (t : Run.Transition Content ContentAction) : Bool :=
  match t.action with
  | .applyEnrichment sweep newEntities salience => (t.before.enriching sweep).head?.any fun e =>
      (newEntities, salience) == enrichEvent asciiCharTables answer e
  | _ => true

theorem grounds_of_groundedOf {answer : Extraction} {t : Run.Transition Content ContentAction}
    (h : groundedOf answer t = true) : Grounds asciiCharTables t.before t.action := by
  intro sweep newEntities salience hact
  unfold groundedOf at h
  rw [hact] at h
  obtain ⟨e, he, heq⟩ := (Option.any_eq_true _ _).mp h
  obtain ⟨rest, hrest⟩ := List.head?_eq_some_iff.mp he
  exact ⟨e, rest, answer, hrest, eq_of_beq heq⟩

theorem nothing_invented_channel : ∃ s, SweepRuns asciiCharTables channelRun s ∧
    (s.cluster channelKey).map (fun row => (row.rollup.entities, row.rollup.maxSeverity)) =
      some (["place:english-channel"], some 2) ∧
    (∀ e ∈ s.event, InsertedIn asciiCharTables channelRun e) ∧
      ∀ key row, s.cluster key = some row → RowFrom s.event key row.rollup := by
  obtain ⟨s, hrun, hrow⟩ : ∃ s, ContentRuns channelRun s ∧
      decide ((s.cluster channelKey).map (fun row =>
        (row.rollup.entities, row.rollup.maxSeverity)) =
          some (["place:english-channel"], some 2)) = true :=
    Content.play_ends (by decide +kernel)
  have hgrounded : ∀ t ∈ channelRun, groundedOf channelAnswer t = true := by decide +kernel
  have hsweeps := hrun.sweeps fun t ht => grounds_of_groundedOf (hgrounded t ht)
  exact ⟨s, hsweeps, of_decide_eq_true hrow, nothing_invented hsweeps⟩

end Bulletin
