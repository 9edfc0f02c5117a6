import Bulletin.Cluster.Build
import Bulletin.Core.Run

/-! # Ingestion and its writers

Ingest transactions, builds of every scope, the enrichment sweep and the article fetch,
interleaved statement by statement where a build reads, and transaction by transaction
elsewhere. An event's `ingestTime` is the start of its transaction; others see the event
when it commits.
-/

namespace Bulletin

/-- An ingest transaction that has not committed. -/
structure OpenIngest where
  id : Uuid
  started : DateTime
  event : NewEvent
deriving DecidableEq

structure FetchTarget where
  id : Uuid
  source : SourceKind
  groupKey : String
  links : List String
deriving DecidableEq

def FetchTarget.key (t : FetchTarget) : GroupKey := ⟨.ofPublic, t.source, t.groupKey⟩

def Event.fetchTarget (e : Event) : FetchTarget := ⟨e.id, e.key.source, e.key.groupKey, e.links⟩

structure Content where
  /-- After the epoch, the floor of every watermark. -/
  now : DateTime := 1
  event : List Event := []
  cluster : ClusterCache := fun _ => none
  /-- `build_watermark`, and `private_build_watermark` by subscriber. -/
  builtThrough : Scope → DateTime := fun _ => 0
  ingest : List OpenIngest := []
  /-- The build that holds the lock of a scope. -/
  build : Scope → Option Build := fun _ => none
  builds : Nat := 0
  /-- What the enrichment sweeps have read and not worked off. -/
  enriching : Nat → List Event := fun _ => []
  /-- The same of the fetch sweep, of which there is one at a time. -/
  fetching : List FetchTarget := []

inductive ContentAction where
  | wait (duration : Nat)
  | beginIngest (id : Uuid) (ev : NewEvent)
  | commitIngest (tx : OpenIngest)
  | rollbackIngest (tx : OpenIngest)
  | beginBuild (scope : Scope) (started : DateTime) (enrichGrace : Nat)
  | listGroups (scope : Scope)
  | readGroup (scope : Scope) (key : GroupKey)
  | upsertGroup (scope : Scope)
  | commitBuild (scope : Scope)
  | rollbackBuild (scope : Scope)
  | readPending (sweep limit : Nat)
  | applyEnrichment (sweep : Nat) (newEntities : List String) (salience : Int)
  | enrichmentFailed (sweep : Nat)
  | readDue (limit : Nat)
  | storeFullText (target : FetchTarget) (text : String)
  | fetchFailed (target : FetchTarget) (permanent : Bool)
  | skipFetch (target : FetchTarget)

namespace Content

def Fresh (s : Content) (id : Uuid) : Prop :=
  (∀ e ∈ s.event, e.id ≠ id) ∧ ∀ tx ∈ s.ingest, tx.id ≠ id

instance (s : Content) (id : Uuid) : Decidable (s.Fresh id) := inferInstanceAs (Decidable (_ ∧ _))

def withBuild (s : Content) (scope : Scope) (b : Option Build) : Content :=
  { s with build := Function.update s.build scope b }

/-- The step an action makes, if it can. -/
def next (s : Content) : ContentAction → Option Content
  | .wait duration => some { s with now := s.now + duration }
  | .beginIngest id ev =>
      if s.Fresh id then some { s with ingest := s.ingest ++ [⟨id, s.now, ev⟩] } else none
  | .commitIngest tx =>
      if tx ∈ s.ingest then
        some { s with ingest := s.ingest.erase tx, event := insertEvent tx.started tx.id tx.event s.event }
      else none
  | .rollbackIngest tx =>
    if tx ∈ s.ingest then some { s with ingest := s.ingest.erase tx } else none
  | .beginBuild scope started enrichGrace =>
      -- a build that does not get the lock does nothing
      if s.build scope = none ∧ started ≤ s.now then
        some { s.withBuild scope (some (Build.start s.builds scope started enrichGrace (s.builtThrough scope)))
          with builds := s.builds + 1 }
      else none
  | .listGroups scope => (s.build scope).bind fun b =>
      if b.groups = none then some (s.withBuild scope (some (b.list s.event scope))) else none
  | .readGroup scope key => (s.build scope).bind fun b =>
      match b.groups, b.reading with
      | some left, none =>
          if key ∈ left then some (s.withBuild scope (some (b.read s.event left key))) else none
      | _, _ => none
  | .upsertGroup scope => (s.build scope).bind fun b =>
      b.reading.map fun group => s.withBuild scope (some (b.upsert group.1 group.2))
  | .commitBuild scope => (s.build scope).bind fun b =>
      if b.groups = some [] ∧ b.reading = none then
        some { s.withBuild scope none with
          cluster := b.commit s.cluster
          builtThrough := Function.update s.builtThrough scope (max (s.builtThrough scope) b.hwm) }
      else none
  | .rollbackBuild scope =>
      if (s.build scope).isSome then some (s.withBuild scope none) else none
  | .readPending sweep limit =>
      if s.enriching sweep = [] then
        let pending := pendingPublicEvents s.event (s.builtThrough .ofPublic) limit
        some { s with enriching := Function.update s.enriching sweep pending }
      else none
  | .applyEnrichment sweep newEntities salience =>
      match s.enriching sweep with
      | [] => none
      | e :: rest => some { s with
          enriching := Function.update s.enriching sweep rest
          event := updateEvent e.id (Bulletin.applyEnrichment s.now newEntities salience) s.event }
  | .enrichmentFailed sweep =>
      match s.enriching sweep with
      | [] => none
      | _ :: rest => some { s with enriching := Function.update s.enriching sweep rest }
  | .readDue limit =>
      if s.fetching = [] then
        some { s with fetching := (dueEventsForFetch s.event limit).map Event.fetchTarget }
      else none
  | .storeFullText target text =>
      -- the update of a row that a build has upserted waits for the build
      if target ∈ s.fetching ∧ ¬ (s.build .ofPublic).any (·.locks s.cluster target.key) then
        some { s with
          fetching := s.fetching.erase target
          event := updateEvent target.id (setFullText text) s.event
          cluster := touchGroup s.now target.key (longformMinChars ≤ text.length) s.cluster }
      else none
  | .fetchFailed target permanent =>
      if target ∈ s.fetching then
        some { s with
          fetching := s.fetching.erase target
          event := updateEvent target.id (recordFetchFailure permanent) s.event }
      else none
  | .skipFetch target =>
      if target ∈ s.fetching then some { s with fetching := s.fetching.erase target } else none

end Content

def ContentStep (s : Content) (act : ContentAction) (s' : Content) : Prop := s.next act = some s'

/-- A run from an empty log. -/
abbrev ContentRuns (ts : List (Run.Transition Content ContentAction)) (s : Content) : Prop :=
  Run.Runs ContentStep {} ts s

/-! ## What one step can do -/

/-- The step of an action, with what it needed. -/
inductive Ingested (s : Content) : ContentAction → Content → Prop
  | wait (duration : Nat) : Ingested s (.wait duration) { s with now := s.now + duration }
  | beginIngest (id : Uuid) (ev : NewEvent) (hfresh : s.Fresh id) :
      Ingested s (.beginIngest id ev) { s with ingest := s.ingest ++ [⟨id, s.now, ev⟩] }
  | commitIngest (tx : OpenIngest) (htx : tx ∈ s.ingest) : Ingested s (.commitIngest tx)
      { s with ingest := s.ingest.erase tx, event := insertEvent tx.started tx.id tx.event s.event }
  | rollbackIngest (tx : OpenIngest) (htx : tx ∈ s.ingest) :
      Ingested s (.rollbackIngest tx) { s with ingest := s.ingest.erase tx }
  | beginBuild (scope : Scope) (started : DateTime) (enrichGrace : Nat)
      (hfree : s.build scope = none)
      (hstarted : started ≤ s.now) : Ingested s (.beginBuild scope started enrichGrace)
      { s.withBuild scope (some (Build.start s.builds scope started enrichGrace (s.builtThrough scope)))
        with builds := s.builds + 1 }
  | listGroups (scope : Scope) (b : Build) (hb : s.build scope = some b)
      (hgroups : b.groups = none) :
      Ingested s (.listGroups scope) (s.withBuild scope (some (b.list s.event scope)))
  | readGroup (scope : Scope) (key : GroupKey) (b : Build) (left : List GroupKey)
      (hb : s.build scope = some b) (hgroups : b.groups = some left) (hreading : b.reading = none)
      (hkey : key ∈ left) :
      Ingested s (.readGroup scope key) (s.withBuild scope (some (b.read s.event left key)))
  | upsertGroup (scope : Scope) (b : Build) (key : GroupKey) (events : List Event)
      (hb : s.build scope = some b) (hreading : b.reading = some (key, events)) :
      Ingested s (.upsertGroup scope) (s.withBuild scope (some (b.upsert key events)))
  | commitBuild (scope : Scope) (b : Build) (hb : s.build scope = some b)
      (hgroups : b.groups = some [])
      (hreading : b.reading = none) : Ingested s (.commitBuild scope)
      { s.withBuild scope none with
        cluster := b.commit s.cluster
        builtThrough := Function.update s.builtThrough scope (max (s.builtThrough scope) b.hwm) }
  | rollbackBuild (scope : Scope) (b : Build) (hb : s.build scope = some b) :
      Ingested s (.rollbackBuild scope) (s.withBuild scope none)
  | readPending (sweep limit : Nat) (hidle : s.enriching sweep = []) :
      Ingested s (.readPending sweep limit) { s with
        enriching :=
          Function.update s.enriching sweep (pendingPublicEvents s.event (s.builtThrough .ofPublic) limit) }
  | applyEnrichment (sweep : Nat) (newEntities : List String) (salience : Int) (e : Event)
      (rest : List Event) (hsweep : s.enriching sweep = e :: rest) :
      Ingested s (.applyEnrichment sweep newEntities salience) { s with
        enriching := Function.update s.enriching sweep rest
        event := updateEvent e.id (Bulletin.applyEnrichment s.now newEntities salience) s.event }
  | enrichmentFailed (sweep : Nat) (e : Event) (rest : List Event)
      (hsweep : s.enriching sweep = e :: rest) :
      Ingested s (.enrichmentFailed sweep) { s with enriching := Function.update s.enriching sweep rest }
  | readDue (limit : Nat) (hidle : s.fetching = []) : Ingested s (.readDue limit)
      { s with fetching := (dueEventsForFetch s.event limit).map Event.fetchTarget }
  | storeFullText (target : FetchTarget) (text : String) (htarget : target ∈ s.fetching)
      (hfree : ∀ b, s.build .ofPublic = some b → b.locks s.cluster target.key = false) :
      Ingested s (.storeFullText target text) { s with
        fetching := s.fetching.erase target
        event := updateEvent target.id (setFullText text) s.event
        cluster := touchGroup s.now target.key (longformMinChars ≤ text.length) s.cluster }
  | fetchFailed (target : FetchTarget) (permanent : Bool) (htarget : target ∈ s.fetching) :
      Ingested s (.fetchFailed target permanent) { s with
        fetching := s.fetching.erase target
        event := updateEvent target.id (recordFetchFailure permanent) s.event }
  | skipFetch (target : FetchTarget) (htarget : target ∈ s.fetching) :
      Ingested s (.skipFetch target) { s with fetching := s.fetching.erase target }

theorem ContentStep.ingested {s s' : Content} {act : ContentAction} (h : ContentStep s act s') :
    Ingested s act s' := by
  unfold ContentStep Content.next at h
  cases act with
  | wait duration =>
      obtain rfl := Option.some.inj h
      exact .wait duration
  | beginIngest id ev =>
      dsimp only at h
      split at h
      · next hfresh =>
          obtain rfl := Option.some.inj h
          exact .beginIngest id ev hfresh
      · cases h
  | commitIngest tx =>
      dsimp only at h
      split at h
      · next htx =>
          obtain rfl := Option.some.inj h
          exact .commitIngest tx htx
      · cases h
  | rollbackIngest tx =>
      dsimp only at h
      split at h
      · next htx =>
          obtain rfl := Option.some.inj h
          exact .rollbackIngest tx htx
      · cases h
  | beginBuild scope started enrichGrace =>
      dsimp only at h
      split at h
      · next hfree =>
          obtain rfl := Option.some.inj h
          exact .beginBuild scope started enrichGrace hfree.1 hfree.2
      · cases h
  | listGroups scope =>
      obtain ⟨b, hb, h⟩ := Option.bind_eq_some_iff.mp h
      split at h
      · next hgroups =>
          obtain rfl := Option.some.inj h
          exact .listGroups scope b hb hgroups
      · cases h
  | readGroup scope key =>
      obtain ⟨b, hb, h⟩ := Option.bind_eq_some_iff.mp h
      split at h
      · next left hgroups hreading =>
          split at h
          · next hkey =>
              obtain rfl := Option.some.inj h
              exact .readGroup scope key b left hb hgroups hreading hkey
          · cases h
      · cases h
  | upsertGroup scope =>
      obtain ⟨b, hb, h⟩ := Option.bind_eq_some_iff.mp h
      obtain ⟨group, hreading, rfl⟩ := Option.map_eq_some_iff.mp h
      exact .upsertGroup scope b group.1 group.2 hb hreading
  | commitBuild scope =>
      obtain ⟨b, hb, h⟩ := Option.bind_eq_some_iff.mp h
      split at h
      · next hdone =>
          obtain rfl := Option.some.inj h
          exact .commitBuild scope b hb hdone.1 hdone.2
      · cases h
  | rollbackBuild scope =>
      dsimp only at h
      split at h
      · next hsome =>
          obtain ⟨b, hb⟩ := Option.isSome_iff_exists.mp hsome
          obtain rfl := Option.some.inj h
          exact .rollbackBuild scope b hb
      · cases h
  | readPending sweep limit =>
      dsimp only at h
      split at h
      · next hidle =>
          obtain rfl := Option.some.inj h
          exact .readPending sweep limit hidle
      · cases h
  | applyEnrichment sweep newEntities salience =>
      dsimp only at h
      split at h
      · cases h
      · next e rest hsweep =>
          obtain rfl := Option.some.inj h
          exact .applyEnrichment sweep newEntities salience e rest hsweep
  | enrichmentFailed sweep =>
      dsimp only at h
      split at h
      · cases h
      · next e rest hsweep =>
          obtain rfl := Option.some.inj h
          exact .enrichmentFailed sweep e rest hsweep
  | readDue limit =>
      dsimp only at h
      split at h
      · next hidle =>
          obtain rfl := Option.some.inj h
          exact .readDue limit hidle
      · cases h
  | storeFullText target text =>
      dsimp only at h
      split at h
      · next hfree =>
          obtain rfl := Option.some.inj h
          refine .storeFullText target text hfree.1 ?_
          intro b hb
          have hlocks := hfree.2
          rw [hb, Option.any_some] at hlocks
          exact Bool.eq_false_iff.mpr hlocks
      · cases h
  | fetchFailed target permanent =>
      dsimp only at h
      split at h
      · next htarget =>
          obtain rfl := Option.some.inj h
          exact .fetchFailed target permanent htarget
      · cases h
  | skipFetch target =>
      dsimp only at h
      split at h
      · next htarget =>
          obtain rfl := Option.some.inj h
          exact .skipFetch target htarget
      · cases h

/-! ## Executable runs -/

def Content.play (s : Content) (act : ContentAction) : Option (ContentAction × Content) :=
  (s.next act).map fun s' => (act, s')

theorem Content.play_step {s s' : Content} {cue act : ContentAction}
    (h : s.play cue = some (act, s')) :
    ContentStep s act s' := by
  obtain ⟨rfl, hnext⟩ := Run.eq_some_of_paired h
  exact hnext

theorem Content.play_ends {script : List ContentAction} {p : Content → Bool}
    (h : (Run.execute Content.play {} script).any p = true) :
    ∃ s, ContentRuns (Run.transitions Content.play {} script) s ∧ p s = true :=
  Run.execute_ends (fun s _ _ _ => Content.play_step (s := s)) h

end Bulletin
