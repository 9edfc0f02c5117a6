import Bulletin.Ingest.Append
import Bulletin.System.NothingLost
import Bulletin.System.Tenants

/-! # Who sees what a connection delivered

An event keeps the connection that delivered it first, and a cluster the connection of its latest
event. A candidate read compares that one connection with those its subscriber reads.
-/

namespace Bulletin

open Run

/-! ## Subscriptions -/

inductive SubscriptionAction where
  | insertConnection (id : Uuid) (owner : Option Uuid)
  | subscribe (sub connection : Uuid)
  | unsubscribe (sub connection : Uuid)
deriving DecidableEq, Repr

structure Subscriptions where
  /-- The connections, with their owners. -/
  connection : List (Uuid × Option Uuid) := []
  /-- A subscriber and a connection it reads. -/
  subscription : List (Uuid × Uuid) := []
deriving DecidableEq, Repr

/-- The owner of a connection reads it from the start. -/
def Subscriptions.apply (s : Subscriptions) : SubscriptionAction → Subscriptions
  | .insertConnection id owner =>
      { connection := s.connection ++ [(id, owner)]
        subscription := owner.elim s.subscription fun sub => s.subscription.insert (sub, id) }
  | .subscribe sub connection =>
      { s with subscription := s.subscription.insert (sub, connection) }
  | .unsubscribe sub connection =>
      { s with subscription := s.subscription.filter (· ≠ (sub, connection)) }

def Subscriptions.after (history : List SubscriptionAction) : Subscriptions :=
  history.foldl Subscriptions.apply {}

def Subscriptions.subscribed (s : Subscriptions) (sub : Uuid) : List Uuid :=
  (s.subscription.filter fun row => row.1 = sub).map (·.2)

def Subscriptions.Follows (s : Subscriptions) (sub connection : Uuid) : Prop :=
  (sub, connection) ∈ s.subscription ∨ (connection, some sub) ∈ s.connection

variable {s s' : Content} {act : ContentAction}
  {ts pre : List (Run.Transition Content ContentAction)} {key : GroupKey} {e : Event}

/-! ## Deliveries -/

def OpenIngest.Names (tx : OpenIngest) (e : Event) : Prop :=
  e.fingerprint = tx.event.fingerprint ∧ e.key.scope = tx.event.key.scope

instance (tx : OpenIngest) (e : Event) : Decidable (tx.Names e) :=
  inferInstanceAs (Decidable (_ ∧ _))

/-- The step commits what a connection delivered, an event of this identity. -/
def DeliversEvent (e : Event) (t : Run.Transition Content ContentAction) : Prop :=
  ∃ tx, t.action = .commitIngest tx ∧ tx.Names e

def deliveredBy (t : Run.Transition Content ContentAction) : Option Uuid :=
  match t.action with
  | .commitIngest tx => tx.event.connectionId
  | _ => none

structure EventOrigin where
  fingerprint : List UInt8
  scope : Scope
  connectionId : Option Uuid
deriving DecidableEq

def Event.origin (e : Event) : EventOrigin := ⟨e.fingerprint, e.key.scope, e.connectionId⟩

def Content.origins (s : Content) : List EventOrigin := s.event.map Event.origin

theorem Ingested.origins (h : Ingested s act s') :
    (s'.origins = s.origins ∧ ∀ tx, ¬ Inserts s act tx) ∨
      ∃ tx, Inserts s act tx ∧ s'.origins = s.origins ++ [tx.row.origin] :=
  h.columns Event.origin (fun _ _ _ _ => rfl) (fun _ _ => rfl) fun _ _ => rfl

theorem Ingested.origin_kept (h : Ingested s act s') {x : EventOrigin} (hx : x ∈ s.origins) :
    x ∈ s'.origins := by
  rcases h.origins with ⟨hsame, _⟩ | ⟨tx, _, hnew⟩
  · rwa [hsame]
  · rw [hnew]
    exact List.mem_append_left _ hx

theorem ContentRuns.delivered (h : ContentRuns ts s) {t : Run.Transition Content ContentAction}
    (ht : t ∈ ts) {tx : OpenIngest} (hact : t.action = .commitIngest tx) :
    ∃ e ∈ s.event, tx.Names e := by
  have hafter : ∃ x ∈ t.after.origins, x.fingerprint = tx.event.fingerprint ∧
      x.scope = tx.event.key.scope := by
    have hstep := (h.step_of_mem ht).ingested
    rw [hact] at hstep
    generalize t.after = s' at hstep
    cases hstep with
    | commitIngest tx htx =>
        obtain ⟨e, he, hsame⟩ := @inLog_insertEvent tx.started tx.id tx.event t.before.event
        exact ⟨e.origin, List.mem_map_of_mem he, hsame⟩
  obtain ⟨x, hx, hsame⟩ := hafter
  have hend : x ∈ s.origins := Run.Runs.kept_of_mem h (Q := fun s => x ∈ s.origins)
    (fun u hu hin => (h.step_of_mem hu).ingested.origin_kept hin) ht hx
  obtain ⟨e, he, rfl⟩ := List.mem_map.mp hend
  exact ⟨e, he, hsame⟩

theorem ContentRuns.first_delivery (h : ContentRuns ts s) : ∀ x ∈ s.origins, ∀ e : Event,
    e.origin = x → ∃ t, FirstOf (DeliversEvent e) ts t ∧ deliveredBy t = e.connectionId := by
  refine Run.Runs.invariant h (fun ts s => ∀ x ∈ s.origins, ∀ e : Event, e.origin = x →
    ∃ t, FirstOf (DeliversEvent e) ts t ∧ deliveredBy t = e.connectionId) ?_ ?_
  · intro x hx
    cases hx
  · intro pre t post _ hpre hstep hI x hx e he
    have hold : x ∈ t.before.origins →
        ∃ u, FirstOf (DeliversEvent e) (pre ++ [t]) u ∧ deliveredBy u = e.connectionId := by
      intro hin
      obtain ⟨u, hfirst, hconnection⟩ := hI x hin e he
      exact ⟨u, hfirst.append [t], hconnection⟩
    rcases hstep.ingested.origins with ⟨hsame, _⟩ | ⟨tx, ⟨hact, _, hnew⟩, happend⟩
    · exact hold (hsame ▸ hx)
    · rw [happend] at hx
      rcases List.mem_append.mp hx with hin | hlast
      · exact hold hin
      · obtain rfl := List.mem_singleton.mp hlast
        obtain ⟨hfp, hscope, hconnection⟩ := EventOrigin.mk.inj he
        refine ⟨t, firstOf_snoc_self ⟨tx, hact, hfp, hscope⟩ ?_, ?_⟩
        · -- an earlier delivery would have its row in the log
          intro u hu hdelivers
          obtain ⟨tx', hact', hfp', hscope'⟩ := hdelivers
          obtain ⟨e', he', hfp'', hscope''⟩ := ContentRuns.delivered hpre hu hact'
          refine hnew e' he' ⟨?_, ?_⟩
          · exact hfp''.trans (hfp'.symm.trans hfp)
          · exact hscope''.trans (hscope'.symm.trans hscope)
        · rw [hconnection, deliveredBy, hact]
          rfl

/-! ## What builds read -/

theorem listGroupEvents_pairwise (log : List Event) (key : GroupKey) :
    (listGroupEvents log key).Pairwise fun x y => x.eventTime ≤ y.eventTime := by
  have hsorted := List.pairwise_insertionSort (fun x y : Event => eventLe x y = true)
    (log.filter fun e => e.key = key)
  refine hsorted.imp ?_
  intro x y hle
  rcases eventLe_iff.mp hle with hlt | ⟨heq, _⟩
  · exact le_of_lt hlt
  · exact le_of_eq heq

theorem foldl_latest_sorted {events : List Event} {head : Event}
    (hhead : ∀ e ∈ events, head.eventTime ≤ e.eventTime)
    (hsorted : events.Pairwise fun x y => x.eventTime ≤ y.eventTime) :
    events.foldl latest head = events.getLast?.getD head := by
  induction events generalizing head with
  | nil => rfl
  | cons e events ih =>
      obtain ⟨he, hrest⟩ := List.pairwise_cons.mp hsorted
      have hlatest : latest head e = e := if_pos (hhead e List.mem_cons_self)
      rw [List.foldl_cons, hlatest, ih he hrest]
      cases events with
      | nil => rfl
      | cons _ _ =>
          rw [List.getLast?_cons_cons, List.getLast?_eq_getLast_of_ne_nil (List.cons_ne_nil _ _)]
          rfl

theorem rollup_connectionId {events : List Event} {r : ClusterRollup}
    (hsorted : events.Pairwise fun x y => x.eventTime ≤ y.eventTime) (h : rollup events = some r) :
    r.connectionId = events.getLast?.bind (·.connectionId) := by
  unfold rollup at h
  obtain ⟨head, hhead, rfl⟩ := Option.map_eq_some_iff.mp h
  have hmem : head ∈ events := List.mem_of_mem_head? hhead
  obtain ⟨rest, rfl⟩ : ∃ rest, events = head :: rest := by
    cases events with
    | nil => cases hhead
    | cons e rest =>
        obtain rfl := Option.some.inj hhead
        exact ⟨rest, rfl⟩
  have hle : ∀ e ∈ head :: rest, head.eventTime ≤ e.eventTime := by
    intro e he
    rcases List.mem_cons.mp he with rfl | hin
    · exact le_refl _
    · exact (List.pairwise_cons.mp hsorted).1 e hin
  rw [rollupPass_foldl, foldl_latest_sorted hle hsorted]
  cases hlast : (head :: rest).getLast? with
  | none => simp at hlast
  | some e => rfl

/-- What a build holds is in order, and its origins are in the log. -/
def Content.Sourced (s : Content) : Prop :=
  ∀ scope b key events, s.build scope = some b → b.holds key = some events →
    events.Pairwise (fun x y => x.eventTime ≤ y.eventTime) ∧ ∀ e ∈ events, e.origin ∈ s.origins

theorem Ingested.sourced (h : Ingested s act s') (hs : ContentPlaced s) (hsourced : s.Sourced) :
    s'.Sourced := by
  intro scope b' key events hb' hheld
  have hold : ∀ b, s.build scope = some b → b.holds key = some events →
      events.Pairwise (fun x y => x.eventTime ≤ y.eventTime) ∧
          ∀ e ∈ events, e.origin ∈ s'.origins := by
    intro b hb hheld
    obtain ⟨hsorted, horigins⟩ := hsourced scope b key events hb hheld
    exact ⟨hsorted, fun e he => h.origin_kept (horigins e he)⟩
  cases h.build scope with
  | same hbuild _ _ _ => exact hold b' (hbuild.symm.trans hb') hheld
  | begun started enrichGrace _ hbuild _ _ _ _ =>
      obtain rfl := Option.some.inj (hbuild.symm.trans hb')
      cases hheld
  | listed b hb _ hbuild _ _ _ _ =>
      obtain rfl := Option.some.inj (hbuild.symm.trans hb')
      exact hold b hb hheld
  | read k b left hb _ hreading _ hbuild _ _ _ _ =>
      obtain rfl := Option.some.inj (hbuild.symm.trans hb')
      rw [Build.holds_read hreading] at hheld
      by_cases hkey : k = key
      · rw [if_pos hkey] at hheld
        obtain rfl := Option.some.inj hheld
        refine ⟨listGroupEvents_pairwise _ _, ?_⟩
        intro e he
        exact h.origin_kept (List.mem_map_of_mem (mem_listGroupEvents.mp he).1)
      · rw [if_neg hkey] at hheld
        exact hold b hb hheld
  | upserted k b L hb hreading hbuild _ _ _ _ =>
      obtain rfl := Option.some.inj (hbuild.symm.trans hb')
      rw [Build.holds_upsert hreading ((hs.build hb).reading_ne hreading)] at hheld
      exact hold b hb hheld
  | committed _ _ _ _ _ hbuild _ _ _ => cases hbuild.symm.trans hb'
  | rolledBack _ _ hbuild _ _ _ _ => cases hbuild.symm.trans hb'

theorem ContentRuns.sourced (h : ContentRuns ts s) : s.Sourced := by
  refine Run.Runs.invariant h (fun _ s => s.Sourced) ?_ ?_
  · intro scope b key events hb
    cases hb
  · intro pre t post _ hpre hstep hI
    exact hstep.ingested.sourced (ContentRuns.placed hpre) hI

/-- Where the connection of a cluster comes from: the first delivery of the last event that the
cluster was last written from. -/
structure ClusterOrigin (ts : List (Run.Transition Content ContentAction)) (key : GroupKey)
    (t : Run.Transition Content ContentAction) : Prop where
  spec : ∃ w events e, LastOf (fun t => ∃ events, WritesCluster t key events) ts w ∧
    WritesCluster w key events ∧ events.getLast? = some e ∧ FirstOf (DeliversEvent e) ts t

theorem ClusterOrigin.unique {t u : Run.Transition Content ContentAction}
    (ht : ClusterOrigin ts key t) (hu : ClusterOrigin ts key u) : t = u := by
  obtain ⟨w, events, e, hlast, ⟨b, hcommits, hrows⟩, he, hfirst⟩ := ht.spec
  obtain ⟨w', events', e', hlast', ⟨b', hcommits', hrows'⟩, he', hfirst'⟩ := hu.spec
  obtain rfl := LastOf.unique hlast hlast'
  obtain rfl := Option.some.inj (hcommits.2.symm.trans hcommits'.2)
  obtain rfl := Option.some.inj (hrows.symm.trans hrows')
  obtain rfl := Option.some.inj (he.symm.trans he')
  exact FirstOf.unique hfirst hfirst'

/-- The cluster of an event that a build has read has the connection of its origin. -/
theorem ContentRuns.cluster_origin (h : ContentRuns ts s) {id : Uuid}
    (hcovered : Covered ts key id) :
    ∃ row t, s.cluster key = some row ∧ ClusterOrigin ts key t ∧
      row.rollup.connectionId = deliveredBy t := by
  obtain ⟨x, hx, rfl, rfl⟩ := Covered.logged h hcovered
  obtain ⟨w, events, r, row, hlast, hwrites, hid, hr, hrow, hrollup⟩ :=
    ContentRuns.folded h hcovered
  obtain ⟨pre, post, heq, hpre⟩ := h.before_of_mem hlast.mem
  obtain ⟨b, hcommits, hheld⟩ := hwrites.held (h.step_of_mem hlast.mem)
  obtain ⟨hsorted, horigins⟩ := ContentRuns.sourced hpre _ b _ events hcommits.2 hheld
  have hne : events ≠ [] := by
    rintro rfl
    cases hid
  obtain ⟨e, he⟩ : ∃ e, events.getLast? = some e := ⟨_, List.getLast?_eq_getLast_of_ne_nil hne⟩
  obtain ⟨t, hfirst, hconnection⟩ :=
    ContentRuns.first_delivery hpre _ (horigins e (List.mem_of_getLast? he)) e rfl
  refine ⟨row, t, hrow, ⟨w, events, e, hlast, hwrites, he, ?_⟩, ?_⟩
  · rw [heq]
    exact hfirst.append _
  · rw [hrollup, hconnection]
    show r.connectionId = _
    rw [rollup_connectionId hsorted hr, he]
    rfl

/-! ## What a reader is shown -/

/-- The cluster table as a read sees it. -/
def Content.table (s : Content) (summary : GroupKey → ClusterSummary) : SummarizedTable :=
  Tenants.table { content := s, summary := summary }

/-- A scheduled read of a subscriber. -/
def Subscriptions.read (subs : Subscriptions) (sub : Uuid) (lastRun : Option DateTime)
    (horizonDays : Int) : CandidateRead where
  subscriber := sub
  subscribed := subs.subscribed sub
  lastRun := lastRun
  horizonDays := horizonDays
  requireSummary := true

section Reads

variable (ts : List (Run.Transition Content ContentAction)) (s : Content)
  (summary : GroupKey → ClusterSummary) (subs : Subscriptions) (sub : Uuid)
  (lastRun : Option DateTime) (horizonDays : Int)

/-- A public event that a connection the reader follows has delivered. A build has read it, and its
cluster has a summary that passed the gate and is within the floor. -/
structure DueItem (e : Event) : Prop where
  stored : e ∈ s.event
  isPublic : e.key.scope = .ofPublic
  followed : ∃ t ∈ ts, DeliversEvent e t ∧ ∃ c, deliveredBy t = some c ∧ subs.Follows sub c
  built : Covered ts e.key e.id
  shown : ∃ row, (s.table summary).lookup e.key = some row ∧ row.gatePassed = true ∧
    (subs.read sub lastRun horizonDays).floor s.now ≤ row.updatedAt

/-- The connection that the cluster has is none, or one the reader is subscribed to. -/
def OriginSubscribed (key : GroupKey) : Prop :=
  ∃ t, ClusterOrigin ts key t ∧ ∀ c, deliveredBy t = some c → (sub, c) ∈ subs.subscription

/-- The cluster shares a strong key with a recent cluster of the reader's own. -/
def SharesStrongKey (key : GroupKey) : Prop :=
  ∃ row, (s.table summary).lookup key = some row ∧ row.rollup.entities.any
    (· ∈ (subs.read sub lastRun horizonDays).privateStrong s.now (s.table summary)) = true

end Reads

section Shown

variable {summary : GroupKey → ClusterSummary} {subs : Subscriptions} {sub : Uuid}
  {lastRun : Option DateTime} {horizonDays : Int}

theorem mem_subscribed {c : Uuid} : c ∈ subs.subscribed sub ↔ (sub, c) ∈ subs.subscription := by
  simp [Subscriptions.subscribed]

theorem lookup_table {row : SummarizedCluster} (he : e ∈ s.event) :
    (s.table summary).lookup e.key = some row ↔
      ∃ cached, s.cluster e.key = some cached ∧ row = { cached with summary := summary e.key } := by
  rw [← Option.mem_def, AList.mem_lookup_iff]
  show _ ∈ clusterEntries s.event s.cluster summary ↔ _
  rw [mem_clusterEntries, and_iff_right ⟨e, he, rfl⟩]

/-- A due item is shown exactly for the origin of its cluster, or for a strong key. -/
theorem DueItem.shown_iff (h : ContentRuns ts s)
    (hdue : DueItem ts s summary subs sub lastRun horizonDays e) :
    e.key ∈ (subs.read sub lastRun horizonDays).candidateClusters s.now (s.table summary) ↔
      OriginSubscribed ts subs sub e.key ∨
        SharesStrongKey s summary subs sub lastRun horizonDays e.key := by
  obtain ⟨row, hrow, hgate, hfloor⟩ := hdue.shown
  obtain ⟨cached, hcached, rfl⟩ := (lookup_table hdue.stored).mp hrow
  obtain ⟨cached', t, hcached', horigin, hconnection⟩ := h.cluster_origin hdue.built
  obtain rfl := Option.some.inj (hcached.symm.trans hcached')
  have hscope : (subs.read sub lastRun horizonDays).inScope e.key
      { cached with summary := summary e.key } = true ↔ OriginSubscribed ts subs sub e.key := by
    have hall : (subs.read sub lastRun horizonDays).inScope e.key
        { cached with summary := summary e.key } = true ↔
          ∀ c, deliveredBy t = some c → (sub, c) ∈ subs.subscription := by
      unfold CandidateRead.inScope
      rw [hdue.isPublic]
      dsimp only
      rw [hconnection, Option.all_eq_true]
      exact forall₂_congr fun c _ => decide_eq_true_iff.trans mem_subscribed
    rw [hall]
    constructor
    · intro hc
      exact ⟨t, horigin, hc⟩
    · intro hc
      obtain ⟨u, hu, hc⟩ := hc
      obtain rfl := ClusterOrigin.unique horigin hu
      exact hc
  have hpasses : (subs.read sub lastRun horizonDays).passesGate
      { cached with summary := summary e.key } = true := by
    simp [CandidateRead.passesGate, hgate]
  rw [CandidateRead.mem_candidateClusters, ← hscope]
  constructor
  · intro hshown
    obtain ⟨row', hrow', _, hwhy⟩ := hshown
    obtain rfl := Option.some.inj (hrow.symm.trans hrow')
    rcases hwhy with ⟨hin, _⟩ | ⟨_, hstrong⟩
    · exact Or.inl hin
    · exact Or.inr ⟨_, hrow, hstrong⟩
  · intro hwhy
    refine ⟨_, hrow, hpasses, ?_⟩
    rcases hwhy with hin | ⟨row', hrow', hstrong⟩
    · exact Or.inl ⟨hin, hfloor⟩
    · obtain rfl := Option.some.inj (hrow.symm.trans hrow')
      exact Or.inr ⟨hdue.isPublic, hstrong⟩

/-- Whatever is delivered is stored. A read shows every due item exactly when each of their clusters
has its connection from a source the reader is subscribed to, or from none, or shares a strong key
with a cluster of the reader's own. -/
theorem followed_items_shown_iff (h : ContentRuns ts s) (history : List SubscriptionAction)
    (summary : GroupKey → ClusterSummary) (sub : Uuid) (lastRun : Option DateTime)
    (horizonDays : Int) :
    let subs := Subscriptions.after history
    (∀ t ∈ ts, ∀ tx, t.action = .commitIngest tx → ∃ e ∈ s.event, tx.Names e) ∧
    ((∀ e, DueItem ts s summary subs sub lastRun horizonDays e →
      e.key ∈ (subs.read sub lastRun horizonDays).candidateClusters s.now (s.table summary)) ↔
    ∀ e, DueItem ts s summary subs sub lastRun horizonDays e →
      OriginSubscribed ts subs sub e.key ∨
        SharesStrongKey s summary subs sub lastRun horizonDays e.key) :=
  ⟨fun _ ht _ hact => ContentRuns.delivered h ht hact,
    forall₂_congr fun _ hdue => hdue.shown_iff h⟩

end Shown

/-! ## One entry in two feeds -/

theorem deliversEvent_of {t : Run.Transition Content ContentAction}
    (h : (match t.action with
      | .commitIngest tx => decide (tx.Names e)
      | _ => false) = true) : DeliversEvent e t := by
  split at h
  · next tx hact => exact ⟨tx, hact, of_decide_eq_true h⟩
  · cases h

theorem covered_of {id : Uuid} (h : (ts.any fun t => match t.action with
      | .commitBuild scope => decide (scope = key.scope) &&
          ((t.before.build scope).bind (·.rows key)).any fun events => id ∈ events.map (·.id)
      | _ => false) = true) : Covered ts key id := by
  obtain ⟨t, ht, hone⟩ := List.any_eq_true.mp h
  split at hone
  · next scope hact =>
      obtain ⟨hscope, hrows⟩ := Bool.and_eq_true_iff.mp hone
      obtain rfl := of_decide_eq_true hscope
      obtain ⟨events, hevents, hid⟩ := (Option.any_eq_true _ _).mp hrows
      obtain ⟨b, hb, hrow⟩ := Option.bind_eq_some_iff.mp hevents
      exact ⟨t, ht, events, ⟨b, ⟨hact, hb⟩, hrow⟩, of_decide_eq_true hid⟩
  · cases hone

def entryFrom (connection : Uuid) : NewEvent :=
  { feedEntry 1 with connectionId := some connection }

def sharedEntry : Event :=
  { entryFrom 1 with id := 1, ingestTime := 1 }

def sharedScript : List ContentAction :=
  [.beginIngest 1 (entryFrom 1), .commitIngest ⟨1, 1, entryFrom 1⟩, .beginIngest 2 (entryFrom 2),
    .commitIngest ⟨2, 1, entryFrom 2⟩] ++ wholeBuild 1 0

def sharedRun : List (Run.Transition Content ContentAction) :=
  Run.transitions Content.play {} sharedScript

def sharedSummary (_ : GroupKey) : ClusterSummary := { headline := "Entry", band := .confirmed }

/-- Subscriber 7 subscribes to one of the two. -/
def subscribedTo (connection : Uuid) : List SubscriptionAction :=
  [.insertConnection 1 none, .insertConnection 2 none, .subscribe 7 connection]

theorem shared_ends {p : Content → Bool}
    (h : (Run.execute Content.play {} sharedScript).any p = true) :
    ∃ s, ContentRuns sharedRun s ∧ p s = true := Content.play_ends h

theorem sharedEntry_due {s : Content} {connection : Uuid} (hconnection : connection ∈ [1, 2])
    (hevent : s.event = [sharedEntry]) (hnow : s.now = 1)
    (hrow : (s.cluster entryKey).map (·.updatedAt) = some 1) :
    DueItem sharedRun s sharedSummary (.after (subscribedTo connection)) 7 none 30 sharedEntry where
  stored := by simp [hevent]
  isPublic := rfl
  followed := by
    have hdelivers : ∀ c ∈ [1, 2], ∃ t ∈ sharedRun, DeliversEvent sharedEntry t ∧
        deliveredBy t = some c := by
      have hall : ∀ c ∈ [1, 2], ∃ t ∈ sharedRun, (match t.action with
          | .commitIngest tx => decide (tx.Names sharedEntry)
          | _ => false) = true ∧ deliveredBy t = some c := by
        decide +kernel
      intro c hc
      obtain ⟨t, ht, hone, hby⟩ := hall c hc
      exact ⟨t, ht, deliversEvent_of hone, hby⟩
    obtain ⟨t, ht, hone, hby⟩ := hdelivers connection hconnection
    refine ⟨t, ht, hone, connection, hby, Or.inl ?_⟩
    simp [Subscriptions.after, subscribedTo, Subscriptions.apply]
  built := covered_of (by decide +kernel)
  shown := by
    obtain ⟨cached, hcached, hupdated⟩ := Option.map_eq_some_iff.mp hrow
    refine ⟨_, (lookup_table (by simp [hevent])).mpr ⟨cached, hcached, rfl⟩, rfl, ?_⟩
    show candidateFloor s.now none 30 ≤ cached.updatedAt
    rw [hupdated, hnow]
    decide +kernel

theorem followed_items_shown_iff_first : ∃ s, ContentRuns sharedRun s ∧
    (∃ e, DueItem sharedRun s sharedSummary (.after (subscribedTo 1)) 7 none 30 e) ∧
    ∀ e, DueItem sharedRun s sharedSummary (.after (subscribedTo 1)) 7 none 30 e →
      e.key ∈ ((Subscriptions.after (subscribedTo 1)).read 7 none 30).candidateClusters s.now
        (s.table sharedSummary) := by
  obtain ⟨s, hrun, hends⟩ := @shared_ends (fun s => decide (s.event = [sharedEntry] ∧ s.now = 1 ∧
    (s.cluster entryKey).map (·.updatedAt) = some 1 ∧
      (s.cluster entryKey).map (·.rollup.connectionId) = some (some 1))) (by decide +kernel)
  obtain ⟨hevent, hnow, hrow, hconnection⟩ := of_decide_eq_true hends
  refine ⟨s, hrun, ⟨sharedEntry, sharedEntry_due (by decide) hevent hnow hrow⟩, ?_⟩
  refine (followed_items_shown_iff hrun (subscribedTo 1) sharedSummary 7 none 30).2.mpr ?_
  intro e hdue
  obtain ⟨row, t, hcluster, horigin, hby⟩ := hrun.cluster_origin hdue.built
  have hkey : e.key = entryKey := by
    have hstored := hdue.stored
    rw [hevent] at hstored
    rw [List.mem_singleton.mp hstored]
    rfl
  rw [hkey] at hcluster
  rw [hcluster, Option.map_some, hby] at hconnection
  refine Or.inl ⟨t, horigin, ?_⟩
  intro c hc
  obtain rfl : 1 = c := Option.some.inj ((Option.some.inj hconnection).symm.trans hc)
  decide

/-- The reader of connection 2 is not shown what connection 2 delivered, since connection 1 had
delivered it before. -/
theorem second_source_hidden : ∃ s, ContentRuns sharedRun s ∧
    DueItem sharedRun s sharedSummary (.after (subscribedTo 2)) 7 none 30 sharedEntry ∧
    ((Subscriptions.after (subscribedTo 2)).read 7 none 30).candidateClusters s.now
      (s.table sharedSummary) = [] := by
  obtain ⟨s, hrun, hends⟩ := @shared_ends (fun s => decide (s.event = [sharedEntry] ∧ s.now = 1 ∧
    (s.cluster entryKey).map (·.updatedAt) = some 1 ∧
      ((Subscriptions.after (subscribedTo 2)).read 7 none 30).candidateClusters s.now
        (s.table sharedSummary) = [])) (by decide +kernel)
  obtain ⟨hevent, hnow, hrow, hread⟩ := of_decide_eq_true hends
  exact ⟨s, hrun, sharedEntry_due (by decide) hevent hnow hrow, hread⟩

end Bulletin
