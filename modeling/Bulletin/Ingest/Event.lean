import Mathlib.Data.Finset.Sort
import Mathlib.Data.String.Basic
import Bulletin.Cluster.Model

/-! # The event log

Events are appended once per identity and never removed. Enrichment and the article
fetch write some of their columns later; what ties an event to its group, its times and
its place in the log stay.
-/

namespace Bulletin

/-! ## Sources -/

/-- Whether an event of the source links to an article apart from its body. -/
def SourceKind.hasFetchableArticle : SourceKind → Bool
  | rss => true
  | github | slack => false

def SourceKind.benefitsFromEnrichment : SourceKind → Bool
  | rss => true
  | github | slack => false

/-! ## Rows -/

structure NewEvent where
  fingerprint : List UInt8
  key : GroupKey
  eventTime : DateTime
  title : String
  body : Option String := none
  links : List String := []
  contentKind : ContentKind := .longform
  entities : List String := []
  severityHint : Option Int := none
  connectionId : Option Uuid := none
deriving DecidableEq, Repr

structure Event extends NewEvent where
  id : Uuid
  ingestTime : DateTime
  fullText : Option String := none
  fullTextAttempts : Int := 0
  enrichedAt : Option DateTime := none
deriving DecidableEq, Repr

/-- The fetched article if it is not blank, else the connector's snippet. -/
def Event.bestText (e : Event) : Option String :=
  match e.fullText with
  | some t => if trim t != "" then some t else e.body
  | none => e.body

def sortDedup (tokens : List String) : List String := tokens.toFinset.sort (· ≤ ·)

theorem sortDedup_congr {l l' : List String} (h : ∀ t, t ∈ l ↔ t ∈ l') :
    sortDedup l = sortDedup l' := by
  unfold sortDedup
  congr 1
  ext t
  rw [List.mem_toFinset, List.mem_toFinset]
  exact h t

@[simp] theorem mem_sortDedup {l : List String} {t : String} : t ∈ sortDedup l ↔ t ∈ l := by
  unfold sortDedup
  rw [Finset.mem_sort, List.mem_toFinset]

theorem sortDedup_pairwise (l : List String) : (sortDedup l).Pairwise (· < ·) :=
  (Finset.sortedLT_sort _).pairwise

def utf8 (s : String) : List UInt8 := s.toUTF8.data.toList

theorem utf8_injective : Function.Injective utf8 := by
  intro a b h
  exact String.toByteArray_inj.mp (ByteArray.ext (Array.toList_inj.mp h))

/-! ## Writes -/

/-- Append an event unless its identity within its scope is there already. -/
def insertEvent (now : DateTime) (id : Uuid) (ev : NewEvent) (log : List Event) : List Event :=
  if log.any fun e => e.fingerprint = ev.fingerprint ∧ e.key.scope = ev.key.scope then log
  else log ++ [{ ev with
    id := id
    ingestTime := now
    -- a source the sweep never reads has nothing pending
    enrichedAt := if ev.key.source.benefitsFromEnrichment then none else some now }]

def updateEvent (id : Uuid) (f : Event → Event) (log : List Event) : List Event :=
  log.map fun e => if e.id = id then f e else e

/-- The grounded tokens are added, and the hint is raised but never lowered. -/
def applyEnrichment (now : DateTime) (newEntities : List String) (salience : Int)
    (e : Event) : Event :=
  { e with
    entities := sortDedup (e.entities ++ newEntities)
    severityHint := if 0 < salience then some (max (e.severityHint.getD 0) salience)
      else e.severityHint
    enrichedAt := some now }

def longformMinChars : Nat := 400

def maxFetchAttempts : Int := 3

def setFullText (text : String) (e : Event) : Event :=
  { e with
    fullText := some text
    fullTextAttempts := e.fullTextAttempts + 1
    contentKind := if longformMinChars ≤ text.length then .longform else e.contentKind }

theorem setFullText_long {text : String} (h : longformMinChars ≤ text.length) :
    setFullText text = fun e => { e with
      fullText := some text
      fullTextAttempts := e.fullTextAttempts + 1
      contentKind := .longform } := by
  funext e
  rw [setFullText, if_pos h]

def recordFetchFailure (permanent : Bool) (e : Event) : Event :=
  { e with fullTextAttempts := if permanent then maxFetchAttempts else e.fullTextAttempts + 1 }

/-! ## Reads -/

def eventLe (x y : Event) : Bool :=
  x.eventTime < y.eventTime || (x.eventTime == y.eventTime && x.id ≤ y.id)

theorem eventLe_iff {x y : Event} : eventLe x y = true ↔
    x.eventTime < y.eventTime ∨ x.eventTime = y.eventTime ∧ x.id ≤ y.id := by
  simp [eventLe]

instance eventLe_total : Std.Total fun x y : Event => eventLe x y = true where
  total x y := by
    rw [eventLe_iff, eventLe_iff]
    rcases lt_trichotomy x.eventTime y.eventTime with hlt | heq | hlt
    · exact Or.inl (Or.inl hlt)
    · rcases Nat.le_total x.id y.id with hid | hid
      · exact Or.inl (Or.inr ⟨heq, hid⟩)
      · exact Or.inr (Or.inr ⟨heq.symm, hid⟩)
    · exact Or.inr (Or.inl hlt)

instance eventLe_trans : IsTrans Event fun x y => eventLe x y = true where
  trans x y z := by
    rw [eventLe_iff, eventLe_iff, eventLe_iff]
    intro hxy hyz
    rcases hxy with hlt | ⟨heq, hid⟩
    · rcases hyz with hlt' | ⟨heq', _⟩
      · exact Or.inl (lt_trans hlt hlt')
      · exact Or.inl (heq' ▸ hlt)
    · rcases hyz with hlt' | ⟨heq', hid'⟩
      · exact Or.inl (heq ▸ hlt')
      · exact Or.inr ⟨heq.trans heq', Nat.le_trans hid hid'⟩

theorem eventLe_antisymm {x y : Event} (hxy : eventLe x y = true) (hyx : eventLe y x = true) :
    x.id = y.id := by
  rcases eventLe_iff.mp hxy with hlt | ⟨heq, hid⟩
  · rcases eventLe_iff.mp hyx with hlt' | ⟨heq', _⟩
    · exact absurd hlt' (lt_asymm hlt)
    · exact absurd heq'.symm (ne_of_lt hlt)
  · rcases eventLe_iff.mp hyx with hlt' | ⟨_, hid'⟩
    · exact absurd heq.symm (ne_of_lt hlt')
    · exact Nat.le_antisymm hid hid'

/-- The events of one group, in order. -/
def listGroupEvents (log : List Event) (key : GroupKey) : List Event :=
  (log.filter fun e => e.key = key).insertionSort fun x y => eventLe x y

/-- The groups of a scope with an event ingested in `(lo, hi]`. -/
def dirtyGroups (log : List Event) (scope : Scope) (lo hi : DateTime) : List GroupKey :=
  ((log.filter fun e => e.key.scope = scope ∧ lo < e.ingestTime ∧
    e.ingestTime ≤ hi).map (·.key)).dedup

/-- Public events not enriched and not built yet, oldest first. -/
def pendingPublicEvents (log : List Event) (builtThrough : DateTime) (limit : Nat) : List Event :=
  ((log.filter fun e => e.key.scope = .ofPublic ∧ e.enrichedAt = none ∧
    e.key.source.benefitsFromEnrichment ∧ builtThrough < e.ingestTime).insertionSort
      fun x y => x.ingestTime ≤ y.ingestTime).take limit

/-- Public events with a link whose article is still wanted, newest first. -/
def dueEventsForFetch (log : List Event) (limit : Nat) : List Event :=
  ((log.filter fun e => e.key.scope = .ofPublic ∧ e.fullText = none ∧
    e.fullTextAttempts < maxFetchAttempts ∧
    e.key.source.hasFetchableArticle ∧ e.links ≠ []).insertionSort
      fun x y => y.ingestTime ≤ x.ingestTime).take limit

section Reads

variable {log : List Event} {key : GroupKey} {e : Event} {f : Event → Event} {id : Uuid}

theorem mem_listGroupEvents : e ∈ listGroupEvents log key ↔ e ∈ log ∧ e.key = key := by
  unfold listGroupEvents
  rw [List.mem_insertionSort, List.mem_filter, decide_eq_true_eq]

theorem mem_pendingPublicEvents {builtThrough : DateTime} {limit : Nat}
    (h : e ∈ pendingPublicEvents log builtThrough limit) : e ∈ log ∧ e.key.scope = .ofPublic ∧
      e.enrichedAt = none ∧ e.key.source.benefitsFromEnrichment ∧ builtThrough < e.ingestTime := by
  have hin := List.mem_of_mem_take h
  rw [List.mem_insertionSort, List.mem_filter] at hin
  exact ⟨hin.1, of_decide_eq_true hin.2⟩

theorem mem_dueEventsForFetch {limit : Nat} (h : e ∈ dueEventsForFetch log limit) :
    e ∈ log ∧ e.key.scope = .ofPublic ∧ e.fullText = none ∧
      e.fullTextAttempts < maxFetchAttempts ∧ e.key.source.hasFetchableArticle ∧ e.links ≠ [] := by
  have hin := List.mem_of_mem_take h
  rw [List.mem_insertionSort, List.mem_filter] at hin
  exact ⟨hin.1, of_decide_eq_true hin.2⟩

theorem mem_dirtyGroups {scope : Scope} {lo hi : DateTime} : key ∈ dirtyGroups log scope lo hi ↔
    ∃ e ∈ log, e.key = key ∧ key.scope = scope ∧ lo < e.ingestTime ∧ e.ingestTime ≤ hi := by
  unfold dirtyGroups
  rw [List.mem_dedup, List.mem_map]
  constructor
  · intro h
    obtain ⟨e, he, rfl⟩ := h
    obtain ⟨hmem, hin⟩ := List.mem_filter.mp he
    exact ⟨e, hmem, rfl, of_decide_eq_true hin⟩
  · intro h
    obtain ⟨e, he, rfl, hin⟩ := h
    exact ⟨e, List.mem_filter.mpr ⟨he, decide_eq_true hin⟩, rfl⟩

theorem listGroupEvents_eq_nil : listGroupEvents log key = [] ↔ ∀ e ∈ log, e.key ≠ key := by
  rw [List.eq_nil_iff_forall_not_mem]
  constructor
  · intro h e he hkey
    exact h e (mem_listGroupEvents.mpr ⟨he, hkey⟩)
  · intro h e he
    obtain ⟨hmem, hkey⟩ := mem_listGroupEvents.mp he
    exact h e hmem hkey

/-- A write that leaves the order columns alone keeps the events of a group in place. -/
theorem listGroupEvents_map {g : Event → Event} (hkey : ∀ e, (g e).key = e.key)
    (htime : ∀ e, (g e).eventTime = e.eventTime) (hid : ∀ e, (g e).id = e.id) :
    listGroupEvents (log.map g) key = (listGroupEvents log key).map g := by
  have hle : ∀ x ∈ log.filter (fun e => e.key = key), ∀ y ∈ log.filter (fun e => e.key = key),
      eventLe x y = true ↔ eventLe (g x) (g y) = true := by
    intro x _ y _
    unfold eventLe
    rw [htime, htime, hid, hid]
  unfold listGroupEvents
  rw [List.map_insertionSort (r := fun x y => eventLe x y = true) (s := fun x y => eventLe x y = true) g _ hle,
    List.filter_map]
  congr 3
  funext e
  simp [hkey]

theorem listGroupEvents_updateEvent (hkey : ∀ e, (f e).key = e.key)
    (htime : ∀ e, (f e).eventTime = e.eventTime) (hid : ∀ e, (f e).id = e.id) :
    listGroupEvents (updateEvent id f log) key = updateEvent id f (listGroupEvents log key) := by
  have hkeep : ∀ {β : Type} (φ : Event → β), (∀ e, φ (f e) = φ e) →
      ∀ e, φ (if e.id = id then f e else e) = φ e := by
    intro β φ hφ e
    split
    · exact hφ e
    · rfl
  exact listGroupEvents_map (hkeep (fun e => e.key) hkey) (hkeep (fun e => e.eventTime) htime)
    (hkeep (fun e => e.id) hid)

theorem updateEvent_of_not_mem {events : List Event} (h : ∀ e ∈ events, e.id ≠ id) :
    updateEvent id f events = events := by
  unfold updateEvent
  conv_rhs => rw [← List.map_id events]
  exact List.map_congr_left fun e he => if_neg (h e he)

theorem length_listGroupEvents_append (h : e.key = key) :
    (listGroupEvents (log ++ [e]) key).length = (listGroupEvents log key).length + 1 := by
  unfold listGroupEvents
  rw [List.length_insertionSort, List.length_insertionSort, List.filter_append,
    List.filter_cons_of_pos (by simp [h]), List.filter_nil, List.length_append,
    List.length_singleton]

theorem listGroupEvents_append_of_ne (h : e.key ≠ key) :
    listGroupEvents (log ++ [e]) key = listGroupEvents log key := by
  unfold listGroupEvents
  rw [List.filter_append, List.filter_cons_of_neg (by simp [h]), List.filter_nil, List.append_nil]

end Reads

end Bulletin
