import Bulletin.Core.Buckets
import Bulletin.Link.Placement
import Bulletin.Summarize.Model

/-! # The story table

A subscriber's stories are a recomputed cache: `loadPriorMembers` reads the live
rows back as the prior assignment, `persistAssignment` upserts the stories of a
recompute and tombstones the ids it merged away.
-/

namespace Bulletin

open Buckets

structure Synthesis where
  summary : ClusterSummary := {}
  summarySig : Option (List UInt8) := none
  summaryModel : Option String := none
  summarizedAt : Option DateTime := none
  summaryAttempts : Int := 0
  summaryLastError : Option String := none
  summaryFailedAt : Option DateTime := none
  summaryQuarantinedAt : Option DateTime := none
deriving DecidableEq, Repr

/-- A row of the `story` table. -/
structure StoryRow where
  subscriberId : Uuid
  mergedInto : Option Uuid
  clusters : List ClusterRef
  firstEventTime : DateTime
  lastEventTime : DateTime
  eventCount : Int
  sourceDiversity : Int
  contentDepth : ContentKind
  maxSeverity : Option Int
  lastDeliveredAt : Option DateTime
  updatedAt : DateTime
  synthesis : Synthesis
deriving DecidableEq, Repr

def StoryRow.members (row : StoryRow) : List Uuid := row.clusters.map (·.clusterId)

def StoryRow.Live (sub : Uuid) (row : StoryRow) : Prop :=
  row.subscriberId = sub ∧ row.mergedInto = none

instance (sub : Uuid) (row : StoryRow) : Decidable (row.Live sub) :=
  inferInstanceAs (Decidable (_ ∧ _))

abbrev StoryTable := Std.ExtTreeMap Uuid StoryRow compare

/-! ## Reading -/

def priorMembers (id : Uuid) (row : StoryRow) : List PriorMember :=
  row.clusters.map fun c => ⟨c.clusterId, id, row.lastDeliveredAt.isSome⟩

/-- The prior assignment of a subscriber: one entry for each member of a live row. -/
def loadPriorMembers (table : StoryTable) (sub : Uuid) : List PriorMember :=
  table.toList.flatMap fun entry =>
    if entry.2.Live sub then priorMembers entry.1 entry.2 else []

/-! ## Writing -/

/-- The columns an upsert rewrites. -/
structure StoryContent where
  clusters : List ClusterRef
  firstEventTime : DateTime
  lastEventTime : DateTime
  eventCount : Int
  sourceDiversity : Int
  contentDepth : ContentKind
  maxSeverity : Option Int
  mergedInto : Option Uuid
deriving DecidableEq, Repr

def StoryRow.content (row : StoryRow) : StoryContent where
  clusters := row.clusters
  firstEventTime := row.firstEventTime
  lastEventTime := row.lastEventTime
  eventCount := row.eventCount
  sourceDiversity := row.sourceDiversity
  contentDepth := row.contentDepth
  maxSeverity := row.maxSeverity
  mergedInto := row.mergedInto

def LinkedStory.content (story : LinkedStory) : StoryContent where
  clusters := story.clusters
  firstEventTime := story.firstEventTime
  lastEventTime := story.lastEventTime
  eventCount := story.eventCount
  sourceDiversity := story.sourceDiversity
  contentDepth := story.contentDepth
  maxSeverity := story.maxSeverity
  mergedInto := none

/-- A row with the columns of an upsert in place; the other columns stay. -/
def StoryRow.withContent (row : StoryRow) (content : StoryContent) : StoryRow :=
  { row with
    clusters := content.clusters
    firstEventTime := content.firstEventTime
    lastEventTime := content.lastEventTime
    eventCount := content.eventCount
    sourceDiversity := content.sourceDiversity
    contentDepth := content.contentDepth
    maxSeverity := content.maxSeverity
    mergedInto := content.mergedInto }

def upsertRow (now : DateTime) (sub : Uuid) (story : LinkedStory) : Option StoryRow → StoryRow
  | none =>
      { subscriberId := sub
        mergedInto := none
        clusters := story.clusters
        firstEventTime := story.firstEventTime
        lastEventTime := story.lastEventTime
        eventCount := story.eventCount
        sourceDiversity := story.sourceDiversity
        contentDepth := story.contentDepth
        maxSeverity := story.maxSeverity
        lastDeliveredAt := none
        updatedAt := now
        synthesis := {} }
  | some row =>
      { row.withContent story.content with
        -- a no-op upsert keeps its timestamp, so the synthesis sweep can come to rest
        updatedAt := if row.content ≠ story.content then now else row.updatedAt }

/-- The row a retro-merge leaves for the id that lost, if it is the subscriber's own. -/
def tombstone (now : DateTime) (sub survivor : Uuid) (row : StoryRow) : StoryRow :=
  if row.subscriberId = sub then
    { row with mergedInto := some survivor, clusters := [], updatedAt := now }
  else row

/-- Upsert the stories of an assignment, then record its merges. -/
def persistAssignment (now : DateTime) (sub : Uuid) (out : Assignment) (table : StoryTable) :
    StoryTable :=
  let upserted := alterAll LinkedStory.id (fun story entry => some (upsertRow now sub story entry))
    out.stories table
  alterAll Merge.loser (fun m entry => entry.map (tombstone now sub m.survivor)) out.merges upserted

/-- The row of a story after a digest with the stories `storyIds` was delivered. -/
def markRow (now : DateTime) (sub : Uuid) (storyIds : List Uuid) (id : Uuid) (row : StoryRow) :
    StoryRow :=
  if id ∈ storyIds ∧ row.subscriberId = sub then { row with lastDeliveredAt := some now } else row

/-- Stamp the subscriber's stories carried by a delivered digest. -/
def markStoriesDelivered (now : DateTime) (sub : Uuid) (storyIds : List Uuid) (table : StoryTable) :
    StoryTable :=
  table.map (markRow now sub storyIds)

/-! ## What the writes do -/

section Writes

variable {now : DateTime} {sub : Uuid} {out : Assignment} {table : StoryTable}

/-- Each row is written by at most one story, and no id is both kept and merged away. -/
structure Assignment.Writable (out : Assignment) : Prop where
  nodup : (out.stories.map (·.id)).Nodup
  apart : ∀ m ∈ out.merges, ∀ story ∈ out.stories, story.id ≠ m.loser

@[simp] theorem tombstone_subscriberId (survivor : Uuid) (row : StoryRow) :
    (tombstone now sub survivor row).subscriberId = row.subscriberId := by
  unfold tombstone
  split <;> rfl

theorem tombstone_tombstone (s t : Uuid) (row : StoryRow) :
    tombstone now sub s (tombstone now sub t row) = tombstone now sub s row := by
  unfold tombstone
  by_cases h : row.subscriberId = sub
  · simp [h]
  · simp [h]

theorem tombstone_of_owner (survivor : Uuid) {row : StoryRow} (h : row.subscriberId = sub) :
    tombstone now sub survivor row =
      { row with mergedInto := some survivor, clusters := [], updatedAt := now } := if_pos h

theorem persist_story (hout : out.Writable) {story : LinkedStory} (hstory : story ∈ out.stories) :
    (persistAssignment now sub out table)[story.id]? =
      some (upsertRow now sub story table[story.id]?) := by
  unfold persistAssignment
  rw [alterAll_untouched fun m hm => (hout.apart m hm story hstory).symm,
    alterAll_of_mem hout.nodup hstory]

theorem persist_other {k : Uuid} (hstory : ∀ story ∈ out.stories, story.id ≠ k)
    (hmerge : ∀ m ∈ out.merges, m.loser ≠ k) :
    (persistAssignment now sub out table)[k]? = table[k]? := by
  unfold persistAssignment
  rw [alterAll_untouched hmerge, alterAll_untouched hstory]

theorem foldl_tombstone (ms : List Merge) (last : Merge) (entry : Option StoryRow) :
    (ms ++ [last]).foldl (fun entry m => entry.map (tombstone now sub m.survivor)) entry =
      entry.map (tombstone now sub last.survivor) := by
  rw [List.foldl_append]
  show Option.map _ _ = _
  induction ms generalizing entry with
  | nil => rfl
  | cons m ms ih =>
      rw [List.foldl_cons, ih]
      cases entry with
      | none => rfl
      | some row => simp [tombstone_tombstone]

theorem persist_loser (hout : out.Writable) {m : Merge} (hm : m ∈ out.merges) :
    ∃ last ∈ out.merges, last.loser = m.loser ∧
      (persistAssignment now sub out table)[m.loser]? =
        table[m.loser]?.map (tombstone now sub last.survivor) := by
  have hmem : m ∈ out.merges.filter fun x => x.loser = m.loser :=
    List.mem_filter.mpr ⟨hm, decide_eq_true rfl⟩
  obtain ⟨ms, last, heq⟩ := List.eq_nil_or_concat'  (out.merges.filter fun x => x.loser = m.loser)
    |>.resolve_left (List.ne_nil_of_mem hmem)
  have hlast : last ∈ out.merges.filter fun x => x.loser = m.loser := by simp [heq]
  obtain ⟨hin, hloser⟩ := List.mem_filter.mp hlast
  refine ⟨last, hin, of_decide_eq_true hloser, ?_⟩
  unfold persistAssignment
  rw [alterAll_getElem?, heq, foldl_tombstone,
    alterAll_untouched fun story hstory => hout.apart m hm story hstory]

@[simp] theorem upsertRow_clusters (story : LinkedStory) (entry : Option StoryRow) :
    (upsertRow now sub story entry).clusters = story.clusters := by
  cases entry with
  | none => rfl
  | some row => rfl

@[simp] theorem upsertRow_mergedInto (story : LinkedStory) (entry : Option StoryRow) :
    (upsertRow now sub story entry).mergedInto = none := by
  cases entry with
  | none => rfl
  | some row => rfl

@[simp] theorem upsertRow_members (story : LinkedStory) (entry : Option StoryRow) :
    (upsertRow now sub story entry).members = story.members := by
  unfold StoryRow.members
  rw [upsertRow_clusters]
  rfl

theorem upsertRow_subscriberId (story : LinkedStory) (entry : Option StoryRow) :
    (upsertRow now sub story entry).subscriberId = (entry.map (·.subscriberId)).getD sub := by
  cases entry with
  | none => rfl
  | some row => rfl

@[simp] theorem upsertRow_lastDeliveredAt (story : LinkedStory) (entry : Option StoryRow) :
    (upsertRow now sub story entry).lastDeliveredAt = entry.bind (·.lastDeliveredAt) := by
  cases entry with
  | none => rfl
  | some row => rfl

@[simp] theorem upsertRow_synthesis (story : LinkedStory) (entry : Option StoryRow) :
    (upsertRow now sub story entry).synthesis = (entry.map (·.synthesis)).getD {} := by
  cases entry with
  | none => rfl
  | some row => rfl

@[simp] theorem markStoriesDelivered_getElem? (ids : List Uuid) (k : Uuid) :
    (markStoriesDelivered now sub ids table)[k]? = table[k]?.map (markRow now sub ids k) := by
  unfold markStoriesDelivered
  rw [Std.ExtTreeMap.getElem?_map]

end Writes

/-! ## Who owns a cluster -/

section Membership

variable {table : StoryTable} {sub s c : Uuid}

/-- Cluster `c` is listed by the subscriber's live story `s`. -/
def Member (table : StoryTable) (sub s c : Uuid) : Prop :=
  ∃ row, table[s]? = some row ∧ row.Live sub ∧ c ∈ row.members

/-- The subscriber's live story `s` carries the delivered flag. -/
def Delivered (table : StoryTable) (sub s : Uuid) : Prop :=
  ∃ row, table[s]? = some row ∧ row.Live sub ∧ row.lastDeliveredAt.isSome = true

theorem member_of_any (h : (table[s]?.any fun row => row.Live sub ∧ c ∈ row.members) = true) :
    Member table sub s c := by
  obtain ⟨row, hrow, hlive, hc⟩ : ∃ row, table[s]? = some row ∧ row.Live sub ∧ c ∈ row.members := by
    simpa [Option.any_eq_true] using h
  exact ⟨row, hrow, hlive, hc⟩

theorem delivered_of_any (h : (table[s]?.any fun row => row.Live sub ∧
    row.lastDeliveredAt.isSome) = true) :
    Delivered table sub s := by
  obtain ⟨row, hrow, hlive, hd⟩ :
      ∃ row, table[s]? = some row ∧ row.Live sub ∧ row.lastDeliveredAt.isSome := by
    simpa [Option.any_eq_true] using h
  exact ⟨row, hrow, hlive, hd⟩

theorem mem_loadPriorMembers {p : PriorMember} :
    p ∈ loadPriorMembers table sub ↔ ∃ row, table[p.storyId]? = some row ∧ row.Live sub ∧
      p.clusterId ∈ row.members ∧ p.delivered = row.lastDeliveredAt.isSome := by
  unfold loadPriorMembers
  rw [List.mem_flatMap]
  constructor
  · intro h
    obtain ⟨⟨id, row⟩, hentry, hp⟩ := h
    by_cases hlive : row.Live sub
    · rw [if_pos hlive] at hp
      obtain ⟨c, hc, rfl⟩ := List.mem_map.mp hp
      exact ⟨row, Std.ExtTreeMap.mem_toList_iff_getElem?_eq_some.mp hentry, hlive,
        List.mem_map_of_mem hc, rfl⟩
    · rw [if_neg hlive] at hp
      cases hp
  · intro h
    obtain ⟨row, hrow, hlive, hc, hd⟩ := h
    obtain ⟨ref, href, hid⟩ := List.mem_map.mp hc
    refine ⟨(p.storyId, row), Std.ExtTreeMap.mem_toList_iff_getElem?_eq_some.mpr hrow, ?_⟩
    rw [if_pos hlive]
    refine List.mem_map.mpr ⟨ref, href, ?_⟩
    cases p
    simp_all

theorem ownedBy_loadPriorMembers :
    OwnedBy (loadPriorMembers table sub) s c ↔ Member table sub s c := by
  constructor
  · intro h
    obtain ⟨p, hp, rfl, rfl⟩ := h
    obtain ⟨row, hrow, hlive, hc, _⟩ := mem_loadPriorMembers.mp hp
    exact ⟨row, hrow, hlive, hc⟩
  · intro h
    obtain ⟨row, hrow, hlive, hc⟩ := h
    exact ⟨⟨c, s, row.lastDeliveredAt.isSome⟩, mem_loadPriorMembers.mpr ⟨row, hrow, hlive, hc, rfl⟩,
      rfl, rfl⟩

theorem deliveredPrior_loadPriorMembers (hc : Member table sub s c) :
    DeliveredPrior (loadPriorMembers table sub) s ↔ Delivered table sub s := by
  obtain ⟨row, hrow, hlive, hc⟩ := hc
  constructor
  · intro h
    obtain ⟨p, hp, hd, rfl⟩ := h
    obtain ⟨row', hrow', hlive', _, hd'⟩ := mem_loadPriorMembers.mp hp
    exact ⟨row', hrow', hlive', hd'.symm.trans hd⟩
  · intro h
    obtain ⟨row', hrow', _, hd⟩ := h
    obtain rfl := Option.some.inj (hrow.symm.trans hrow')
    exact ⟨⟨c, s, _⟩, mem_loadPriorMembers.mpr ⟨row, hrow, hlive, hc, rfl⟩, hd, rfl⟩

/-- A subscriber's live stories split their clusters; a tombstone owns none. -/
structure StoriesApart (table : StoryTable) (sub : Uuid) : Prop where
  unique : ∀ {s t c : Uuid}, Member table sub s c → Member table sub t c → s = t
  nodup : ∀ {s : Uuid} {row : StoryRow}, table[s]? = some row → row.Live sub → row.members.Nodup
  tombstoned : ∀ {s : Uuid} {row : StoryRow}, table[s]? = some row → row.subscriberId = sub →
    row.mergedInto ≠ none → row.clusters = []

theorem StoriesApart.prior_nodup (h : StoriesApart table sub) :
    ((loadPriorMembers table sub).map (·.clusterId)).Nodup := by
  unfold loadPriorMembers
  rw [List.map_flatMap, List.nodup_flatMap]
  have hget : ∀ entry ∈ table.toList, table[entry.1]? = some entry.2 :=
    fun entry hentry => Std.ExtTreeMap.mem_toList_iff_getElem?_eq_some.mp hentry
  have hids : ∀ (id : Uuid) (row : StoryRow),
      (priorMembers id row).map (·.clusterId) = row.members := by
    intro id row
    simp [priorMembers, StoryRow.members]
  constructor
  · intro entry hentry
    by_cases hlive : entry.2.Live sub
    · rw [if_pos hlive, hids]
      exact h.nodup (hget entry hentry) hlive
    · rw [if_neg hlive]
      exact List.nodup_nil
  · have hkeys : table.toList.Pairwise fun a b => a.1 ≠ b.1 := by
      have hdistinct := @Std.ExtTreeMap.distinct_keys_toList _ _ _ table _
      exact hdistinct.imp fun hne heq => hne (by rw [heq]; exact Std.ReflCmp.compare_self)
    refine (List.Pairwise.and_mem.mp hkeys).imp ?_
    intro a b hab c hca hcb
    obtain ⟨ha, hb, hne⟩ := hab
    dsimp only at hca hcb
    by_cases hla : a.2.Live sub
    · by_cases hlb : b.2.Live sub
      · rw [if_pos hla, hids] at hca
        rw [if_pos hlb, hids] at hcb
        exact hne (h.unique ⟨a.2, hget a ha, hla, hca⟩ ⟨b.2, hget b hb, hlb, hcb⟩)
      · rw [if_neg hlb] at hcb
        cases hcb
    · rw [if_neg hla] at hca
      cases hca

end Membership

end Bulletin
