import Bulletin.Core.Run
import Bulletin.Digest.Store
import Bulletin.Link.Recompute
import Bulletin.Summarize.Sweep

/-! # The database and its steps

The tables the digest path shares, and the transactions that move them: recomputes,
digests created and delivered, the reads and writes of synthesis sweeps, ingestion, and the
clock. A run interleaves them in any order, for any number of subscribers and sweeps.

A recompute reads and persists in one step here, so what is proved over these runs is about
recomputes one after another; `System/Flow` splits it.
-/

namespace Bulletin

structure Db where
  now : DateTime := 0
  story : StoryTable := ∅
  digest : DigestTable := ∅
  cluster : ClusterTable := ∅
  event : List EventRow := []
  sweep : Nat → StorySweep := fun _ => {}

/-- A transaction, with everything it read or drew. -/
inductive Action (F : Type) where
  | recompute (r : Recompute F)
  | createDigest (id sub : Uuid) (windowEnd : DateTime) (items : List FrozenItem)
  | markDelivered (id sub : Uuid)
  | loadQueue (sweep : Nat) (sub : Uuid) (model : String) (queue : List DueStory)
  | readMembers (sweep : Nat)
  /-- The sweep records what came of the story it is at. -/
  | record (sweep : Nat) (outcome : SummaryOutcome)
  /-- The sweep passes the story over: its touch failed. -/
  | passOver (sweep : Nat)
  /-- The sweep ends in an error, at its deadline, or with its process. -/
  | abort (sweep : Nat)
  | ingest (cluster : ClusterTable) (event : List EventRow)
  | wait (duration : Nat)

variable {F : Type}

/-- When a transaction can take place. The items of a digest are keyed by story and refer to
stories of its subscriber. -/
def Action.Enabled (db : Db) : Action F → Prop
  | .recompute r => r.Reads db.story
  | .createDigest id sub _ items =>
      id ∉ db.digest ∧ (items.map (·.storyId)).Nodup ∧
        ∀ item ∈ items, (ownStory db.story sub item.storyId).isSome
  | .markDelivered id sub =>
      ∃ row, db.digest[id]? = some row ∧ row.subscriberId = sub ∧ row.deliveredAt = none
  | .loadQueue sweep sub model queue =>
      (db.sweep sweep).due = [] ∧ (queue.map (·.id)).Nodup ∧
        ∀ d ∈ queue, d ∈ storiesNeedingSummary db.story sub model
  | .readMembers sweep => (db.sweep sweep).due ≠ [] ∧ (db.sweep sweep).reading = none
  | .record sweep _ => (db.sweep sweep).due ≠ [] ∧ (db.sweep sweep).reading ≠ none
  | .passOver sweep => (db.sweep sweep).due ≠ []
  | .abort _ => True
  | .ingest _ _ => True
  | .wait _ => True

def Db.withSweep (db : Db) (sweep : Nat) (w : StorySweep) : Db :=
  { db with sweep := Function.update db.sweep sweep w }

section Step

variable [Score F] (sha256 : List UInt8 → List UInt8)

/-- What a transaction leaves behind. -/
def Action.apply (db : Db) : Action F → Db
  | .recompute r => { db with story := r.persist db.now db.story }
  | .createDigest id sub windowEnd items =>
      { db with digest := createWithItems db.digest id sub windowEnd items }
  | .markDelivered id sub =>
      { db with
        digest := db.digest.modify id (DigestRow.deliver db.now)
        story := markStoriesDelivered db.now sub (digestStories db.digest id) db.story }
  | .loadQueue sweep sub model queue =>
      db.withSweep sweep { subscriber := sub, model := model, due := queue }
  | .readMembers sweep => db.withSweep sweep ((db.sweep sweep).readMembers db.cluster)
  | .record sweep outcome =>
      { db.withSweep sweep (db.sweep sweep).skip with
        story := (db.sweep sweep).record sha256 db.now outcome db.story }
  | .passOver sweep => db.withSweep sweep (db.sweep sweep).skip
  | .abort sweep => db.withSweep sweep {}
  | .ingest cluster event => { db with cluster := cluster, event := event }
  | .wait duration => { db with now := db.now + duration }

def Step (db : Db) (a : Action F) (db' : Db) : Prop := a.Enabled db ∧ db' = a.apply sha256 db

/-- A run from empty tables. -/
abbrev DbRuns (ts : List (Run.Transition Db (Action F))) (db : Db) : Prop :=
  Run.Runs (Step sha256) {} ts db

end Step

/-! ## Rows that keep their members -/

/-- Two versions of a row that only differ in delivery and synthesis. -/
def StoryRow.SameContent (row row' : StoryRow) : Prop :=
  row'.subscriberId = row.subscriberId ∧ row'.content = row.content

/-- Two tables whose rows only differ in delivery and synthesis. -/
def SameStories (table table' : StoryTable) : Prop :=
  ∀ s : Uuid, (table[s]? = none ∧ table'[s]? = none) ∨
    ∃ row row', table[s]? = some row ∧ table'[s]? = some row' ∧ row.SameContent row'

section SameStories

variable {table table' : StoryTable} {sub s c : Uuid}

theorem SameStories.refl (table : StoryTable) : SameStories table table := by
  intro s
  cases h : table[s]? with
  | none => exact Or.inl ⟨rfl, rfl⟩
  | some row => exact Or.inr ⟨row, row, rfl, rfl, rfl, rfl⟩

theorem SameStories.symm (h : SameStories table table') : SameStories table' table := by
  intro s
  rcases h s with ⟨h₁, h₂⟩ | ⟨row, row', h₁, h₂, hsub, hcontent⟩
  · exact Or.inl ⟨h₂, h₁⟩
  · exact Or.inr ⟨row', row, h₂, h₁, hsub.symm, hcontent.symm⟩

theorem SameStories.row (h : SameStories table table') {row : StoryRow}
    (hrow : table[s]? = some row) :
    ∃ row', table'[s]? = some row' ∧ row.SameContent row' := by
  rcases h s with ⟨hnone, _⟩ | ⟨row₀, row', h₁, h₂, hsame⟩
  · cases hnone.symm.trans hrow
  · obtain rfl := Option.some.inj (h₁.symm.trans hrow)
    exact ⟨row', h₂, hsame⟩

theorem StoryRow.SameContent.mergedInto {row row' : StoryRow} (h : row.SameContent row') :
    row'.mergedInto = row.mergedInto := congrArg StoryContent.mergedInto h.2

theorem StoryRow.SameContent.clusters {row row' : StoryRow} (h : row.SameContent row') :
    row'.clusters = row.clusters := congrArg StoryContent.clusters h.2

theorem StoryRow.SameContent.members {row row' : StoryRow} (h : row.SameContent row') :
    row'.members = row.members := by
  unfold StoryRow.members
  rw [h.clusters]

theorem StoryRow.SameContent.live {row row' : StoryRow} (h : row.SameContent row') :
    row'.Live sub ↔ row.Live sub := by
  unfold StoryRow.Live
  rw [h.1, h.mergedInto]

theorem SameStories.member (h : SameStories table table') :
    Member table' sub s c ↔ Member table sub s c := by
  have hone : ∀ {t t' : StoryTable}, SameStories t t' → Member t sub s c → Member t' sub s c := by
    intro t t' h hm
    obtain ⟨row, hrow, hlive, hc⟩ := hm
    obtain ⟨row', hrow', hsame⟩ := h.row hrow
    exact ⟨row', hrow', hsame.live.mpr hlive, hsame.members.symm ▸ hc⟩
  exact ⟨hone h.symm, hone h⟩

theorem SameStories.apart (h : SameStories table table') (hapart : StoriesApart table sub) :
    StoriesApart table' sub where
  unique := by
    intro s t c hs ht
    exact hapart.unique (h.member.mp hs) (h.member.mp ht)
  nodup := by
    intro s row' hrow' hlive'
    obtain ⟨row, hrow, hsame⟩ := h.symm.row hrow'
    rw [← hsame.members]
    exact hapart.nodup hrow (hsame.live.mpr hlive')
  tombstoned := by
    intro s row' hrow' hsub hdead
    obtain ⟨row, hrow, hsame⟩ := h.symm.row hrow'
    rw [← hsame.clusters]
    exact hapart.tombstoned hrow (hsame.1.trans hsub) (hsame.mergedInto ▸ hdead)

end SameStories

/-! ## What one transaction does to the stories -/

theorem sameStories_mark (now : DateTime) (sub : Uuid) (ids : List Uuid) (table : StoryTable) :
    SameStories table (markStoriesDelivered now sub ids table) := by
  intro s
  rw [markStoriesDelivered_getElem?]
  cases h : table[s]? with
  | none => exact Or.inl ⟨rfl, rfl⟩
  | some row =>
      refine Or.inr ⟨row, _, rfl, rfl, ?_⟩
      unfold markRow
      by_cases hin : s ∈ ids ∧ row.subscriberId = sub
      · rw [if_pos hin]
        exact ⟨rfl, rfl⟩
      · rw [if_neg hin]
        exact ⟨rfl, rfl⟩

theorem getElem?_record (sha256 : List UInt8 → List UInt8) (now : DateTime)
    (outcome : SummaryOutcome) (w : StorySweep) (table : StoryTable) (id : Uuid) :
    ∃ move : StoryRow → Synthesis, (w.record sha256 now outcome table)[id]? =
      table[id]?.map fun row => { row with synthesis := move row } := by
  have hsame : ∃ move : StoryRow → Synthesis, table[id]? =
      table[id]?.map fun row => { row with synthesis := move row } :=
    ⟨fun row => row.synthesis, by simp⟩
  unfold StorySweep.record
  split
  · next d _ members _ _ =>
      rw [getElem?_recordStory]
      by_cases hid : d.id = id
      · rw [if_pos hid]
        exact ⟨_, rfl⟩
      · rw [if_neg hid]
        exact hsame
  · exact hsame

theorem sameStories_record {currentModel : String} {k : Uuid} {started : DateTime}
    {write : SweepWrite} {table : StoryTable} :
    SameStories table (recordStory currentModel started k write table) := by
  intro id
  rw [getElem?_recordStory]
  cases table[id]? with
  | none => simp
  | some row =>
      by_cases h : k = id
      · simp [h, StoryRow.SameContent, StoryRow.content]
      · simp [h, StoryRow.SameContent]

theorem sameStories_sweep (sha256 : List UInt8 → List UInt8) (now : DateTime)
    (outcome : SummaryOutcome) (w : StorySweep) (table : StoryTable) :
    SameStories table (w.record sha256 now outcome table) := by
  unfold StorySweep.record
  split
  · exact sameStories_record
  · exact SameStories.refl table

theorem Step.recompute [Score F] {sha256 : List UInt8 → List UInt8} {db db' : Db} {r : Recompute F}
    (h : Step sha256 db (.recompute r) db') :
    r.Reads db.story ∧ db'.story = r.persist db.now db.story := by
  obtain ⟨hreads, rfl⟩ := h
  exact ⟨hreads, rfl⟩

/-- A recompute rewrites the stories; every other transaction leaves their content alone. -/
theorem Step.stories [Score F] {sha256 : List UInt8 → List UInt8} {db db' : Db} {a : Action F}
    (h : Step sha256 db a db') :
    (∃ r, a = .recompute r ∧ r.Reads db.story ∧ db'.story = r.persist db.now db.story) ∨
      (∀ r, a ≠ .recompute r) ∧ SameStories db.story db'.story := by
  obtain ⟨henabled, rfl⟩ := h
  cases a with
  | recompute r => exact Or.inl ⟨r, rfl, henabled, rfl⟩
  | createDigest id sub windowEnd items =>
      exact Or.inr ⟨fun r heq => (by cases heq), SameStories.refl _⟩
  | markDelivered id sub =>
      exact Or.inr ⟨fun r heq => (by cases heq), sameStories_mark _ _ _ _⟩
  | record sweep outcome =>
      exact Or.inr ⟨fun r heq => (by cases heq), sameStories_sweep _ _ _ _ _⟩
  | loadQueue sweep sub model queue =>
      exact Or.inr ⟨fun r heq => (by cases heq), SameStories.refl _⟩
  | readMembers sweep => exact Or.inr ⟨fun r heq => (by cases heq), SameStories.refl _⟩
  | passOver sweep => exact Or.inr ⟨fun r heq => (by cases heq), SameStories.refl _⟩
  | abort sweep => exact Or.inr ⟨fun r heq => (by cases heq), SameStories.refl _⟩
  | ingest cluster event => exact Or.inr ⟨fun r heq => (by cases heq), SameStories.refl _⟩
  | wait duration => exact Or.inr ⟨fun r heq => (by cases heq), SameStories.refl _⟩

/-- Where a row comes from: a story of a recompute, a merge of one, or the row as it was. -/
inductive RowStep [Score F] (db : Db) (a : Action F) (id : Uuid) (row' : StoryRow) : Prop
  | written (r : Recompute F) (story : LinkedStory) (haction : a = .recompute r)
      (hreads : r.Reads db.story) (hstory : story ∈ r.assignment.stories) (hid : story.id = id)
      (hrow : row' = upsertRow db.now r.subscriber story db.story[id]?)
      (hlive : row'.Live r.subscriber)
      (hold : db.story[id]? = none ∨ r.Represented db.story id)
  | mergedAway (r : Recompute F) (survivor c : Uuid) (row : StoryRow) (haction : a = .recompute r)
      (hreads : r.Reads db.story) (haway : r.MergesAway db.story id)
      (hmember : Member db.story r.subscriber id c) (hplaced : Placed r.assignment c survivor)
      (hold : db.story[id]? = some row) (hlive : row.Live r.subscriber)
      (hrow : row' = { row with mergedInto := some survivor, clusters := [], updatedAt := db.now })
  | kept (row : StoryRow) (hold : db.story[id]? = some row) (hsame : row.SameContent row')
      (hnot : ∀ r, a = .recompute r → ¬ r.Represented db.story id)

theorem Step.row [Score F] {sha256 : List UInt8 → List UInt8} {db db' : Db} {a : Action F}
    (h : Step sha256 db a db') (hapart : ∀ sub, StoriesApart db.story sub) {id : Uuid}
    {row' : StoryRow} (hrow' : db'.story[id]? = some row') : RowStep db a id row' := by
  rcases h.stories with ⟨r, rfl, hreads, heq⟩ | ⟨hother, hsame⟩
  · rw [heq] at hrow'
    cases Recompute.rowFate hreads (hapart r.subscriber) db.now id with
    | written story hstory hid hold hnew =>
        obtain rfl := Option.some.inj (hnew.symm.trans hrow')
        exact RowStep.written r story rfl hreads hstory hid rfl
          ⟨Recompute.written_subscriber hold, upsertRow_mergedInto _ _⟩ hold
    | mergedAway survivor c row haway hold hlive hmoved _ hnew =>
        obtain rfl := Option.some.inj (hnew.symm.trans hrow')
        exact RowStep.mergedAway r survivor c row rfl hreads haway hmoved.1 hmoved.2 hold hlive rfl
    | untouched _ hnot hnew =>
        apply RowStep.kept row' (hnew.symm.trans hrow') ⟨rfl, rfl⟩
        intro r' heq
        cases heq
        exact hnot
  · obtain ⟨row, hrow, hcontent⟩ := hsame.symm.row hrow'
    exact RowStep.kept row hrow ⟨hcontent.1.symm, hcontent.2.symm⟩ fun r heq =>
      absurd heq (hother r)

/-- Rows are never dropped, nor handed to another subscriber. -/
theorem Step.row_kept [Score F] {sha256 : List UInt8 → List UInt8} {db db' : Db} {a : Action F}
    (h : Step sha256 db a db') (hapart : ∀ sub, StoriesApart db.story sub) {id : Uuid}
    {row : StoryRow} (hrow : db.story[id]? = some row) :
    ∃ row', db'.story[id]? = some row' ∧ row'.subscriberId = row.subscriberId := by
  rcases h.stories with ⟨r, rfl, hreads, heq⟩ | ⟨_, hsame⟩
  · rw [heq]
    cases Recompute.rowFate hreads (hapart r.subscriber) db.now id with
    | written story _ _ _ hnew =>
        refine ⟨_, hnew, ?_⟩
        rw [hrow, upsertRow_subscriberId]
        rfl
    | mergedAway survivor c row₀ _ hold _ _ _ hnew =>
        obtain rfl := Option.some.inj (hold.symm.trans hrow)
        exact ⟨_, hnew, rfl⟩
    | untouched _ _ hnew => exact ⟨row, hnew.trans hrow, rfl⟩
  · obtain ⟨row', hrow', hcontent⟩ := hsame.row hrow
    exact ⟨row', hrow', hcontent.1⟩

theorem Step.apart [Score F] {sha256 : List UInt8 → List UInt8} {db db' : Db} {a : Action F}
    (h : Step sha256 db a db') (hapart : ∀ sub, StoriesApart db.story sub) (sub : Uuid) :
    StoriesApart db'.story sub := by
  rcases h.stories with ⟨r, _, hreads, heq⟩ | ⟨_, hsame⟩
  · rw [heq]
    exact Recompute.persist_apart hreads hapart _ sub
  · exact hsame.apart (hapart sub)

theorem storiesApart_empty (sub : Uuid) : StoriesApart ∅ sub := by
  have hnone : ∀ (s : Uuid) (row : StoryRow), (∅ : StoryTable)[s]? ≠ some row := by
    intro s row hrow
    rw [Std.ExtTreeMap.getElem?_empty] at hrow
    cases hrow
  refine ⟨?_, ?_, ?_⟩
  · intro s t c hs _
    obtain ⟨row, hrow, _⟩ := hs
    exact absurd hrow (hnone s row)
  · intro s row hrow _
    exact absurd hrow (hnone s row)
  · intro s row hrow _ _
    exact absurd hrow (hnone s row)

theorem DbRuns.apart [Score F] {sha256 : List UInt8 → List UInt8}
    {ts : List (Run.Transition Db (Action F))} {db : Db} (h : DbRuns sha256 ts db) (sub : Uuid) :
    StoriesApart db.story sub :=
  Run.Runs.state_invariant h (fun db => ∀ sub, StoriesApart db.story sub) storiesApart_empty
    (fun _ _ hstep => hstep.apart) sub

end Bulletin
