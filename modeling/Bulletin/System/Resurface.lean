import Bulletin.Digest.Fire
import Bulletin.System.MergeGuard

/-! # Re-surface memory over whole runs

A fire remembers what was shown by story id. The linker reassigns ids between fires, so
the memory of a story is the newest snapshot of the id its component keeps, whatever the
digests its clusters were shown in.
-/

namespace Bulletin

variable {F : Type} [SelectScore F] {sha256 : List UInt8 → List UInt8}
  {ts : List (Run.Transition Db (Action F))} {db db' : Db}

/-! ## The digest tables of a run -/

/-- The digests are keyed, and their items refer to stories that exist. -/
structure DigestsFrozen (db : Db) : Prop where
  keyed : DigestsKeyed db.digest
  refers : ∀ {id : Uuid} {row : DigestRow}, db.digest[id]? = some row → ∀ item ∈ row.items,
    item.storyId ∈ db.story

theorem Step.story_kept {a : Action F} (h : Step sha256 db a db')
    (hapart : ∀ sub, StoriesApart db.story sub) {s : Uuid} (hs : s ∈ db.story) : s ∈ db'.story := by
  rw [← Std.ExtTreeMap.isSome_getElem?_iff_mem] at hs ⊢
  obtain ⟨row, hrow⟩ := Option.isSome_iff_exists.mp hs
  obtain ⟨row', hrow', _⟩ := h.row_kept hapart hrow
  rw [hrow']
  rfl

theorem Step.digestsFrozen {a : Action F} (h : Step sha256 db a db')
    (hapart : ∀ sub, StoriesApart db.story sub) (hfrozen : DigestsFrozen db) :
    DigestsFrozen db' := by
  have hkept : ∀ {s : Uuid}, s ∈ db.story → s ∈ db'.story := h.story_kept hapart
  obtain ⟨henabled, rfl⟩ := h
  cases a with
  | createDigest id sub windowEnd items =>
      obtain ⟨_, hnodup, hstories⟩ := henabled
      refine ⟨hfrozen.keyed.create hnodup, ?_⟩
      intro id' row hrow item hitem
      rcases createWithItems_row hrow with hold | ⟨_, _, rfl⟩
      · exact hfrozen.refers hold item hitem
      · have hmem : item.storyId ∈ items.map (·.storyId) :=
          newDigest_stories items ▸ List.mem_map_of_mem hitem
        obtain ⟨frozen, hin, hid⟩ := List.mem_map.mp hmem
        obtain ⟨row', hown⟩ := Option.isSome_iff_exists.mp (hstories frozen hin)
        obtain ⟨hrow', _⟩ := ownStory_eq_some.mp hown
        rw [← hid]
        apply hkept
        rw [← Std.ExtTreeMap.isSome_getElem?_iff_mem, hrow']
        rfl
  | markDelivered id sub =>
      refine ⟨hfrozen.keyed.deliver id db.now, ?_⟩
      intro id' row hrow item hitem
      obtain ⟨old, hold, _, _, hitems⟩ := deliver_row hrow
      exact hkept (hfrozen.refers hold item (hitems ▸ hitem))
  | recompute r => exact ⟨hfrozen.keyed,
    fun hrow item hitem => hkept (hfrozen.refers hrow item hitem)⟩
  | loadQueue sweep sub model queue =>
      exact ⟨hfrozen.keyed, fun hrow item hitem => hkept (hfrozen.refers hrow item hitem)⟩
  | readMembers sweep =>
      exact ⟨hfrozen.keyed, fun hrow item hitem => hkept (hfrozen.refers hrow item hitem)⟩
  | record sweep outcome =>
      exact ⟨hfrozen.keyed, fun hrow item hitem => hkept (hfrozen.refers hrow item hitem)⟩
  | passOver sweep =>
      exact ⟨hfrozen.keyed, fun hrow item hitem => hkept (hfrozen.refers hrow item hitem)⟩
  | abort sweep =>
      exact ⟨hfrozen.keyed, fun hrow item hitem => hkept (hfrozen.refers hrow item hitem)⟩
  | ingest cluster event =>
      exact ⟨hfrozen.keyed, fun hrow item hitem => hkept (hfrozen.refers hrow item hitem)⟩
  | wait duration =>
      exact ⟨hfrozen.keyed, fun hrow item hitem => hkept (hfrozen.refers hrow item hitem)⟩

theorem DbRuns.digestsFrozen (h : DbRuns sha256 ts db) : DigestsFrozen db := by
  have hboth := Run.Runs.state_invariant h
    (fun db => (∀ sub, StoriesApart db.story sub) ∧ DigestsFrozen db)
    ⟨storiesApart_empty, digestsKeyed_empty, ?_⟩ ?_
  · exact hboth.2
  · intro id row hrow
    cases Std.ExtTreeMap.getElem?_empty.symm.trans hrow
  · intro t _ hstep hI
    exact ⟨hstep.apart hI.1, hstep.digestsFrozen hI.1 hI.2⟩

/-! ## What was shown -/

/-- The transaction delivers a digest of the horizon whose item for a story with cluster `c` was
frozen with the snapshot `sh`. -/
def ShownAs (t : Run.Transition Db (Action F)) (sub : Uuid) (windowEnd : DateTime) (c : Uuid)
    (sh : Shown) : Prop :=
  ∃ (id : Uuid) (row : DigestRow), t.action = .markDelivered id sub ∧
    t.before.digest[id]? = some row ∧
    InHorizon sub windowEnd row ∧ ∃ item ∈ row.items, item.shown = some sh ∧
      ShownIn t sub item.storyId c

/-- Every cluster of the story was shown, by an item frozen no earlier than the story's last
event. -/
def AlreadyShown (ts : List (Run.Transition Db (Action F))) (r : Recompute F) (windowEnd : DateTime)
    (story : LinkedStory) : Prop :=
  ∀ c ∈ story.members, ∃ t ∈ ts, ∃ sh, ShownAs t r.subscriber windowEnd c sh ∧
    story.lastEventTime ≤ sh.lastEventTime

/-- Every cluster of the story was shown, and has had no event since. -/
def NothingNew (ts : List (Run.Transition Db (Action F))) (r : Recompute F) (windowEnd : DateTime)
    (story : LinkedStory) : Prop :=
  ∀ x ∈ r.candidates, x.id ∈ story.members → ∃ t ∈ ts, ∃ sh,
    ShownAs t r.subscriber windowEnd x.id sh ∧ x.lastEventTime ≤ sh.lastEventTime

/-- The story is a story now, and its clusters were only ever shown in notes. -/
def Graduated (ts : List (Run.Transition Db (Action F))) (r : Recompute F) (windowEnd : DateTime)
    (story : LinkedStory) : Prop :=
  Fire.storyRichness story = .story ∧ ∀ c ∈ story.members, ∀ t ∈ ts, ∀ sh,
    ShownAs t r.subscriber windowEnd c sh → sh.format = .note

/-- A fire of the run that ranks a story it has shown already. -/
structure ShowsAgain (ts : List (Run.Transition Db (Action F)))
    (pre : List (Run.Transition Db (Action F))) (t : Run.Transition Db (Action F)) (r : Recompute F)
    (fire : Fire F) (story : LinkedStory) : Prop where
  fired : ∃ post, ts = pre ++ t :: post
  action : t.action = .recompute r
  linked : story ∈ r.assignment.stories
  passes : Passes fire.cfg fire.displayFloor (fire.candidateOf r t.before.digest story)
  shown : AlreadyShown pre r fire.windowEnd story ∨ NothingNew pre r fire.windowEnd story

/-- At every fire, a story shown already is treated so, unless it graduated. -/
def ResurfaceMemory (ts : List (Run.Transition Db (Action F))) : Prop :=
  ∀ pre t r fire story, ShowsAgain ts pre t r fire story →
    fire.TreatsAsShown r t.before.digest story ∨ Graduated pre r fire.windowEnd story

/-- The id that the story's component keeps has itself a snapshot in the horizon, and the newest
one is no earlier than the story's last event, nor of a note where the story is none. -/
def KeepsShownId (r : Recompute F) (digest : DigestTable) (windowEnd : DateTime)
    (story : LinkedStory) : Prop :=
  ∃ P sh, (∃ c ∈ story.members, r.KeepsFor c P) ∧
    NewestSnapshot digest r.subscriber windowEnd P sh ∧
    story.lastEventTime ≤ sh.lastEventTime ∧
      ¬ (sh.format = .note ∧ Fire.storyRichness story = .story)

/-- At every fire, the component of a story shown already keeps an id that was. -/
def ShownIdsKept (ts : List (Run.Transition Db (Action F))) : Prop :=
  ∀ pre t r fire story, ShowsAgain ts pre t r fire story →
    KeepsShownId r t.before.digest fire.windowEnd story ∨ Graduated pre r fire.windowEnd story

/-! ## One fire -/

/-- The component of a story keeps its id, unless the id is new. -/
theorem keepsFor_of_story {r : Recompute F} {table : StoryTable} (h : r.Reads table) {c : Uuid}
    {story : LinkedStory} (hstory : story ∈ r.assignment.stories) (hc : c ∈ story.members) :
    r.KeepsFor c story.id ∨ story.id ∉ table := by
  have hplaced : Placed r.assignment c story.id := ⟨story, hstory, rfl, hc⟩
  obtain ⟨k, S, hS, hin, hs⟩ := placed_iff_idSets.mp hplaced
  rcases survivors_spec h.freshMint hs with hkeep | ⟨⟨j, hj⟩, _⟩
  · exact Or.inl ⟨k, S, hS, hin, hkeep⟩
  · apply Or.inr
    rw [hj]
    exact h.mint_unused j

/-- One fire treats a story as shown exactly when its component keeps an id that was. -/
theorem Step.treatsAsShown_iff {r : Recompute F} (h : Step sha256 db (.recompute r) db')
    (hapart : ∀ sub, StoriesApart db.story sub) (hfrozen : DigestsFrozen db) {fire : Fire F}
    {story : LinkedStory} (hstory : story ∈ r.assignment.stories)
    (hpasses : Passes fire.cfg fire.displayFloor (fire.candidateOf r db.digest story)) :
    fire.TreatsAsShown r db.digest story ↔ KeepsShownId r db.digest fire.windowEnd story := by
  have hreads : r.Reads db.story := h.1
  have hnodup := (hreads.writable (hapart r.subscriber)).nodup
  rw [Fire.treatsAsShown_iff hnodup hstory hpasses, Candidate.stale_iff]
  constructor
  · intro hstale
    obtain ⟨sh, hshown, htime, hformat⟩ := hstale
    have hnewest := (lastShown_eq_some_iff hfrozen.keyed).mp hshown
    obtain ⟨c, hc⟩ := List.exists_mem_of_ne_nil _ (Recompute.story_clusters_ne_nil hstory)
    have hmem : c.clusterId ∈ story.members := List.mem_map_of_mem hc
    refine ⟨story.id, sh, ⟨c.clusterId, hmem, ?_⟩, hnewest, htime, hformat⟩
    rcases keepsFor_of_story hreads hstory hmem with hkeep | hnew
    · exact hkeep
    · -- a new id is in no digest yet
      obtain ⟨id, row, hrow, _, ⟨item, hitem, hid, _⟩, _⟩ := hnewest
      exact absurd (hid ▸ hfrozen.refers hrow item hitem) hnew
  · intro hkeeps
    obtain ⟨P, sh, ⟨c, hc, hkeep⟩, hnewest, htime, hformat⟩ := hkeeps
    have hplaced : Placed r.assignment c story.id := ⟨story, hstory, rfl, hc⟩
    obtain rfl := placed_unique hreads.ids_injective (Recompute.placed_of_keepsFor hreads hkeep) hplaced
    exact ⟨sh, (lastShown_eq_some_iff hfrozen.keyed).mpr hnewest, htime, hformat⟩

/-! ## Every fire of a run -/

/-- A run remembers what it has shown exactly when, at every fire, each story shown already
keeps an id that was shown with it. -/
theorem resurface_memory_iff (h : DbRuns sha256 ts db) : ResurfaceMemory ts ↔ ShownIdsKept ts := by
  have hfire : ∀ {pre t r fire story}, ShowsAgain ts pre t r fire story →
      (fire.TreatsAsShown r t.before.digest story ↔
        KeepsShownId r t.before.digest fire.windowEnd story) := by
    intro pre t r fire story hagain
    obtain ⟨post, heq⟩ := hagain.fired
    have ht : t ∈ ts := by rw [heq]; simp
    have hstep := h.step_of_mem ht
    rw [hagain.action] at hstep
    obtain ⟨pre', post', _, hbefore⟩ := h.before_of_mem ht
    exact hstep.treatsAsShown_iff (DbRuns.apart hbefore)
      (DbRuns.digestsFrozen hbefore) hagain.linked hagain.passes
  constructor
  · intro hmemory pre t r fire story hagain
    exact (hmemory pre t r fire story hagain).imp_left (hfire hagain).mp
  · intro hkept pre t r fire story hagain
    exact (hkept pre t r fire story hagain).imp_left (hfire hagain).mpr

/-! ## A story shown twice -/

def steadyCluster : LinkCluster := feedCluster 1 ["cve:a"] (-3600000000)

def steadyFirst : Recompute ℚ := .onTable ∅ 7 [steadyCluster] {} 100

def steadyDb₁ : Db := (Action.recompute steadyFirst).apply plainDigest {}

def steadyCreate : Action ℚ := .createDigest 500 7 0 ((Fire.plain ℚ 0).items steadyFirst ∅)

def steadyDb₂ : Db := steadyCreate.apply plainDigest steadyDb₁

def steadyDeliver : Action ℚ := .markDelivered 500 7

def steadyDb₃ : Db := steadyDeliver.apply plainDigest steadyDb₂

def steadyDb₄ : Db := (Action.wait 172800000000 : Action ℚ).apply plainDigest steadyDb₃

def steadySecond : Recompute ℚ := .onTable steadyDb₄.story 7 [steadyCluster] {} 200

def steadyDb₅ : Db := (Action.recompute steadySecond).apply plainDigest steadyDb₄

def shownOnce : List (Run.Transition Db (Action ℚ)) :=
  [⟨{}, .recompute steadyFirst, steadyDb₁⟩, ⟨steadyDb₁, steadyCreate, steadyDb₂⟩,
    ⟨steadyDb₂, steadyDeliver, steadyDb₃⟩, ⟨steadyDb₃, .wait 172800000000, steadyDb₄⟩]

def steadyRun : List (Run.Transition Db (Action ℚ)) :=
  shownOnce ++ [⟨steadyDb₄, .recompute steadySecond, steadyDb₅⟩]

theorem step_deliver {db : Db} {id sub : Uuid} (h : (db.digest[id]?.any fun row =>
    row.subscriberId = sub ∧ row.deliveredAt = none) = true) :
    Step plainDigest db (Action.markDelivered id sub : Action ℚ)
      ((Action.markDelivered id sub : Action ℚ).apply plainDigest db) := by
  refine ⟨?_, rfl⟩
  show ∃ row, db.digest[id]? = some row ∧ row.subscriberId = sub ∧ row.deliveredAt = none
  simpa [Option.any_eq_true] using h

theorem shownOnce_runs : DbRuns plainDigest shownOnce steadyDb₄ := by
  have first : Step plainDigest {} (Action.recompute steadyFirst) steadyDb₁ :=
    ⟨Recompute.onTable_reads (by decide +kernel) (by decide +kernel), rfl⟩
  have create : Step plainDigest steadyDb₁ steadyCreate steadyDb₂ :=
    ⟨⟨by decide +kernel, by decide +kernel, by decide +kernel⟩, rfl⟩
  have deliver : Step plainDigest steadyDb₂ steadyDeliver steadyDb₃ :=
    step_deliver (by decide +kernel)
  have wait : Step plainDigest steadyDb₃ (Action.wait 172800000000 : Action ℚ) steadyDb₄ :=
    ⟨trivial, rfl⟩
  exact Run.Runs.snoc (Run.Runs.snoc (Run.Runs.snoc (Run.Runs.snoc Run.Runs.nil first) create) deliver) wait

/-- Whatever window a delivery of the run counts for, it is one the only digest is in. -/
theorem inHorizon_of_shownOnce {t : Run.Transition Db (Action ℚ)} (ht : t ∈ shownOnce)
    {sub c : Uuid} {windowEnd : DateTime} {sh : Shown} (h : ShownAs t sub windowEnd c sh) :
    0 < windowEnd ∧ windowEnd - daysInterval contextHorizonDays ≤ 0 := by
  obtain ⟨id, row, haction, hrow, hin, _⟩ := h
  have hends : ∀ entry ∈ steadyDb₂.digest.toList, entry.2.windowEnd = 0 := by decide +kernel
  simp only [shownOnce, List.mem_cons, List.not_mem_nil, or_false] at ht
  rcases ht with rfl | rfl | rfl | rfl
  · cases haction
  · cases haction
  · have hend := hends _ (Std.ExtTreeMap.mem_toList_iff_getElem?_eq_some.mpr hrow)
    obtain ⟨_, hbefore, hafter⟩ := hin
    rw [hend] at hbefore hafter
    exact ⟨hbefore, hafter⟩
  · cases haction

theorem resurface_memory_iff_steady : ResurfaceMemory steadyRun := by
  have hruns : DbRuns plainDigest steadyRun steadyDb₅ :=
    Run.Runs.snoc shownOnce_runs ⟨Recompute.onTable_reads (by decide +kernel) (by decide +kernel), rfl⟩
  refine (resurface_memory_iff hruns).mpr ?_
  intro pre t r fire story hagain
  obtain ⟨post, heq⟩ := hagain.fired
  have haction := hagain.action
  -- only the first transaction and the last are fires, and before the first nothing was shown
  have hcases : pre = [] ∧ r = steadyFirst ∨ pre = shownOnce ∧ r = steadySecond ∧
      t.before = steadyDb₄ := by
    unfold steadyRun shownOnce at heq
    rcases pre with _ | ⟨a, _ | ⟨b, _ | ⟨c, _ | ⟨d, _ | ⟨e, rest⟩⟩⟩⟩⟩
    all_goals simp only [List.cons_append, List.nil_append, List.cons.injEq] at heq
    · obtain ⟨rfl, _⟩ := heq
      cases haction
      exact Or.inl ⟨rfl, rfl⟩
    · obtain ⟨_, rfl, _⟩ := heq
      cases haction
    · obtain ⟨_, _, rfl, _⟩ := heq
      cases haction
    · obtain ⟨_, _, _, rfl, _⟩ := heq
      cases haction
    · obtain ⟨rfl, rfl, rfl, rfl, rfl, _⟩ := heq
      cases haction
      exact Or.inr ⟨rfl, rfl, rfl⟩
    · obtain ⟨_, _, _, _, _, hnil⟩ := heq
      cases rest <;> cases hnil
  rcases hcases with ⟨rfl, rfl⟩ | ⟨rfl, rfl, hbefore⟩
  · have hall : ∀ story ∈ steadyFirst.assignment.stories, 1 ∈ story.members := by decide +kernel
    rcases hagain.shown with hshown | hnew
    · obtain ⟨t, ht, _⟩ := hshown 1 (hall story hagain.linked)
      cases ht
    · obtain ⟨t, ht, _⟩ := hnew steadyCluster List.mem_cons_self (hall story hagain.linked)
      cases ht
  · apply Or.inl
    have hall : ∀ story ∈ steadySecond.assignment.stories, story.id = 100 ∧ 1 ∈ story.members ∧
        story.lastEventTime = -3600000000 := by decide +kernel
    obtain ⟨hid, hmem, htime⟩ := hall story hagain.linked
    have hwindow : 0 < fire.windowEnd ∧ fire.windowEnd - daysInterval contextHorizonDays ≤ 0 := by
      rcases hagain.shown with hshown | hnew
      · obtain ⟨t, ht, sh, hsh, _⟩ := hshown 1 hmem
        exact inHorizon_of_shownOnce ht hsh
      · obtain ⟨t, ht, sh, hsh, _⟩ := hnew steadyCluster List.mem_cons_self hmem
        exact inHorizon_of_shownOnce ht hsh
    have hdigests : steadyDb₄.digest.toList = [(500, ⟨7, 0, some 0,
        [⟨100, 0, some (-3600000000), some .story⟩]⟩)] := by decide +kernel
    have hreads : steadySecond.Reads steadyDb₄.story :=
      Recompute.onTable_reads (by decide +kernel) (by decide +kernel)
    rw [hbefore]
    refine ⟨100, ⟨-3600000000, .story⟩, ⟨1, hmem, ?_⟩, ?_, Int.le_of_eq htime, by simp⟩
    · have hin : (100 : Uuid) ∈ steadyDb₄.story := by decide +kernel
      rcases keepsFor_of_story hreads hagain.linked hmem with hkeep | hnot
      · rwa [hid] at hkeep
      · exact absurd (hid ▸ hin) hnot
    · refine ⟨500, _, Std.ExtTreeMap.mem_toList_iff_getElem?_eq_some.mp (hdigests ▸ List.mem_singleton_self _),
        ⟨rfl, hwindow⟩, ⟨_, List.mem_singleton_self _, rfl, rfl⟩, ?_⟩
      intro id' row' item' hrow' _ _ _ _
      have hentry := Std.ExtTreeMap.mem_toList_iff_getElem?_eq_some.mpr hrow'
      rw [hdigests] at hentry
      obtain ⟨rfl, rfl⟩ := Prod.mk.inj (List.mem_singleton.mp hentry)
      exact Int.le_refl _

/-! ## Two shown stories merged and parted -/

def laterCluster : LinkCluster := feedCluster 2 ["cve:a"] 169200000000

def partedFirst : Recompute ℚ := .onTable steadyDb₄.story 7 [laterCluster] {} 200

def partedDb₁ : Db := (Action.recompute partedFirst).apply plainDigest steadyDb₄

def partedCreate : Action ℚ :=
  .createDigest 501 7 172800000000 ((Fire.plain ℚ 172800000000).items partedFirst steadyDb₄.digest)

def partedDb₂ : Db := partedCreate.apply plainDigest partedDb₁

def partedDeliver : Action ℚ := .markDelivered 501 7

def partedDb₃ : Db := partedDeliver.apply plainDigest partedDb₂

def partedDb₄ : Db := (Action.wait 86400000000 : Action ℚ).apply plainDigest partedDb₃

/-- Both are candidates, and their shared identifier joins them. -/
def joinedFire : Recompute ℚ := .onTable partedDb₄.story 7 [steadyCluster, laterCluster] {} 300

def joinedDb : Db := (Action.recompute joinedFire).apply plainDigest partedDb₄

/-- The first is withheld again when the fire is tried again. -/
def partedFire : Recompute ℚ := .onTable joinedDb.story 7 [laterCluster] {} 400

def partedDb : Db := (Action.recompute partedFire).apply plainDigest joinedDb

def shownTwice : List (Run.Transition Db (Action ℚ)) :=
  shownOnce ++ [⟨steadyDb₄, .recompute partedFirst, partedDb₁⟩,
    ⟨partedDb₁, partedCreate, partedDb₂⟩,
    ⟨partedDb₂, partedDeliver, partedDb₃⟩, ⟨partedDb₃, .wait 86400000000, partedDb₄⟩]

def joinedRun : List (Run.Transition Db (Action ℚ)) :=
  shownTwice ++ [⟨partedDb₄, .recompute joinedFire, joinedDb⟩]

def partedRun : List (Run.Transition Db (Action ℚ)) :=
  joinedRun ++ [⟨joinedDb, .recompute partedFire, partedDb⟩]

theorem partedRun_runs : DbRuns plainDigest partedRun partedDb := by
  have first : Step plainDigest steadyDb₄ (Action.recompute partedFirst) partedDb₁ :=
    ⟨Recompute.onTable_reads (by decide +kernel) (by decide +kernel), rfl⟩
  have create : Step plainDigest partedDb₁ partedCreate partedDb₂ :=
    ⟨⟨by decide +kernel, by decide +kernel, by decide +kernel⟩, rfl⟩
  have deliver : Step plainDigest partedDb₂ partedDeliver partedDb₃ :=
    step_deliver (by decide +kernel)
  have wait : Step plainDigest partedDb₃ (Action.wait 86400000000 : Action ℚ) partedDb₄ :=
    ⟨trivial, rfl⟩
  have joined : Step plainDigest partedDb₄ (Action.recompute joinedFire) joinedDb :=
    ⟨Recompute.onTable_reads (by decide +kernel) (by decide +kernel), rfl⟩
  have parted : Step plainDigest joinedDb (Action.recompute partedFire) partedDb :=
    ⟨Recompute.onTable_reads (by decide +kernel) (by decide +kernel), rfl⟩
  have hshown : DbRuns plainDigest shownTwice partedDb₄ :=
    Run.Runs.append shownOnce_runs
      (Run.Runs.snoc (Run.Runs.snoc (Run.Runs.snoc (Run.Runs.snoc Run.Runs.nil first) create) deliver) wait)
  exact Run.Runs.snoc (Run.Runs.snoc hshown joined) parted

instance (sub : Uuid) (windowEnd : DateTime) (row : DigestRow) :
    Decidable (InHorizon sub windowEnd row) :=
  inferInstanceAs (Decidable (_ ∧ _ ∧ _))

theorem shownAs_deliver {F : Type} {db db' : Db} {id sub s c : Uuid} {windowEnd : DateTime}
    {sh : Shown} (h : (db.digest[id]?.any fun row => InHorizon sub windowEnd row ∧
      ∃ item ∈ row.items, item.storyId = s ∧ item.shown = some sh) = true)
    (hmember : Member db.story sub s c) :
    ShownAs (⟨db, .markDelivered id sub, db'⟩ : Run.Transition Db (Action F)) sub windowEnd c sh := by
  obtain ⟨row, hrow, hall⟩ := Option.any_eq_true _ _ |>.mp h
  obtain ⟨hin, item, hitem, rfl, hsh⟩ := of_decide_eq_true hall
  refine ⟨id, row, rfl, hrow, hin, item, hitem, hsh, shownIn_deliver ?_ hmember⟩
  unfold digestStories
  rw [hrow]
  exact List.mem_map_of_mem hitem

def laterFire : Fire ℚ := .plain ℚ 259200000000

def joinedStory : LinkedStory where
  id := 100
  clusters := [⟨1, some "shared cve:a"⟩, ⟨2, some "shared cve:a"⟩]
  firstEventTime := -3600000000
  lastEventTime := 169200000000
  eventCount := 2
  sourceDiversity := 1
  contentDepth := .longform
  maxSeverity := none
  hasPrivate := false

def partedStory : LinkedStory :=
  { joinedStory with clusters := [⟨2, none⟩], firstEventTime := 169200000000, eventCount := 1 }

theorem first_shown :
    ShownAs (⟨steadyDb₂, steadyDeliver, steadyDb₃⟩ : Run.Transition Db (Action ℚ)) 7
    259200000000 1 ⟨-3600000000, .story⟩ :=
  shownAs_deliver (by decide +kernel) (member_of_any (s := 100) (by decide +kernel))

theorem second_shown :
    ShownAs (⟨partedDb₂, partedDeliver, partedDb₃⟩ : Run.Transition Db (Action ℚ)) 7
    259200000000 2 ⟨169200000000, .story⟩ :=
  shownAs_deliver (by decide +kernel) (member_of_any (s := 200) (by decide +kernel))

/-- Clusters 1 and 2 were shown in stories 100 and 200. Merged under id 100 they look fresh, since
100 was last shown before the event of cluster 2; parted again, so does cluster 2 alone. -/
theorem retro_merge_looks_fresh :
    DbRuns plainDigest partedRun partedDb ∧ ¬ ResurfaceMemory partedRun ∧
      (ShowsAgain partedRun shownTwice ⟨partedDb₄, .recompute joinedFire,
        joinedDb⟩ joinedFire laterFire
          joinedStory ∧
        NothingNew shownTwice joinedFire laterFire.windowEnd joinedStory ∧
        (laterFire.linkAndSelect joinedFire partedDb₄.digest).map (fun d =>
          (d.id, d.format, d.richness)) =
          [(100, .story, "multi-event")]) ∧
      ShowsAgain partedRun joinedRun ⟨joinedDb, .recompute partedFire,
        partedDb⟩ partedFire laterFire
          partedStory ∧
        AlreadyShown joinedRun partedFire laterFire.windowEnd partedStory ∧
        (laterFire.linkAndSelect partedFire joinedDb.digest).map (fun d =>
          (d.id, d.format, d.richness)) =
          [(100, .story, "longform")] := by
  have hnew : NothingNew shownTwice joinedFire laterFire.windowEnd joinedStory := by
    intro x hx _
    rcases List.mem_cons.mp hx with rfl | hx
    · exact ⟨_, by simp [shownTwice, shownOnce], _, first_shown, Int.le_refl _⟩
    · obtain rfl := List.mem_singleton.mp hx
      exact ⟨_, by simp [shownTwice], _, second_shown, Int.le_refl _⟩
  have halready : AlreadyShown joinedRun partedFire laterFire.windowEnd partedStory := by
    intro c hc
    obtain rfl := List.mem_singleton.mp hc
    exact ⟨_, by simp [joinedRun, shownTwice], _, second_shown, Int.le_refl _⟩
  have hjoined : ShowsAgain partedRun shownTwice ⟨partedDb₄, .recompute joinedFire,
      joinedDb⟩ joinedFire
      laterFire joinedStory :=
    ⟨⟨[⟨joinedDb, .recompute partedFire, partedDb⟩], by simp [partedRun, joinedRun]⟩,
      rfl, by decide +kernel, ⟨by decide +kernel, by decide +kernel⟩, Or.inr hnew⟩
  have hparted : ShowsAgain partedRun joinedRun ⟨joinedDb, .recompute partedFire,
      partedDb⟩ partedFire
      laterFire partedStory :=
    ⟨⟨[], rfl⟩, rfl, by decide +kernel, ⟨by decide +kernel, by decide +kernel⟩, Or.inl halready⟩
  refine ⟨partedRun_runs, ?_, ⟨hjoined, hnew, by decide +kernel⟩, hparted,
    halready, by decide +kernel⟩
  intro hmemory
  rcases hmemory _ _ _ _ _ hparted with ⟨d, hd, _, hformat, _⟩ | ⟨_, hnotes⟩
  · have hall : ∀ d ∈ laterFire.linkAndSelect partedFire joinedDb.digest, d.format = .story := by
      decide +kernel
    cases (hall d hd).symm.trans hformat
  · cases hnotes 2 (by decide) _ (by simp [joinedRun, shownTwice]) _ second_shown

end Bulletin
