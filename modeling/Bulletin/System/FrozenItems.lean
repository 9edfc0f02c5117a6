import Bulletin.System.Redirect
import Bulletin.System.Rendered

/-! # What is rendered of a frozen digest

A retry links anew before it finds its digest frozen. A frozen story that the recompute
merges away has no clusters left to render, and its item is skipped.
-/

namespace Bulletin

variable {F : Type} [Score F] {sha256 : List UInt8 → List UInt8}
  {ts : List (Run.Transition Db (Action F))} {db db' : Db} {sub id s t : Uuid}

def MergedAway (ts : List (Run.Transition Db (Action F))) (sub s : Uuid) : Prop :=
  ∃ u ∈ ts, ∃ r, u.action = .recompute r ∧ r.subscriber = sub ∧ r.MergesAway u.before.story s

/-- The row of `s` points to `t`, the survivor it was merged into. -/
def MergedInto (table : StoryTable) (s t : Uuid) : Prop :=
  ∃ row, table[s]? = some row ∧ row.mergedInto = some t

/-- The digest renders an item for every frozen story, its own or that of a survivor, each story at
most once, and it is not empty unless it was frozen empty. -/
structure RendersFrozen (db : Db) (sub id : Uuid) : Prop where
  covered : ∀ s ∈ digestStories db.digest id, ∃ t ∈ digestStories db.digest id,
    Relation.ReflTransGen (MergedInto db.story) s t ∧
      (storyItem db.story db.digest db.cluster sub id t).isSome
  once : ∃ order : List Uuid, order.Nodup ∧ order.Perm (digestStories db.digest id) ∧
    renderItems db.story db.digest db.cluster sub id =
      order.filterMap (storyItem db.story db.digest db.cluster sub id)
  nonempty : digestStories db.digest id ≠ [] → renderItems db.story db.digest db.cluster sub id ≠ []

/-- Every frozen story is, or was merged into, a frozen story that no recompute merged away. -/
def FrozenSurvive (ts : List (Run.Transition Db (Action F))) (db : Db) (sub id : Uuid) : Prop :=
  ∀ s ∈ digestStories db.digest id, ∃ t ∈ digestStories db.digest id,
    Relation.ReflTransGen (MergedInto db.story) s t ∧ ¬ MergedAway ts sub t

/-- The clusters of the frozen stories exist. -/
def FrozenReadable (db : Db) (sub id : Uuid) : Prop :=
  ∀ s ∈ digestStories db.digest id, ∀ row, db.story[s]? = some row → ∀ c ∈ row.members,
    Readable db.cluster sub c

/-! ## Tombstones are the stories merged away -/

theorem Recompute.not_written_of_mergesAway {r : Recompute F} {table : StoryTable}
    (hreads : r.Reads table)
    (hapart : StoriesApart table r.subscriber) (haway : r.MergesAway table s) {story : LinkedStory}
    (hstory : story ∈ r.assignment.stories) : story.id ≠ s := by
  intro heq
  subst heq
  rcases Recompute.story_id hreads hapart hstory with ⟨⟨k, hk⟩, _⟩ | hnew
  · exact haway.2 k hk
  · obtain ⟨⟨_, _, row, hrow, _⟩, _⟩ := haway
    apply hnew
    rw [← Std.ExtTreeMap.isSome_getElem?_iff_mem, hrow]
    rfl

theorem mergedAway_snoc {u : Run.Transition Db (Action F)} :
    MergedAway (ts ++ [u]) sub s ↔ MergedAway ts sub s ∨
      ∃ r, u.action = .recompute r ∧ r.subscriber = sub ∧ r.MergesAway u.before.story s := by
  unfold MergedAway
  constructor
  · intro h
    obtain ⟨v, hv, hmerge⟩ := h
    rcases List.mem_append.mp hv with hin | hlast
    · exact Or.inl ⟨v, hin, hmerge⟩
    · rw [List.mem_singleton.mp hlast] at hmerge
      exact Or.inr hmerge
  · intro h
    rcases h with ⟨v, hv, hmerge⟩ | hmerge
    · exact ⟨v, List.mem_append_left _ hv, hmerge⟩
    · exact ⟨u, List.mem_append_right _ (List.mem_singleton_self _), hmerge⟩

theorem MergedAway.row (h : DbRuns sha256 ts db) (haway : MergedAway ts sub s) :
    ∃ row, db.story[s]? = some row ∧ row.subscriberId = sub := by
  obtain ⟨u, hu, r, _, rfl, ⟨_, _, row, hrow, hlive, _⟩, _⟩ := haway
  obtain ⟨_, _, _, hpre⟩ := h.before_of_mem hu
  have hkept : ∀ v ∈ ts, (∃ row, v.before.story[s]? = some row ∧ row.subscriberId = r.subscriber) →
      ∃ row, v.after.story[s]? = some row ∧ row.subscriberId = r.subscriber := by
    intro v hv hrow
    obtain ⟨row, hrow, hsub⟩ := hrow
    obtain ⟨_, _, _, hpre⟩ := h.before_of_mem hv
    obtain ⟨row', hrow', hsub'⟩ := Step.row_kept (h.step_of_mem hv) (DbRuns.apart hpre) hrow
    exact ⟨row', hrow', hsub'.trans hsub⟩
  exact Run.Runs.kept_of_mem h (Q := fun db => ∃ row, db.story[s]? = some row ∧
    row.subscriberId = r.subscriber)
    hkept hu (hkept u hu ⟨row, hrow, hlive.1⟩)

/-- A row is a tombstone exactly when its story was merged away. -/
theorem DbRuns.tombstone_iff (h : DbRuns sha256 ts db) {row : StoryRow}
    (hrow : db.story[s]? = some row) :
    row.mergedInto ≠ none ↔ MergedAway ts row.subscriberId s := by
  refine Run.Runs.invariant h (fun pre db => ∀ row, db.story[s]? = some row →
    (row.mergedInto ≠ none ↔ MergedAway pre row.subscriberId s)) ?_ ?_ row hrow
  · intro row hrow
    cases Std.ExtTreeMap.getElem?_empty.symm.trans hrow
  · intro pre u post _ hpre hstep hI row' hrow'
    have hapart := DbRuns.apart hpre
    rw [mergedAway_snoc]
    cases hstep.row hapart hrow' with
    | written r story haction hreads hstory hid _ hlive hold =>
        refine iff_of_false (fun hne => hne hlive.2) ?_
        intro hor
        rcases hor with haway | ⟨r', haction', _, haway⟩
        · obtain ⟨row₀, hrow₀, hsub⟩ := MergedAway.row hpre haway
          rcases hold with hnone | ⟨_, _, row₁, hrow₁, hlive₁, _⟩
          · cases hnone.symm.trans hrow₀
          · obtain rfl := Option.some.inj (hrow₀.symm.trans hrow₁)
            exact (hI row₀ hrow₀).mpr (hsub.symm ▸ haway) hlive₁.2
        · obtain rfl := Action.recompute.inj (haction.symm.trans haction')
          exact Recompute.not_written_of_mergesAway hreads (hapart _) haway hstory hid
    | mergedAway r survivor _ row haction _ haway _ _ _ hlive heq =>
        subst heq
        exact iff_of_true (Option.some_ne_none survivor) (Or.inr ⟨r, haction, hlive.1.symm, haway⟩)
    | kept row hold hsame hnot =>
        rw [hsame.mergedInto, hI row hold, hsame.1]
        constructor
        · exact Or.inl
        · intro hor
          rcases hor with haway | ⟨r, haction, _, haway⟩
          · exact haway
          · exact absurd haway.1 (hnot r haction)

/-! ## Frozen stories are the subscriber's own -/

/-- The items of a digest are stories of its subscriber, each once. -/
structure ItemsOwn (db : Db) : Prop where
  own : ∀ {id : Uuid} {d : DigestRow}, db.digest[id]? = some d → ∀ item ∈ d.items,
    ∃ row, db.story[item.storyId]? = some row ∧ row.subscriberId = d.subscriberId
  nodup : ∀ {id : Uuid} {d : DigestRow}, db.digest[id]? = some d → (d.items.map (·.storyId)).Nodup

theorem Step.itemsOwn {a : Action F} (h : Step sha256 db a db')
    (hapart : ∀ sub, StoriesApart db.story sub) (hown : ItemsOwn db) : ItemsOwn db' := by
  have hkept : ∀ {s owner : Uuid}, (∃ row, db.story[s]? = some row ∧ row.subscriberId = owner) →
      ∃ row, db'.story[s]? = some row ∧ row.subscriberId = owner := by
    intro s owner hrow
    obtain ⟨row, hrow, hsub⟩ := hrow
    obtain ⟨row', hrow', hsub'⟩ := h.row_kept hapart hrow
    exact ⟨row', hrow', hsub'.trans hsub⟩
  have hsame : db'.digest = db.digest → ItemsOwn db' := by
    intro heq
    constructor
    · intro id d hd item hitem
      exact hkept (hown.own (heq ▸ hd) item hitem)
    · intro id d hd
      exact hown.nodup (heq ▸ hd)
  obtain ⟨henabled, rfl⟩ := h
  cases a with
  | createDigest id sub windowEnd items =>
      obtain ⟨_, hnodup, hstories⟩ := henabled
      constructor
      · intro id' d hd item hitem
        rcases createWithItems_row hd with hold | ⟨_, _, rfl⟩
        · exact hkept (hown.own hold item hitem)
        · have hmem : item.storyId ∈ items.map (·.storyId) :=
            newDigest_stories items ▸ List.mem_map_of_mem hitem
          obtain ⟨frozen, hin, hid⟩ := List.mem_map.mp hmem
          obtain ⟨row, hrow⟩ := Option.isSome_iff_exists.mp (hstories frozen hin)
          exact hkept ⟨row, hid ▸ ownStory_eq_some.mp hrow⟩
      · intro id' d hd
        rcases createWithItems_row hd with hold | ⟨_, _, rfl⟩
        · exact hown.nodup hold
        · rw [newDigest_stories]
          exact hnodup
  | markDelivered id sub =>
      constructor
      · intro id' d hd item hitem
        obtain ⟨old, hold, hsub, _, hitems⟩ := deliver_row hd
        rw [hsub]
        exact hkept (hown.own hold item (hitems ▸ hitem))
      · intro id' d hd
        obtain ⟨old, hold, _, _, hitems⟩ := deliver_row hd
        rw [hitems]
        exact hown.nodup hold
  | recompute r => exact hsame rfl
  | loadQueue sweep sub model queue => exact hsame rfl
  | readMembers sweep => exact hsame rfl
  | record sweep outcome => exact hsame rfl
  | passOver sweep => exact hsame rfl
  | abort sweep => exact hsame rfl
  | ingest cluster event => exact hsame rfl
  | wait duration => exact hsame rfl

theorem DbRuns.itemsOwn (h : DbRuns sha256 ts db) : ItemsOwn db := by
  refine Run.Runs.state_invariant h ItemsOwn ?_ ?_
  · constructor
    · intro id d hd
      cases Std.ExtTreeMap.getElem?_empty.symm.trans hd
    · intro id d hd
      cases Std.ExtTreeMap.getElem?_empty.symm.trans hd
  · intro t ht hstep hown
    obtain ⟨_, _, _, hpre⟩ := h.before_of_mem ht
    exact hstep.itemsOwn (DbRuns.apart hpre) hown

/-! ## Rendered is not merged away -/

/-- With its clusters there, a frozen story has an item of its own unless it was merged away. -/
theorem DbRuns.storyItem_iff (h : DbRuns sha256 ts db) {d : DigestRow}
    (hd : db.digest[id]? = some d)
    (hreadable : FrozenReadable db d.subscriberId id) (hs : s ∈ digestStories db.digest id) :
    (storyItem db.story db.digest db.cluster d.subscriberId id s).isSome ↔
      ¬ MergedAway ts d.subscriberId s := by
  have hitem : ∃ item ∈ d.items, item.storyId = s := by
    unfold digestStories at hs
    rw [hd] at hs
    exact List.mem_map.mp hs
  obtain ⟨item, hitem, rfl⟩ := hitem
  obtain ⟨row, hrow, hsub⟩ := (DbRuns.itemsOwn h).own hd item hitem
  rw [storyItem_isSome hs (ownStory_eq_some.mpr ⟨hrow, hsub⟩), ← hsub,
    ← h.tombstone_iff hrow, not_not]
  constructor
  · intro hmember
    obtain ⟨c, hc, _⟩ := hmember
    by_contra hdead
    have hempty := (DbRuns.apart h row.subscriberId).tombstoned hrow rfl hdead
    unfold StoryRow.members at hc
    rw [hempty] at hc
    cases hc
  · intro hlive
    obtain ⟨ref, href⟩ := List.exists_mem_of_ne_nil _ ((DbRuns.recorded h).filled hrow hlive)
    have hmem : ref.clusterId ∈ row.members := List.mem_map_of_mem href
    exact ⟨_, hmem, hsub ▸ hreadable _ hs row hrow _ hmem⟩

/-- In every state of a run in which the clusters of a frozen digest exist, the digest renders what
was frozen exactly when every frozen story survived, itself or in another frozen one. -/
theorem frozen_items_render_iff (h : DbRuns sha256 ts db) {d : DigestRow}
    (hd : db.digest[id]? = some d) (hreadable : FrozenReadable db d.subscriberId id) :
    RendersFrozen db d.subscriberId id ↔ FrozenSurvive ts db d.subscriberId id := by
  constructor
  · intro hrenders s hs
    obtain ⟨t, ht, hpath, hitem⟩ := hrenders.covered s hs
    exact ⟨t, ht, hpath, (h.storyItem_iff hd hreadable ht).mp hitem⟩
  · intro hsurvive
    have hcovered : ∀ s ∈ digestStories db.digest id, ∃ t ∈ digestStories db.digest id,
        Relation.ReflTransGen (MergedInto db.story) s t ∧
          (storyItem db.story db.digest db.cluster d.subscriberId id t).isSome := by
      intro s hs
      obtain ⟨t, ht, hpath, hkept⟩ := hsurvive s hs
      exact ⟨t, ht, hpath, (h.storyItem_iff hd hreadable ht).mpr hkept⟩
    have hnodup : (digestStories db.digest id).Nodup := by
      unfold digestStories
      rw [hd]
      exact (DbRuns.itemsOwn h).nodup hd
    refine ⟨hcovered, ⟨_, renderOrder_perm.nodup_iff.mpr hnodup, renderOrder_perm,
      renderItems_eq⟩, ?_⟩
    intro hne
    obtain ⟨s, hs⟩ := List.exists_mem_of_ne_nil _ hne
    obtain ⟨t, ht, _, hitem⟩ := hcovered s hs
    obtain ⟨item, hitem⟩ := Option.isSome_iff_exists.mp hitem
    rw [renderItems_eq]
    exact List.ne_nil_of_mem (List.mem_filterMap.mpr ⟨t, renderOrder_perm.mem_iff.mpr ht, hitem⟩)

/-! ## A retry whose recompute merges the frozen story away -/

def retriedClusters (entities : List String) : List LinkCluster :=
  [feedCluster 1 ["cve:a"] (-345600000000), feedCluster 2 entities 0]

def firstDb₁ : Db := grownIngest.apply plainDigest {}

def firstLink : Recompute ℚ := .onTable ∅ 7 (retriedClusters ["cve:b"]) {} 100

def firstDb₂ : Db := (Action.recompute firstLink).apply plainDigest firstDb₁

def firstCreate : Action ℚ := .createDigest 500 7 10 ((Fire.plain ℚ 10).items firstLink ∅)

def firstDb₃ : Db := firstCreate.apply plainDigest firstDb₂

def firstRun : List (Run.Transition Db (Action ℚ)) :=
  [⟨{}, grownIngest, firstDb₁⟩, ⟨firstDb₁, .recompute firstLink, firstDb₂⟩,
    ⟨firstDb₂, firstCreate, firstDb₃⟩]

theorem firstRun_runs : DbRuns plainDigest firstRun firstDb₃ := by
  have ingest : Step plainDigest {} grownIngest firstDb₁ := ⟨trivial, rfl⟩
  have link : Step plainDigest firstDb₁ (Action.recompute firstLink) firstDb₂ :=
    ⟨Recompute.onTable_reads (by decide +kernel) (by decide +kernel), rfl⟩
  have create : Step plainDigest firstDb₂ firstCreate firstDb₃ :=
    ⟨⟨by decide +kernel, by decide +kernel, by decide +kernel⟩, rfl⟩
  exact Run.Runs.snoc (Run.Runs.snoc (Run.Runs.snoc Run.Runs.nil ingest) link) create

/-- The retry links what a first attempt froze, with these entities on cluster 2. -/
def retryLink (entities : List String) : Recompute ℚ :=
  .onTable firstDb₃.story 7 (retriedClusters entities) {} 200

def retryDb (entities : List String) : Db :=
  (Action.recompute (retryLink entities)).apply plainDigest firstDb₃

def retryRun (entities : List String) : List (Run.Transition Db (Action ℚ)) :=
  firstRun ++ [⟨firstDb₃, .recompute (retryLink entities), retryDb entities⟩]

theorem retryRun_runs (entities : List String) : DbRuns plainDigest (retryRun entities)
    (retryDb entities) := by
  have retry : Step plainDigest firstDb₃
      (Action.recompute (retryLink entities)) (retryDb entities) :=
    ⟨Recompute.onTable_reads (show ([1, 2] : List Uuid).Nodup by decide) (by decide +kernel), rfl⟩
  exact Run.Runs.snoc firstRun_runs retry

theorem frozenReadable_of_all {d : Db} {sub id : Uuid}
    (h : ((digestStories d.digest id).all fun s =>
    d.story[s]?.all fun row => row.members.all fun c =>
      d.cluster[c]?.any fun cluster => cluster.key.scope.visibleTo sub) = true) :
        FrozenReadable d sub id := by
  intro s hs row hrow c hc
  have hstory := List.all_eq_true.mp h s hs
  rw [hrow, Option.all_some] at hstory
  exact Option.any_eq_true _ _ |>.mp (List.all_eq_true.mp hstory c hc)

theorem frozen_items_render_iff_kept :
    digestStories (retryDb ["cve:b"]).digest 500 = [101] ∧
      RendersFrozen (retryDb ["cve:b"]) 7 500 := by
  have hstories : digestStories (retryDb ["cve:b"]).digest 500 = [101] := by decide +kernel
  refine ⟨hstories, ?_⟩
  have hdigest : ((retryDb ["cve:b"]).digest[(500 : Uuid)]?.any fun d =>
      d.subscriberId = 7) = true := by
    decide +kernel
  have hstory : ((retryDb ["cve:b"]).story[(101 : Uuid)]?.any fun row => row.Live 7) = true := by
    decide +kernel
  obtain ⟨d, hd, hsub⟩ := Option.any_eq_true _ _ |>.mp hdigest
  obtain ⟨row, hrow, hlive⟩ := Option.any_eq_true _ _ |>.mp hstory
  obtain ⟨howner, hmerged⟩ := of_decide_eq_true hlive
  have hrun := retryRun_runs ["cve:b"]
  have hkept : ¬ MergedAway (retryRun ["cve:b"]) 7 101 := by
    intro haway
    exact (hrun.tombstone_iff hrow).mpr (howner.symm ▸ haway) hmerged
  rw [← of_decide_eq_true hsub]
  refine (frozen_items_render_iff hrun hd (frozenReadable_of_all ?_)).mpr ?_
  · rw [of_decide_eq_true hsub]
    decide +kernel
  · intro s hs
    rw [hstories, List.mem_singleton] at hs
    subst hs
    rw [of_decide_eq_true hsub]
    exact ⟨101, by rw [hstories]; exact List.mem_singleton_self _,
      Relation.ReflTransGen.refl, hkept⟩

/-- Between the attempts cluster 2 is found to share an identifier with cluster 1. Story 101 is
merged into the older story 100, which is not in the digest, and nothing is rendered. -/
theorem frozen_item_lost :
    DbRuns plainDigest (retryRun ["cve:a", "cve:b"]) (retryDb ["cve:a", "cve:b"]) ∧
      digestStories (retryDb ["cve:a", "cve:b"]).digest 500 = [101] ∧
      FrozenReadable (retryDb ["cve:a", "cve:b"]) 7 500 ∧
      (retryDb ["cve:a", "cve:b"]).story[(100 : Uuid)]?.map (·.members) = some [1, 2] ∧
      renderItems (retryDb ["cve:a", "cve:b"]).story (retryDb ["cve:a", "cve:b"]).digest
        (retryDb ["cve:a", "cve:b"]).cluster 7 500 = [] ∧
      ¬ RendersFrozen (retryDb ["cve:a", "cve:b"]) 7 500 := by
  have hempty : renderItems (retryDb ["cve:a", "cve:b"]).story (retryDb ["cve:a", "cve:b"]).digest
      (retryDb ["cve:a", "cve:b"]).cluster 7 500 = [] := by decide +kernel
  have hstories : digestStories (retryDb ["cve:a", "cve:b"]).digest 500 = [101] := by decide +kernel
  refine ⟨retryRun_runs _, hstories, frozenReadable_of_all (by decide +kernel),
    by decide +kernel, hempty, ?_⟩
  intro hrenders
  exact hrenders.nonempty (by rw [hstories]; exact List.cons_ne_nil _ _) hempty

end Bulletin
