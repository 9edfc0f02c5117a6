import Bulletin.Link.Store

/-! # One recompute on the story table

A recompute reads the live stories of one subscriber, links the candidates and
persists the assignment. `RowFate` says once what it can do to a row; the membership
of the stories afterwards follows from it.
-/

namespace Bulletin

/-- A recompute of one subscriber: the candidates, the prior assignment it read and
the ids it would mint. -/
structure Recompute (F : Type) where
  subscriber : Uuid
  candidates : List LinkCluster
  prior : List PriorMember
  tuning : LinkTuning F
  mint : Nat → Uuid

namespace Recompute

variable {F : Type}

def clusters (r : Recompute F) : Fin r.candidates.length → LinkCluster := r.candidates.get

/-- The cluster is among the candidates. -/
def Candidate (r : Recompute F) (c : Uuid) : Prop := ∃ i, (r.clusters i).id = c

/-- The recompute ran on this table: unique candidate ids, the live members in
whatever order the store returned them, and new ids for new stories. -/
structure Reads (r : Recompute F) (table : StoryTable) : Prop where
  ids : (r.candidates.map (·.id)).Nodup
  prior : r.prior.Perm (loadPriorMembers table r.subscriber)
  mint_injective : Function.Injective r.mint
  mint_unused : ∀ k, r.mint k ∉ table

def Represented (r : Recompute F) (table : StoryTable) (s : Uuid) : Prop :=
  ∃ c, r.Candidate c ∧ Member table r.subscriber s c

section Inputs

variable {r : Recompute F} {table : StoryTable}

theorem Reads.ids_injective (h : r.Reads table) :
    Function.Injective fun i => (r.clusters i).id := by
  intro i j hij
  have hnodup := h.ids
  rw [List.nodup_iff_injective_get] at hnodup
  have hlen : ∀ k : Fin r.candidates.length, k.val < (r.candidates.map (·.id)).length := by
    intro k
    simp
  have heq : (⟨i.val, hlen i⟩ : Fin (r.candidates.map (·.id)).length) = ⟨j.val, hlen j⟩ := by
    apply hnodup
    simpa [clusters] using hij
  exact Fin.ext (Fin.mk.inj heq)

theorem Reads.freshMint (h : r.Reads table) : FreshMint r.mint r.prior where
  injective := h.mint_injective
  unused := by
    intro k p hp heq
    obtain ⟨row, hrow, _⟩ := mem_loadPriorMembers.mp (h.prior.mem_iff.mp hp)
    apply h.mint_unused k
    rw [heq, ← Std.ExtTreeMap.isSome_getElem?_iff_mem, hrow]
    rfl

theorem Reads.prior_nodup (h : r.Reads table) (hapart : StoriesApart table r.subscriber) :
    (r.prior.map (·.clusterId)).Nodup :=
  (h.prior.map _).nodup_iff.mpr hapart.prior_nodup

theorem Reads.ownedBy (h : r.Reads table) {s c : Uuid} :
    OwnedBy r.prior s c ↔ Member table r.subscriber s c := by
  rw [← ownedBy_loadPriorMembers]
  unfold OwnedBy
  simp only [h.prior.mem_iff]

theorem Reads.deliveredPrior (h : r.Reads table) {s c : Uuid}
    (hc : Member table r.subscriber s c) :
    DeliveredPrior r.prior s ↔ Delivered table r.subscriber s := by
  rw [← deliveredPrior_loadPriorMembers hc]
  unfold DeliveredPrior
  simp only [h.prior.mem_iff]

/-- The prior story the run sees for a candidate is the live story it is a member of. -/
theorem Reads.priorStory (h : r.Reads table) (hapart : StoriesApart table r.subscriber)
    {s c : Uuid} : (Bulletin.priorStory r.prior)[c]? = some s ↔ Member table r.subscriber s c := by
  rw [priorStory_eq_some_iff (h.prior_nodup hapart), h.ownedBy]

end Inputs

variable [Score F]

def assignment (r : Recompute F) : Assignment := linkWith r.clusters r.prior r.tuning r.mint

/-- The story table after the recompute. -/
def persist (r : Recompute F) (now : DateTime) (table : StoryTable) : StoryTable :=
  persistAssignment now r.subscriber r.assignment table

/-- The components of the recompute. -/
def components (r : Recompute F) : Components r.candidates.length :=
  linkComponents r.clusters r.prior r.tuning

def wanted (r : Recompute F) : List (List Uuid) := wants r.clusters r.components r.prior

/-- The recompute merges the live story `s` away: it is represented among the
candidates, and no component keeps it. -/
def MergesAway (r : Recompute F) (table : StoryTable) (s : Uuid) : Prop :=
  r.Represented table s ∧ ∀ k, ¬ Claim.Keeps r.wanted k s

def KeepsFor (r : Recompute F) (c s : Uuid) : Prop :=
  ∃ (k : Nat) (S : Finset Uuid), (idSets r.clusters r.components)[k]? = some S ∧ c ∈ S ∧
    Claim.Keeps r.wanted k s

/-! ## The assignment of a recompute -/

section Assignment

variable {r : Recompute F} {table : StoryTable}

theorem mem_wanted (h : r.Reads table) (hapart : StoriesApart table r.subscriber) {s : Uuid} :
    (∃ w ∈ r.wanted, s ∈ w) ↔ r.Represented table s := by
  have hpart := (components_splits r.clusters (linkEdges r.clusters r.tuning) r.prior).partitions
  unfold wanted wants
  constructor
  · intro hw
    obtain ⟨w, hw, hs⟩ := hw
    obtain ⟨ms, _, rfl⟩ := List.mem_map.mp hw
    obtain ⟨i, _, hi⟩ := mem_componentPriorIds.mp hs
    exact ⟨_, ⟨i, rfl⟩, (h.priorStory hapart).mp hi⟩
  · intro hs
    obtain ⟨c, ⟨i, rfl⟩, hc⟩ := hs
    obtain ⟨k, ms, hk, hi⟩ := @exists_position _ r.clusters _ hpart i
    exact ⟨_, List.mem_map_of_mem (List.mem_of_getElem? hk),
      mem_componentPriorIds.mpr ⟨i, hi, (h.priorStory hapart).mpr hc⟩⟩

theorem story_id (h : r.Reads table) (hapart : StoriesApart table r.subscriber)
    {story : LinkedStory} (hstory : story ∈ r.assignment.stories) :
    (∃ k, Claim.Keeps r.wanted k story.id) ∧ r.Represented table story.id ∨ story.id ∉ table := by
  obtain ⟨k, ms, s, _, hs, rfl⟩ := mem_stories.mp hstory
  rcases survivors_spec h.freshMint hs with hkeep | ⟨⟨j, hj⟩, _⟩
  · obtain ⟨w, hw, hin⟩ := hkeep.wanted
    exact Or.inl ⟨⟨k, hkeep⟩, (mem_wanted h hapart).mp ⟨w, List.mem_of_getElem? hw, hin⟩⟩
  · apply Or.inr
    show s ∉ table
    rw [hj]
    exact h.mint_unused j

theorem exists_story_of_keeps (h : r.Reads table) {k : Nat} {s : Uuid}
    (hk : Claim.Keeps r.wanted k s) : ∃ story ∈ r.assignment.stories, story.id = s := by
  have hs := survivors_of_keeps h.freshMint hk
  obtain ⟨w, hw, _⟩ := hk.wanted
  unfold wanted at hw
  rw [wants_getElem?, Option.map_eq_some_iff] at hw
  obtain ⟨ms, hms, _⟩ := hw
  exact ⟨_, mem_stories.mpr ⟨k, ms, s, hms, hs, rfl⟩, rfl⟩

theorem le_story_lastEventTime (hids : Function.Injective fun i => (r.clusters i).id)
    {story : LinkedStory} (hstory : story ∈ r.assignment.stories) {t : DateTime} :
    t ≤ story.lastEventTime ↔
      ∃ c ∈ r.candidates, c.id ∈ story.members ∧ t ≤ c.lastEventTime := by
  obtain ⟨k, ms, s, _, _, rfl⟩ := mem_stories.mp hstory
  have hne : ms.toList.map (fun i => (r.clusters i).lastEventTime) ≠ [] := by
    simpa using ms.nonempty
  have hmax : (linkedStory r.clusters (memberReasons (linkEdges r.clusters r.tuning)
      (linkComponents r.clusters r.prior r.tuning)) (ms, s)).lastEventTime =
        (ms.toList.map fun i => (r.clusters i).lastEventTime).max hne := rfl
  rw [hmax]
  constructor
  · intro hle
    obtain ⟨i, hi, heq⟩ := List.mem_map.mp (List.max_mem hne)
    exact ⟨r.clusters i, List.get_mem _ _, mem_members.mpr ⟨i, hi, rfl⟩, heq ▸ hle⟩
  · intro h
    obtain ⟨c, hc, hmember, hle⟩ := h
    obtain ⟨j, rfl⟩ := List.mem_iff_get.mp hc
    obtain ⟨i, hi, hid⟩ := mem_members.mp hmember
    obtain rfl : i = j := hids hid
    have hmem : (r.clusters i).lastEventTime ∈ ms.toList.map fun i =>
        (r.clusters i).lastEventTime :=
      List.mem_map.mpr ⟨i, hi, rfl⟩
    exact le_trans hle (List.le_max_of_mem hmem)

theorem placed_of_keepsFor (h : r.Reads table) {c s : Uuid} (hk : r.KeepsFor c s) :
    Placed r.assignment c s := by
  obtain ⟨k, S, hS, hc, hkeep⟩ := hk
  exact placed_iff_idSets.mpr ⟨k, S, hS, hc, survivors_of_keeps h.freshMint hkeep⟩

/-- A merge takes a story away and points to one that received some of its clusters. -/
theorem merge_spec (h : r.Reads table) (hapart : StoriesApart table r.subscriber) {m : Merge}
    (hm : m ∈ r.assignment.merges) :
    r.MergesAway table m.loser ∧ ∃ c, Member table r.subscriber m.loser c ∧
      Placed r.assignment c m.survivor := by
  obtain ⟨k, ms, hms, hs, hloser, hnone⟩ := (mem_merges h.freshMint).mp hm
  obtain ⟨i, hi, hprior⟩ := mem_componentPriorIds.mp hloser
  have hmember := (h.priorStory hapart).mp hprior
  refine ⟨⟨⟨_, ⟨i, rfl⟩, hmember⟩, hnone⟩, _, hmember, ?_⟩
  exact ⟨_, mem_stories.mpr ⟨k, ms, _, hms, hs, rfl⟩, rfl, mem_members.mpr ⟨i, hi, rfl⟩⟩

theorem exists_merge (h : r.Reads table) (hapart : StoriesApart table r.subscriber) {s : Uuid}
    (hs : r.MergesAway table s) : ∃ m ∈ r.assignment.merges, m.loser = s := by
  have hpart := (components_splits r.clusters (linkEdges r.clusters r.tuning) r.prior).partitions
  obtain ⟨⟨c, ⟨i, rfl⟩, hc⟩, hnone⟩ := hs
  obtain ⟨k, ms, hk, hi⟩ := @exists_position _ r.clusters _ hpart i
  obtain ⟨t, ht⟩ := exists_survivor r.prior r.mint hk
  exact ⟨⟨s, t⟩, (mem_merges h.freshMint).mpr ⟨k, ms, hk, ht,
    mem_componentPriorIds.mpr ⟨i, hi, (h.priorStory hapart).mpr hc⟩, hnone⟩, rfl⟩

theorem Reads.writable (h : r.Reads table) (hapart : StoriesApart table r.subscriber) :
    r.assignment.Writable where
  nodup := stories_ids_perm.nodup_iff.mpr (survivors_nodup h.freshMint)
  apart := by
    intro m hm story hstory heq
    obtain ⟨⟨hrep, hnone⟩, _⟩ := merge_spec h hapart hm
    rcases story_id h hapart hstory with ⟨⟨k, hk⟩, _⟩ | hnew
    · exact hnone k (heq ▸ hk)
    · obtain ⟨_, _, row, hrow, _⟩ := hrep
      apply hnew
      rw [heq, ← Std.ExtTreeMap.isSome_getElem?_iff_mem, hrow]
      rfl

end Assignment

/-! ## What happens to a row -/

/-- The three things a recompute can do to the row of an id. -/
inductive RowFate (r : Recompute F) (now : DateTime) (table : StoryTable) (s : Uuid) : Prop
  /-- A story is written under the id: a represented one it keeps, or a new one. -/
  | written (story : LinkedStory) (hstory : story ∈ r.assignment.stories) (hid : story.id = s)
      (hold : table[s]? = none ∨ r.Represented table s)
      (hrow : (r.persist now table)[s]? = some (upsertRow now r.subscriber story table[s]?))
  /-- The id loses to a story that received some of its clusters. -/
  | mergedAway (survivor c : Uuid) (row : StoryRow) (haway : r.MergesAway table s)
      (hold : table[s]? = some row) (hlive : row.Live r.subscriber)
      (hmoved : Member table r.subscriber s c ∧ Placed r.assignment c survivor)
      (hstory : ∀ story ∈ r.assignment.stories, story.id ≠ s)
      (hrow : (r.persist now table)[s]? =
        some { row with mergedInto := some survivor, clusters := [], updatedAt := now })
  /-- No candidate is in the story, and its row stays as it was. -/
  | untouched (hstory : ∀ story ∈ r.assignment.stories, story.id ≠ s)
      (hnot : ¬ r.Represented table s) (hrow : (r.persist now table)[s]? = table[s]?)

section Fate

variable {r : Recompute F} {table : StoryTable}

theorem not_mem_iff {s : Uuid} : s ∉ table ↔ table[s]? = none := by
  rw [← Std.ExtTreeMap.isSome_getElem?_iff_mem, Option.not_isSome_iff_eq_none]

theorem rowFate (h : r.Reads table) (hapart : StoriesApart table r.subscriber) (now : DateTime)
    (s : Uuid) : RowFate r now table s := by
  have hwritable := h.writable hapart
  by_cases hstory : ∃ story ∈ r.assignment.stories, story.id = s
  · obtain ⟨story, hmem, rfl⟩ := hstory
    apply RowFate.written story hmem rfl
    · rcases story_id h hapart hmem with ⟨_, hrep⟩ | hnew
      · exact Or.inr hrep
      · exact Or.inl (not_mem_iff.mp hnew)
    · exact persist_story hwritable hmem
  · have hnone : ∀ story ∈ r.assignment.stories, story.id ≠ s := by
      intro story hmem heq
      exact hstory ⟨story, hmem, heq⟩
    by_cases hmerge : ∃ m ∈ r.assignment.merges, m.loser = s
    · obtain ⟨m, hm, rfl⟩ := hmerge
      obtain ⟨last, hlast, hloser, hrow⟩ := persist_loser hwritable hm
      obtain ⟨haway, c, hc, hplaced⟩ := merge_spec h hapart hlast
      rw [hloser] at haway hc
      obtain ⟨row, hold, hlive, _⟩ := id hc
      apply RowFate.mergedAway last.survivor c row haway hold hlive ⟨hc, hplaced⟩ hnone
      unfold persist
      rw [hrow, hold, Option.map_some, tombstone_of_owner _ hlive.1]
    · have hother : ∀ m ∈ r.assignment.merges, m.loser ≠ s := by
        intro m hm heq
        exact hmerge ⟨m, hm, heq⟩
      apply RowFate.untouched hnone
      · intro hrep
        by_cases hkeep : ∃ k, Claim.Keeps r.wanted k s
        · obtain ⟨k, hk⟩ := hkeep
          exact hstory (exists_story_of_keeps h hk)
        · exact hmerge (exists_merge h hapart ⟨hrep, fun k hk => hkeep ⟨k, hk⟩⟩)
      · exact persist_other hnone hother

omit [Score F] in
theorem written_subscriber {now : DateTime} {story : LinkedStory} {s : Uuid}
    (hold : table[s]? = none ∨ r.Represented table s) :
    (upsertRow now r.subscriber story table[s]?).subscriberId = r.subscriber := by
  rw [upsertRow_subscriberId]
  rcases hold with hnone | ⟨_, _, row, hrow, hlive, _⟩
  · rw [hnone]
    rfl
  · rw [hrow]
    exact hlive.1

theorem persist_foreign (h : r.Reads table) (hapart : StoriesApart table r.subscriber)
    (now : DateTime) {s : Uuid} {row : StoryRow} (hrow : row.subscriberId ≠ r.subscriber) :
    (r.persist now table)[s]? = some row ↔ table[s]? = some row := by
  cases rowFate h hapart now s with
  | written story _ _ hold hnew =>
      rw [hnew]
      constructor
      · intro heq
        exact absurd (Option.some.inj heq ▸ written_subscriber hold) hrow
      · intro heq
        rcases hold with hnone | ⟨_, _, row', hrow', hlive, _⟩
        · cases hnone.symm.trans heq
        · exact absurd (Option.some.inj (hrow'.symm.trans heq) ▸ hlive.1) hrow
  | mergedAway _ _ row' _ hold hlive _ _ hnew =>
      rw [hnew, hold]
      constructor
      · intro heq
        exact absurd (Option.some.inj heq ▸ hlive.1) hrow
      · intro heq
        exact absurd (Option.some.inj heq ▸ hlive.1) hrow
  | untouched _ _ hnew => rw [hnew]

theorem member_persist_foreign (h : r.Reads table) (hapart : StoriesApart table r.subscriber)
    (now : DateTime) {sub s c : Uuid} (hsub : sub ≠ r.subscriber) :
    Member (r.persist now table) sub s c ↔ Member table sub s c := by
  have hrow : ∀ row : StoryRow, row.Live sub →
      ((r.persist now table)[s]? = some row ↔ table[s]? = some row) := by
    intro row hlive
    exact persist_foreign h hapart now (hlive.1.symm ▸ hsub)
  exact exists_congr fun row => ⟨fun hm => ⟨(hrow row hm.2.1).mp hm.1, hm.2⟩,
    fun hm => ⟨(hrow row hm.2.1).mpr hm.1, hm.2⟩⟩

/-! ## Membership afterwards -/

/-- Afterwards a story holds the clusters the run placed in it, or, when no candidate was in
it, the clusters it held before. -/
theorem member_persist (h : r.Reads table) (hapart : StoriesApart table r.subscriber)
    (now : DateTime) {s c : Uuid} :
    Member (r.persist now table) r.subscriber s c ↔
      Placed r.assignment c s ∨ Member table r.subscriber s c ∧ ¬ r.Represented table s := by
  cases rowFate h hapart now s with
  | written story hstory hid hold hnew =>
      have hplaced : Placed r.assignment c s ↔ c ∈ story.members := by
        constructor
        · intro hp
          obtain ⟨story', hstory', hid', hc⟩ := hp
          obtain rfl := List.inj_on_of_nodup_map (h.writable hapart).nodup hstory' hstory
            (hid'.trans hid.symm)
          exact hc
        · intro hc
          exact ⟨story, hstory, hid, hc⟩
      have hnot : ¬ (Member table r.subscriber s c ∧ ¬ r.Represented table s) := by
        intro hold'
        rcases hold with hnone | hrep
        · obtain ⟨row, hrow, _⟩ := hold'.1
          cases hnone.symm.trans hrow
        · exact hold'.2 hrep
      rw [hplaced, or_iff_left hnot]
      constructor
      · intro hmem
        obtain ⟨row, hrow, _, hc⟩ := hmem
        obtain rfl := Option.some.inj (hnew.symm.trans hrow)
        rwa [upsertRow_members] at hc
      · intro hc
        refine ⟨_, hnew, ⟨written_subscriber hold, upsertRow_mergedInto _ _⟩, ?_⟩
        rwa [upsertRow_members]
  | mergedAway survivor _ row haway _ _ _ hstory hnew =>
      constructor
      · intro hmem
        obtain ⟨row', hrow', hlive', _⟩ := hmem
        obtain rfl := Option.some.inj (hnew.symm.trans hrow')
        cases hlive'.2
      · intro hor
        rcases hor with ⟨story, hmem, hid, _⟩ | ⟨_, hnot⟩
        · exact absurd hid (hstory story hmem)
        · exact absurd haway.1 hnot
  | untouched hstory hnot hnew =>
      have hplaced : ¬ Placed r.assignment c s := by
        intro hp
        obtain ⟨story, hmem, hid, _⟩ := hp
        exact hstory story hmem hid
      unfold Member
      rw [hnew, or_iff_right hplaced, and_iff_left hnot]

/-- A story keeps its delivered flag unless it is merged away. -/
theorem delivered_persist (h : r.Reads table) (hapart : StoriesApart table r.subscriber)
    (now : DateTime) {s : Uuid} (hd : Delivered table r.subscriber s)
    (hkept : ¬ r.MergesAway table s) : Delivered (r.persist now table) r.subscriber s := by
  obtain ⟨row, hrow, hlive, hflag⟩ := hd
  cases rowFate h hapart now s with
  | written story _ _ hold hnew =>
      refine ⟨_, hnew, ⟨written_subscriber hold, upsertRow_mergedInto _ _⟩, ?_⟩
      rw [upsertRow_lastDeliveredAt, hrow, Option.bind_some, hflag]
  | mergedAway _ _ _ haway _ _ _ _ _ => exact absurd haway hkept
  | untouched _ _ hnew => exact ⟨row, hnew.trans hrow, hlive, hflag⟩

omit [Score F] in
theorem candidate_iff {c : Uuid} : r.Candidate c ↔ ∃ x ∈ r.candidates, x.id = c := by
  constructor
  · intro h
    obtain ⟨i, rfl⟩ := h
    exact ⟨_, List.get_mem _ i, rfl⟩
  · intro h
    obtain ⟨x, hx, rfl⟩ := h
    obtain ⟨i, hi⟩ := List.get_of_mem hx
    exact ⟨i, by rw [clusters, hi]⟩

theorem existsUnique_placed (h : r.Reads table) {c : Uuid} (hc : r.Candidate c) :
    ∃! s, Placed r.assignment c s := by
  obtain ⟨i, rfl⟩ := hc
  obtain ⟨s, hs⟩ := exists_placed r.prior r.tuning r.mint i
  refine ⟨s, hs, ?_⟩
  intro t ht
  exact placed_unique h.ids_injective ht hs

theorem story_members_nodup (h : r.Reads table) {story : LinkedStory}
    (hstory : story ∈ r.assignment.stories) : story.members.Nodup := by
  have hpart := (components_splits r.clusters (linkEdges r.clusters r.tuning) r.prior).partitions
  obtain ⟨k, ms, s, hms, _, rfl⟩ := mem_stories.mp hstory
  obtain ⟨entry, hentry, rfl⟩ := mem_orderedComponents.mp (List.mem_of_getElem? hms)
  have hnodup : entry.2.toList.Nodup :=
    (List.nodup_flatMap.mp (hpart.nodup_iff.mpr (List.nodup_finRange _))).1 entry hentry
  have hsort := (List.perm_insertionSort (fun x y : ClusterRef => x.clusterId ≤ y.clusterId)
    (entry.2.toList.map fun i => (⟨(r.clusters i).id, memberReasons (linkEdges r.clusters r.tuning)
      (linkComponents r.clusters r.prior r.tuning) i⟩ : ClusterRef))).map (·.clusterId)
  refine hsort.nodup_iff.mpr ?_
  rw [List.map_map]
  exact hnodup.map h.ids_injective

theorem story_clusters_ne_nil {story : LinkedStory} (hstory : story ∈ r.assignment.stories) :
    story.clusters ≠ [] := by
  obtain ⟨k, ms, s, _, _, rfl⟩ := mem_stories.mp hstory
  intro hnil
  obtain ⟨i, hi⟩ := List.exists_mem_of_ne_nil _ ms.nonempty
  have hmem : (r.clusters i).id ∈ (linkedStory r.clusters (memberReasons
      (linkEdges r.clusters r.tuning) (linkComponents r.clusters r.prior r.tuning))
      (ms, s)).members :=
    mem_members.mpr ⟨i, hi, rfl⟩
  unfold LinkedStory.members at hmem
  rw [hnil] at hmem
  cases hmem

theorem persist_apart (h : r.Reads table) (hapart : ∀ sub, StoriesApart table sub) (now : DateTime)
    (sub : Uuid) : StoriesApart (r.persist now table) sub := by
  have hown := hapart r.subscriber
  by_cases hsub : sub = r.subscriber
  · subst hsub
    refine ⟨?_, ?_, ?_⟩
    · intro s t c hs ht
      rw [member_persist h hown now] at hs ht
      rcases hs with hs | ⟨hs, hnots⟩
      · rcases ht with ht | ⟨ht, hnott⟩
        · exact placed_unique h.ids_injective hs ht
        · exact absurd ⟨c, placed_cluster hs, ht⟩ hnott
      · rcases ht with ht | ⟨ht, _⟩
        · exact absurd ⟨c, placed_cluster ht, hs⟩ hnots
        · exact hown.unique hs ht
    · intro s row hrow hlive
      cases rowFate h hown now s with
      | written story hstory _ _ hnew =>
          obtain rfl := Option.some.inj (hnew.symm.trans hrow)
          rw [upsertRow_members]
          exact story_members_nodup h hstory
      | mergedAway _ _ _ _ _ _ _ _ hnew =>
          obtain rfl := Option.some.inj (hnew.symm.trans hrow)
          cases hlive.2
      | untouched _ _ hnew => exact hown.nodup (hnew.symm.trans hrow) hlive
    · intro s row hrow hown' hdead
      cases rowFate h hown now s with
      | written _ _ _ _ hnew =>
          obtain rfl := Option.some.inj (hnew.symm.trans hrow)
          exact absurd (upsertRow_mergedInto _ _) hdead
      | mergedAway _ _ _ _ _ _ _ _ hnew =>
          obtain rfl := Option.some.inj (hnew.symm.trans hrow)
          rfl
      | untouched _ _ hnew => exact hown.tombstoned (hnew.symm.trans hrow) hown' hdead
  · have hrows : ∀ {s : Uuid} {row : StoryRow}, row.subscriberId = sub →
        ((r.persist now table)[s]? = some row ↔ table[s]? = some row) := by
      intro s row hrow
      exact persist_foreign h hown now (hrow ▸ hsub)
    refine ⟨?_, ?_, ?_⟩
    · intro s t c hs ht
      exact (hapart sub).unique ((member_persist_foreign h hown now hsub).mp hs)
        ((member_persist_foreign h hown now hsub).mp ht)
    · intro s row hrow hlive
      exact (hapart sub).nodup ((hrows hlive.1).mp hrow) hlive
    · intro s row hrow hsub' hdead
      exact (hapart sub).tombstoned ((hrows hsub').mp hrow) hsub' hdead

end Fate

/-- A recompute that reads a table as it stands and mints from `base` on. -/
def onTable (table : StoryTable) (sub : Uuid) (candidates : List LinkCluster)
    (tuning : LinkTuning F) (base : Nat) : Recompute F where
  subscriber := sub
  candidates := candidates
  prior := loadPriorMembers table sub
  tuning := tuning
  mint := mintFrom base

omit [Score F] in
theorem onTable_reads {table : StoryTable} {sub : Uuid} {candidates : List LinkCluster}
    {tuning : LinkTuning F} {base : Nat} (hids : (candidates.map (·.id)).Nodup)
    (hbase : ∀ s ∈ table.keys, s < base) :
    (onTable table sub candidates tuning base).Reads table where
  ids := hids
  prior := List.Perm.refl _
  mint_injective := mintFrom_injective base
  mint_unused := by
    intro k hk
    have hlt := hbase _ (Std.ExtTreeMap.mem_keys.mpr hk)
    exact absurd hlt (Nat.not_lt.mpr (Nat.le_add_right base k))

end Recompute

end Bulletin
