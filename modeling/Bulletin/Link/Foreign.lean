import Bulletin.Link.Candidates
import Bulletin.Link.Recompute

/-! # Reads and recomputes next to another subscriber's rows

A candidate read takes public clusters and the subscriber's own, and a recompute the stories
of its subscriber. On tables that differ only in the rows of someone else they do the same.
-/

namespace Bulletin

section Prior

variable {n : Nat} {F : Type} [Score F] {prior prior' : List PriorMember}

/-- With one entry for each cluster, the order of the prior assignment does not matter. -/
theorem priorStory_perm (h : prior.Perm prior') (hnodup : (prior.map (·.clusterId)).Nodup) :
    priorStory prior = priorStory prior' := by
  refine Std.ExtTreeMap.ext_getElem? ?_
  intro c
  have hnodup' : (prior'.map (·.clusterId)).Nodup := (h.map _).nodup_iff.mp hnodup
  have howned : ∀ s, OwnedBy prior s c ↔ OwnedBy prior' s c := by
    intro s
    unfold OwnedBy
    simp only [h.mem_iff]
  ext s
  rw [priorStory_eq_some_iff hnodup, priorStory_eq_some_iff hnodup', howned]

theorem deliveredStories_perm (h : prior.Perm prior') :
    deliveredStories prior = deliveredStories prior' := by
  ext s
  rw [mem_deliveredStories, mem_deliveredStories]
  simp only [h.mem_iff]

theorem linkWith_prior_perm {clusters : Fin n → LinkCluster} {tuning : LinkTuning F}
    {mint : Nat → Uuid} (h : prior.Perm prior') (hnodup : (prior.map (·.clusterId)).Nodup) :
    linkWith clusters prior tuning mint = linkWith clusters prior' tuning mint := by
  have hdelivered : deliveredOf prior = deliveredOf prior' := by
    funext c
    unfold deliveredOf
    rw [priorStory_perm h hnodup, deliveredStories_perm h]
  have hcomponents : linkComponents clusters prior tuning =
      linkComponents clusters prior' tuning := by
    unfold linkComponents components unionFind
    rw [hdelivered]
  have hids : componentPriorIds clusters prior = componentPriorIds clusters prior' := by
    funext ms
    unfold componentPriorIds
    rw [priorStory_perm h hnodup]
  unfold linkWith forwardIds wants
  rw [hcomponents, hids]

end Prior

def OthersAgree (sub : Uuid) (table table' : StoryTable) : Prop :=
  ∀ (s : Uuid) (row : StoryRow), row.subscriberId ≠ sub →
    (table[s]? = some row ↔ table'[s]? = some row)

theorem OthersAgree.symm {sub : Uuid} {table table' : StoryTable}
    (h : OthersAgree sub table table') : OthersAgree sub table' table :=
  fun s row hrow => (h s row hrow).symm

theorem persistAssignment_congr {now : DateTime} {sub s : Uuid} {out : Assignment}
    {table table' : StoryTable} (h : table[s]? = table'[s]?) :
    (persistAssignment now sub out table)[s]? = (persistAssignment now sub out table')[s]? := by
  unfold persistAssignment
  simp only [Buckets.alterAll_getElem?, h]

namespace Recompute

variable {F : Type} [Score F] {r r' : Recompute F} {table table' : StoryTable} {other : Uuid}

/-- Two recomputes of one subscriber that link the same candidates. -/
structure Same (r r' : Recompute F) : Prop where
  subscriber : r.subscriber = r'.subscriber
  candidates : r.candidates = r'.candidates
  tuning : r.tuning = r'.tuning
  mint : r.mint = r'.mint

omit [Score F] in
theorem prior_perm (hsame : r.Same r') (h : r.Reads table) (h' : r'.Reads table')
    (hapart : StoriesApart table r.subscriber) (hapart' : StoriesApart table' r'.subscriber)
    (hagree : OthersAgree other table table') (hsub : r.subscriber ≠ other) :
    r.prior.Perm r'.prior := by
  have hnodup : r.prior.Nodup := List.Nodup.of_map _ (h.prior_nodup hapart)
  have hnodup' : r'.prior.Nodup := List.Nodup.of_map _ (h'.prior_nodup hapart')
  refine (List.perm_ext_iff_of_nodup hnodup hnodup').mpr ?_
  intro p
  rw [h.prior.mem_iff, h'.prior.mem_iff, ← hsame.subscriber, mem_loadPriorMembers,
    mem_loadPriorMembers]
  refine exists_congr fun row => ?_
  constructor
  · intro hp
    exact ⟨(hagree _ row (hp.2.1.1 ▸ hsub)).mp hp.1, hp.2⟩
  · intro hp
    exact ⟨(hagree _ row (hp.2.1.1 ▸ hsub)).mpr hp.1, hp.2⟩

theorem assignment_eq (hsame : r.Same r') (h : r.Reads table) (h' : r'.Reads table')
    (hapart : StoriesApart table r.subscriber) (hapart' : StoriesApart table' r'.subscriber)
    (hagree : OthersAgree other table table') (hsub : r.subscriber ≠ other) :
    r.assignment = r'.assignment := by
  have hperm := prior_perm hsame h h' hapart hapart' hagree hsub
  have hnodup := h.prior_nodup hapart
  obtain ⟨subscriber, candidates, prior, tuning, mint⟩ := r
  obtain ⟨_, _, prior', _, _⟩ := r'
  obtain ⟨rfl, rfl, rfl, rfl⟩ := hsame
  exact linkWith_prior_perm hperm hnodup

/-- The row a recompute leaves for someone who is not the other is one it leaves on both tables. -/
theorem persist_of_agree (hsame : r.Same r') (h : r.Reads table) (h' : r'.Reads table')
    (hapart : StoriesApart table r.subscriber) (hapart' : StoriesApart table' r'.subscriber)
    (hagree : OthersAgree other table table') (hsub : r.subscriber ≠ other)
    (now : DateTime) {s : Uuid}
    {row : StoryRow} (hrow : row.subscriberId ≠ other)
    (hget : (r.persist now table)[s]? = some row) :
    (r'.persist now table')[s]? = some row := by
  have hout := assignment_eq hsame h h' hapart hapart' hagree hsub
  by_cases heq : table[s]? = table'[s]?
  · unfold persist at hget ⊢
    rw [← hsame.subscriber, ← hout, ← persistAssignment_congr heq]
    exact hget
  · -- on both tables the row can only be the other's
    have hforeign : ∀ old : StoryRow, table[s]? = some old ∨ table'[s]? = some old →
        old.subscriberId = other := by
      intro old hold
      by_contra hne
      rcases hold with hold | hold
      · exact heq (hold.trans ((hagree s old hne).mp hold).symm)
      · exact heq (((hagree s old hne).mpr hold).trans hold.symm)
    have hnew : ∀ {r : Recompute F} {table : StoryTable}, r.subscriber ≠ other →
        (∀ old : StoryRow, table[s]? = some old → old.subscriberId = other) →
        (table[s]? = none ∨ r.Represented table s) → table[s]? = none := by
      intro r table hne hothers hold
      rcases hold with hnone | ⟨_, _, old, hold, hlive, _⟩
      · exact hnone
      · exact absurd (hlive.1.symm.trans (hothers old hold)) hne
    cases rowFate h hapart now s with
    | written story hstory hid hold _ =>
        have hnone := hnew hsub (fun old hold => hforeign old (Or.inl hold)) hold
        cases rowFate h' hapart' now s with
        | written _ _ _ hold' _ =>
            have hnone' := hnew (hsame.subscriber ▸ hsub) (fun old hold =>
              hforeign old (Or.inr hold))
              hold'
            exact absurd (hnone.trans hnone'.symm) heq
        | mergedAway _ _ _ _ _ _ _ hnot _ | untouched hnot _ _ =>
            exact absurd hid (hnot story (hout ▸ hstory))
    | mergedAway _ _ old _ hold hlive _ _ _ =>
        exact absurd (hlive.1.symm.trans (hforeign old (Or.inl hold))) hsub
    | untouched _ _ hold =>
        exact absurd (hforeign row (Or.inl (hold.symm.trans hget))) hrow

/-- Recomputes of one subscriber keep tables that differ only in another's rows so. -/
theorem persist_agree (hsame : r.Same r') (h : r.Reads table) (h' : r'.Reads table')
    (hapart : StoriesApart table r.subscriber) (hapart' : StoriesApart table' r'.subscriber)
    (hagree : OthersAgree other table table') (hsub : r.subscriber ≠ other) (now : DateTime) :
    OthersAgree other (r.persist now table) (r'.persist now table') := by
  have hback : r'.Same r :=
    ⟨hsame.subscriber.symm, hsame.candidates.symm, hsame.tuning.symm, hsame.mint.symm⟩
  intro s row hrow
  constructor
  · exact persist_of_agree hsame h h' hapart hapart' hagree hsub now hrow
  · exact persist_of_agree hback h' h hapart' hapart hagree.symm (hsame.subscriber ▸ hsub) now hrow

end Recompute

/-! ## Candidates -/

def othersClusters (sub : Uuid) (table : SummarizedTable) :
    List (Sigma fun _ : GroupKey => SummarizedCluster) :=
  table.entries.filter fun entry => entry.1.scope ≠ .ofPrivate sub

section Candidates

variable {sub : Uuid} {table table' : SummarizedTable} {now : DateTime} {read : CandidateRead}

theorem filter_eq_of_others {p : Sigma (fun _ : GroupKey => SummarizedCluster) → Bool}
    (hp : ∀ entry, p entry = true → entry.1.scope ≠ .ofPrivate sub)
    (h : othersClusters sub table = othersClusters sub table') :
    table.entries.filter p = table'.entries.filter p := by
  have hothers : ∀ t : SummarizedTable, (othersClusters sub t).filter p = t.entries.filter p := by
    intro t
    unfold othersClusters
    rw [List.filter_filter]
    refine List.filter_congr fun entry _ => ?_
    cases hentry : p entry with
    | false => rfl
    | true => simp [hp entry hentry]
  rw [← hothers, h, hothers]

theorem lookup_eq_of_others (h : othersClusters sub table = othersClusters sub table')
    {key : GroupKey} (hkey : key.scope ≠ .ofPrivate sub) :
    table.lookup key = table'.lookup key := by
  have hmem : ∀ (t : SummarizedTable) (row : SummarizedCluster),
      t.lookup key = some row ↔
          (⟨key, row⟩ : Sigma fun _ => SummarizedCluster) ∈ othersClusters sub t := by
    intro t row
    unfold othersClusters
    rw [List.mem_filter, ← AList.mem_lookup_iff, Option.mem_def]
    simp [hkey]
  ext row
  rw [hmem, hmem, h]

namespace CandidateRead

theorem inScope_others (hsub : read.subscriber ≠ sub) {key : GroupKey} {row : SummarizedCluster}
    (h : read.inScope key row = true) : key.scope ≠ .ofPrivate sub := by
  intro hscope
  unfold inScope at h
  rw [hscope] at h
  exact hsub (of_decide_eq_true h).symm

theorem inFloor_of_others (h : othersClusters sub table = othersClusters sub table')
    (hsub : read.subscriber ≠ sub) : read.inFloor now table = read.inFloor now table' := by
  unfold inFloor
  rw [filter_eq_of_others ?_ h]
  intro entry hentry
  exact inScope_others hsub (of_decide_eq_true hentry).1

/-- The strong keys that reach across the boundary are of the reader's own clusters. -/
theorem privateStrong_of_others (h : othersClusters sub table = othersClusters sub table')
    (hsub : read.subscriber ≠ sub) :
    read.privateStrong now table = read.privateStrong now table' := by
  unfold privateStrong
  rw [filter_eq_of_others ?_ h]
  intro entry hentry hscope
  rw [(of_decide_eq_true hentry).1] at hscope
  exact hsub (Scope.ofPrivate.inj hscope)

theorem crossBoundary_of_others (h : othersClusters sub table = othersClusters sub table')
    (hsub : read.subscriber ≠ sub) :
    read.crossBoundary now table = read.crossBoundary now table' := by
  unfold crossBoundary
  rw [privateStrong_of_others h hsub, filter_eq_of_others ?_ h]
  intro entry hentry hscope
  rw [(of_decide_eq_true hentry).1] at hscope
  cases hscope

theorem candidate_others (hsub : read.subscriber ≠ sub) {key : GroupKey}
    (hkey : key ∈ read.candidateClusters now table) : key.scope ≠ .ofPrivate sub := by
  unfold candidateClusters at hkey
  rw [List.mem_dedup, List.mem_append] at hkey
  rcases hkey with hin | hcross
  · obtain ⟨entry, hentry, rfl⟩ := List.mem_map.mp hin
    exact inScope_others hsub (of_decide_eq_true (List.mem_filter.mp hentry).2).1
  · obtain ⟨entry, hentry, rfl⟩ := List.mem_map.mp hcross
    rw [(of_decide_eq_true (List.mem_filter.mp hentry).2).1]
    exact nofun

/-- A reader gets the same candidates, whatever the other's clusters are. -/
theorem linkClusters_of_others (clusterId : GroupKey → Uuid)
    (h : othersClusters sub table = othersClusters sub table') (hsub : read.subscriber ≠ sub) :
    read.linkClusters now table clusterId = read.linkClusters now table' clusterId := by
  have hkeys : read.candidateClusters now table = read.candidateClusters now table' := by
    unfold candidateClusters
    rw [inFloor_of_others h hsub, crossBoundary_of_others h hsub]
  have hrows : (read.candidateClusters now table).filterMap (fun key =>
      (table.lookup key).map (linkCluster clusterId key)) =
      (read.candidateClusters now table).filterMap fun key =>
        (table'.lookup key).map (linkCluster clusterId key) := by
    refine List.filterMap_congr fun key hkey => ?_
    rw [lookup_eq_of_others h (candidate_others hsub hkey)]
  unfold linkClusters
  rw [hrows, hkeys]

end CandidateRead

end Candidates

end Bulletin
