import Bulletin.Digest.Select
import Bulletin.Link.LinkWith
import Bulletin.Summarize.Signatures
import Bulletin.System.Syntheses

/-! # Member summaries and the synthesis queue

A story is due by its own timestamps, while its signature is over rows of another table. A
member that is summarized again moves the signature and no timestamp.
-/

namespace Bulletin

variable {F : Type} [Score F] {sha256 : List UInt8 → List UInt8} {currentModel : String}
  {s s' : Syntheses} {act : SynthesisAction F}
  {ts : List (Run.Transition Syntheses (SynthesisAction F))} {id : Uuid} {row : StoryRow}
  {cluster : ClusterTable}

/-- The member summaries the sweep would read for a row. -/
def StoryRow.memberSummaries (cluster : ClusterTable) (row : StoryRow) : List MemberSummary :=
  loadMemberSummaries cluster row.subscriberId row.members

/-- There is something to fuse: two members, and a summary of one of them. -/
def Fusible (members : List MemberSummary) : Prop :=
  2 ≤ members.length ∧ ∃ m ∈ members, m.summary.isEmpty = false

instance (members : List MemberSummary) : Decidable (Fusible members) :=
  inferInstanceAs (Decidable (_ ∧ _))

/-- A live row with members to fuse whose signature is not the one stored with its text. -/
def StoryRow.Parted (sha256 : List UInt8 → List UInt8) (cluster : ClusterTable) (row : StoryRow) :
    Prop :=
  row.mergedInto = none ∧ Fusible (row.memberSummaries cluster) ∧
    row.synthesis.summarySig ≠
      some (storySummarySig sha256 ((row.memberSummaries cluster).map (·.summaryHash)))

instance (sha256 : List UInt8 → List UInt8) (cluster : ClusterTable) (row : StoryRow) :
    Decidable (row.Parted sha256 cluster) :=
  inferInstanceAs (Decidable (_ ∧ Fusible _ ∧ _))

/-- Quarantined, and not changed since. -/
def StoryRow.withheld (row : StoryRow) : Bool :=
  row.synthesis.summaryQuarantinedAt.any (row.updatedAt ≤ ·)

/-- Synthesized or passed over by the current model at this time or later. -/
def Synthesis.Settled (synthesis : Synthesis) (currentModel : String) (time : DateTime) : Prop :=
  synthesis.summaryModel = some currentModel ∧
    ∃ written, synthesis.summarizedAt = some written ∧ time ≤ written

/-- Every story that is not quarantined and whose members have moved under its text is in the
queue. -/
def StalenessSeen (sha256 : List UInt8 → List UInt8) (currentModel : String) (s : Syntheses) :
    Prop :=
  ∀ (id : Uuid) (row : StoryRow), s.story[id]? = some row → row.withheld = false →
    row.Parted sha256 s.cluster →
    row.dueStory id ∈ storiesNeedingSummary s.story row.subscriberId currentModel

/-- The step leaves a story stale and out of the queue: a build that adds a member to a settled
story or a summary stored on a member, either moving its signature, a recompute that changes a
story settled after the recompute began, a sweep that settles a story whose members or row have
moved since it read them, or one that takes off its quarantine. -/
def Strands (sha256 : List UInt8 → List UInt8) (currentModel : String) (s : Syntheses)
    (act : SynthesisAction F) (id : Uuid) : Prop :=
  ∃ row, s.story[id]? = some row ∧
    match act with
    | .build k new => k ∈ row.members ∧ s.cluster[k]? = none ∧
        row.Parted sha256 (s.cluster.insert k { new with summary := {}, summaryHash := none }) ∧
        row.synthesis.Settled currentModel row.updatedAt ∧ row.withheld = false
    | .summarize k (.store summary hash) => k ∈ row.members ∧
        row.Parted sha256 (s.cluster.modify k fun old =>
          { old with summary := summary, summaryHash := some hash }) ∧
        row.synthesis.Settled currentModel row.updatedAt ∧ row.withheld = false
    | .recompute r started => ∃ story ∈ r.assignment.stories, story.id = id ∧
        row.content ≠ story.content ∧ (row.withContent story.content).Parted sha256 s.cluster ∧
        row.synthesis.Settled currentModel started ∧
        row.synthesis.summaryQuarantinedAt.all (· < started) = true
    | .record sweep started outcome => ∃ d rest members readAt, (s.sweep sweep).due = d :: rest ∧
        (s.sweep sweep).reading = some (members, readAt) ∧ d.id = id ∧
        match attemptStory sha256 currentModel members outcome d with
        | .skip => False
        | .touch => row.Parted sha256 s.cluster ∧ row.updatedAt ≤ started
        | .store summary sig =>
            ({ row with synthesis := { row.synthesis with summary := summary, summarySig := some sig } } :
              StoryRow).Parted sha256 s.cluster ∧ row.updatedAt ≤ started
        | .fail _ _ quarantine => row.Parted sha256 s.cluster ∧
            row.synthesis.Settled currentModel row.updatedAt ∧
            (quarantine = true → started < row.updatedAt)
    | _ => False

/-! ## One row -/

def StoryRow.Seen (row : StoryRow) (sha256 : List UInt8 → List UInt8) (currentModel : String)
    (cluster : ClusterTable) : Prop :=
  row.withheld = false → row.Parted sha256 cluster →
    ¬ row.synthesis.Settled currentModel row.updatedAt

omit [Score F] in
theorem StoryRow.withheld_eq_false :
    row.withheld = false ↔ row.synthesis.summaryQuarantinedAt.all (· < row.updatedAt) = true := by
  unfold StoryRow.withheld
  cases row.synthesis.summaryQuarantinedAt <;> simp

omit [Score F] in
theorem StoryRow.due_iff : row.due currentModel = true ↔
    ¬ row.synthesis.Settled currentModel row.updatedAt ∧ row.withheld = false := by
  rw [StoryRow.withheld_eq_false]
  unfold StoryRow.due Synthesis.Settled
  rw [Bool.and_eq_true]
  refine and_congr_left fun _ => ?_
  cases row.synthesis.summarizedAt with
  | none => simp
  | some written =>
      simp only [Option.all_some, Bool.or_eq_true, decide_eq_true_eq, bne_iff_ne, Option.some.injEq,
        exists_eq_left', not_and_or, not_le, ne_eq]
      exact or_comm

omit [Score F] in
theorem mem_storiesNeedingSummary {table : StoryTable} (hrow : table[id]? = some row) :
    row.dueStory id ∈ storiesNeedingSummary table row.subscriberId currentModel ↔
      row.mergedInto = none ∧ row.clusters ≠ [] ∧ row.due currentModel = true := by
  unfold storiesNeedingSummary
  rw [List.mem_map]
  constructor
  · intro hmem
    obtain ⟨entry, hentry, heq⟩ := hmem
    obtain ⟨hin, hdue⟩ := List.mem_filter.mp hentry
    have hid : entry.1 = id := congrArg DueStory.id heq
    have hsome := Std.ExtTreeMap.mem_toList_iff_getElem?_eq_some.mp hin
    rw [hid, hrow] at hsome
    obtain rfl := Option.some.inj hsome
    have hall := of_decide_eq_true hdue
    exact ⟨hall.1.2, hall.2⟩
  · intro hdue
    exact ⟨(id, row), List.mem_filter.mpr ⟨Std.ExtTreeMap.mem_toList_iff_getElem?_eq_some.mpr hrow,
      decide_eq_true ⟨⟨rfl, hdue.1⟩, hdue.2⟩⟩, rfl⟩

omit [Score F] in
theorem Fusible.clusters_ne_nil (h : Fusible (row.memberSummaries cluster)) :
    row.clusters ≠ [] := by
  intro hnil
  have hlength := h.1
  simp [StoryRow.memberSummaries, StoryRow.members, loadMemberSummaries, readClusters, hnil]
    at hlength

omit [Score F] in
theorem stalenessSeen_iff : StalenessSeen sha256 currentModel s ↔
    ∀ (id : Uuid) (row : StoryRow), s.story[id]? = some row →
      row.Seen sha256 currentModel s.cluster := by
  unfold StalenessSeen StoryRow.Seen
  refine forall_congr' fun id => forall_congr' fun row => forall_congr' fun hrow =>
    forall_congr' fun hheld => forall_congr' fun hparted => ?_
  rw [mem_storiesNeedingSummary hrow, StoryRow.due_iff]
  simp [hparted.1, hparted.2.1.clusters_ne_nil, hheld]

omit [Score F] in
theorem seen_iff : row.Seen sha256 currentModel cluster ↔ ¬ (row.Parted sha256 cluster ∧
    row.synthesis.Settled currentModel row.updatedAt ∧ row.withheld = false) := by
  unfold StoryRow.Seen
  tauto

/-! ## What a step leaves of the members -/

def ClusterRow.asMember (r : ClusterRow) : Scope × MemberSummary :=
  (r.key.scope, ⟨r.summary, r.summaryHash⟩)

omit [Score F] in
theorem mem_readMembers {sub : Uuid} {ids : List Uuid} {p : Uuid × Scope × MemberSummary} :
    p ∈ (readClusters cluster sub ids).map (fun entry => (entry.1, entry.2.asMember)) ↔
      p.1 ∈ ids ∧ p.2.1.visibleTo sub = true ∧ cluster[p.1]?.map ClusterRow.asMember = some p.2 := by
  rw [List.mem_map]
  constructor
  · rintro ⟨entry, hentry, rfl⟩
    obtain ⟨hin, hread⟩ := List.mem_filter.mp hentry
    have hrow := Std.ExtTreeMap.mem_toList_iff_getElem?_eq_some.mp hin
    have hboth := of_decide_eq_true hread
    exact ⟨hboth.1, hboth.2, by rw [hrow, Option.map_some]⟩
  · rintro ⟨hid, hvisible, hsome⟩
    obtain ⟨old, hold, hp⟩ := Option.map_eq_some_iff.mp hsome
    refine ⟨(p.1, old), List.mem_filter.mpr
      ⟨Std.ExtTreeMap.mem_toList_iff_getElem?_eq_some.mpr hold, decide_eq_true ⟨hid, ?_⟩⟩, ?_⟩
    · rw [← hp] at hvisible
      exact hvisible
    · rw [hp]

omit [Score F] in
theorem readMembers_nodup {sub : Uuid} {ids : List Uuid} :
    ((readClusters cluster sub ids).map fun entry => (entry.1, entry.2.asMember)).Nodup := by
  have hkeys : (cluster.toList.map (·.1)).Nodup := by
    rw [Std.ExtTreeMap.map_fst_toList_eq_keys]
    exact Std.ExtTreeMap.nodup_keys
  refine List.Nodup.of_map Prod.fst ?_
  rw [List.map_map]
  exact hkeys.sublist (List.filter_sublist.map _)

omit [Score F] in
/-- A row is parted from the same members in both tables, whatever else of them changes. -/
theorem StoryRow.parted_congr {cluster' : ClusterTable} (h : ∀ c ∈ row.members,
    cluster'[c]?.map ClusterRow.asMember = cluster[c]?.map ClusterRow.asMember) :
    row.Parted sha256 cluster' ↔ row.Parted sha256 cluster := by
  have hread : ((readClusters cluster' row.subscriberId row.members).map
      fun entry => (entry.1, entry.2.asMember)).Perm
      ((readClusters cluster row.subscriberId row.members).map
        fun entry => (entry.1, entry.2.asMember)) := by
    rw [List.perm_ext_iff_of_nodup readMembers_nodup readMembers_nodup]
    intro p
    rw [mem_readMembers, mem_readMembers]
    refine and_congr_right fun hid => ?_
    rw [h _ hid]
  have hloaded : ∀ table : ClusterTable, (row.memberSummaries table).Perm
      (((readClusters table row.subscriberId row.members).map
        fun entry => (entry.1, entry.2.asMember)).map fun p => p.2.2) := by
    intro table
    rw [List.map_map]
    exact (List.perm_insertionSort _ _).map _
  have hperm := (hloaded cluster').trans ((hread.map _).trans (hloaded cluster).symm)
  unfold StoryRow.Parted Fusible
  rw [hperm.length_eq, storySummarySig_perm (hperm.map _)]
  simp only [hperm.mem_iff]

omit [Score F] in
theorem StoryRow.parted_build {k : Uuid} {new : ClusterRow} :
    row.Parted sha256 (cluster.alter k fun old => some (upsertClusterRow new old)) ↔
      if k ∈ row.members ∧ cluster[k]? = none then
        row.Parted sha256 (cluster.insert k { new with summary := {}, summaryHash := none })
      else row.Parted sha256 cluster := by
  split
  · next hnew =>
      refine StoryRow.parted_congr fun c _ => ?_
      rw [Std.ExtTreeMap.getElem?_alter, Std.ExtTreeMap.getElem?_insert]
      by_cases hc : compare k c = .eq
      · obtain rfl := Std.LawfulEqCmp.eq_of_compare hc
        simp [hnew.2, upsertClusterRow]
      · simp [hc]
  · next hold =>
      refine StoryRow.parted_congr fun c hc => ?_
      rw [Std.ExtTreeMap.getElem?_alter]
      by_cases hk : compare k c = .eq
      · obtain rfl := Std.LawfulEqCmp.eq_of_compare hk
        obtain ⟨old, hrow⟩ := Option.ne_none_iff_exists'.mp fun hnone => hold ⟨hc, hnone⟩
        simp [hrow, upsertClusterRow, ClusterRow.asMember]
      · rw [if_neg hk]

omit [Score F] in
/-- A cluster sweep moves a story's members only by a summary that it stores on one. -/
theorem StoryRow.parted_summarize {k : Uuid} {write : SweepWrite}
    (h : k ∈ row.members → ∀ summary hash, write ≠ .store summary hash) :
    row.Parted sha256 (cluster.modify k write.applyRow) ↔ row.Parted sha256 cluster := by
  refine StoryRow.parted_congr fun c hc => ?_
  rw [Std.ExtTreeMap.getElem?_modify]
  by_cases hk : compare k c = .eq
  · obtain rfl := Std.LawfulEqCmp.eq_of_compare hk
    cases write with
    | store summary hash => exact absurd rfl (h hc summary hash)
    | touch | skip | fail _ _ _ =>
        rw [if_pos hk, Option.map_map]
        rfl
  · rw [if_neg hk]

/-! ## What a step leaves of a row -/

omit [Score F] in
@[simp] theorem settled_touch {started time : DateTime} {synthesis : Synthesis} :
    (touchStorySummarized started currentModel synthesis).Settled currentModel time ↔
      time ≤ started := by
  simp [touchStorySummarized, Synthesis.Settled]

omit [Score F] in
@[simp] theorem settled_store {started time : DateTime} {summary : ClusterSummary}
    {sig : List UInt8} :
    (storeStorySummary started summary sig currentModel).Settled currentModel time ↔
      time ≤ started := by
  simp [storeStorySummary, Synthesis.Settled]

omit [Score F] in
theorem seen_touch {started : DateTime} :
    ({ row with synthesis := touchStorySummarized started currentModel row.synthesis } :
      StoryRow).Seen sha256 currentModel cluster ↔
        ¬ (row.Parted sha256 cluster ∧ row.updatedAt ≤ started) := by
  rw [seen_iff, settled_touch]
  simp [StoryRow.withheld, StoryRow.Parted, StoryRow.memberSummaries, StoryRow.members,
    touchStorySummarized]

omit [Score F] in
theorem seen_store {started : DateTime} {summary : ClusterSummary} {sig : List UInt8} :
    ({ row with synthesis := storeStorySummary started summary sig currentModel } :
      StoryRow).Seen sha256 currentModel cluster ↔
        ¬ (({ row with synthesis :=
              { row.synthesis with summary := summary, summarySig := some sig } } :
            StoryRow).Parted sha256 cluster ∧ row.updatedAt ≤ started) := by
  rw [seen_iff, settled_store]
  simp [StoryRow.withheld, StoryRow.Parted, StoryRow.memberSummaries, StoryRow.members,
    storeStorySummary]

omit [Score F] in
theorem seen_fail {started : DateTime} {attempts : Int} {error : String} {quarantine : Bool} :
    ({ row with synthesis :=
        recordStorySummaryFailure started attempts error quarantine row.synthesis } :
      StoryRow).Seen sha256 currentModel cluster ↔
        ¬ (row.Parted sha256 cluster ∧ row.synthesis.Settled currentModel row.updatedAt ∧
          (quarantine = true → started < row.updatedAt)) := by
  rw [seen_iff]
  cases quarantine with
  | true =>
      simp [StoryRow.withheld, StoryRow.Parted, StoryRow.memberSummaries, StoryRow.members,
        recordStorySummaryFailure, Synthesis.Settled]
  | false =>
      simp [StoryRow.withheld, StoryRow.Parted, StoryRow.memberSummaries, StoryRow.members,
        recordStorySummaryFailure, Synthesis.Settled]

theorem seen_upsert {started : DateTime} {sub : Uuid} {story : LinkedStory}
    (hseen : row.Seen sha256 currentModel cluster) :
    (upsertRow started sub story (some row)).Seen sha256 currentModel cluster ↔
      ¬ (row.content ≠ story.content ∧ (row.withContent story.content).Parted sha256 cluster ∧
        row.synthesis.Settled currentModel started ∧
        row.synthesis.summaryQuarantinedAt.all (· < started) = true) := by
  by_cases hsame : row.content = story.content
  · have hrow : upsertRow started sub story (some row) = row := by
      show ({ row.withContent story.content with
        updatedAt := if row.content ≠ story.content then started
          else row.updatedAt } : StoryRow) = row
      rw [if_neg (not_not.mpr hsame), ← hsame]
      rfl
    rw [hrow]
    exact iff_of_true hseen fun hmoved => hmoved.1 hsame
  · have hrow : upsertRow started sub story (some row) =
        { row.withContent story.content with updatedAt := started } := by
      show ({ row.withContent story.content with
        updatedAt := if row.content ≠ story.content then started
          else row.updatedAt } : StoryRow) = _
      rw [if_pos hsame]
    rw [hrow, seen_iff, StoryRow.withheld_eq_false]
    simp [hsame, StoryRow.Parted, StoryRow.memberSummaries, StoryRow.members, StoryRow.withContent]

/-! ## Steps and runs -/

omit [Score F] in
theorem markRow_seen {now : DateTime} {sub : Uuid} {ids : List Uuid} :
    (markRow now sub ids id row).Seen sha256 currentModel cluster ↔
      row.Seen sha256 currentModel cluster := by
  unfold markRow
  by_cases hin : id ∈ ids ∧ row.subscriberId = sub
  · rw [if_pos hin]
    exact Iff.rfl
  · rw [if_neg hin]

/-- A step keeps the row of a story in step with the queue exactly when it does not strand it. -/
theorem SynthesisStep.seen_iff (h : SynthesisStep sha256 currentModel s act s')
    (hapart : ∀ sub, StoriesApart s.story sub)
    (hseen : ∀ row : StoryRow, s.story[id]? = some row → row.Seen sha256 currentModel s.cluster) :
    (∀ row : StoryRow, s'.story[id]? = some row → row.Seen sha256 currentModel s'.cluster) ↔
      ¬ Strands sha256 currentModel s act id := by
  have hwrite := h.storyWrite
  rw [h.cluster]
  generalize s'.story = table at hwrite ⊢
  cases hwrite with
  | recompute r started hreads =>
      cases Recompute.rowFate hreads (hapart r.subscriber) started id with
      | written story hstory hid hold hnew =>
          have hone : ∀ story' ∈ r.assignment.stories, story'.id = id → story' = story := by
            intro story' hstory' hid'
            exact List.inj_on_of_nodup_map (hreads.writable (hapart r.subscriber)).nodup hstory' hstory
              (hid'.trans hid.symm)
          simp only [hnew, Option.some.injEq, forall_eq']
          cases hrow : s.story[id]? with
          | none =>
              refine iff_of_true ?_ ?_
              · rintro _ _ ⟨_, _, hnone, _⟩
                cases hnone
              · rintro ⟨row, hsome, _⟩
                cases hrow.symm.trans hsome
          | some row =>
              rw [show s.clusterAfter (.recompute r started) = s.cluster from rfl,
                seen_upsert (hseen row hrow), not_iff_not]
              constructor
              · intro hmoved
                exact ⟨row, hrow, story, hstory, hid, hmoved⟩
              · rintro ⟨row', hrow', story', hstory', hid', hmoved⟩
                obtain rfl := Option.some.inj (hrow.symm.trans hrow')
                obtain rfl := hone story' hstory' hid'
                exact hmoved
      | mergedAway _ _ row _ hold _ _ hstory hnew =>
          refine iff_of_true ?_ ?_
          · intro row' hrow' _ hparted
            obtain rfl := Option.some.inj (hnew.symm.trans hrow')
            cases hparted.1
          · rintro ⟨_, _, story, hin, hid, _⟩
            exact hstory story hin hid
      | untouched hstory _ hnew =>
          rw [hnew]
          refine iff_of_true hseen ?_
          rintro ⟨_, _, story, hin, hid, _⟩
          exact hstory story hin hid
  | markDelivered sub ids =>
      refine iff_of_true ?_ fun hstrands => hstrands.choose_spec.2
      intro row' hrow'
      rw [markStoriesDelivered_getElem?, Option.map_eq_some_iff] at hrow'
      obtain ⟨row, hrow, rfl⟩ := hrow'
      exact markRow_seen.mpr (hseen row hrow)
  | record sweep started outcome d rest members readAt hdue hreading =>
      rw [show s.clusterAfter (.record sweep started outcome : SynthesisAction F) = s.cluster from rfl,
        getElem?_recordStory]
      by_cases hid : d.id = id
      · subst hid
        cases hrow : s.story[d.id]? with
        | none => simp [Strands, hrow]
        | some row =>
            have hold := hseen row hrow
            simp only [if_pos, Option.map_some, Option.some.injEq, forall_eq', Strands, hrow, hdue,
              hreading, exists_eq_left', List.cons.injEq, and_assoc, exists_and_left, Prod.mk.injEq]
            cases attemptStory sha256 currentModel members outcome d with
            | skip => simpa [SweepWrite.apply] using hold
            | touch => simp [SweepWrite.apply, seen_touch]
            | store summary sig => simp [SweepWrite.apply, seen_store]
            | fail attempts error quarantine => simp [SweepWrite.apply, seen_fail]
      · rw [if_neg hid]
        refine iff_of_true hseen ?_
        rintro ⟨_, _, d', rest', _, _, hdue', _, hid', _⟩
        obtain ⟨rfl, _⟩ := List.cons.inj (hdue.symm.trans hdue')
        exact hid hid'
  | other act hrecompute hrecord =>
      cases act with
      | recompute r started => exact absurd rfl (hrecompute r started)
      | record sweep started outcome => exact absurd rfl (hrecord sweep started outcome)
      | build k new =>
          simp only [Strands, not_exists, Syntheses.clusterAfter]
          refine forall_congr' fun row => ?_
          rw [not_and]
          refine forall_congr' fun hrow => ?_
          rw [Bulletin.seen_iff, StoryRow.parted_build]
          split
          · next hnew => simp only [hnew.1, hnew.2, true_and]
          · next hold =>
              refine iff_of_true (Bulletin.seen_iff.mp (hseen row hrow)) ?_
              rintro ⟨hmember, hnone, _⟩
              exact hold ⟨hmember, hnone⟩
      | summarize k write =>
          simp only [Strands, not_exists, Syntheses.clusterAfter]
          refine forall_congr' fun row => ?_
          rw [not_and]
          refine forall_congr' fun hrow => ?_
          rw [Bulletin.seen_iff]
          by_cases hmove : k ∈ row.members ∧ ∃ summary hash, write = .store summary hash
          · obtain ⟨hmember, summary, hash, rfl⟩ := hmove
            simp only [hmember, true_and]
            exact Iff.rfl
          · have hkept := Bulletin.seen_iff.mp (hseen row hrow)
            rw [StoryRow.parted_summarize fun hmember summary hash heq =>
              hmove ⟨hmember, summary, hash, heq⟩]
            refine iff_of_true hkept ?_
            cases write with
            | store summary hash => exact fun hstrands => hmove ⟨hstrands.1, summary, hash, rfl⟩
            | touch | skip | fail _ _ _ => exact fun hstrands => hstrands
      | _ =>
          refine iff_of_true hseen ?_
          rintro ⟨_, _, hstrands⟩
          exact hstrands

theorem stalenessSeen_start : StalenessSeen sha256 currentModel {} := by
  intro id row hrow
  simp at hrow

/-- In every run every stale story is in the queue in every state exactly when no step strands
one. -/
theorem staleness_seen_iff (h : SynthesisRuns sha256 currentModel ts s) :
    (∀ t ∈ ts, StalenessSeen sha256 currentModel t.after) ↔
      ∀ t ∈ ts, ∀ id, ¬ Strands sha256 currentModel t.before t.action id := by
  have hstep : ∀ t ∈ ts, StalenessSeen sha256 currentModel t.before →
      (StalenessSeen sha256 currentModel t.after ↔
        ¬ ∃ id, Strands sha256 currentModel t.before t.action id) := by
    intro t ht hbefore
    obtain ⟨pre, post, heq, hpre⟩ := h.before_of_mem ht
    rw [stalenessSeen_iff] at hbefore ⊢
    rw [not_exists]
    exact forall_congr' fun id =>
      (h.step_of_mem ht).seen_iff (SynthesisRuns.apart hpre) (hbefore id)
  rw [Run.Runs.throughout_iff h stalenessSeen_start hstep]
  simp only [not_exists]

/-! ## A member summarized again -/

omit [Score F] in
theorem stalenessSeen_of_all (h : (s.story.toList.all fun entry => entry.2.withheld ||
    entry.2.due currentModel || !decide (entry.2.Parted sha256 s.cluster)) = true) :
    StalenessSeen sha256 currentModel s := by
  rw [stalenessSeen_iff]
  intro id row hrow hheld hparted hsettled
  have hone := List.all_eq_true.mp h (id, row)
    (Std.ExtTreeMap.mem_toList_iff_getElem?_eq_some.mpr hrow)
  simp only [hheld, hparted, decide_true, Bool.not_true, Bool.or_false, Bool.false_or] at hone
  exact (StoryRow.due_iff.mp hone).1 hsettled

def noteCluster (id : Uuid) : ClusterRow where
  key := ⟨.ofPublic, .rss, toString id⟩
  title := "note"
  link := none
  lastEventTime := 0
  summary := {}
  summaryHash := none

def noteWritten (hash : UInt8) : SweepWrite :=
  .store { headline := "A note", tldrText := "A note.", band := .confirmed } [hash]

def fusedNotes : SummaryOutcome := .faithful { headline := "Two notes", band := .confirmed }

def fusedScript : List (SynthesisCue ℚ) :=
  [.other (.build 1 (noteCluster 1)), .other (.build 2 (noteCluster 2)),
    .other (.summarize 1 (noteWritten 11)), .other (.summarize 2 (noteWritten 12)),
    .recompute 7 [feedCluster 1 ["cve:a"] 0, feedCluster 2 ["cve:a"] 0] 100 1, .other (.wait 1),
    .loadQueue 0 7, .other (.readMembers 0), .other (.record 0 2 fusedNotes)]

def fusedTwiceScript : List (SynthesisCue ℚ) :=
  fusedScript ++ [.other (.build 3 (noteCluster 3)), .other (.summarize 3 (noteWritten 13)),
    .other (.wait 1), .recompute 7 [feedCluster 1 ["cve:a"] 0, feedCluster 2 ["cve:a"] 0,
      feedCluster 3 ["cve:a"] 0] 200 3, .other (.wait 1), .loadQueue 1 7, .other (.readMembers 1),
    .other (.record 1 4 fusedNotes)]

def fusedTwiceRun : List (Run.Transition Syntheses (SynthesisAction ℚ)) :=
  Run.transitions (Syntheses.play plainDigest "m") {} fusedTwiceScript

theorem staleness_seen_iff_fusedTwice : ∃ s, SynthesisRuns plainDigest "m" fusedTwiceRun s ∧
    (s.story[100]?.map fun row : StoryRow => (row.members, row.synthesis.summarizedAt)) =
      some ([1, 2, 3], some 4) ∧
    ∀ t ∈ fusedTwiceRun, ∀ id, ¬ Strands plainDigest "m" t.before t.action id := by
  obtain ⟨s, hrun, hrow⟩ : ∃ s, SynthesisRuns plainDigest "m" fusedTwiceRun s ∧
      decide ((s.story[100]?.map fun row : StoryRow => (row.members, row.synthesis.summarizedAt)) =
        some ([1, 2, 3], some 4)) = true := Syntheses.play_ends (by decide +kernel)
  have hall : (fusedTwiceRun.all fun t => t.after.story.toList.all fun entry => entry.2.withheld ||
      entry.2.due "m" || !decide (entry.2.Parted plainDigest t.after.cluster)) = true := by
    decide +kernel
  refine ⟨s, hrun, of_decide_eq_true hrow, (staleness_seen_iff hrun).mp ?_⟩
  intro t ht
  exact stalenessSeen_of_all (List.all_eq_true.mp hall t ht)

def movedMemberScript : List (SynthesisCue ℚ) :=
  fusedScript ++ [.other (.wait 1), .other (.summarize 1 (noteWritten 21))]

def movedMemberRun : List (Run.Transition Syntheses (SynthesisAction ℚ)) :=
  Run.transitions (Syntheses.play plainDigest "m") {} movedMemberScript

/-- The text was made from the first hash of the member, and the story is not in the queue. -/
theorem member_change_unseen : ∃ s row, SynthesisRuns plainDigest "m" movedMemberRun s ∧
    s.story[100]? = some row ∧ row.members = [1, 2] ∧ row.withheld = false ∧
    row.Parted plainDigest s.cluster ∧ storiesNeedingSummary s.story 7 "m" = [] ∧
    ¬ StalenessSeen plainDigest "m" s := by
  obtain ⟨s, hrun, hend⟩ : ∃ s, SynthesisRuns plainDigest "m" movedMemberRun s ∧ decide
      (storiesNeedingSummary s.story 7 "m" = [] ∧ (s.story[100]?.any fun row : StoryRow =>
        row.subscriberId = 7 ∧ row.members = [1, 2] ∧ row.withheld = false ∧
          row.Parted plainDigest s.cluster)) = true := Syntheses.play_ends (by decide +kernel)
  obtain ⟨hdue, hany⟩ := of_decide_eq_true hend
  obtain ⟨row, hrow, hin⟩ := (Option.any_eq_true _ _).mp hany
  obtain ⟨hsub, hmembers, hheld, hparted⟩ := of_decide_eq_true hin
  refine ⟨s, row, hrun, hrow, hmembers, hheld, hparted, hdue, ?_⟩
  intro hseen
  have hmem := hseen 100 row hrow hheld hparted
  rw [hsub, hdue] at hmem
  exact List.not_mem_nil hmem

end Bulletin
