import Bulletin.Digest.Fire
import Bulletin.Digest.Render
import Bulletin.System.Partition

/-! # What a rendered synthesis covers

A sweep reads which members its stories have, then what they say, and then writes a text;
recomputes move the members all along, and a render shows the text whenever there is one.
The text covers the story as long as no recompute moved the members since the sweep that
wrote it read them.
-/

namespace Bulletin

variable {F : Type} [Score F] {sha256 : List UInt8 → List UInt8}
  {ts us : List (Run.Transition Db (Action F))} {db db' : Db} {s : Uuid}

omit [Score F] in
/-- The transaction stores a gate-passed text for story `s`: sweep `k` has it from `members`, its
read of the clusters `ids`. -/
def Synthesized (sha256 : List UInt8 → List UInt8) (t : Run.Transition Db (Action F)) (k : Nat)
    (s : Uuid) (ids : List Uuid) (members : List MemberSummary) (summary : ClusterSummary) : Prop :=
  ∃ d rest sig, t.action = .record k (.faithful summary) ∧
    (t.before.sweep k).due = d :: rest ∧ (t.before.sweep k).reading = some members ∧
    d.id = s ∧ d.clusterIds = ids ∧
    attemptStory sha256 (t.before.sweep k).model members (.faithful summary) d = .store summary sig

def LoadsQueue (t : Run.Transition Db (Action F)) (k : Nat) : Prop :=
  ∃ sub model queue, t.action = .loadQueue k sub model queue

/-- The sweep reads the summaries of the clusters `ids`. -/
def ReadsMembers (t : Run.Transition Db (Action F)) (k : Nat) (ids : List Uuid)
    (members : List MemberSummary) : Prop :=
  t.action = .readMembers k ∧
    members = loadMemberSummaries t.before.cluster (t.before.sweep k).subscriber ids

/-- The last text the run stored for `s`, and what came between its sweep's read of the queue
and the store, and after the store. -/
def LastSynthesis (sha256 : List UInt8 → List UInt8) (ts : List (Run.Transition Db (Action F)))
    (s : Uuid) (ids : List Uuid) (summary : ClusterSummary)
    (mid post : List (Run.Transition Db (Action F))) : Prop :=
  ∃ pre l t k members, ts = pre ++ l :: mid ++ t :: post ∧
    LoadsQueue l k ∧ (∀ u ∈ mid, ¬ LoadsQueue u k) ∧ (∃ u ∈ mid, ReadsMembers u k ids members) ∧
    Synthesized sha256 t k s ids members summary ∧
    ∀ u ∈ post, ∀ k' ids' members' summary', ¬ Synthesized sha256 u k' s ids' members' summary'

/-- The row of `s` lists the same clusters in both tables. -/
def SameMembers (table table' : StoryTable) (s : Uuid) : Prop :=
  ∀ row row', table[s]? = some row → table'[s]? = some row' →
    ∀ c, c ∈ row'.members ↔ c ∈ row.members

/-- No recompute changed the members of `s` since the sweep that stored its last text read its
queue. -/
def MembersKept (sha256 : List UInt8 → List UInt8) (ts : List (Run.Transition Db (Action F)))
    (s : Uuid) : Prop :=
  ∀ ids summary mid post, LastSynthesis sha256 ts s ids summary mid post →
    ∀ u ∈ mid ++ post, ∀ r, u.action = .recompute r → SameMembers u.before.story u.after.story s

/-! ## Sweeps -/

/-- What a transaction makes of sweep `k`. -/
inductive SweepMove (db : Db) (a : Action F) (k : Nat) : StorySweep → Prop
  | load (sub : Uuid) (model : String) (queue : List DueStory)
      (haction : a = .loadQueue k sub model queue)
      (hqueue : ∀ d ∈ queue, d ∈ storiesNeedingSummary db.story sub model) :
      SweepMove db a k { subscriber := sub, model := model, due := queue }
  | read (d : DueStory) (rest : List DueStory) (haction : a = .readMembers k)
      (hdue : (db.sweep k).due = d :: rest) :
      SweepMove db a k { db.sweep k with
        reading := some (loadMemberSummaries db.cluster (db.sweep k).subscriber d.clusterIds) }
  | drop (w : StorySweep) (hno : ∀ sub model queue, a ≠ .loadQueue k sub model queue)
      (hdue : w.due ⊆ (db.sweep k).due) (hreading : w.reading = none) : SweepMove db a k w
  | keep (hno : ∀ sub model queue, a ≠ .loadQueue k sub model queue) :
      SweepMove db a k (db.sweep k)

omit [Score F] in
theorem sweepMove_update {a : Action F} {j k : Nat} {w : StorySweep}
    (hown : j = k → SweepMove db a k w)
    (hother : j ≠ k → ∀ sub model queue, a ≠ .loadQueue k sub model queue) :
    SweepMove db a k (Function.update db.sweep j w k) := by
  by_cases hj : j = k
  · subst hj
    rw [Function.update_self]
    exact hown rfl
  · rw [Function.update_of_ne (Ne.symm hj)]
    exact .keep (hother hj)

theorem Step.sweepMove {a : Action F} (h : Step sha256 db a db') (k : Nat) :
    SweepMove db a k (db'.sweep k) := by
  obtain ⟨henabled, rfl⟩ := h
  cases a with
  | loadQueue j sub model queue =>
      refine sweepMove_update ?_ ?_
      · rintro rfl
        exact .load sub model queue rfl henabled.2.2
      · rintro hj sub' model' queue' ⟨⟩
        exact hj rfl
  | readMembers j =>
      refine sweepMove_update ?_ fun _ _ _ _ => nofun
      rintro rfl
      obtain ⟨hdue, _⟩ := henabled
      obtain ⟨d, rest, hdue⟩ := List.exists_cons_of_ne_nil hdue
      rw [StorySweep.readMembers_cons hdue]
      exact .read d rest rfl hdue
  | record j outcome =>
      refine sweepMove_update ?_ fun _ _ _ _ => nofun
      rintro rfl
      exact .drop _ (fun _ _ _ => nofun) (List.tail_subset _) rfl
  | passOver j =>
      refine sweepMove_update ?_ fun _ _ _ _ => nofun
      rintro rfl
      exact .drop _ (fun _ _ _ => nofun) (List.tail_subset _) rfl
  | abort j =>
      refine sweepMove_update ?_ fun _ _ _ _ => nofun
      rintro rfl
      exact .drop _ (fun _ _ _ => nofun) (List.nil_subset _) rfl
  | recompute r => exact .keep fun _ _ _ => nofun
  | createDigest id sub windowEnd items => exact .keep fun _ _ _ => nofun
  | markDelivered id sub => exact .keep fun _ _ _ => nofun
  | ingest cluster event => exact .keep fun _ _ _ => nofun
  | wait duration => exact .keep fun _ _ _ => nofun

theorem due_row {table : StoryTable} {sub : Uuid} {model : String} {d : DueStory}
    (h : d ∈ storiesNeedingSummary table sub model) :
    ∃ row, table[d.id]? = some row ∧ d = row.dueStory d.id := by
  obtain ⟨entry, hentry, rfl⟩ := List.mem_map.mp h
  have hmem := (List.mem_filter.mp hentry).1
  exact ⟨entry.2, Std.ExtTreeMap.mem_toList_iff_getElem?_eq_some.mp hmem, rfl⟩

/-- What sweep `k` goes by: a queue with the members its stories had, and a read of those. -/
def SweepRead (us : List (Run.Transition Db (Action F))) (m : Db) (k : Nat) : Prop :=
  (m.sweep k).due ≠ [] → ∃ pre l mid, us = pre ++ l :: mid ∧
    LoadsQueue l k ∧ (∀ u ∈ mid, ¬ LoadsQueue u k) ∧
    (∀ d ∈ (m.sweep k).due, ∃ row, l.before.story[d.id]? = some row ∧ d.clusterIds = row.members) ∧
    ∀ d rest members, (m.sweep k).due = d :: rest → (m.sweep k).reading = some members →
      ∃ u ∈ mid, ReadsMembers u k d.clusterIds members

omit [Score F] in
theorem SweepRead.snoc {t : Run.Transition Db (Action F)} {k : Nat}
    (h : SweepRead us t.before k) (hno : ∀ sub model queue, t.action ≠ .loadQueue k sub model queue)
    (hdue : (t.after.sweep k).due ⊆ (t.before.sweep k).due)
    (hread : ∀ d rest members, (t.after.sweep k).due = d :: rest →
      (t.after.sweep k).reading = some members → ReadsMembers t k d.clusterIds members ∨
        ((t.before.sweep k).due = d :: rest ∧ (t.before.sweep k).reading = some members)) :
    SweepRead (us ++ [t]) t.after k := by
  intro hne
  have hold : (t.before.sweep k).due ≠ [] := fun hnil => hne (List.subset_nil.mp (hnil ▸ hdue))
  obtain ⟨pre, l, mid, rfl, hload, hnone, hrows, hreads⟩ := h hold
  refine ⟨pre, l, mid ++ [t], by simp, hload, ?_, fun d hd => hrows d (hdue hd), ?_⟩
  · intro u hu
    rcases List.mem_append.mp hu with hin | hend
    · exact hnone u hin
    · rw [List.mem_singleton.mp hend]
      rintro ⟨sub, model, queue, haction⟩
      exact hno sub model queue haction
  · intro d rest members hcons hreading
    rcases hread d rest members hcons hreading with hnow | ⟨hcons', hreading'⟩
    · exact ⟨t, by simp, hnow⟩
    · obtain ⟨u, hu, hmembers⟩ := hreads d rest members hcons' hreading'
      exact ⟨u, List.mem_append_left _ hu, hmembers⟩

theorem DbRuns.sweepRead (h : DbRuns sha256 ts db) (k : Nat) : SweepRead ts db k := by
  refine Run.Runs.invariant h (fun us m => SweepRead us m k) ?_ ?_
  · intro hne
    exact absurd rfl hne
  · intro us t post _ _ hstep hI
    have hmove := hstep.sweepMove k
    generalize hw : t.after.sweep k = w at hmove
    cases hmove with
    | load sub model queue haction hqueue =>
        intro _
        refine ⟨us, t, [], rfl, ⟨sub, model, queue, haction⟩, (fun u hu => nomatch hu), ?_, ?_⟩
        · intro d hd
          rw [hw] at hd
          obtain ⟨row, hrow, hd'⟩ := due_row (hqueue d hd)
          exact ⟨row, hrow, congrArg DueStory.clusterIds hd'⟩
        · intro d rest members _ hreading
          rw [hw] at hreading
          cases hreading
    | read d rest haction hdue =>
        refine hI.snoc (fun sub model queue heq => nomatch haction.symm.trans heq) ?_ ?_
        · rw [hw]
          exact List.Subset.refl _
        · intro d' rest' members hcons hreading
          rw [hw] at hcons hreading
          obtain ⟨rfl, _⟩ := List.cons.inj (hdue.symm.trans hcons)
          exact .inl ⟨haction, (Option.some.inj hreading).symm⟩
    | drop w hno hdue hreading =>
        subst hw
        exact hI.snoc hno hdue fun d rest members _ hsome => nomatch hreading.symm.trans hsome
    | keep hno =>
        refine hI.snoc hno ?_ ?_
        · rw [hw]
          exact List.Subset.refl _
        · intro d rest members hcons hreading
          rw [hw] at hcons hreading
          exact .inr ⟨hcons, hreading⟩

/-! ## Texts -/

theorem SweepWrite.apply_summary {now : DateTime} {model : String} {write : SweepWrite}
    {syn : Synthesis} (hnot : ∀ summary sig, write ≠ .store summary sig) :
    (write.apply now model syn).summary = syn.summary := by
  cases write with
  | touch => rfl
  | skip => rfl
  | store summary sig => exact absurd rfl (hnot summary sig)
  | fail attempts error quarantine => rfl

/-- The text of a row after a transaction: stored by it on the row, none, or the text the row
had. -/
inductive TextStep (sha256 : List UInt8 → List UInt8) (db : Db) (a : Action F) (db' : Db) (s : Uuid)
    (row' : StoryRow) : Prop
  | stored (k : Nat) (ids : List Uuid) (members : List MemberSummary) (row : StoryRow)
      (hs : Synthesized sha256 ⟨db, a, db'⟩ k s ids members row'.synthesis.summary)
      (hrow : db.story[s]? = some row) (hmembers : row'.members = row.members)
  | none (h : row'.synthesis.summary = {})
  | kept (row : StoryRow) (hrow : db.story[s]? = some row)
      (hnot : ∀ k ids members summary, ¬ Synthesized sha256 ⟨db, a, db'⟩ k s ids members summary)
      (htext : row'.synthesis.summary = row.synthesis.summary)
      (hmembers : (∀ r, a ≠ .recompute r) → row'.members = row.members)

omit [Score F] in
theorem not_synthesized {a : Action F} (h : ∀ k outcome, a ≠ .record k outcome) (k : Nat)
    (ids : List Uuid) (members : List MemberSummary) (summary : ClusterSummary) :
    ¬ Synthesized sha256 ⟨db, a, db'⟩ k s ids members summary := by
  intro hs
  obtain ⟨_, _, _, haction, _⟩ := hs
  exact h k _ haction

/-- What a sweep records is on the row of the story it is at, and a text only if it stores one. -/
theorem text_record {k : Nat} {outcome : SummaryOutcome} {row' : StoryRow}
    (henabled : (Action.record k outcome : Action F).Enabled db)
    (hrow' : ((db.sweep k).record sha256 db.now outcome db.story)[s]? = some row') :
    TextStep sha256 db (.record k outcome : Action F)
      ((Action.record k outcome : Action F).apply sha256 db) s row' := by
  obtain ⟨hdue, hreading⟩ := henabled
  obtain ⟨d, rest, hdue⟩ := List.exists_cons_of_ne_nil hdue
  obtain ⟨members, hreading⟩ := Option.ne_none_iff_exists'.mp hreading
  unfold StorySweep.record at hrow'
  rw [hdue, hreading] at hrow'
  dsimp only at hrow'
  rw [getElem?_recordStory] at hrow'
  by_cases hid : d.id = s
  · rw [if_pos hid, Option.map_eq_some_iff] at hrow'
    obtain ⟨row, hold, rfl⟩ := hrow'
    by_cases hstore : ∃ summary sig,
        attemptStory sha256 (db.sweep k).model members outcome d = .store summary sig
    · obtain ⟨summary, sig, hwrite⟩ := hstore
      obtain rfl := attemptStory_store hwrite
      refine TextStep.stored k d.clusterIds members row ?_ hold rfl
      rw [hwrite]
      exact ⟨d, rest, sig, rfl, hdue, hreading, hid, rfl, hwrite⟩
    · have hnot : ∀ summary sig,
          attemptStory sha256 (db.sweep k).model members outcome d ≠ .store summary sig :=
        fun summary sig heq => hstore ⟨summary, sig, heq⟩
      refine TextStep.kept row hold ?_ (SweepWrite.apply_summary hnot) fun _ => rfl
      rintro k' ids members' summary ⟨d', rest', sig, haction, hdue', hreading', _, _, hwrite⟩
      cases haction
      obtain ⟨rfl, _⟩ := List.cons.inj (hdue.symm.trans hdue')
      obtain rfl := Option.some.inj (hreading.symm.trans hreading')
      exact hnot summary sig hwrite
  · rw [if_neg hid] at hrow'
    refine TextStep.kept row' hrow' ?_ rfl fun _ => rfl
    rintro k' ids members' summary ⟨d', rest', sig, haction, hdue', _, hid', _⟩
    cases haction
    obtain ⟨rfl, _⟩ := List.cons.inj (hdue.symm.trans hdue')
    exact hid hid'

theorem Step.text {a : Action F} (h : Step sha256 db a db')
    (hapart : ∀ sub, StoriesApart db.story sub)
    {row' : StoryRow} (hrow' : db'.story[s]? = some row') : TextStep sha256 db a db' s row' := by
  obtain ⟨henabled, rfl⟩ := h
  cases a with
  | recompute r =>
      have hsame : ∀ k outcome, (Action.recompute r : Action F) ≠ .record k outcome :=
        fun _ _ => nofun
      have hno : ¬ ∀ r', (Action.recompute r : Action F) ≠ .recompute r' := fun hall => hall r rfl
      cases Recompute.rowFate henabled (hapart r.subscriber) db.now s with
      | written story _ _ _ hnew =>
          obtain rfl := Option.some.inj (hnew.symm.trans hrow')
          cases hold : db.story[s]? with
          | none =>
              apply TextStep.none
              rw [upsertRow_synthesis]
              rfl
          | some row =>
              apply TextStep.kept row hold (not_synthesized hsame)
              · rw [upsertRow_synthesis]
                rfl
              · exact fun hall => absurd hall hno
      | mergedAway _ _ row _ hold _ _ _ hnew =>
          obtain rfl := Option.some.inj (hnew.symm.trans hrow')
          exact TextStep.kept row hold (not_synthesized hsame) rfl fun hall => absurd hall hno
      | untouched _ _ hnew =>
          exact TextStep.kept row' (hnew.symm.trans hrow') (not_synthesized hsame) rfl fun _ => rfl
  | createDigest id sub windowEnd items =>
      exact TextStep.kept row' hrow' (not_synthesized fun _ _ => nofun) rfl fun _ => rfl
  | markDelivered id sub =>
      have hrow : (markStoriesDelivered db.now sub (digestStories db.digest id) db.story)[s]? =
        some row' := hrow'
      rw [markStoriesDelivered_getElem?, Option.map_eq_some_iff] at hrow
      obtain ⟨row, hold, rfl⟩ := hrow
      have hmark : (markRow db.now sub (digestStories db.digest id) s row).synthesis =
          row.synthesis ∧
          (markRow db.now sub (digestStories db.digest id) s row).members = row.members := by
        unfold markRow
        by_cases hin : s ∈ digestStories db.digest id ∧ row.subscriberId = sub
        · rw [if_pos hin]
          exact ⟨rfl, rfl⟩
        · rw [if_neg hin]
          exact ⟨rfl, rfl⟩
      refine TextStep.kept row hold (not_synthesized fun _ _ => nofun) ?_ fun _ => hmark.2
      rw [hmark.1]
  | record k outcome => exact text_record henabled hrow'
  | loadQueue k sub model queue =>
      exact TextStep.kept row' hrow' (not_synthesized fun _ _ => nofun) rfl fun _ => rfl
  | readMembers k =>
      exact TextStep.kept row' hrow' (not_synthesized fun _ _ => nofun) rfl fun _ => rfl
  | passOver k =>
      exact TextStep.kept row' hrow' (not_synthesized fun _ _ => nofun) rfl fun _ => rfl
  | abort k =>
      exact TextStep.kept row' hrow' (not_synthesized fun _ _ => nofun) rfl fun _ => rfl
  | ingest cluster event =>
      exact TextStep.kept row' hrow' (not_synthesized fun _ _ => nofun) rfl fun _ => rfl
  | wait duration =>
      exact TextStep.kept row' hrow' (not_synthesized fun _ _ => nofun) rfl fun _ => rfl

/-! ## Runs -/

def StillLists (s : Uuid) (row₀ : StoryRow) (db : Db) : Prop :=
  (∀ sub, StoriesApart db.story sub) ∧
    ∃ row, db.story[s]? = some row ∧ ∀ c, c ∈ row.members ↔ c ∈ row₀.members

theorem DbRuns.members_kept {pre mid : List (Run.Transition Db (Action F))}
    {l : Run.Transition Db (Action F)} (h : DbRuns sha256 (pre ++ l :: mid) db) {row₀ : StoryRow}
    (hrow₀ : l.before.story[s]? = some row₀)
    (hkept : ∀ u ∈ l :: mid, ∀ r, u.action = .recompute r →
      SameMembers u.before.story u.after.story s) :
    StillLists s row₀ db := by
  have hone : ∀ t ∈ l :: mid, Step sha256 t.before t.action t.after → StillLists s row₀ t.before →
      StillLists s row₀ t.after := by
    intro t ht hstep hI
    obtain ⟨hapart, row, hrow, hmembers⟩ := hI
    refine ⟨hstep.apart hapart, ?_⟩
    obtain ⟨row', hrow', _⟩ := hstep.row_kept hapart hrow
    refine ⟨row', hrow', fun c => ?_⟩
    rw [← hmembers c]
    by_cases hrec : ∃ r, t.action = .recompute r
    · obtain ⟨r, haction⟩ := hrec
      exact hkept t ht r haction row row' hrow hrow' c
    · rcases hstep.stories with ⟨r, haction, _⟩ | ⟨_, hsame⟩
      · exact absurd ⟨r, haction⟩ hrec
      · obtain ⟨row'', hrow'', hcontent⟩ := hsame.row hrow
        obtain rfl := Option.some.inj (hrow'.symm.trans hrow'')
        rw [hcontent.members]
  rw [List.append_cons] at h
  obtain ⟨m, hpre, hseg⟩ := Run.Runs.split h
  obtain ⟨rfl, hbefore, hstep⟩ := hpre.last
  have hfirst : StillLists s row₀ l.before := ⟨DbRuns.apart hbefore, row₀, hrow₀, fun _ => Iff.rfl⟩
  exact Run.Runs.state_invariant hseg (StillLists s row₀)
    (hone l List.mem_cons_self hstep hfirst) fun t ht => hone t (List.mem_cons_of_mem l ht)

omit [Score F] in
theorem LastSynthesis.snoc {ids : List Uuid} {summary : ClusterSummary}
    {mid post : List (Run.Transition Db (Action F))} {t : Run.Transition Db (Action F)}
    (h : LastSynthesis sha256 us s ids summary mid post)
    (hnot : ∀ k ids' members summary', ¬ Synthesized sha256 t k s ids' members summary') :
    LastSynthesis sha256 (us ++ [t]) s ids summary mid (post ++ [t]) := by
  obtain ⟨pre, l, u, k, members, rfl, hload, hmid, hread, hs, hlast⟩ := h
  refine ⟨pre, l, u, k, members, by simp, hload, hmid, hread, hs, ?_⟩
  intro v hv
  rcases List.mem_append.mp hv with hin | hend
  · exact hlast v hin
  · rw [List.mem_singleton.mp hend]
    exact hnot

/-- The text of a row is the last one stored for it, from the row's members if they were kept. -/
def TextCovers (sha256 : List UInt8 → List UInt8) (ts : List (Run.Transition Db (Action F)))
    (s : Uuid) (row : StoryRow) : Prop :=
  ∃ ids mid post, LastSynthesis sha256 ts s ids row.synthesis.summary mid post ∧
    (MembersKept sha256 ts s → ∀ c, c ∈ ids ↔ c ∈ row.members)

theorem DbRuns.textCovers (h : DbRuns sha256 ts db) {row : StoryRow}
    (hrow : db.story[s]? = some row)
    (htext : row.synthesis.summary.isEmpty = false) : TextCovers sha256 ts s row := by
  refine Run.Runs.invariant h (fun us m => ∀ row, m.story[s]? = some row →
    row.synthesis.summary.isEmpty = false → TextCovers sha256 us s row) ?_ ?_ row hrow htext
  · intro row hrow
    cases Std.ExtTreeMap.getElem?_empty.symm.trans hrow
  · intro us t post _ hus hstep hI row' hrow' htext
    cases hstep.text (DbRuns.apart hus) hrow' with
    | stored k ids members row hs hrow hmembers =>
        obtain ⟨d, rest, sig, haction, hdue, hreading, hid, hids, hwrite⟩ := id hs
        obtain ⟨pre, l, mid, rfl, hload, hnone, hrows, hreads⟩ :=
          DbRuns.sweepRead hus k (by rw [hdue]; exact List.cons_ne_nil d rest)
        obtain ⟨row₀, hrow₀, hclusters⟩ := hrows d (by rw [hdue]; exact List.mem_cons_self)
        have hlast : LastSynthesis sha256 (pre ++ l :: mid ++ [t]) s ids row'.synthesis.summary
            mid [] := by
          refine ⟨pre, l, t, k, members, rfl, hload, hnone, ?_, hs, fun u hu => nomatch hu⟩
          rw [← hids]
          exact hreads d rest members hdue hreading
        refine ⟨ids, mid, [], hlast, fun hkept c => ?_⟩
        rw [hid] at hrow₀
        have hsegment : ∀ u ∈ l :: mid, ∀ r, u.action = .recompute r →
            SameMembers u.before.story u.after.story s := by
          intro u hu r haction'
          rcases List.mem_cons.mp hu with rfl | hin
          · obtain ⟨_, _, _, hqueue⟩ := hload
            cases hqueue.symm.trans haction'
          · exact hkept _ _ _ _ hlast u (by simpa using hin) r haction'
        obtain ⟨_, row₁, hrow₁, hsame⟩ := DbRuns.members_kept hus hrow₀ hsegment
        obtain rfl := Option.some.inj (hrow.symm.trans hrow₁)
        rw [hmembers, hsame c, ← hids, hclusters]
    | none hnone =>
        rw [hnone] at htext
        exact absurd htext (by decide +kernel)
    | kept row hrow hnot hsame hmembers =>
        rw [hsame] at htext
        obtain ⟨ids, mid, post', hlast, hcover⟩ := hI row hrow htext
        have hlast' := hlast.snoc hnot
        refine ⟨ids, mid, post' ++ [t], hsame ▸ hlast', fun hkept c => ?_⟩
        have hbefore : MembersKept sha256 us s := by
          intro ids' summary' mid' post'' hlast'' u hu
          refine hkept _ _ _ _ (hlast''.snoc hnot) u ?_
          rw [← List.append_assoc]
          exact List.mem_append_left _ hu
        rw [hcover hbefore c]
        by_cases hrec : ∃ r, t.action = .recompute r
        · obtain ⟨r, haction⟩ := hrec
          have hsameMembers := hkept _ _ _ _ hlast' t (by simp) r haction
          exact (hsameMembers row row' hrow hrow' c).symm
        · rw [hmembers fun r haction => hrec ⟨r, haction⟩]

/-- In every reachable state, a rendered item shows either a story's synthesis, generated
from exactly the clusters the story has, or what it would show without one, as long as no
recompute moved the members of its digest's stories since the sweep behind their last
synthesis read its queue. -/
theorem rendered_synthesis_covers (h : DbRuns sha256 ts db) {id sub : Uuid}
    (hkept : ∀ s ∈ digestStories db.digest id, MembersKept sha256 ts s) {item : RenderItem}
    (hitem : item ∈ renderItems db.story db.digest db.cluster sub id) :
    ∃ s ∈ digestStories db.digest id, ∃ row cards, db.story[s]? = some row ∧
      buildRenderItem row.clusters cards (some row.synthesis.summary) = some item ∧
      if item.synthesized then
        ∃ ids mid post, LastSynthesis sha256 ts s ids row.synthesis.summary mid post ∧
          ∀ c, c ∈ ids ↔ c ∈ row.members
      else buildRenderItem row.clusters cards none = some item := by
  obtain ⟨s, row, cards, hs, hrow, _, hbuild⟩ := mem_renderItems hitem
  refine ⟨s, hs, row, cards, hrow, hbuild, ?_⟩
  have hshown := buildRenderItem_synthesized hbuild
  cases htext : row.synthesis.summary.isEmpty with
  | true =>
      rw [htext, if_pos rfl] at hshown
      rw [hshown.1, if_neg (by simp)]
      exact hshown.2
  | false =>
      rw [htext, if_neg (by simp)] at hshown
      rw [hshown, if_pos rfl]
      obtain ⟨ids, mid, post, hlast, hcover⟩ := h.textCovers hrow htext
      exact ⟨ids, mid, post, hlast, hcover (hkept s hs)⟩

/-! ## A story that grew after its synthesis -/

def advisory (id : Uuid) : Uuid × ClusterRow :=
  (id,
    { key := ⟨.ofPublic, .rss, toString id⟩
      title := "advisory"
      link := none
      lastEventTime := 0
      summary := { headline := "one advisory", band := .confirmed }
      summaryHash := some [UInt8.ofNat id] })

def grownIngest : Action ℚ :=
  .ingest (Std.ExtTreeMap.ofList [advisory 1, advisory 2, advisory 3] compare) []

def grownDb₁ : Db := grownIngest.apply plainDigest {}

def grownFirst : Recompute ℚ :=
  .onTable ∅ 7 [feedCluster 1 ["cve:a"] 0, feedCluster 2 ["cve:a"] 0] {} 100

def grownDb₂ : Db := (Action.recompute grownFirst).apply plainDigest grownDb₁

def fusedText : ClusterSummary := { headline := "two advisories", band := .confirmed }

def grownLoad : Action ℚ :=
  .loadQueue 0 7 "model@1" (storiesNeedingSummary grownDb₂.story 7 "model@1")

def grownDb₃ : Db := grownLoad.apply plainDigest grownDb₂

def grownDb₄ : Db := (Action.readMembers 0 : Action ℚ).apply plainDigest grownDb₃

def grownStore : Action ℚ := .record 0 (.faithful fusedText)

def grownDb₅ : Db := grownStore.apply plainDigest grownDb₄

def grownCreate : Action ℚ := .createDigest 500 7 10 ((Fire.plain ℚ 10).items grownFirst ∅)

def grownDb₆ : Db := grownCreate.apply plainDigest grownDb₅

def coveredRun : List (Run.Transition Db (Action ℚ)) :=
  [⟨{}, grownIngest, grownDb₁⟩, ⟨grownDb₁, .recompute grownFirst, grownDb₂⟩,
    ⟨grownDb₂, grownLoad, grownDb₃⟩, ⟨grownDb₃, .readMembers 0, grownDb₄⟩,
    ⟨grownDb₄, grownStore, grownDb₅⟩, ⟨grownDb₅, grownCreate, grownDb₆⟩]

theorem coveredRun_runs : DbRuns plainDigest coveredRun grownDb₆ := by
  have ingest : Step plainDigest {} grownIngest grownDb₁ := ⟨trivial, rfl⟩
  have first : Step plainDigest grownDb₁ (Action.recompute grownFirst) grownDb₂ :=
    ⟨Recompute.onTable_reads (by decide +kernel) (by decide +kernel), rfl⟩
  have load : Step plainDigest grownDb₂ grownLoad grownDb₃ :=
    ⟨⟨rfl, by decide +kernel, fun d hd => hd⟩, rfl⟩
  have members : Step plainDigest grownDb₃ (Action.readMembers 0 : Action ℚ) grownDb₄ :=
    ⟨⟨by decide +kernel, by decide +kernel⟩, rfl⟩
  have store : Step plainDigest grownDb₄ grownStore grownDb₅ :=
    ⟨⟨by decide +kernel, by decide +kernel⟩, rfl⟩
  have create : Step plainDigest grownDb₅ grownCreate grownDb₆ :=
    ⟨⟨by decide +kernel, by decide +kernel, by decide +kernel⟩, rfl⟩
  exact .snoc (.snoc (.snoc (.snoc (.snoc (.snoc .nil ingest) first) load) members) store) create

theorem rendered_synthesis_covers_fused :
    ∃ item ∈ renderItems grownDb₆.story grownDb₆.digest grownDb₆.cluster 7 500,
      item.headline = "two advisories" ∧ ∃ s ∈ digestStories grownDb₆.digest 500, ∃ row cards,
        grownDb₆.story[s]? = some row ∧
        buildRenderItem row.clusters cards (some row.synthesis.summary) = some item ∧
        if item.synthesized then
          ∃ ids mid post,
            LastSynthesis plainDigest coveredRun s ids row.synthesis.summary mid post ∧
              ∀ c, c ∈ ids ↔ c ∈ row.members
        else buildRenderItem row.clusters cards none = some item := by
  have hitem : ((renderItems grownDb₆.story grownDb₆.digest grownDb₆.cluster 7 500).any fun item =>
      item.headline = "two advisories") = true := by decide +kernel
  obtain ⟨item, hitem, hheadline⟩ := List.any_eq_true.mp hitem
  refine ⟨item, hitem, of_decide_eq_true hheadline, ?_⟩
  refine rendered_synthesis_covers coveredRun_runs ?_ hitem
  rintro s _ ids summary mid post ⟨pre, l, t, k, _, heq, ⟨_, _, _, hload⟩, _⟩ u hu r haction
  -- the queue is read in the third transaction, after the only recompute
  unfold coveredRun at heq
  rcases pre with _ | ⟨a, _ | ⟨b, rest⟩⟩
  · obtain ⟨rfl, _⟩ := List.cons.inj heq
    cases hload
  · obtain ⟨_, heq⟩ := List.cons.inj heq
    obtain ⟨rfl, _⟩ := List.cons.inj heq
    cases hload
  · obtain ⟨_, heq⟩ := List.cons.inj heq
    obtain ⟨_, heq⟩ := List.cons.inj heq
    have hafter : u ∈ rest ++ l :: mid ++ t :: post := by
      rcases List.mem_append.mp hu with hmid | hpost
      · simp [hmid]
      · simp [hpost]
    change _ = rest ++ l :: mid ++ t :: post at heq
    rw [← heq] at hafter
    simp only [List.mem_cons, List.not_mem_nil, or_false] at hafter
    rcases hafter with rfl | rfl | rfl | rfl <;> cases haction

def grownDb₇ : Db := (Action.wait 1000000 : Action ℚ).apply plainDigest grownDb₆

def grownSecond : Recompute ℚ :=
  .onTable grownDb₇.story 7
    [feedCluster 1 ["cve:a"] 0, feedCluster 2 ["cve:a"] 0, feedCluster 3 ["cve:a"] 0] {} 200

def grownDb₈ : Db := (Action.recompute grownSecond).apply plainDigest grownDb₇

def grownReload : Action ℚ :=
  .loadQueue 1 7 "model@1" (storiesNeedingSummary grownDb₈.story 7 "model@1")

def grownDb₉ : Db := grownReload.apply plainDigest grownDb₈

def grownDb₁₀ : Db := (Action.readMembers 1 : Action ℚ).apply plainDigest grownDb₉

def grownFail : Action ℚ := .record 1 (.failed (.unavailable "timeout"))

def grownDb₁₁ : Db := grownFail.apply plainDigest grownDb₁₀

def grownRun : List (Run.Transition Db (Action ℚ)) :=
  coveredRun ++ [⟨grownDb₆, .wait 1000000, grownDb₇⟩, ⟨grownDb₇, .recompute grownSecond, grownDb₈⟩,
    ⟨grownDb₈, grownReload, grownDb₉⟩, ⟨grownDb₉, .readMembers 1, grownDb₁₀⟩,
    ⟨grownDb₁₀, grownFail, grownDb₁₁⟩]

theorem grownRun_runs : DbRuns plainDigest grownRun grownDb₁₁ := by
  have wait : Step plainDigest grownDb₆ (Action.wait 1000000 : Action ℚ) grownDb₇ := ⟨trivial, rfl⟩
  have second : Step plainDigest grownDb₇ (Action.recompute grownSecond) grownDb₈ :=
    ⟨Recompute.onTable_reads (by decide +kernel) (by decide +kernel), rfl⟩
  have load : Step plainDigest grownDb₈ grownReload grownDb₉ :=
    ⟨⟨by decide +kernel, by decide +kernel, fun d hd => hd⟩, rfl⟩
  have members : Step plainDigest grownDb₉ (Action.readMembers 1 : Action ℚ) grownDb₁₀ :=
    ⟨⟨by decide +kernel, by decide +kernel⟩, rfl⟩
  have fail : Step plainDigest grownDb₁₀ grownFail grownDb₁₁ :=
    ⟨⟨by decide +kernel, by decide +kernel⟩, rfl⟩
  exact .snoc (.snoc (.snoc (.snoc (.snoc coveredRun_runs wait) second) load) members) fail

/-- The digest then renders the text about clusters 1 and 2 for a story of three. -/
theorem stale_synthesis_rendered :
    DbRuns plainDigest grownRun grownDb₁₁ ∧ grownDb₁₁.story[100]?.map (·.members) = some [1, 2, 3] ∧
      (∃ item ∈ renderItems grownDb₁₁.story grownDb₁₁.digest grownDb₁₁.cluster 7 500,
        item.synthesized = true ∧ item.headline = "two advisories") ∧
      ¬ ∃ ids summary mid post, LastSynthesis plainDigest grownRun 100 ids summary mid post ∧
        ∀ c, c ∈ ids ↔ c ∈ [1, 2, 3] := by
  have hitem : ((renderItems grownDb₁₁.story grownDb₁₁.digest grownDb₁₁.cluster 7 500).any
      fun item => item.synthesized = true ∧ item.headline = "two advisories") = true := by
    decide +kernel
  obtain ⟨item, hitem, hshown⟩ := List.any_eq_true.mp hitem
  refine ⟨grownRun_runs, by decide +kernel, ⟨item, hitem, of_decide_eq_true hshown⟩, ?_⟩
  rintro ⟨ids, summary, mid, post, ⟨pre, l, t, k, _, heq, _, _, _, hs, _⟩, hall⟩
  have ht : t ∈ grownRun := by
    rw [heq]
    simp
  obtain ⟨d, rest, _, haction, hdue, _, _, hids, _⟩ := hs
  have hqueue : ∀ d ∈ (grownDb₄.sweep 0).due, d.clusterIds = [1, 2] := by decide +kernel
  have htwo : ids = [1, 2] := by
    simp only [grownRun, coveredRun, List.cons_append, List.nil_append, List.mem_cons,
      List.not_mem_nil, or_false] at ht
    rcases ht with rfl | rfl | rfl | rfl | rfl | rfl | rfl | rfl | rfl | rfl | rfl <;>
      try cases haction
    -- the only text stored is that of the first sweep
    rw [← hids]
    refine hqueue d ?_
    rw [hdue]
    exact List.mem_cons_self
  have hthree := (hall 3).mpr (by decide)
  rw [htwo] at hthree
  exact absurd hthree (by decide)

end Bulletin
