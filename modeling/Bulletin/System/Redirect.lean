import Bulletin.System.Partition

/-! # Deep links to retro-merged stories

A tombstone points to the story its id lost to, and the timeline follows one such
pointer. Whether that is enough is a matter of runs: the survivor may lose later.
-/

namespace Bulletin

variable {F : Type} [Score F] {sha256 : List UInt8 → List UInt8}
  {ts : List (Run.Transition Db (Action F))} {db : Db} {sub id : Uuid}

/-- The subscriber's story `id` was live after some transaction of the run. -/
def WasLive (ts : List (Run.Transition Db (Action F))) (sub id : Uuid) : Prop :=
  ∃ t ∈ ts, ∃ row, t.after.story[id]? = some row ∧ row.Live sub

/-- Some recompute of the run merged `id` away and placed a cluster of it in `s`. -/
def Received (ts : List (Run.Transition Db (Action F))) (sub id s : Uuid) : Prop :=
  ∃ t ∈ ts, ∃ r, t.action = .recompute r ∧ r.subscriber = sub ∧
    r.MergesAway t.before.story id ∧ ∃ c, Member t.before.story sub id c ∧ Placed r.assignment c s

/-- Every id that was ever live resolves, in one hop, to the members of a live story: its
own, or one its clusters went to, directly or over later merges. -/
def LinksResolve (ts : List (Run.Transition Db (Action F))) (db : Db) (sub : Uuid) : Prop :=
  ∀ id, WasLive ts sub id → ∃ s row, db.story[s]? = some row ∧ row.Live sub ∧
    timelineMembers db.story sub id = row.members ∧ Relation.ReflTransGen (Received ts sub) id s

/-- The recompute merges away no story a tombstone points to. -/
def SparesTargets (r : Recompute F) (table : StoryTable) : Prop :=
  ∀ (id : Uuid) (row : StoryRow) (s : Uuid), table[id]? = some row → row.mergedInto = some s →
    ¬ r.MergesAway table s

/-! ## What the rows of a run record -/

/-- Rows are those of the ids that were ever live, live rows have members, and a tombstone
points to a row that received clusters of its id. -/
structure Recorded (ts : List (Run.Transition Db (Action F))) (db : Db) : Prop where
  known : ∀ {id : Uuid} {row : StoryRow}, db.story[id]? = some row → WasLive ts row.subscriberId id
  kept : ∀ {sub id : Uuid}, WasLive ts sub id → ∃ row, db.story[id]? = some row ∧
    row.subscriberId = sub
  filled : ∀ {id : Uuid} {row : StoryRow}, db.story[id]? = some row → row.mergedInto = none →
    row.clusters ≠ []
  pointed : ∀ {id : Uuid} {row : StoryRow} {s : Uuid}, db.story[id]? = some row →
    row.mergedInto = some s → Received ts row.subscriberId id s ∧
      ∃ target, db.story[s]? = some target ∧ target.subscriberId = row.subscriberId

def TargetsLive (db : Db) (sub : Uuid) : Prop :=
  ∀ (id : Uuid) (row : StoryRow) (s : Uuid), db.story[id]? = some row → row.subscriberId = sub →
    row.mergedInto = some s → ∃ target, db.story[s]? = some target ∧ target.Live sub

omit [Score F] in
theorem WasLive.mono {us : List (Run.Transition Db (Action F))} (h : WasLive ts sub id) :
    WasLive (ts ++ us) sub id := by
  obtain ⟨t, ht, hrow⟩ := h
  exact ⟨t, List.mem_append_left us ht, hrow⟩

theorem Received.mono {us : List (Run.Transition Db (Action F))} {s : Uuid}
    (h : Received ts sub id s) : Received (ts ++ us) sub id s := by
  obtain ⟨t, ht, hmoved⟩ := h
  exact ⟨t, List.mem_append_left us ht, hmoved⟩

theorem Step.placed_live {db' : Db} {r : Recompute F} {c s : Uuid}
    (h : Step sha256 db (.recompute r) db') (hapart : ∀ sub, StoriesApart db.story sub)
    (hplaced : Placed r.assignment c s) :
    ∃ row, db'.story[s]? = some row ∧ row.Live r.subscriber := by
  obtain ⟨hreads, hstory⟩ := h.recompute
  rw [hstory]
  obtain ⟨row, hrow, hlive, _⟩ :=
    (Recompute.member_persist hreads (hapart _) db.now).mpr (Or.inl hplaced)
  exact ⟨row, hrow, hlive⟩

theorem Recorded.step {db' : Db} {a : Action F} (hI : Recorded ts db)
    (hapart : ∀ sub, StoriesApart db.story sub) (h : Step sha256 db a db') :
    Recorded (ts ++ [⟨db, a, db'⟩]) db' where
  known := by
    intro id row' hrow'
    have hlast : (⟨db, a, db'⟩ : Run.Transition Db (Action F)) ∈ ts ++ [⟨db, a, db'⟩] := by simp
    cases h.row hapart hrow' with
    | written r _ _ _ _ _ _ hlive _ => exact ⟨_, hlast, row', hrow', rfl, hlive.2⟩
    | mergedAway _ _ _ row _ _ _ _ _ hold _ hnew =>
        subst hnew
        exact (hI.known hold).mono
    | kept row hold hsame _ =>
        rw [hsame.1]
        exact (hI.known hold).mono
  kept := by
    intro sub id hwas
    obtain ⟨t, ht, row', hrow', hlive⟩ := hwas
    rcases List.mem_append.mp ht with hin | hlast
    · obtain ⟨row, hrow, rfl⟩ := hI.kept ⟨t, hin, row', hrow', hlive⟩
      exact h.row_kept hapart hrow
    · obtain rfl := List.mem_singleton.mp hlast
      exact ⟨row', hrow', hlive.1⟩
  filled := by
    intro id row' hrow' hlive'
    cases h.row hapart hrow' with
    | written r story _ _ hstory _ hnew _ _ =>
        subst hnew
        rw [upsertRow_clusters]
        exact Recompute.story_clusters_ne_nil hstory
    | mergedAway _ _ _ _ _ _ _ _ _ _ _ hnew =>
        subst hnew
        cases hlive'
    | kept row hold hsame _ =>
        rw [hsame.clusters]
        exact hI.filled hold (hsame.mergedInto.symm.trans hlive')
  pointed := by
    intro id row' s hrow' hdead
    cases h.row hapart hrow' with
    | written _ _ _ _ _ _ _ hlive _ => cases hlive.2.symm.trans hdead
    | mergedAway r survivor c row haction hreads haway hmember hplaced hold hlive hnew =>
        subst haction hnew
        obtain rfl : survivor = s := Option.some.inj hdead
        obtain ⟨target, htarget, hlive'⟩ := h.placed_live hapart hplaced
        refine ⟨⟨⟨db, .recompute r, db'⟩, by simp, r, rfl, hlive.1.symm, haway, c, ?_,
          hplaced⟩, target, htarget, hlive'.1.trans hlive.1.symm⟩
        rw [show row.subscriberId = r.subscriber from hlive.1]
        exact hmember
    | kept row hold hsame _ =>
        obtain ⟨hreceived, target, htarget, hsub⟩ :=
          hI.pointed hold (hsame.mergedInto.symm.trans hdead)
        obtain ⟨target', htarget', hsub'⟩ := h.row_kept hapart htarget
        rw [hsame.1]
        exact ⟨hreceived.mono, target', htarget', hsub'.trans hsub⟩

theorem DbRuns.recorded (h : DbRuns sha256 ts db) : Recorded ts db := by
  refine Run.Runs.invariant h Recorded ?_ ?_
  · have hnone : ∀ (s : Uuid) (row : StoryRow), ({} : Db).story[s]? ≠ some row := by
      intro s row hrow
      cases Std.ExtTreeMap.getElem?_empty.symm.trans hrow
    refine ⟨?_, ?_, ?_, ?_⟩
    · intro id row hrow
      exact absurd hrow (hnone id row)
    · intro sub id hwas
      obtain ⟨t, ht, _⟩ := hwas
      cases ht
    · intro id row hrow _
      exact absurd hrow (hnone id row)
    · intro id row s hrow _
      exact absurd hrow (hnone id row)
  · intro pre t post _ hpre hstep hI
    exact hI.step (DbRuns.apart hpre) hstep

/-! ## One hop is enough as long as targets are spared -/

theorem Step.targetsLive {db' : Db} {a : Action F} (h : Step sha256 db a db')
    (hapart : ∀ sub, StoriesApart db.story sub) (hlive : TargetsLive db sub)
    (hspare : ∀ r, a = .recompute r → r.subscriber = sub → SparesTargets r db.story) :
    TargetsLive db' sub := by
  intro id row' s hrow' hsub hdead
  cases h.row hapart hrow' with
  | written _ _ _ _ _ _ _ hlive' _ => cases hlive'.2.symm.trans hdead
  | mergedAway r survivor c row haction _ _ _ hplaced _ hlive' hnew =>
      subst haction hnew
      obtain rfl : survivor = s := Option.some.inj hdead
      obtain ⟨target, htarget, hlive''⟩ := h.placed_live hapart hplaced
      exact ⟨target, htarget, hlive''.1.trans (hlive'.1.symm.trans hsub), hlive''.2⟩
  | kept row hold hsame _ =>
      have hdead' := hsame.mergedInto.symm.trans hdead
      obtain ⟨target, htarget, htlive⟩ := hlive id row s hold (hsame.1.symm.trans hsub) hdead'
      obtain ⟨target', htarget', hsub'⟩ := h.row_kept hapart htarget
      refine ⟨target', htarget', hsub'.trans htlive.1, ?_⟩
      cases h.row hapart htarget' with
      | written _ _ _ _ _ _ _ hlive' _ => exact hlive'.2
      | mergedAway r _ _ row₀ haction _ haway _ _ hold₀ hlive₀ _ =>
          obtain rfl := Option.some.inj (hold₀.symm.trans htarget)
          have howner : r.subscriber = sub := hlive₀.1.symm.trans htlive.1
          exact absurd haway (hspare r haction howner id row s hold hdead')
      | kept target₀ hold₀ hsame₀ _ =>
          obtain rfl := Option.some.inj (hold₀.symm.trans htarget)
          exact hsame₀.mergedInto.trans htlive.2

theorem ownStory_of {table : StoryTable} {row : StoryRow} (hrow : table[id]? = some row)
    (hsub : row.subscriberId = sub) : ownStory table sub id = some row := by
  unfold ownStory
  rw [hrow]
  simp [Option.filter, hsub]

theorem links_resolve (hI : Recorded ts db) (hlive : TargetsLive db sub) :
    LinksResolve ts db sub := by
  intro id hwas
  obtain ⟨row, hrow, rfl⟩ := hI.kept hwas
  have hown := ownStory_of hrow rfl
  cases hmerged : row.mergedInto with
  | none =>
      refine ⟨id, row, hrow, ⟨rfl, hmerged⟩, ?_, Relation.ReflTransGen.refl⟩
      unfold timelineMembers
      rw [hown]
      simp [hmerged, StoryRow.members]
  | some s =>
      obtain ⟨target, htarget, htlive⟩ := hlive id row s hrow rfl hmerged
      refine ⟨s, target, htarget, htlive, ?_,
        Relation.ReflTransGen.single (hI.pointed hrow hmerged).1⟩
      unfold timelineMembers
      rw [hown]
      simp [hmerged, ownStory_of htarget htlive.1, StoryRow.members]

theorem link_breaks {db' : Db} {r : Recompute F} {row : StoryRow} {s : Uuid}
    (h : Step sha256 db (.recompute r) db') (hapart : ∀ sub, StoriesApart db.story sub)
    (hI : Recorded ts db) (hrow : db.story[id]? = some row) (hdead : row.mergedInto = some s)
    (haway : r.MergesAway db.story s) : timelineMembers db'.story r.subscriber id = [] := by
  obtain ⟨c, _, target, htarget, htlive, _⟩ := haway.1
  obtain ⟨_, target', htarget', hsub⟩ := hI.pointed hrow hdead
  obtain rfl := Option.some.inj (htarget'.symm.trans htarget)
  have howner : row.subscriberId = r.subscriber := hsub.symm.trans htlive.1
  -- the tombstone itself has no members, so the recompute does not see it
  have hkept : ∃ row', db'.story[id]? = some row' ∧ row.SameContent row' := by
    obtain ⟨row', hrow', _⟩ := h.row_kept hapart hrow
    cases h.row hapart hrow' with
    | written r' _ haction _ _ _ _ _ hold =>
        rcases hold with hnone | ⟨_, _, row₀, hrow₀, hlive₀, _⟩
        · cases hnone.symm.trans hrow
        · obtain rfl := Option.some.inj (hrow₀.symm.trans hrow)
          cases hlive₀.2.symm.trans hdead
    | mergedAway r' _ _ row₀ _ _ _ _ _ hold hlive _ =>
        obtain rfl := Option.some.inj (hold.symm.trans hrow)
        cases hlive.2.symm.trans hdead
    | kept row₀ hold hsame _ =>
        obtain rfl := Option.some.inj (hold.symm.trans hrow)
        exact ⟨row', hrow', hsame⟩
  obtain ⟨row', hrow', hsame⟩ := hkept
  obtain ⟨hreads, hstory⟩ := h.recompute
  have hown := ownStory_of hrow' (hsame.1.trans howner)
  rw [hstory] at hown ⊢
  cases Recompute.rowFate hreads (hapart r.subscriber) db.now s with
  | written story hwritten hid _ _ =>
      rcases Recompute.story_id hreads (hapart _) hwritten with ⟨⟨k, hk⟩, _⟩ | hnew
      · exact absurd (hid ▸ hk) (haway.2 k)
      · exact absurd (Recompute.not_mem_iff.mp (hid ▸ hnew)) (by rw [htarget]; simp)
  | mergedAway survivor _ row₀ _ _ hlive₀ _ _ hnew =>
      have htomb := @ownStory_of r.subscriber s (r.persist db.now db.story) _ hnew hlive₀.1
      unfold timelineMembers
      rw [hown]
      dsimp only
      rw [hsame.mergedInto, hdead, Option.bind_some]
      rw [htomb]
      rfl
  | untouched _ hnot _ => exact absurd haway.1 hnot

/-- Over any run, every link of a subscriber resolves in every state reached exactly when
none of the subscriber's recomputes merges away a story that a tombstone points to. -/
theorem links_resolve_iff (h : DbRuns sha256 ts db) (sub : Uuid) :
    (∀ pre t post, ts = pre ++ t :: post → LinksResolve (pre ++ [t]) t.after sub) ↔
      ∀ t ∈ ts, ∀ r, t.action = .recompute r → r.subscriber = sub →
        SparesTargets r t.before.story := by
  constructor
  · intro hall t ht r haction hsub id row s hrow hdead haway
    obtain ⟨pre, post, rfl, hpre⟩ := Run.Runs.before_of_mem h ht
    have hstep := Run.Runs.step_of_mem h ht
    rw [haction] at hstep
    subst hsub
    have hapart : ∀ sub, StoriesApart t.before.story sub := DbRuns.apart hpre
    have hbefore : Recorded pre t.before := DbRuns.recorded hpre
    have hafter : Recorded (pre ++ [t]) t.after := DbRuns.recorded (Run.Runs.upto h)
    obtain ⟨_, target, htarget, hsub⟩ := hbefore.pointed hrow hdead
    obtain ⟨_, _, row₀, hrow₀, hlive₀, _⟩ := haway.1
    obtain rfl := Option.some.inj (hrow₀.symm.trans htarget)
    have hwas := hbefore.known hrow
    rw [← hsub, hlive₀.1] at hwas
    obtain ⟨s', live, hlive, hlive', hmembers, _⟩ := hall pre t post rfl id hwas.mono
    rw [link_breaks hstep hapart hbefore hrow hdead haway] at hmembers
    exact hafter.filled hlive hlive'.2 (List.map_eq_nil_iff.mp hmembers.symm)
  · intro hspare pre t post hts
    subst hts
    have hrun : DbRuns sha256 (pre ++ [t]) t.after := Run.Runs.upto h
    apply links_resolve hrun.recorded
    refine (Run.Runs.invariant hrun (fun us m => DbRuns sha256 us m ∧ TargetsLive m sub) ?_ ?_).2
    · refine ⟨Run.Runs.nil, ?_⟩
      intro id row s hrow
      cases Std.ExtTreeMap.getElem?_empty.symm.trans hrow
    · intro us u vs heq hus hstep hI
      refine ⟨Run.Runs.snoc hus hstep, ?_⟩
      apply hstep.targetsLive (DbRuns.apart hus) hI.2
      intro r haction hsub
      refine hspare u ?_ r haction hsub
      have hu : u ∈ pre ++ [t] := by rw [heq]; simp
      rcases List.mem_append.mp hu with hin | hlast
      · exact List.mem_append_left _ hin
      · rw [List.mem_singleton.mp hlast]
        simp

/-! ## Three stories merged one after the other -/

def chainedFirst : Recompute ℚ :=
  .onTable ∅ 7 [feedCluster 1 ["cve:a"] 0, feedCluster 2 ["cve:b"] 0,
    feedCluster 3 ["cve:c"] 0] {} 100

def chainedDb₁ : Db := (Action.recompute chainedFirst).apply plainDigest {}

def chainedSecond : Recompute ℚ :=
  .onTable chainedDb₁.story 7
    [feedCluster 1 ["cve:a"] 0, feedCluster 2 ["cve:b"] 0,
      feedCluster 3 ["cve:c", "cve:b"] 0] {} 200

def chainedDb₂ : Db := (Action.recompute chainedSecond).apply plainDigest chainedDb₁

def chainedThird : Recompute ℚ :=
  .onTable chainedDb₂.story 7
    [feedCluster 1 ["cve:a"] 0, feedCluster 2 ["cve:b", "cve:a"] 0,
      feedCluster 3 ["cve:c", "cve:b"] 0]
    {} 300

def chainedDb₃ : Db := (Action.recompute chainedThird).apply plainDigest chainedDb₂

def mergedOnce : List (Run.Transition Db (Action ℚ)) :=
  [⟨{}, .recompute chainedFirst, chainedDb₁⟩, ⟨chainedDb₁, .recompute chainedSecond, chainedDb₂⟩]

theorem mergedOnce_runs : DbRuns plainDigest mergedOnce chainedDb₂ := by
  have first : Step plainDigest {} (Action.recompute chainedFirst) chainedDb₁ :=
    ⟨Recompute.onTable_reads (by decide +kernel) (by decide +kernel), rfl⟩
  have second : Step plainDigest chainedDb₁ (Action.recompute chainedSecond) chainedDb₂ :=
    ⟨Recompute.onTable_reads (by decide +kernel) (by decide +kernel), rfl⟩
  exact Run.Runs.snoc (Run.Runs.snoc Run.Runs.nil first) second

theorem links_resolve_iff_merged_once :
    LinksResolve mergedOnce chainedDb₂ 7 ∧ timelineMembers chainedDb₂.story 7 102 = [2, 3] := by
  refine ⟨(links_resolve_iff mergedOnce_runs 7).mpr ?_ [_] _ [] rfl, by decide +kernel⟩
  have hnone : ∀ (table : StoryTable), (table.toList.all fun entry => entry.2.mergedInto.isNone) →
      ∀ r : Recompute ℚ, SparesTargets r table := by
    intro table hall r id row s hrow hdead
    have hmem := Std.ExtTreeMap.mem_toList_iff_getElem?_eq_some.mpr hrow
    have := List.all_eq_true.mp hall (id, row) hmem
    rw [hdead] at this
    cases this
  intro t ht r haction _
  rcases List.mem_cons.mp ht with rfl | ht
  · exact hnone _ (by decide +kernel) r
  · obtain rfl := List.mem_singleton.mp ht
    exact hnone _ (by decide +kernel) r

/-- The second merge leaves the first tombstone pointing at a tombstone: the link to story 102
shows nothing, while its cluster is in the live story 100. -/
theorem chained_merge_breaks_link :
    DbRuns plainDigest (mergedOnce ++ [⟨chainedDb₂, .recompute chainedThird, chainedDb₃⟩]) chainedDb₃ ∧
      storyTimeline chainedDb₃.story chainedDb₃.cluster chainedDb₃.event 7 102 = [] ∧
      timelineMembers chainedDb₃.story 7 102 = [] ∧ Member chainedDb₃.story 7 100 3 ∧
      ¬ LinksResolve (mergedOnce ++ [⟨chainedDb₂, .recompute chainedThird, chainedDb₃⟩]) chainedDb₃ 7 := by
  have third : Step plainDigest chainedDb₂ (Action.recompute chainedThird) chainedDb₃ :=
    ⟨Recompute.onTable_reads (by decide +kernel) (by decide +kernel), rfl⟩
  have hrun : DbRuns plainDigest
      (mergedOnce ++ [⟨chainedDb₂, .recompute chainedThird, chainedDb₃⟩]) chainedDb₃ :=
    Run.Runs.snoc mergedOnce_runs third
  have hempty : timelineMembers chainedDb₃.story 7 102 = [] := by decide +kernel
  have hmember : (chainedDb₃.story[100]?.any fun row => row.Live 7 ∧ 3 ∈ row.members) = true := by
    decide +kernel
  have hlive : (chainedDb₁.story[102]?.any fun row => row.Live 7) = true := by decide +kernel
  obtain ⟨row, hrow, hrow7, hthree⟩ : Member chainedDb₃.story 7 100 3 := by
    simpa [Member, Option.any_eq_true] using hmember
  obtain ⟨row₁, hrow₁, hlive₁⟩ : ∃ row, chainedDb₁.story[102]? = some row ∧ row.Live 7 := by
    simpa [Option.any_eq_true] using hlive
  refine ⟨hrun, by rw [storyTimeline, hempty], hempty, ⟨row, hrow, hrow7, hthree⟩, ?_⟩
  intro hall
  obtain ⟨s, target, htarget, htlive, hmembers, _⟩ :=
    hall 102 ⟨_, List.mem_cons_self, row₁, hrow₁, hlive₁⟩
  rw [hempty] at hmembers
  exact hrun.recorded.filled htarget htlive.2 (List.map_eq_nil_iff.mp hmembers.symm)

end Bulletin
