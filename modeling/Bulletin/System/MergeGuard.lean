import Bulletin.Digest.Fire
import Bulletin.System.Partition

/-! # The merge guard over whole runs

The guard of one recompute reads the delivered flag of the live stories. Over a run it
protects two clusters for as long as each stays in a live story with that flag, which
splits and retro-merges can end.
-/

namespace Bulletin

variable {F : Type} [Score F] {sha256 : List UInt8 → List UInt8}
  {ts : List (Run.Transition Db (Action F))} {db db' : Db} {sub c d : Uuid}

/-! ## What the subscriber has seen -/

/-- The transaction delivers a digest that shows cluster `c` in story `s`. -/
def ShownIn (t : Run.Transition Db (Action F)) (sub s c : Uuid) : Prop :=
  ∃ id, t.action = .markDelivered id sub ∧ s ∈ digestStories t.before.digest id ∧
    ∃ row, t.before.story[s]? = some row ∧ row.subscriberId = sub ∧ c ∈ row.members

def WasShown (ts : List (Run.Transition Db (Action F))) (sub c : Uuid) : Prop :=
  ∃ t ∈ ts, ∃ s, ShownIn t sub s c

/-- The subscriber was shown `c` and `d` in two stories: when `d` was shown in one, `c` had
been shown in another and was not shown there too. -/
def ShownApart (ts : List (Run.Transition Db (Action F))) (sub c d : Uuid) : Prop :=
  ∃ pre t post S T, ts = pre ++ t :: post ∧ S ≠ T ∧ ShownIn t sub T d ∧ ¬ ShownIn t sub T c ∧
    ∃ u ∈ pre ++ [t], ShownIn u sub S c

/-- Two candidates of a recompute are connected directly: by a strong or must-link edge,
or as members of one delivered story. -/
def Connected (r : Recompute F) (table : StoryTable) (i j : Fin r.candidates.length) : Prop :=
  StrongEdge r.clusters r.tuning i j ∨
    ∃ P, Delivered table r.subscriber P ∧ Member table r.subscriber P (r.clusters i).id ∧
      Member table r.subscriber P (r.clusters j).id

/-- A chain of such connections joins `c` and `d` in a recompute of the run. -/
def JoinedByChain (ts : List (Run.Transition Db (Action F))) (sub c d : Uuid) : Prop :=
  ∃ t ∈ ts, ∃ r, t.action = .recompute r ∧ r.subscriber = sub ∧
    ∃ i j, (r.clusters i).id = c ∧ (r.clusters j).id = d ∧
      Relation.EqvGen (Connected r t.before.story) i j

/-- The recompute remembers `c`: where `c` is in a delivered story, either `c` is a candidate
and its component keeps the id of a delivered story, or no cluster of its story is a candidate. -/
def Remembers (r : Recompute F) (table : StoryTable) (c : Uuid) : Prop :=
  ∀ P, Member table r.subscriber P c → Delivered table r.subscriber P →
    (r.Candidate c → ∃ Q, Delivered table r.subscriber Q ∧ r.KeepsFor c Q) ∧
      (¬ r.Candidate c → ¬ r.Represented table P)

/-- Every recompute after `c` was shown remembers it. -/
def NeverForgotten (ts : List (Run.Transition Db (Action F))) (sub c : Uuid) : Prop :=
  ∀ pre t post, ts = pre ++ t :: post → WasShown pre sub c → ∀ r, t.action = .recompute r →
    r.subscriber = sub → Remembers r t.before.story c

/-- Cluster `c` is in a live story that carries the delivered flag. -/
def Remembered (db : Db) (sub c : Uuid) : Prop :=
  ∃ P, Member db.story sub P c ∧ Delivered db.story sub P

/-! ## Steps -/

theorem Step.delivered {a : Action F} (h : Step sha256 db a db')
    (hapart : ∀ sub, StoriesApart db.story sub) {P : Uuid} (hd : Delivered db.story sub P)
    (hkept : ∀ r, a = .recompute r → r.subscriber = sub → ¬ r.MergesAway db.story P) :
    Delivered db'.story sub P := by
  have hsame : db'.story = db.story → Delivered db'.story sub P := fun heq => heq ▸ hd
  cases a with
  | recompute r =>
      obtain ⟨henabled, hstory⟩ := h.recompute
      rw [hstory]
      by_cases hsub : r.subscriber = sub
      · subst hsub
        exact Recompute.delivered_persist henabled (hapart _) _ hd (hkept r rfl rfl)
      · obtain ⟨row, hrow, hlive, hflag⟩ := hd
        have hforeign : row.subscriberId ≠ r.subscriber := fun heq => hsub (heq.symm.trans hlive.1)
        exact ⟨row, (Recompute.persist_foreign henabled (hapart _) _ hforeign).mpr hrow, hlive, hflag⟩
  | createDigest id sub' windowEnd items =>
      obtain ⟨_, rfl⟩ := h
      exact hsame rfl
  | markDelivered id sub' =>
      obtain ⟨_, rfl⟩ := h
      obtain ⟨row, hrow, hlive, hflag⟩ := hd
      refine ⟨markRow db.now sub' (digestStories db.digest id) P row, ?_, ?_⟩
      · show (markStoriesDelivered _ _ _ _)[P]? = _
        rw [markStoriesDelivered_getElem?, hrow, Option.map_some]
      · unfold markRow
        by_cases hin : P ∈ digestStories db.digest id ∧ row.subscriberId = sub'
        · rw [if_pos hin]
          exact ⟨hlive, rfl⟩
        · rw [if_neg hin]
          exact ⟨hlive, hflag⟩
  | record sweep outcome =>
      obtain ⟨_, rfl⟩ := h
      obtain ⟨row, hrow, hlive, hflag⟩ := hd
      obtain ⟨move, hnew⟩ := getElem?_record sha256 db.now outcome (db.sweep sweep) db.story P
      rw [hrow, Option.map_some] at hnew
      exact ⟨_, hnew, hlive, hflag⟩
  | loadQueue sweep sub' model queue =>
      obtain ⟨_, rfl⟩ := h
      exact hsame rfl
  | readMembers sweep =>
      obtain ⟨_, rfl⟩ := h
      exact hsame rfl
  | passOver sweep =>
      obtain ⟨_, rfl⟩ := h
      exact hsame rfl
  | abort sweep =>
      obtain ⟨_, rfl⟩ := h
      exact hsame rfl
  | ingest cluster event =>
      obtain ⟨_, rfl⟩ := h
      exact hsame rfl
  | wait duration =>
      obtain ⟨_, rfl⟩ := h
      exact hsame rfl

omit [Score F] in
/-- What a delivery shows is in a live story, and that story carries the flag afterwards. -/
theorem ShownIn.member {t : Run.Transition Db (Action F)} {s : Uuid} (hshown : ShownIn t sub s c)
    (hapart : StoriesApart t.before.story sub) : Member t.before.story sub s c := by
  obtain ⟨_, _, _, row, hrow, hsub, hc⟩ := hshown
  cases hmerged : row.mergedInto with
  | none => exact ⟨row, hrow, ⟨hsub, hmerged⟩, hc⟩
  | some survivor =>
      have hnil := hapart.tombstoned hrow hsub (by rw [hmerged]; simp)
      unfold StoryRow.members at hc
      rw [hnil] at hc
      cases hc

theorem ShownIn.delivered {t : Run.Transition Db (Action F)} {s : Uuid}
    (hshown : ShownIn t sub s c) (hstep : Step sha256 t.before t.action t.after)
    (hapart : StoriesApart t.before.story sub) :
    Member t.after.story sub s c ∧ Delivered t.after.story sub s := by
  obtain ⟨row, hrow, hlive, hc⟩ := hshown.member hapart
  obtain ⟨id, haction, hin, _⟩ := hshown
  obtain ⟨_, hafter⟩ := hstep
  rw [haction] at hafter
  have hnew : t.after.story[s]? = some { row with lastDeliveredAt := some t.before.now } := by
    rw [hafter]
    show (markStoriesDelivered _ _ _ _)[s]? = _
    rw [markStoriesDelivered_getElem?, hrow, Option.map_some, markRow, if_pos ⟨hin, hlive.1⟩]
  exact ⟨⟨_, hnew, hlive, hc⟩, _, hnew, hlive, rfl⟩

/-- A transaction that is no recompute forgetting `c` keeps it in a delivered story. -/
theorem Step.remembered {a : Action F} (h : Step sha256 db a db')
    (hapart : ∀ sub, StoriesApart db.story sub) (hc : Remembered db sub c)
    (hcond : ∀ r, a = .recompute r → r.subscriber = sub → Remembers r db.story c) :
    Remembered db' sub c := by
  obtain ⟨P, hmember, hd⟩ := hc
  by_cases hown : ∃ r, a = .recompute r ∧ r.subscriber = sub
  · obtain ⟨r, rfl, rfl⟩ := hown
    obtain ⟨hin, hout⟩ := hcond r rfl rfl P hmember hd
    obtain ⟨hreads, hstory⟩ := h.recompute
    rw [Remembered, hstory]
    by_cases hcand : r.Candidate c
    · obtain ⟨Q, hQ, hkeep⟩ := hin hcand
      refine ⟨Q, ?_, ?_⟩
      · exact (Recompute.member_persist hreads (hapart _) _).mpr
          (Or.inl (Recompute.placed_of_keepsFor hreads hkeep))
      · obtain ⟨k, _, _, _, hk⟩ := hkeep
        exact Recompute.delivered_persist hreads (hapart _) _ hQ fun haway => haway.2 k hk
    · have hnot := hout hcand
      refine ⟨P, ?_, ?_⟩
      · exact (Recompute.member_persist hreads (hapart _) _).mpr (Or.inr ⟨hmember, hnot⟩)
      · exact Recompute.delivered_persist hreads (hapart _) _ hd fun haway => hnot haway.1
  · have hother : ∀ r, a = .recompute r → r.subscriber ≠ sub :=
      fun r haction hsub => hown ⟨r, haction, hsub⟩
    exact ⟨P, (h.member hapart hother).mpr hmember,
      h.delivered hapart hd fun r haction hsub => absurd hsub (hother r haction)⟩

/-! ## Runs -/

/-- A cluster that was shown and never forgotten is in a delivered story. -/
theorem DbRuns.remembered (h : DbRuns sha256 ts db) (hnever : NeverForgotten ts sub c)
    (hshown : WasShown ts sub c) : Remembered db sub c := by
  refine Run.Runs.invariant h (fun pre m => WasShown pre sub c → Remembered m sub c) ?_ ?_ hshown
  · intro hnone
    obtain ⟨t, ht, _⟩ := hnone
    cases ht
  · intro pre t post hts hpre hstep hI hshown
    have hapart : ∀ sub, StoriesApart t.before.story sub := DbRuns.apart hpre
    by_cases hbefore : WasShown pre sub c
    · exact hstep.remembered hapart (hI hbefore) (hnever pre t post hts hbefore)
    · obtain ⟨u, hu, s, hus⟩ := hshown
      rcases List.mem_append.mp hu with hin | hlast
      · exact absurd ⟨u, hin, s, hus⟩ hbefore
      · obtain rfl := List.mem_singleton.mp hlast
        exact ⟨s, hus.delivered hstep (hapart sub)⟩

/-- Clusters of two delivered stories land in one story only along a chain. -/
theorem joined_of_placed {r : Recompute F} {table : StoryTable} (h : r.Reads table)
    (hapart : StoriesApart table r.subscriber) {P Q s : Uuid}
    (hP : Member table r.subscriber P c ∧ Delivered table r.subscriber P)
    (hQ : Member table r.subscriber Q d ∧ Delivered table r.subscriber Q)
    (hc : Placed r.assignment c s) (hd : Placed r.assignment d s) :
    ∃ i j, (r.clusters i).id = c ∧ (r.clusters j).id = d ∧
      Relation.EqvGen (Connected r table) i j := by
  obtain ⟨i, rfl⟩ := placed_cluster hc
  obtain ⟨j, rfl⟩ := placed_cluster hd
  refine ⟨i, j, rfl, rfl, ?_⟩
  have hprior := h.prior_nodup hapart
  have hlinked := (placed_iff_linked h.ids_injective h.freshMint hc).mp hd
  have hlabel : ∀ {k R}, Member table r.subscriber R (r.clusters k).id →
      Delivered table r.subscriber R → R ∈ deliveredLabel r.clusters r.prior k := by
    intro k R hm hR
    exact (mem_deliveredLabel hprior).mpr ⟨h.ownedBy.mpr hm, (h.deliveredPrior hm).mpr hR⟩
  have hmeet := linked_meet hprior hlinked (hlabel hP.1 hP.2) (hlabel hQ.1 hQ.2)
  -- along the chain of stories, from the clusters of one to those of the next
  have hchain : ∀ R, Relation.ReflTransGen (StrongMeet r.clusters r.prior r.tuning) P R →
      ∀ k, Member table r.subscriber R (r.clusters k).id → Delivered table r.subscriber R →
        Relation.EqvGen (Connected r table) i k := by
    intro R hR
    induction hR with
    | refl =>
        intro k hk hPd
        exact Relation.EqvGen.rel _ _ (Or.inr ⟨P, hPd, hP.1, hk⟩)
    | tail _ hlast ih =>
        intro k hk hRd
        obtain ⟨hleft, _, a, b, hab, hDa, hEb⟩ := hlast
        have hma := h.ownedBy.mp hDa
        have hmb := h.ownedBy.mp hEb
        have hstrong : Relation.EqvGen (Connected r table) a b :=
          Relation.EqvGen.mono (fun _ _ hedge => Or.inl hedge) a b hab
        have hlast' : Relation.EqvGen (Connected r table) b k :=
          Relation.EqvGen.rel _ _ (Or.inr ⟨_, hRd, hmb, hk⟩)
        exact ((ih a hma ((h.deliveredPrior hma).mp hleft)).trans _ _ _ hstrong).trans _ _ _ hlast'
  exact hchain Q hmeet j hQ.1 hQ.2

theorem Step.stay_apart {r : Recompute F} (h : Step sha256 db (.recompute r) db')
    (hapart : ∀ sub, StoriesApart db.story sub) {P Q s : Uuid} (hPQ : P ≠ Q)
    (hP : Member db.story r.subscriber P c ∧ Delivered db.story r.subscriber P)
    (hQ : Member db.story r.subscriber Q d ∧ Delivered db.story r.subscriber Q)
    (hc : Member db'.story r.subscriber s c) (hd : Member db'.story r.subscriber s d) :
    ∃ i j, (r.clusters i).id = c ∧ (r.clusters j).id = d ∧
      Relation.EqvGen (Connected r db.story) i j := by
  obtain ⟨hreads, hstory⟩ := h.recompute
  rw [hstory] at hc hd
  have hown := hapart r.subscriber
  have hnew : ∀ {x y : Uuid}, Placed r.assignment x s →
      ¬ (Member db.story r.subscriber s y ∧ ¬ r.Represented db.story s) := by
    intro x y hx hy
    obtain ⟨story, hstory, rfl, _⟩ := hx
    rcases Recompute.story_id hreads hown hstory with ⟨_, hrep⟩ | hnone
    · exact hy.2 hrep
    · obtain ⟨row, hrow, _⟩ := hy.1
      cases (Recompute.not_mem_iff.mp hnone).symm.trans hrow
  rcases (Recompute.member_persist hreads hown db.now).mp hc with hc | hc
  · rcases (Recompute.member_persist hreads hown db.now).mp hd with hd | hd
    · exact joined_of_placed hreads hown hP hQ hc hd
    · exact absurd hd (hnew hc)
  · rcases (Recompute.member_persist hreads hown db.now).mp hd with hd | hd
    · exact absurd hc (hnew hd)
    · exact absurd ((hown.unique hP.1 hc.1).trans (hown.unique hd.1 hQ.1)) hPQ

def InTwoDelivered (db : Db) (sub c d : Uuid) : Prop :=
  ∃ P Q, P ≠ Q ∧ (Member db.story sub P c ∧ Delivered db.story sub P) ∧
    Member db.story sub Q d ∧ Delivered db.story sub Q

theorem Step.inTwoDelivered {a : Action F} (h : Step sha256 db a db')
    (hapart : ∀ sub, StoriesApart db.story sub) (htwo : InTwoDelivered db sub c d)
    (hc : Remembered db' sub c) (hd : Remembered db' sub d) :
    InTwoDelivered db' sub c d ∨ ∃ r, a = .recompute r ∧ r.subscriber = sub ∧
      ∃ i j, (r.clusters i).id = c ∧ (r.clusters j).id = d ∧
        Relation.EqvGen (Connected r db.story) i j := by
  obtain ⟨P, Q, hPQ, hP, hQ⟩ := htwo
  obtain ⟨P', hmP, hdP⟩ := hc
  obtain ⟨Q', hmQ, hdQ⟩ := hd
  by_cases hne : P' = Q'
  · subst hne
    by_cases hown : ∃ r, a = .recompute r ∧ r.subscriber = sub
    · obtain ⟨r, rfl, rfl⟩ := hown
      exact Or.inr ⟨r, rfl, rfl, h.stay_apart hapart hPQ hP hQ hmP hmQ⟩
    · have hother : ∀ r, a = .recompute r → r.subscriber ≠ sub :=
        fun r haction hsub => hown ⟨r, haction, hsub⟩
      have hmP' := (h.member hapart hother).mp hmP
      have hmQ' := (h.member hapart hother).mp hmQ
      exact absurd (((hapart sub).unique hP.1 hmP').trans ((hapart sub).unique hmQ' hQ.1)) hPQ
  · exact Or.inl ⟨P', Q', hne, ⟨hmP, hdP⟩, hmQ, hdQ⟩

theorem NeverForgotten.before {us : List (Run.Transition Db (Action F))}
    (h : NeverForgotten (ts ++ us) sub c) : NeverForgotten ts sub c := by
  intro pre t post hts
  refine h pre t (post ++ us) ?_
  rw [hts, List.append_assoc, List.cons_append]

/-- Two clusters shown in two stories and never forgotten end up in one live story only
where a recompute joined them by a chain. -/
theorem shown_apart_stay_apart (h : DbRuns sha256 ts db) (hshown : ShownApart ts sub c d)
    (hc : NeverForgotten ts sub c) (hd : NeverForgotten ts sub d) {s : Uuid}
    (hsc : Member db.story sub s c) (hsd : Member db.story sub s d) : JoinedByChain ts sub c d := by
  obtain ⟨pre, t, post, S, T, rfl, _, hTd, hnot, hSc⟩ := hshown
  rw [List.append_cons] at h hc hd ⊢
  obtain ⟨m, hpre, hpost⟩ := h.split
  have hcShown : ∀ us, WasShown (pre ++ [t] ++ us) sub c := by
    intro us
    obtain ⟨u, hu, hus⟩ := hSc
    exact ⟨u, List.mem_append_left us hu, S, hus⟩
  have hdShown : ∀ us, WasShown (pre ++ [t] ++ us) sub d := fun us => ⟨t, by simp, T, hTd⟩
  have htwo : InTwoDelivered m sub c d := by
    obtain ⟨rfl, hbefore, hstep⟩ := hpre.last
    have hapart : StoriesApart t.before.story sub := DbRuns.apart hbefore sub
    obtain ⟨hmT, hdT⟩ := hTd.delivered hstep hapart
    have hrun : DbRuns sha256 (pre ++ [t]) t.after := hpre
    obtain ⟨P, hmP, hdP⟩ := hrun.remembered hc.before (by simpa using hcShown [])
    refine ⟨P, T, ?_, ⟨hmP, hdP⟩, hmT, hdT⟩
    rintro rfl
    -- delivering moves no cluster, so `c` would have been shown in `T` too
    obtain ⟨id, haction, hin, _⟩ := hTd
    have hother : ∀ r, t.action = .recompute r → r.subscriber ≠ sub := by
      intro r heq
      rw [haction] at heq
      cases heq
    obtain ⟨row, hrow, hlive, hmem⟩ := (hstep.member (DbRuns.apart hbefore) hother).mp hmP
    exact hnot ⟨id, haction, hin, row, hrow, hlive.1, hmem⟩
  have hfinal := hpost.invariant
    (fun us m' => DbRuns sha256 (pre ++ [t] ++ us) m' ∧
      (InTwoDelivered m' sub c d ∨ JoinedByChain (pre ++ [t] ++ us) sub c d))
    ⟨by simpa using hpre, Or.inl htwo⟩ (by
      intro us u vs hus _ hstep hI
      obtain ⟨hrun, hor⟩ := hI
      have hnext : DbRuns sha256 (pre ++ [t] ++ us ++ [u]) u.after := Run.Runs.snoc hrun hstep
      have hsplit : pre ++ [t] ++ post = pre ++ [t] ++ us ++ [u] ++ vs := by simp [hus]
      rw [← List.append_assoc]
      refine ⟨hnext, ?_⟩
      rcases hor with htwo | ⟨u', hu', hjoin⟩
      · have hrc := hnext.remembered (by rw [hsplit] at hc; exact hc.before)
          (by simpa using hcShown (us ++ [u]))
        have hrd := hnext.remembered (by rw [hsplit] at hd; exact hd.before)
          (by simpa using hdShown (us ++ [u]))
        rcases hstep.inTwoDelivered (DbRuns.apart hrun) htwo hrc hrd with htwo' | ⟨r, hr, hsub, hjoin⟩
        · exact Or.inl htwo'
        · exact Or.inr ⟨u, by simp, r, hr, hsub, hjoin⟩
      · exact Or.inr ⟨u', List.mem_append_left _ hu', hjoin⟩)
  rcases hfinal.2 with ⟨P, Q, hPQ, hP, hQ⟩ | hjoined
  · exact absurd (((DbRuns.apart h sub).unique hP.1 hsc).trans ((DbRuns.apart h sub).unique hsd hQ.1)) hPQ
  · exact hjoined

/-! ## Two delivered advisories, merged by a shared identifier -/

def shownFirst : Recompute ℚ :=
  .onTable ∅ 7 [feedCluster 2 ["cve:b"] 0, feedCluster 3 ["cve:c"] 0] {} 100

def shownDb₁ : Db := (Action.recompute shownFirst).apply plainDigest {}

def shownCreate : Action ℚ := .createDigest 500 7 10 ((Fire.plain ℚ 10).items shownFirst ∅)

def shownDb₂ : Db := shownCreate.apply plainDigest shownDb₁

def shownDeliver : Action ℚ := .markDelivered 500 7

def shownDb₃ : Db := shownDeliver.apply plainDigest shownDb₂

def shownSecond : Recompute ℚ :=
  .onTable shownDb₃.story 7 [feedCluster 2 ["cve:b", "cve:c"] 0, feedCluster 3 ["cve:c"] 0] {} 200

def shownDb₄ : Db := (Action.recompute shownSecond).apply plainDigest shownDb₃

def frozenRun : List (Run.Transition Db (Action ℚ)) :=
  [⟨{}, .recompute shownFirst, shownDb₁⟩, ⟨shownDb₁, shownCreate, shownDb₂⟩]

def shownRun : List (Run.Transition Db (Action ℚ)) :=
  frozenRun ++ ⟨shownDb₂, shownDeliver, shownDb₃⟩ :: [⟨shownDb₃, .recompute shownSecond, shownDb₄⟩]

theorem frozenRun_runs : DbRuns plainDigest frozenRun shownDb₂ := by
  have first : Step plainDigest {} (Action.recompute shownFirst) shownDb₁ :=
    ⟨Recompute.onTable_reads (by decide +kernel) (by decide +kernel), rfl⟩
  have create : Step plainDigest shownDb₁ shownCreate shownDb₂ :=
    ⟨⟨by decide +kernel, by decide +kernel, by decide +kernel⟩, rfl⟩
  exact Run.Runs.snoc (Run.Runs.snoc Run.Runs.nil first) create

theorem shownRun_runs : DbRuns plainDigest shownRun shownDb₄ := by
  have pending : (shownDb₂.digest[500]?.any fun row =>
      row.subscriberId = 7 ∧ row.deliveredAt = none) = true := by decide +kernel
  have deliver : Step plainDigest shownDb₂ shownDeliver shownDb₃ := by
    refine ⟨?_, rfl⟩
    show ∃ row, shownDb₂.digest[500]? = some row ∧ row.subscriberId = 7 ∧ row.deliveredAt = none
    simpa [Option.any_eq_true] using pending
  have second : Step plainDigest shownDb₃ (Action.recompute shownSecond) shownDb₄ :=
    ⟨Recompute.onTable_reads (by decide +kernel) (by decide +kernel), rfl⟩
  exact Run.Runs.snoc (Run.Runs.snoc frozenRun_runs deliver) second

theorem shownIn_deliver {F : Type} {db db' : Db} {id sub s c : Uuid}
    (hin : s ∈ digestStories db.digest id) (hmember : Member db.story sub s c) :
    ShownIn (⟨db, .markDelivered id sub, db'⟩ : Run.Transition Db (Action F)) sub s c := by
  obtain ⟨row, hrow, hlive, hc⟩ := hmember
  exact ⟨id, rfl, hin, row, hrow, hlive.1, hc⟩

/-- Any recompute remembers a cluster whose component keeps a delivered id first of all. -/
theorem remembers_of_first {F : Type} [Score F] {r : Recompute F} {table : StoryTable} {c Q : Uuid}
    {S : Finset Uuid} {w : List Uuid} (hcand : r.Candidate c)
    (hset : (idSets r.clusters r.components)[0]? = some S) (hc : c ∈ S)
    (hwant : r.wanted[0]? = some w) (hQ : Q ∈ w) (hleast : ∀ b ∈ w, ¬ b < Q)
    (hd : Delivered table r.subscriber Q) : Remembers r table c := by
  intro P _ _
  refine ⟨fun _ => ⟨Q, hd, 0, S, hset, hc, ?_⟩, fun hnot => absurd hcand hnot⟩
  refine Claim.keeps_iff.mpr ⟨⟨w, hwant, hQ, ?_⟩, ?_⟩
  · intro b hb hlt
    exact absurd hlt (hleast b hb)
  · intro j hj
    cases hj

theorem shown_apart_stay_apart_joined : JoinedByChain shownRun 7 2 3 := by
  have hstory : ∀ c ∈ [2, 3], Remembers shownSecond shownDb₃.story c := by
    intro c hc
    have hd : Delivered shownDb₃.story shownSecond.subscriber 100 :=
      delivered_of_any (by decide +kernel)
    have hset : (idSets shownSecond.clusters shownSecond.components)[0]? = some {2, 3} :=
      by decide +kernel
    have hwant : shownSecond.wanted[0]? = some [100, 101] := by decide +kernel
    have hcand : shownSecond.Candidate c := by
      rw [Recompute.candidate_iff]
      revert c
      decide +kernel
    exact remembers_of_first hcand hset (by simpa using hc) hwant (by simp) (by decide) hd
  have hnever : ∀ c ∈ [2, 3], NeverForgotten shownRun 7 c := by
    intro c hc pre t post hts _ r haction _
    have ht : t ∈ shownRun := by rw [hts]; simp
    simp only [shownRun, frozenRun, List.cons_append, List.nil_append, List.mem_cons,
      List.not_mem_nil, or_false] at ht
    rcases ht with rfl | rfl | rfl | rfl
    · intro P hP
      obtain ⟨row, hrow, _⟩ := hP
      cases Std.ExtTreeMap.getElem?_empty.symm.trans hrow
    · cases haction
    · cases haction
    · cases haction
      exact hstory c hc
  have hshown : ShownApart shownRun 7 2 3 := by
    have htwo : Member shownDb₂.story 7 100 2 := member_of_any (by decide +kernel)
    have hthree : Member shownDb₂.story 7 101 3 := member_of_any (by decide +kernel)
    refine ⟨frozenRun, _, _, 100, 101, rfl, by decide, ?_, ?_,
      ⟨shownDb₂, shownDeliver, shownDb₃⟩, by simp, ?_⟩
    · exact shownIn_deliver (by decide +kernel) hthree
    · intro hnot
      have hapart : StoriesApart shownDb₂.story 7 := DbRuns.apart frozenRun_runs 7
      exact absurd (hapart.unique htwo (hnot.member hapart)) (by decide)
    · exact shownIn_deliver (by decide +kernel) htwo
  exact shown_apart_stay_apart shownRun_runs hshown (hnever 2 (by simp)) (hnever 3 (by simp))
    (member_of_any (s := 100) (by decide +kernel)) (member_of_any (by decide +kernel))

/-! ## A delivered story forgotten in a retro-merge -/

def forgottenFirst : Recompute ℚ :=
  .onTable ∅ 7 [feedCluster 1 ["repo:a"] (-daysInterval 4), feedCluster 2 ["repo:b"] 0,
    feedCluster 3 ["repo:c"] 0] {} 100

def forgottenDb₁ : Db := (Action.recompute forgottenFirst).apply plainDigest {}

def forgottenCreate : Action ℚ := .createDigest 500 7 10 ((Fire.plain ℚ 10).items forgottenFirst ∅)

def forgottenDb₂ : Db := forgottenCreate.apply plainDigest forgottenDb₁

def forgottenDeliver : Action ℚ := .markDelivered 500 7

def forgottenDb₃ : Db := forgottenDeliver.apply plainDigest forgottenDb₂

def forgottenSecond : Recompute ℚ :=
  .onTable forgottenDb₃.story 7 [feedCluster 1 ["repo:a", "person:p"] (-daysInterval 4),
    feedCluster 2 ["repo:a", "person:p"] 0, feedCluster 3 ["repo:c"] 0] {} 200

def forgottenDb₄ : Db := (Action.recompute forgottenSecond).apply plainDigest forgottenDb₃

def forgottenThird : Recompute ℚ :=
  .onTable forgottenDb₄.story 7 [feedCluster 1 ["repo:a", "person:p"] (-daysInterval 4),
    feedCluster 2 ["repo:a", "person:p", "repo:c", "person:q"] 0,
    feedCluster 3 ["repo:c", "person:q"] 0] {} 300

def forgottenDb₅ : Db := (Action.recompute forgottenThird).apply plainDigest forgottenDb₄

def unsentRun : List (Run.Transition Db (Action ℚ)) :=
  [⟨{}, .recompute forgottenFirst, forgottenDb₁⟩, ⟨forgottenDb₁, forgottenCreate, forgottenDb₂⟩]

def forgottenRun : List (Run.Transition Db (Action ℚ)) :=
  unsentRun ++ ⟨forgottenDb₂, forgottenDeliver, forgottenDb₃⟩ ::
    [⟨forgottenDb₃, .recompute forgottenSecond, forgottenDb₄⟩,
      ⟨forgottenDb₄, .recompute forgottenThird, forgottenDb₅⟩]

theorem unsentRun_runs : DbRuns plainDigest unsentRun forgottenDb₂ := by
  have first : Step plainDigest {} (Action.recompute forgottenFirst) forgottenDb₁ :=
    ⟨Recompute.onTable_reads (by decide +kernel) (by decide +kernel), rfl⟩
  have create : Step plainDigest forgottenDb₁ forgottenCreate forgottenDb₂ :=
    ⟨⟨by decide +kernel, by decide +kernel, by decide +kernel⟩, rfl⟩
  exact Run.Runs.snoc (Run.Runs.snoc Run.Runs.nil first) create

theorem forgottenRun_runs : DbRuns plainDigest forgottenRun forgottenDb₅ := by
  have pending : (forgottenDb₂.digest[500]?.any fun row =>
      row.subscriberId = 7 ∧ row.deliveredAt = none) = true := by decide +kernel
  have deliver : Step plainDigest forgottenDb₂ forgottenDeliver forgottenDb₃ := by
    refine ⟨?_, rfl⟩
    show ∃ row, forgottenDb₂.digest[500]? = some row ∧ row.subscriberId = 7 ∧ row.deliveredAt = none
    simpa [Option.any_eq_true] using pending
  have second : Step plainDigest forgottenDb₃ (Action.recompute forgottenSecond) forgottenDb₄ :=
    ⟨Recompute.onTable_reads (by decide +kernel) (by decide +kernel), rfl⟩
  have third : Step plainDigest forgottenDb₄ (Action.recompute forgottenThird) forgottenDb₅ :=
    ⟨Recompute.onTable_reads (by decide +kernel) (by decide +kernel), rfl⟩
  exact Run.Runs.snoc (Run.Runs.snoc (Run.Runs.snoc unsentRun_runs deliver) second) third

/-- Without strong edges and with one cluster in each delivered story, a chain leads nowhere. -/
theorem not_joined {F : Type} [Score F] {r : Recompute F} {table : StoryTable}
    {i j : Fin r.candidates.length}
    (hweak : ((linkEdges r.clusters r.tuning).all fun e => !e.strong) = true)
    (hone : (table.toList.all fun entry =>
      entry.2.lastDeliveredAt.isNone || entry.2.members.length ≤ 1) = true)
    (h : Relation.EqvGen (Connected r table) i j) : (r.clusters i).id = (r.clusters j).id := by
  induction h with
  | rel i j hij =>
      rcases hij with ⟨e, he, hstrong, _⟩ | ⟨P, hd, hi, hj⟩
      · have := List.all_eq_true.mp hweak e he
        rw [hstrong] at this
        cases this
      · obtain ⟨row, hrow, _, hi⟩ := hi
        obtain ⟨row', hrow', _, hj⟩ := hj
        obtain ⟨row'', hrow'', _, hflag⟩ := hd
        obtain rfl := Option.some.inj (hrow'.symm.trans hrow)
        obtain rfl := Option.some.inj (hrow''.symm.trans hrow)
        have hmem := Std.ExtTreeMap.mem_toList_iff_getElem?_eq_some.mpr hrow
        have hlen := List.all_eq_true.mp hone _ hmem
        cases hflag' : row''.lastDeliveredAt with
        | none => rw [hflag'] at hflag; cases hflag
        | some t =>
            rw [hflag'] at hlen
            have hle : row''.members.length ≤ 1 := by simpa using hlen
            cases hlist : row''.members with
            | nil => rw [hlist] at hi; cases hi
            | cons c rest =>
                rw [hlist] at hle hi hj
                obtain rfl : rest = [] := List.eq_nil_of_length_eq_zero (by simpa using hle)
                rw [List.mem_singleton.mp hi, List.mem_singleton.mp hj]
  | refl i => rfl
  | symm i j _ ih => exact ih.symm
  | trans i j k _ _ ih₁ ih₂ => exact ih₁.trans ih₂

/-- Clusters 2 and 3 were delivered in stories 101 and 102. Two weak merges later they share
the live story 100, and no chain ever joined them. -/
theorem retro_merge_forgets_delivery :
    DbRuns plainDigest forgottenRun forgottenDb₅ ∧ ShownApart forgottenRun 7 2 3 ∧
      Member forgottenDb₅.story 7 100 2 ∧ Member forgottenDb₅.story 7 100 3 ∧
      ¬ JoinedByChain forgottenRun 7 2 3 := by
  have htwo : Member forgottenDb₂.story 7 101 2 := member_of_any (by decide +kernel)
  have hthree : Member forgottenDb₂.story 7 102 3 := member_of_any (by decide +kernel)
  refine ⟨forgottenRun_runs, ?_, member_of_any (by decide +kernel),
    member_of_any (by decide +kernel), ?_⟩
  · refine ⟨unsentRun, _, _, 101, 102, rfl, by decide, ?_, ?_,
      ⟨forgottenDb₂, forgottenDeliver, forgottenDb₃⟩, by simp, ?_⟩
    · exact shownIn_deliver (by decide +kernel) hthree
    · intro hnot
      have hapart : StoriesApart forgottenDb₂.story 7 := DbRuns.apart unsentRun_runs 7
      exact absurd (hapart.unique htwo (hnot.member hapart)) (by decide)
    · exact shownIn_deliver (by decide +kernel) htwo
  · intro hjoined
    obtain ⟨t, ht, r, haction, _, i, j, hi, hj, hchain⟩ := hjoined
    simp only [forgottenRun, unsentRun, List.cons_append, List.nil_append, List.mem_cons,
      List.not_mem_nil, or_false] at ht
    have hclash : (2 : Uuid) ≠ 3 := by decide
    rcases ht with rfl | rfl | rfl | rfl | rfl
    · cases haction
      have heq := not_joined (by decide +kernel) (by decide +kernel) hchain
      exact hclash (hi.symm.trans (heq.trans hj))
    · cases haction
    · cases haction
    · cases haction
      have heq := not_joined (by decide +kernel) (by decide +kernel) hchain
      exact hclash (hi.symm.trans (heq.trans hj))
    · cases haction
      have heq := not_joined (by decide +kernel) (by decide +kernel) hchain
      exact hclash (hi.symm.trans (heq.trans hj))

end Bulletin
