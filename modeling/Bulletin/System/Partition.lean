import Bulletin.Digest.Select
import Bulletin.System.Db

/-! # Stories partition their clusters

Only the stories a recompute touches are rewritten, so fresh member lists stand next
to old ones. They never overlap: every story with a candidate in it is either
rewritten or tombstoned.
-/

namespace Bulletin

variable {F : Type} [Score F] {sha256 : List UInt8 → List UInt8}

/-- The transactions since the subscriber's last recompute, and that recompute. -/
def LatestRecompute (sub : Uuid) (ts : List (Run.Transition Db (Action F)))
    (r : Recompute F) : Prop :=
  ∃ pre post db db', ts = pre ++ ⟨db, .recompute r, db'⟩ :: post ∧ r.subscriber = sub ∧
    ∀ t ∈ post, ∀ r', t.action = .recompute r' → r'.subscriber ≠ sub

/-- Only the subscriber's own recomputes move their clusters. -/
theorem Step.member {db db' : Db} {a : Action F} (h : Step sha256 db a db')
    (hapart : ∀ sub, StoriesApart db.story sub) {sub s c : Uuid}
    (hother : ∀ r, a = .recompute r → r.subscriber ≠ sub) :
    Member db'.story sub s c ↔ Member db.story sub s c := by
  rcases h.stories with ⟨r, rfl, hreads, heq⟩ | ⟨_, hsame⟩
  · rw [heq]
    exact Recompute.member_persist_foreign hreads (hapart _) _ (hother r rfl).symm
  · exact hsame.member

theorem Step.candidate_member {db db' : Db} {r : Recompute F}
    (h : Step sha256 db (.recompute r) db') (hapart : ∀ sub, StoriesApart db.story sub) {c : Uuid}
    (hc : r.Candidate c) : ∃ s, Member db'.story r.subscriber s c := by
  obtain ⟨hreads, hstory⟩ := h.recompute
  rw [hstory]
  obtain ⟨s, hs, _⟩ := Recompute.existsUnique_placed hreads hc
  exact ⟨s, (Recompute.member_persist hreads (hapart _) _).mpr (Or.inl hs)⟩

/-- In every reachable state each cluster is in at most one live story of a subscriber, each
candidate of the latest recompute is in exactly one, and tombstones own nothing. -/
theorem stories_partition {ts : List (Run.Transition Db (Action F))} {db : Db}
    (h : DbRuns sha256 ts db) (sub : Uuid) :
    StoriesApart db.story sub ∧
      ∀ r, LatestRecompute sub ts r → ∀ c, r.Candidate c → ∃! s, Member db.story sub s c := by
  have hapart := h.apart sub
  refine ⟨hapart, ?_⟩
  intro r hlatest c hc
  obtain ⟨pre, post, b, b', rfl, rfl, hpost⟩ := hlatest
  have hcons := h
  rw [List.append_cons] at hcons
  obtain ⟨m, hpre, hafter⟩ := hcons.split
  obtain ⟨rfl, hbefore, hstep⟩ := hpre.last
  have hall : ∀ sub, StoriesApart b.story sub := DbRuns.apart hbefore
  have hkeep := hafter.state_invariant
    (fun st => (∀ sub, StoriesApart st.story sub) ∧
      ∀ s c, Member st.story r.subscriber s c ↔ Member b'.story r.subscriber s c)
    ⟨hstep.apart hall, fun s c => Iff.rfl⟩ (by
      intro t ht hs hI
      exact ⟨hs.apart hI.1, fun s c => (hs.member hI.1 (hpost t ht)).trans (hI.2 s c)⟩)
  obtain ⟨s, hs⟩ := hstep.candidate_member hall hc
  have hs' := (hkeep.2 s c).mpr hs
  exact ⟨s, hs', fun t ht => hapart.unique ht hs'⟩

/-- A story of two advisories; then one of them is out of the candidates and a third joins. -/
def shiftedFirst : Recompute ℚ :=
  .onTable ∅ 7 [feedCluster 1 ["cve:a"] 0, feedCluster 2 ["cve:a"] 0] {} 100

def shiftedDb : Db := (Action.recompute shiftedFirst).apply plainDigest {}

def shiftedSecond : Recompute ℚ :=
  .onTable shiftedDb.story 7 [feedCluster 2 ["cve:a"] 0, feedCluster 3 ["cve:a"] 0] {} 200

theorem stories_partition_shifted :
    StoriesApart ((Action.recompute shiftedSecond).apply plainDigest shiftedDb).story 7 ∧
      ∃! s, Member ((Action.recompute shiftedSecond).apply plainDigest shiftedDb).story 7 s 3 := by
  have first : Step plainDigest {} (Action.recompute shiftedFirst) shiftedDb :=
    ⟨Recompute.onTable_reads (by decide +kernel) (by decide +kernel), rfl⟩
  have second : Step plainDigest shiftedDb (Action.recompute shiftedSecond)
      ((Action.recompute shiftedSecond).apply plainDigest shiftedDb) :=
    ⟨Recompute.onTable_reads (by decide +kernel) (by decide +kernel), rfl⟩
  obtain ⟨hapart, hall⟩ := stories_partition
    (Run.Runs.snoc (Run.Runs.snoc Run.Runs.nil first) second) 7
  refine ⟨hapart, hall shiftedSecond ⟨_, [], _, _, rfl, rfl, ?_⟩ 3 ⟨⟨1, by decide⟩, rfl⟩⟩
  intro t ht
  cases ht

end Bulletin
