import Bulletin.Identity.Spanning
import Bulletin.Identity.Corrections
import Bulletin.Thread.Communities
import Bulletin.Thread.Conserved
import Bulletin.Thread.Weights

/-! # The pass over the tables

A maintenance pass resolves the tokens of a subscriber's stories, finds the communities of what
stands for them, and saves the threads and the weights it projects from them. The threads it
leaves live are those of its upserts, and a token weighs something just when a thread of affinity
has it.
-/

namespace Bulletin

open Identity

/-! ## The pass -/

/-- What a pass is configured with. -/
structure PassConfig (F : Type) extends MaintenanceConfig F, IdentityConfig F where
  minCommunitySize : Nat
  maxIters : Nat

def PassConfig.default (F : Type) [Score F] : PassConfig F where
  toMaintenanceConfig := .default F
  toIdentityConfig := .default F
  minCommunitySize := 2
  maxIters := 30

/-- The tables a pass reads and writes. -/
structure ThreadStore (F : Type) where
  feedback : List FeedbackRow
  entityEdge : List (EntityEdge F)
  thread : ThreadTable F
  watermark : Watermarks
  /-- The weights of each subscriber's tokens. -/
  affinity : Std.ExtTreeMap Uuid (EntityWeights F) compare

section Maintain

variable {F : Type} [SelectScore F]

/-- What stands for the tokens of a pass over these stories. -/
def ThreadStore.resolution (cfg : PassConfig F) (sub : Uuid) (sources : List StorySource)
    (s : ThreadStore F) : Resolution :=
  passResolution cfg.toIdentityConfig s.entityEdge sub
    (spineOf ((sources.map (·.spine)).flatMap (·.entities)))

/-- The communities of what stands for the tokens of the stories. `none` is a panic. -/
def passCandidates (cfg : PassConfig F) (now : DateTime) (resolution : Resolution)
    (sources : List StorySource) : Option (List (List String)) :=
  let items := sources.map fun s =>
    { entities := s.entities.map resolution.representative, time := s.lastEventTime }
  (labelPropagation (coOccurrence items now cfg.horizons.affinityHalfLife : CoGraph F)
    cfg.maxIters).map (communitiesToCandidates · cfg.minCommunitySize)

/-- A pass of the subscriber over the stories of the window. `none` is a target that is no id, or
a panic. -/
def maintain (cfg : PassConfig F) (sub : Uuid) (now : DateTime) (sources : List StorySource)
    (mint : Nat → Uuid) (s : ThreadStore F) : Option (ThreadStore F) := do
  let since := s.watermark.feedbackCursor sub
  let spines := sources.map (·.spine)
  let care ← threadCareSince s.feedback sub since
  let prior := (loadThreads sub s.thread).map (·.spine)
  let resolution := s.resolution cfg sub sources
  let candidates ← passCandidates cfg now resolution spines
  let upserts := maintainUpserts candidates resolution spines prior care since now
    cfg.toMaintenanceConfig
  return { s with
    thread := saveThreads sub upserts ((List.range upserts.length).map mint) s.thread
    affinity := s.affinity.insert sub
      (projectWeights (upserts.map fun u => (u.state, u.affinity, u.entities)))
    watermark := s.watermark.advance sub now }

omit [SelectScore F] in
def ThreadStore.loadEntityWeights (s : ThreadStore F) (sub : Uuid) : EntityWeights F :=
  s.affinity.getD sub ∅

omit [SelectScore F] in
/-- The subscriber's threads that stories can be assigned to. -/
def ThreadStore.assignable (s : ThreadStore F) (sub : Uuid) : List (Uuid × StoredThread F) :=
  s.thread.toList.filter fun e =>
    e.2.subscriberId = sub ∧ e.2.mergedInto = none ∧ e.2.state ≠ .archived

end Maintain

/-! ## The rows a pass leaves live -/

section Saved

variable {F : Type} {sub : Uuid} {table : ThreadTable F} {upserts : List (ThreadUpsert F)}
  {newIds : List Uuid} {entry : ThreadUpsert F × Uuid} {row : StoredThread F} {k : Uuid}

/-- A thread of the subscriber that is not merged into another. -/
structure LiveThread (sub : Uuid) (table : ThreadTable F) (k : Uuid) (row : StoredThread F) :
    Prop where
  stored : table[k]? = some row
  own : row.subscriberId = sub
  unmerged : row.mergedInto = none

theorem mem_loadThreads_ids :
    k ∈ (loadThreads sub table).map (·.id) ↔ ∃ row, LiveThread sub table k row := by
  unfold loadThreads
  simp only [List.mem_map, List.mem_filter, decide_eq_true_eq, exists_exists_and_eq_and]
  constructor
  · rintro ⟨⟨k', row⟩, ⟨hin, hsub, hmerged⟩, rfl⟩
    exact ⟨row, Std.ExtTreeMap.mem_toList_iff_getElem?_eq_some.mp hin, hsub, hmerged⟩
  · rintro ⟨row, hstored, hsub, hmerged⟩
    exact ⟨(k, row), ⟨Std.ExtTreeMap.mem_toList_iff_getElem?_eq_some.mpr hstored, hsub, hmerged⟩,
      rfl⟩

def winnerId (entry : ThreadUpsert F × Uuid) : Uuid := entry.1.id.getD entry.2

def savedIds (entry : ThreadUpsert F × Uuid) : List Uuid := winnerId entry :: entry.1.absorb

structure HoldsUpsert (u : ThreadUpsert F) (row : StoredThread F) : Prop where
  entities : row.entities = u.entities
  affinity : row.affinity = u.affinity
  state : row.state = u.state

theorem saveThread_untouched (h : k ∉ savedIds entry) :
    (saveThread sub table entry)[k]? = table[k]? := by
  obtain ⟨u, newId⟩ := entry
  obtain ⟨hwinner, habsorb⟩ := not_or.mp (mt List.mem_cons.mpr h)
  unfold saveThread
  unfold winnerId at hwinner
  dsimp only at hwinner habsorb ⊢
  cases hid : u.id with
  | none =>
      rw [hid] at hwinner
      dsimp only
      rw [foldl_forward, if_neg habsorb, Std.ExtTreeMap.getElem?_insert,
        if_neg (by simpa using Ne.symm hwinner)]
  | some w =>
      rw [hid] at hwinner
      dsimp only
      rw [foldl_forward, if_neg habsorb, updateThread_getElem?,
        if_neg (show w ≠ k from Ne.symm hwinner)]

theorem saveThread_winner (habsorb : winnerId entry ∉ entry.1.absorb)
    (hlive : ∀ w, entry.1.id = some w → ∃ row, LiveThread sub table w row) :
    ∃ row, LiveThread sub (saveThread sub table entry) (winnerId entry) row ∧
      HoldsUpsert entry.1 row := by
  obtain ⟨u, newId⟩ := entry
  unfold winnerId at habsorb ⊢
  unfold saveThread
  dsimp only at habsorb hlive ⊢
  cases hid : u.id with
  | none =>
      rw [hid] at habsorb
      refine ⟨u.inserted sub, ⟨?_, rfl, rfl⟩, ⟨rfl, rfl, rfl⟩⟩
      dsimp only [Option.getD_none] at habsorb ⊢
      rw [foldl_forward, if_neg habsorb, Std.ExtTreeMap.getElem?_insert]
      simp
  | some w =>
      rw [hid] at habsorb
      obtain ⟨row, hstored, hsub, hmerged⟩ := hlive w hid
      refine ⟨row.withUpsert u, ⟨?_, hsub, hmerged⟩, ⟨rfl, rfl, rfl⟩⟩
      dsimp only [Option.getD_some] at habsorb ⊢
      rw [foldl_forward, if_neg habsorb, updateThread_getElem?, if_pos rfl,
        hstored, Option.map_some, if_pos hsub]

theorem saveThread_absorbed (h : k ∈ entry.1.absorb) :
    ¬ ∃ row, LiveThread sub (saveThread sub table entry) k row := by
  obtain ⟨u, newId⟩ := entry
  rintro ⟨row, hstored, hsub, hmerged⟩
  unfold saveThread at hstored
  dsimp only at h hstored
  split at hstored <;>
  · rw [foldl_forward, if_pos h, Option.map_eq_some_iff] at hstored
    obtain ⟨before, _, rfl⟩ := hstored
    unfold StoredThread.forwarded at hsub hmerged
    split at hmerged
    · cases hmerged
    · rename_i hother
      rw [if_neg hother] at hsub
      exact hother hsub

theorem foldl_saveThread_untouched {entries : List (ThreadUpsert F × Uuid)}
    (h : ∀ e ∈ entries, k ∉ savedIds e) :
    (entries.foldl (saveThread sub) table)[k]? = table[k]? := by
  induction entries generalizing table with
  | nil => rfl
  | cons e entries ih =>
      rw [List.foldl_cons, ih fun q hq => h q (List.mem_cons_of_mem _ hq),
        saveThread_untouched (h e List.mem_cons_self)]

/-- Where upserts write apart, one of them writes its rows as if alone. -/
theorem foldl_saveThread_only {entries : List (ThreadUpsert F × Uuid)}
    (hapart : entries.Pairwise fun e q => List.Disjoint (savedIds e) (savedIds q))
    (he : entry ∈ entries) (hk : k ∈ savedIds entry) :
    ∃ before : ThreadTable F, (∀ i ∈ savedIds entry, before[i]? = table[i]?) ∧
      (entries.foldl (saveThread sub) table)[k]? = (saveThread sub before entry)[k]? := by
  obtain ⟨pre, post, rfl⟩ := List.append_of_mem he
  rw [List.pairwise_append] at hapart
  obtain ⟨_, hpost, hpre⟩ := hapart
  refine ⟨pre.foldl (saveThread sub) table, ?_, ?_⟩
  · intro i hi
    exact foldl_saveThread_untouched fun q hq hin =>
      hpre q hq entry List.mem_cons_self hin hi
  · rw [List.foldl_append, List.foldl_cons]
    exact foldl_saveThread_untouched fun q hq hin =>
      (List.pairwise_cons.mp hpost).1 q hq hk hin

/-- The upserts take each live thread once, and new ids are new. -/
structure SavesOver (sub : Uuid) (table : ThreadTable F) (upserts : List (ThreadUpsert F))
    (newIds : List Uuid) : Prop where
  once : (upserts.flatMap (·.ids)).Perm ((loadThreads sub table).map (·.id))
  length : newIds.length = upserts.length
  nodup : newIds.Nodup
  unused : ∀ id ∈ newIds, id ∉ table

namespace SavesOver

variable (h : SavesOver sub table upserts newIds)

include h

theorem live {u : ThreadUpsert F} {id : Uuid} (hu : u ∈ upserts) (hid : id ∈ u.ids) :
    ∃ row, LiveThread sub table id row :=
  mem_loadThreads_ids.mp (h.once.mem_iff.mp (List.mem_flatMap.mpr ⟨u, hu, hid⟩))

theorem not_new {u : ThreadUpsert F} {id : Uuid} (hu : u ∈ upserts) (hid : id ∈ u.ids) :
    id ∉ newIds := by
  intro hnew
  obtain ⟨row, hstored, _, _⟩ := h.live hu hid
  apply h.unused id hnew
  rw [← Std.ExtTreeMap.isSome_getElem?_iff_mem, hstored]
  rfl

omit h in
theorem mem_savedIds (hk : k ∈ savedIds entry) : k ∈ entry.1.ids ∨ k = entry.2 := by
  unfold savedIds winnerId at hk
  unfold ThreadUpsert.ids
  cases hid : entry.1.id <;> simp_all
  all_goals tauto

theorem apart : (upserts.zip newIds).Pairwise fun e q =>
    List.Disjoint (savedIds e) (savedIds q) := by
  have hids : upserts.Pairwise fun u v => List.Disjoint u.ids v.ids :=
    (List.nodup_flatMap.mp (h.once.nodup_iff.mpr loadThreads_ids_nodup)).2
  rw [List.pairwise_iff_getElem]
  intro i j hi hj hlt k hk hk'
  rw [List.length_zip] at hi hj
  rw [List.getElem_zip] at hk hk'
  have hu : upserts[i] ∈ upserts := List.getElem_mem _
  have hv : upserts[j] ∈ upserts := List.getElem_mem _
  rcases mem_savedIds hk with hown | hnew <;> rcases mem_savedIds hk' with hown' | hnew'
  · exact List.pairwise_iff_getElem.mp hids i j (by omega) (by omega) hlt hown hown'
  · exact h.not_new hu hown (hnew' ▸ List.getElem_mem _)
  · exact h.not_new hv hown' (hnew ▸ List.getElem_mem _)
  · have heq : i = j := (List.Nodup.getElem_inj_iff h.nodup).mp (hnew.symm.trans hnew')
    omega

theorem winner_not_absorbed (he : entry ∈ upserts.zip newIds) :
    winnerId entry ∉ entry.1.absorb := by
  have hu := (List.of_mem_zip he).1
  have hown : entry.1.ids.Nodup :=
    (List.nodup_flatMap.mp (h.once.nodup_iff.mpr loadThreads_ids_nodup)).1 _ hu
  unfold winnerId
  cases hid : entry.1.id with
  | none =>
      intro hin
      exact h.not_new hu (List.mem_append_right _ hin) (List.of_mem_zip he).2
  | some w =>
      unfold ThreadUpsert.ids at hown
      rw [hid] at hown
      exact (List.nodup_cons.mp hown).1

theorem saved (he : entry ∈ upserts.zip newIds) :
    ∃ row, LiveThread sub (saveThreads sub upserts newIds table) (winnerId entry) row ∧
      HoldsUpsert entry.1 row := by
  have hu := (List.of_mem_zip he).1
  obtain ⟨before, hbefore, hafter⟩ :=
    @foldl_saveThread_only F sub table entry (winnerId entry) _ h.apart he List.mem_cons_self
  have hlive : ∀ w, entry.1.id = some w → ∃ row, LiveThread sub before w row := by
    intro w hw
    obtain ⟨row, hlive⟩ := h.live hu (show w ∈ entry.1.ids by simp [ThreadUpsert.ids, hw])
    have hin : w ∈ savedIds entry := by simp [savedIds, winnerId, hw]
    exact ⟨row, (hbefore w hin).trans hlive.stored, hlive.own, hlive.unmerged⟩
  obtain ⟨row, hrow, hof⟩ := saveThread_winner (h.winner_not_absorbed he) hlive
  exact ⟨row, ⟨hafter.trans hrow.stored, hrow.own, hrow.unmerged⟩, hof⟩

theorem exists_winner (hlive : LiveThread sub (saveThreads sub upserts newIds table) k row) :
    ∃ e ∈ upserts.zip newIds, winnerId e = k := by
  by_cases htouched : ∃ e ∈ upserts.zip newIds, k ∈ savedIds e
  · obtain ⟨e, he, hk⟩ := htouched
    rcases List.mem_cons.mp hk with hwinner | habsorb
    · exact ⟨e, he, hwinner.symm⟩
    · obtain ⟨before, _, hafter⟩ := @foldl_saveThread_only F sub table e k _ h.apart he hk
      exact absurd ⟨row, hafter.symm.trans hlive.stored, hlive.own, hlive.unmerged⟩
        (saveThread_absorbed habsorb)
  · -- a row no upsert writes was live before, and every live thread is in an upsert
    have hnone : ∀ e ∈ upserts.zip newIds, k ∉ savedIds e := fun e he hin => htouched ⟨e, he, hin⟩
    have hbefore : LiveThread sub table k row :=
      ⟨(foldl_saveThread_untouched hnone).symm.trans hlive.stored, hlive.own, hlive.unmerged⟩
    have hin := h.once.mem_iff.mpr (mem_loadThreads_ids.mpr ⟨row, hbefore⟩)
    obtain ⟨u, hu, hid⟩ := List.mem_flatMap.mp hin
    have hfst : (upserts.zip newIds).map (·.1) = upserts :=
      List.map_fst_zip (le_of_eq h.length.symm)
    rw [← hfst] at hu
    obtain ⟨e, he, rfl⟩ := List.mem_map.mp hu
    refine absurd ?_ (hnone e he)
    unfold savedIds winnerId
    unfold ThreadUpsert.ids at hid
    cases hwin : e.1.id <;> simp_all

end SavesOver

end Saved

/-! ## The tables after a pass -/

/-- The ids new threads get are new, each time another. -/
structure MintsFor {F : Type} (mint : Nat → Uuid) (table : ThreadTable F) : Prop where
  injective : Function.Injective mint
  unused : ∀ k, mint k ∉ table

structure Saves (s s' : ThreadStore ℚ) (sub : Uuid) (upserts : List (ThreadUpsert ℚ))
    (newIds : List Uuid) : Prop where
  apart : SavesOver sub s.thread upserts newIds
  thread : s'.thread = saveThreads sub upserts newIds s.thread
  weights : s'.loadEntityWeights sub =
    projectWeights (upserts.map fun u => (u.state, u.affinity, u.entities))
  nonneg : ∀ u ∈ upserts, 0 ≤ u.affinity

section Left

variable {cfg : PassConfig ℚ} {sub : Uuid} {now : DateTime} {sources : List StorySource}
  {mint : Nat → Uuid} {s s' : ThreadStore ℚ} {upserts : List (ThreadUpsert ℚ)} {newIds : List Uuid}

theorem clamp_nonneg {x high : ℚ} (h : 0 ≤ high) : 0 ≤ clamp x (Score.lit 0) high := by
  have hlit : (Score.lit 0 : ℚ) = 0 := by simp [Score.lit]
  unfold clamp
  rw [hlit]
  split
  · exact le_refl _
  · rename_i hlow
    split
    · exact h
    · simpa [Score.lt, Score.partialCmp, compare_lt_iff_lt] using hlow

theorem maintain_saves (hmint : MintsFor mint s.thread) (hmax : 0 ≤ cfg.affinityMax)
    (h : maintain cfg sub now sources mint s = some s') :
    ∃ upserts newIds, Saves s s' sub upserts newIds := by
  unfold maintain at h
  simp only [Option.bind_eq_bind, Option.bind_eq_some_iff, Option.pure_def, Option.some.injEq] at h
  obtain ⟨care, _, candidates, _, rfl⟩ := h
  refine ⟨_, _, ⟨?_, ?_, ?_, ?_⟩, rfl, ?_, ?_⟩
  · have hspine : ((loadThreads sub s.thread).map (·.spine)).map (·.id) =
        (loadThreads sub s.thread).map (·.id) := by
      rw [List.map_map]
      rfl
    rw [← hspine]
    exact maintainUpserts_ids (hspine ▸ loadThreads_ids_nodup)
  · simp
  · exact List.nodup_range.map hmint.injective
  · intro id hid
    obtain ⟨k, _, rfl⟩ := List.mem_map.mp hid
    exact hmint.unused k
  · simp [ThreadStore.loadEntityWeights]
  · intro u hu
    obtain ⟨before, haffinity⟩ := maintainUpserts_affinity hu
    rw [haffinity]
    exact clamp_nonneg hmax

theorem mem_assignable {e : Uuid × StoredThread ℚ} : e ∈ s'.assignable sub ↔
    LiveThread sub s'.thread e.1 e.2 ∧ e.2.state ≠ .archived := by
  unfold ThreadStore.assignable
  simp only [List.mem_filter, decide_eq_true_eq]
  constructor
  · rintro ⟨hin, hsub, hmerged, hstate⟩
    exact ⟨⟨Std.ExtTreeMap.mem_toList_iff_getElem?_eq_some.mp hin, hsub, hmerged⟩, hstate⟩
  · rintro ⟨⟨hstored, hsub, hmerged⟩, hstate⟩
    exact ⟨Std.ExtTreeMap.mem_toList_iff_getElem?_eq_some.mpr hstored, hsub, hmerged, hstate⟩

namespace Saves

variable (h : Saves s s' sub upserts newIds)

include h

theorem upsert_of_assignable {e : Uuid × StoredThread ℚ} (he : e ∈ s'.assignable sub) :
    ∃ u ∈ upserts, HoldsUpsert u e.2 := by
  obtain ⟨hlive, _⟩ := mem_assignable.mp he
  rw [h.thread] at hlive
  obtain ⟨entry, hentry, hwinner⟩ := h.apart.exists_winner hlive
  obtain ⟨row, hrow, hof⟩ := h.apart.saved hentry
  rw [hwinner] at hrow
  obtain rfl := Option.some.inj (hlive.stored.symm.trans hrow.stored)
  exact ⟨entry.1, (List.of_mem_zip hentry).1, hof⟩

theorem assignable_of_upsert {u : ThreadUpsert ℚ} (hu : u ∈ upserts)
    (hstate : u.state ≠ .archived) :
    ∃ e ∈ s'.assignable sub, HoldsUpsert u e.2 := by
  have hfst : (upserts.zip newIds).map (·.1) = upserts :=
    List.map_fst_zip (le_of_eq h.apart.length.symm)
  rw [← hfst] at hu
  obtain ⟨entry, hentry, rfl⟩ := List.mem_map.mp hu
  obtain ⟨row, hrow, hof⟩ := h.apart.saved hentry
  rw [← h.thread] at hrow
  exact ⟨(winnerId entry, row), mem_assignable.mpr ⟨hrow, hof.state ▸ hstate⟩, hof⟩

theorem affinity_nonneg {e : Uuid × StoredThread ℚ} (he : e ∈ s'.assignable sub) :
    0 ≤ e.2.affinity := by
  obtain ⟨u, hu, hof⟩ := h.upsert_of_assignable he
  rw [hof.affinity]
  exact h.nonneg u hu

omit h in
/-- A thread adds nothing to a token it does not have, that is archived, or without affinity. -/
theorem weightShare_eq_zero {u : ThreadUpsert ℚ} {t : String} (hnonneg : 0 ≤ u.affinity) :
    weightShare (u.state, u.affinity, u.entities) t = 0 ↔
      (t ∈ u.entities → u.state ≠ .archived → u.affinity = 0) := by
  have hfactor : u.state.factor = 0 ↔ u.state = .archived := by
    cases u.state <;> simp [ThreadState.factor]
  have hcount : (u.entities.count t : ℚ) = 0 ↔ t ∉ u.entities := by
    rw [Nat.cast_eq_zero, List.count_eq_zero]
  have hlength : t ∈ u.entities → (u.entities.length : ℚ) ≠ 0 := by
    intro hin
    have hpos := List.length_pos_of_mem hin
    exact_mod_cast hpos.ne'
  unfold weightShare
  dsimp only
  rw [max_eq_left hnonneg, mul_eq_zero, div_eq_zero_iff, mul_eq_zero, hcount, hfactor]
  tauto

theorem weight_eq_zero {t : String} : (s'.loadEntityWeights sub).getD t 0 = 0 ↔
    ∀ e ∈ s'.assignable sub, t ∈ e.2.entities → e.2.affinity = 0 := by
  have hsum : (s'.loadEntityWeights sub).getD t 0 = 0 ↔
      ∀ u ∈ upserts, weightShare (u.state, u.affinity, u.entities) t = 0 := by
    rw [h.weights, projectWeights_getD, List.map_map]
    constructor
    · intro hzero u hu
      refine List.all_zero_of_le_zero_le_of_sum_eq_zero ?_ hzero (List.mem_map_of_mem hu)
      intro x hx
      obtain ⟨v, _, rfl⟩ := List.mem_map.mp hx
      exact weightShare_nonneg
    · intro hall
      refine List.sum_eq_zero ?_
      intro x hx
      obtain ⟨u, hu, rfl⟩ := List.mem_map.mp hx
      exact hall u hu
  rw [hsum]
  constructor
  · intro hall e he hin
    obtain ⟨u, hu, hof⟩ := h.upsert_of_assignable he
    have hstate := (mem_assignable.mp he).2
    rw [hof.affinity]
    rw [hof.state] at hstate
    exact (weightShare_eq_zero (h.nonneg u hu)).mp (hall u hu) (hof.entities ▸ hin) hstate
  · intro hall u hu
    rw [weightShare_eq_zero (h.nonneg u hu)]
    intro hin hstate
    obtain ⟨e, he, hof⟩ := h.assignable_of_upsert hu hstate
    rw [← hof.affinity]
    exact hall e he (hof.entities ▸ hin)

end Saves

end Left
end Bulletin
