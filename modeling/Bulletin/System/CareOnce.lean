import Bulletin.Core.Run
import Bulletin.Thread.Absorb
import Bulletin.Thread.Store

/-! # Care signals and maintenance passes

A submission becomes visible when it commits, under the time its transaction began. A pass
takes its clock first; then it reads its cursor, the signals since, and the threads, each as
they are at that read, and its writes commit together.
-/

namespace Bulletin

inductive PassPhase (F : Type) where
  | begun
  | cursorRead (since : DateTime)
  /-- With the log as it was at the read. -/
  | careRead (since : DateTime) (log : List FeedbackRow) (care : List (ThreadCare F))
  | threadsRead (since : DateTime) (log : List FeedbackRow) (care : List (ThreadCare F))
      (prior : List (ThreadRow F))

structure MaintenancePass (F : Type) where
  subscriber : Uuid
  now : DateTime
  phase : PassPhase F

/-- A committed pass: its clock and its cursor, what it has read, and what it has written. -/
structure CommittedPass (F : Type) where
  subscriber : Uuid
  now : DateTime
  since : DateTime
  log : List FeedbackRow
  sources : List StorySource
  prior : List (ThreadRow F)
  upserts : List (ThreadUpsert F)

/-- The passes and the log, with a record of the passes that have committed. -/
structure Care (F : Type) where
  now : DateTime := 1
  feedback : List FeedbackRow := []
  thread : ThreadTable F := ∅
  watermark : Watermarks := ∅
  pass : Nat → Option (MaintenancePass F) := fun _ => none
  /-- The care signals that were on a thread of their subscriber when they were submitted. -/
  aimed : List FeedbackRow := []
  committed : List (CommittedPass F) := []

inductive CareAction (F : Type) where
  | wait (duration : Nat)
  /-- A submission commits. -/
  | submit (row : FeedbackRow)
  | start (pass : Nat) (sub : Uuid)
  | readCursor (pass : Nat)
  | readCare (pass : Nat)
  | readThreads (pass : Nat)
  /-- The pass commits, with the communities and stories it has found, and an id for each upsert
  that may need one. -/
  | commit (pass : Nat) (candidates : List (List String)) (resolution : Resolution)
      (sources : List StorySource) (newIds : List Uuid)
  | abort (pass : Nat)

/-- A care signal on a thread of its subscriber, merged away or not. -/
def FeedbackRow.onThread {F : Type} (row : FeedbackRow) (table : ThreadTable F) : Bool :=
  row.isCare && row.targetId.any fun id => table[id]?.any (·.subscriberId = row.subscriberId)

namespace Care

variable {F : Type}

def withPass (s : Care F) (pass : Nat) (p : Option (MaintenancePass F)) : Care F :=
  { s with pass := Function.update s.pass pass p }

/-- The step an action makes, if it can. -/
def next [SelectScore F] (cfg : MaintenanceConfig F) (s : Care F) (act : CareAction F) :
    Option (Care F) :=
  match act with
  | .wait duration => some { s with now := s.now + duration }
  | .submit row =>
      if row.createdAt ≤ s.now ∧ row.id ∉ s.feedback.map (·.id) then
        some { s with
          feedback := row :: s.feedback
          aimed := if row.onThread s.thread then row :: s.aimed else s.aimed }
      else none
  | .start pass sub =>
      match s.pass pass with
      | none => some (s.withPass pass (some ⟨sub, s.now, .begun⟩))
      | some _ => none
  | .readCursor pass =>
      match s.pass pass with
      | some ⟨sub, now, .begun⟩ =>
          some (s.withPass pass (some ⟨sub, now, .cursorRead (s.watermark.feedbackCursor sub)⟩))
      | _ => none
  | .readCare pass =>
      match s.pass pass with
      | some ⟨sub, now, .cursorRead since⟩ =>
          (threadCareSince s.feedback sub since).map fun care =>
            s.withPass pass (some ⟨sub, now, .careRead since s.feedback care⟩)
      | _ => none
  | .readThreads pass =>
      match s.pass pass with
      | some ⟨sub, now, .careRead since log care⟩ =>
          some (s.withPass pass
            (some ⟨sub, now, .threadsRead since log care (loadThreads sub s.thread)⟩))
      | _ => none
  | .commit pass candidates resolution sources newIds =>
      match s.pass pass with
      | some ⟨sub, now, .threadsRead since log care prior⟩ =>
          let sources := sources.map (·.spine)
          let prior := prior.map (·.spine)
          let upserts := maintainUpserts candidates resolution sources prior care since now cfg
          if newIds.length = upserts.length ∧ newIds.Nodup ∧ ∀ id ∈ newIds, id ∉ s.thread then
            some { s.withPass pass none with
              thread := saveThreads sub upserts newIds s.thread
              watermark := s.watermark.advance sub now
              committed := ⟨sub, now, since, log, sources, prior, upserts⟩ :: s.committed }
          else none
      | _ => none
  | .abort pass => some (s.withPass pass none)

end Care

section Steps

variable {F : Type} [SelectScore F] (cfg : MaintenanceConfig F)

def CareStep (s : Care F) (act : CareAction F) (s' : Care F) : Prop := s.next cfg act = some s'

/-- A run from empty tables. -/
abbrev CareRuns (ts : List (Run.Transition (Care F) (CareAction F))) (s : Care F) : Prop :=
  Run.Runs (CareStep cfg) {} ts s

end Steps

/-! ## What is claimed of a state -/

def careIn (log : List FeedbackRow) (sub : Uuid) (since : DateTime) : List (ThreadCare ℚ) :=
  (careRows log sub since).filterMap FeedbackRow.threadCare

section Contributions

variable (cfg : MaintenanceConfig ℚ) (q : CommittedPass ℚ)

/-- What the pass adds up for an upsert, before the bounds, with the signals of this log. -/
def CommittedPass.score (log : List FeedbackRow) (u : ThreadUpsert ℚ) : ℚ :=
  unclampedAffinity q.prior q.sources (careIn log q.subscriber q.since) q.since q.now cfg u

/-- The affinities the pass has written are what it adds up, within the bounds. -/
def CommittedPass.Scored : Prop :=
  ∀ u ∈ q.upserts, u.affinity = clamp (q.score cfg q.log u) (Score.lit 0) cfg.affinityMax

/-- What a signal contributes to an upsert: what would be missing without it. -/
def CommittedPass.contribution (c : FeedbackRow) (u : ThreadUpsert ℚ) : ℚ :=
  q.score cfg q.log u - q.score cfg (q.log.erase c) u

/-- The upserts, by their threads, to which a signal contributes something, and what. -/
def CommittedPass.contributions (c : FeedbackRow) : List (List Uuid × ℚ) :=
  (q.upserts.map fun u => (u.ids, q.contribution cfg c u)).filter (·.2 ≠ 0)

/-- All that a signal has contributed. -/
def Care.contributions (s : Care ℚ) (c : FeedbackRow) : List (List Uuid × ℚ) :=
  s.committed.flatMap (·.contributions cfg c)

/-- A signal contributes its delta to its thread or the one that absorbs it, in one pass at most,
and in one when the cursor has passed it. -/
def Care.CountsOnce (s : Care ℚ) (c : FeedbackRow) : Prop :=
  (∀ x ∈ s.contributions cfg c, c.targetId.any (· ∈ x.1) = true ∧ x.2 = c.signal.affinityDelta) ∧
    (s.contributions cfg c).length ≤ 1 ∧
    (c.createdAt ≤ s.watermark.feedbackCursor c.subscriberId → (s.contributions cfg c).length = 1)

instance (s : Care ℚ) (c : FeedbackRow) : Decidable (s.CountsOnce cfg c) :=
  inferInstanceAs (Decidable (_ ∧ _ ∧ (_ → _)))

/-- The affinities are as the passes add them up, and every signal that was on a thread is counted
once in them. -/
structure CareOnce (s : Care ℚ) : Prop where
  scored : ∀ q ∈ s.committed, q.Scored cfg
  once : ∀ c ∈ s.aimed, s.CountsOnce cfg c

end Contributions

section Hears

variable {F : Type}

/-- A care signal that had committed when the log was read, later than the cursor, with its target
among the threads read. -/
def Hears (sub : Uuid) (since : DateTime) (log : List FeedbackRow) (prior : List (ThreadRow F))
    (c : FeedbackRow) : Prop :=
  c.subscriberId = sub ∧ c.isCare = true ∧ c ∈ log ∧ since < c.createdAt ∧
    ∃ row ∈ prior, c.targetId = some row.id

instance (sub : Uuid) (since : DateTime) (log : List FeedbackRow) (prior : List (ThreadRow F))
    (c : FeedbackRow) : Decidable (Hears sub since log prior c) :=
  inferInstanceAs (Decidable (_ ∧ _ ∧ _ ∧ _ ∧ _))

def CommittedPass.Hears (q : CommittedPass F) (c : FeedbackRow) : Prop :=
  Bulletin.Hears q.subscriber q.since q.log q.prior c

instance (q : CommittedPass F) (c : FeedbackRow) : Decidable (q.Hears c) :=
  inferInstanceAs (Decidable (Bulletin.Hears _ _ _ _ _))

/-- The step commits a signal the cursor has passed already, or a pass that hears a signal once
more, or one whose clock is past a signal that no pass has heard. -/
def Miscounts (s : Care F) : CareAction F → Prop
  | .submit c => c.onThread s.thread = true ∧
      c.createdAt ≤ s.watermark.feedbackCursor c.subscriberId
  | .commit pass _ _ _ _ => ∃ sub now since log care prior,
      s.pass pass = some ⟨sub, now, .threadsRead since log care prior⟩ ∧
      ∃ c ∈ s.aimed, c.subscriberId = sub ∧
        ((Hears sub since log prior c ∧ ∃ q ∈ s.committed, q.Hears c) ∨
          (¬ Hears sub since log prior c ∧ (∀ q ∈ s.committed, ¬ q.Hears c) ∧ c.createdAt ≤ now))
  | _ => False

end Hears

/-! ## What a pass counts -/

theorem countP_ids_eq_one {F : Type} {us : List (ThreadUpsert F)} {ids : List Uuid}
    (hperm : (us.flatMap (·.ids)).Perm ids) (hnodup : ids.Nodup) (id : Uuid) :
    us.countP (fun u => decide (id ∈ u.ids)) = if id ∈ ids then 1 else 0 := by
  have hcount : (us.flatMap (·.ids)).count id = us.countP fun u => decide (id ∈ u.ids) := by
    have hall := hperm.nodup_iff.mpr hnodup
    clear hperm
    induction us with
    | nil => rfl
    | cons u us ih =>
        rw [List.flatMap_cons] at hall ⊢
        obtain ⟨hu, hrest, _⟩ := List.nodup_append.mp hall
        rw [List.count_append, ih hrest, List.countP_cons, hu.count]
        by_cases hin : id ∈ u.ids
        · simp [hin, Nat.add_comm]
        · simp [hin]
  rw [← hcount, hperm.count_eq, hnodup.count]

theorem filterMap_of_mapM {α β : Type} {f : α → Option β} {l : List α} {r : List β}
    (h : l.mapM f = some r) : l.filterMap f = r := by
  induction l generalizing r with
  | nil =>
      simp only [List.mapM_nil, Option.pure_def, Option.some.injEq] at h
      exact h
  | cons a l ih =>
      simp only [List.mapM_cons, Option.bind_eq_bind, Option.bind_eq_some_iff, Option.pure_def,
        Option.some.injEq] at h
      obtain ⟨b, hb, rest, hrest, rfl⟩ := h
      rw [List.filterMap_cons_some hb, ih hrest]

theorem careIn_of_threadCareSince {log : List FeedbackRow} {sub : Uuid} {since : DateTime}
    {care : List (ThreadCare ℚ)} (h : threadCareSince log sub since = some care) :
    careIn log sub since = care :=
  filterMap_of_mapM h

section Sum

variable {sub : Uuid} {since : DateTime} {ids : List Uuid} {c : FeedbackRow}
  {log : List FeedbackRow}

def careOn (log : List FeedbackRow) (sub : Uuid) (since : DateTime) (ids : List Uuid) : ℚ :=
  (((careIn log sub since).filter (·.threadId ∈ ids)).map (·.delta)).sum

theorem careOn_perm {log' : List FeedbackRow} (h : log.Perm log') :
    careOn log sub since ids = careOn log' sub since ids := by
  unfold careOn careIn careRows
  exact ((((h.filter _).filterMap _).filter _).map _).sum_eq

theorem careOn_cons : careOn (c :: log) sub since ids =
    (if (c.subscriberId = sub ∧ c.isCare = true ∧ since < c.createdAt) ∧
        c.targetId.any (· ∈ ids) = true then c.signal.affinityDelta else 0) +
      careOn log sub since ids := by
  unfold careOn careIn careRows
  by_cases hread : c.subscriberId = sub ∧ c.isCare = true ∧ since < c.createdAt
  · rw [List.filter_cons_of_pos (by simpa using hread)]
    cases htarget : c.targetId with
    | none => simp [FeedbackRow.threadCare, htarget]
    | some id =>
        by_cases hin : id ∈ ids
        · simp [FeedbackRow.threadCare, htarget, hin, hread]
        · simp [FeedbackRow.threadCare, htarget, hin]
  · rw [List.filter_cons_of_neg (by simpa using hread), if_neg (fun h => hread h.1), zero_add]

theorem careOn_sub_erase : careOn log sub since ids - careOn (log.erase c) sub since ids =
    if (c.subscriberId = sub ∧ c.isCare = true ∧ c ∈ log ∧ since < c.createdAt) ∧
      c.targetId.any (· ∈ ids) = true then c.signal.affinityDelta else 0 := by
  by_cases hin : c ∈ log
  · rw [careOn_perm (List.perm_cons_erase hin), careOn_cons, add_sub_cancel_right]
    simp [hin]
  · rw [List.erase_of_not_mem hin, sub_self]
    simp [hin]

end Sum

theorem affinityDelta_ne_zero {c : FeedbackRow} (h : c.isCare = true) :
    (c.signal.affinityDelta : ℚ) ≠ 0 := by
  have hsignal := (of_decide_eq_true h).2
  cases hc : c.signal with
  | careMore | careLess | done => simp [Signal.affinityDelta, Score.lit]
  | mustLink | cannotLink => simp [hc] at hsignal

/-! ## What a pass has read -/

def MaintenancePass.log {F : Type} (p : MaintenancePass F) : List FeedbackRow :=
  match p.phase with
  | .begun | .cursorRead _ => []
  | .careRead _ log _ | .threadsRead _ log _ _ => log

def MaintenancePass.ReadCare {F : Type} [Score F] (p : MaintenancePass F) : Prop :=
  match p.phase with
  | .begun | .cursorRead _ => True
  | .careRead since log care | .threadsRead since log care _ =>
      threadCareSince log p.subscriber since = some care

def MaintenancePass.prior {F : Type} (p : MaintenancePass F) : List (ThreadRow F) :=
  match p.phase with
  | .begun | .cursorRead _ | .careRead _ _ _ => []
  | .threadsRead _ _ _ prior => prior

structure MaintenancePass.Sound (feedback : List FeedbackRow) (p : MaintenancePass ℚ) : Prop where
  log : p.log ⊆ feedback
  care : p.ReadCare
  prior : (p.prior.map (·.id)).Nodup

/-- What a committed pass has written: each thread it has read is in one upsert, once. -/
structure CommittedPass.Sound (cfg : MaintenanceConfig ℚ) (feedback : List FeedbackRow)
    (q : CommittedPass ℚ) : Prop where
  log : q.log ⊆ feedback
  prior : (q.prior.map (·.id)).Nodup
  ids : (q.upserts.flatMap (·.ids)).Perm (q.prior.map (·.id))
  scored : q.Scored cfg

structure Care.Sound (cfg : MaintenanceConfig ℚ) (s : Care ℚ) : Prop where
  aimed : ∀ c ∈ s.aimed, c ∈ s.feedback
  pass : ∀ k p, s.pass k = some p → p.Sound s.feedback
  committed : ∀ q ∈ s.committed, q.Sound cfg s.feedback

section Contribute

variable {cfg : MaintenanceConfig ℚ} {feedback : List FeedbackRow} {q : CommittedPass ℚ}
  {u : ThreadUpsert ℚ} {s : Care ℚ} {c : FeedbackRow}

/-- A signal that the pass has read contributes its delta to the upsert of its thread. -/
theorem CommittedPass.Sound.contribution_eq (hq : q.Sound cfg feedback) (hu : u ∈ q.upserts) :
    q.contribution cfg c u = if (c.subscriberId = q.subscriber ∧ c.isCare = true ∧ c ∈ q.log ∧
      q.since < c.createdAt) ∧ c.targetId.any (· ∈ u.ids) = true
      then c.signal.affinityDelta else 0 := by
  have hids : (u.id.toList ++ u.absorb).Nodup :=
    (List.nodup_flatMap.mp (hq.ids.nodup_iff.mpr hq.prior)).1 u hu
  rw [← careOn_sub_erase]
  unfold CommittedPass.contribution CommittedPass.score unclampedAffinity
  rw [careFor_eq_sum _ _ _ hids, careFor_eq_sum _ _ _ hids]
  change _ + (careOn q.log _ _ u.ids + _) - (_ + (careOn (q.log.erase c) _ _ u.ids + _)) = _
  ring

theorem CommittedPass.Sound.contributions_eq (hq : q.Sound cfg feedback) :
    (q.Hears c ∧ ∃ u ∈ q.upserts, c.targetId.any (· ∈ u.ids) = true ∧
      q.contributions cfg c = [(u.ids, c.signal.affinityDelta)]) ∨
    (¬ q.Hears c ∧ q.contributions cfg c = []) := by
  have hone : ∀ u ∈ q.upserts, q.contribution cfg c u ≠ 0 ↔
      (c.subscriberId = q.subscriber ∧ c.isCare = true ∧ c ∈ q.log ∧ q.since < c.createdAt) ∧
        c.targetId.any (· ∈ u.ids) = true := by
    intro u hu
    rw [hq.contribution_eq hu]
    split
    · rename_i hread
      exact iff_of_true (affinityDelta_ne_zero hread.1.2.1) hread
    · rename_i hread
      exact iff_of_false (fun hne => hne rfl) hread
  have hmap : q.contributions cfg c = (q.upserts.filter fun u => q.contribution cfg c u ≠ 0).map
      fun u => (u.ids, q.contribution cfg c u) := by
    unfold CommittedPass.contributions
    rw [List.filter_map]
    rfl
  by_cases hears : q.Hears c
  · obtain ⟨hsub, hcare, hlog, hsince, row, hrow, htarget⟩ := id hears
    have hcount := countP_ids_eq_one hq.ids hq.prior row.id
    rw [if_pos (List.mem_map_of_mem hrow), List.countP_eq_length_filter] at hcount
    obtain ⟨u, hu⟩ := List.length_eq_one_iff.mp hcount
    have hin : u ∈ q.upserts.filter fun u => decide (row.id ∈ u.ids) := by
      rw [hu]
      exact List.mem_singleton_self u
    obtain ⟨hmem, hid⟩ := List.mem_filter.mp hin
    have hon : c.targetId.any (· ∈ u.ids) = true := by
      rw [htarget]
      exact hid
    refine .inl ⟨hears, u, hmem, hon, ?_⟩
    have hfilter : (q.upserts.filter fun u => q.contribution cfg c u ≠ 0) = [u] := by
      rw [← hu]
      refine List.filter_congr fun v hv => ?_
      rw [decide_eq_decide, hone v hv, htarget]
      simp [hsub, hcare, hlog, hsince]
    rw [hmap, hfilter, List.map_singleton, hq.contribution_eq hmem,
      if_pos ⟨⟨hsub, hcare, hlog, hsince⟩, hon⟩]
  · refine .inr ⟨hears, ?_⟩
    rw [hmap, List.map_eq_nil_iff, List.filter_eq_nil_iff]
    intro u hu hne
    obtain ⟨⟨hsub, hcare, hlog, hsince⟩, hon⟩ := (hone u hu).mp (of_decide_eq_true hne)
    obtain ⟨id, htarget, hid⟩ := (Option.any_eq_true _ _).mp hon
    have hin : id ∈ q.prior.map (·.id) :=
      hq.ids.subset (List.mem_flatMap.mpr ⟨u, hu, of_decide_eq_true hid⟩)
    obtain ⟨row, hrow, rfl⟩ := List.mem_map.mp hin
    exact hears ⟨hsub, hcare, hlog, hsince, row, hrow, htarget⟩

def Care.heard (s : Care ℚ) (c : FeedbackRow) : Nat := s.committed.countP (·.Hears c)

theorem Care.Sound.contributions_spec (hs : s.Sound cfg) :
    (s.contributions cfg c).length = s.heard c ∧ ∀ x ∈ s.contributions cfg c,
      c.targetId.any (· ∈ x.1) = true ∧ x.2 = c.signal.affinityDelta := by
  have hall := hs.committed
  unfold Care.contributions Care.heard
  generalize s.committed = qs at hall ⊢
  induction qs with
  | nil => exact ⟨rfl, fun x hx => nomatch hx⟩
  | cons q qs ih =>
      obtain ⟨hlength, hvalues⟩ := ih fun q' hq' => hall q' (List.mem_cons_of_mem q hq')
      rw [List.flatMap_cons, List.length_append, hlength, List.countP_cons]
      rcases (hall q List.mem_cons_self).contributions_eq (c := c) with
        ⟨hears, u, _, hon, heq⟩ | ⟨hdeaf, heq⟩
      · rw [heq]
        refine ⟨by simp [hears, Nat.add_comm], ?_⟩
        intro x hx
        rcases List.mem_append.mp hx with hin | hin
        · rw [List.mem_singleton.mp hin]
          exact ⟨hon, rfl⟩
        · exact hvalues x hin
      · rw [heq]
        refine ⟨by simp [hdeaf], ?_⟩
        intro x hx
        exact hvalues x (by simpa using hx)

theorem Care.Sound.countsOnce_iff (hs : s.Sound cfg) : s.CountsOnce cfg c ↔ s.heard c ≤ 1 ∧
    (c.createdAt ≤ s.watermark.feedbackCursor c.subscriberId → s.heard c = 1) := by
  obtain ⟨hlength, hvalues⟩ := hs.contributions_spec (c := c)
  unfold Care.CountsOnce
  rw [hlength]
  exact and_iff_right hvalues

end Contribute

/-! ## Steps -/

inductive CareMove (cfg : MaintenanceConfig ℚ) (s : Care ℚ) : CareAction ℚ → Care ℚ → Prop
  | wait (duration : Nat) : CareMove cfg s (.wait duration) { s with now := s.now + duration }
  | submit (c : FeedbackRow) (hid : c.id ∉ s.feedback.map (·.id)) :
      CareMove cfg s (.submit c) { s with
        feedback := c :: s.feedback
        aimed := if c.onThread s.thread then c :: s.aimed else s.aimed }
  | pass (act : CareAction ℚ) (k : Nat) (p : Option (MaintenancePass ℚ))
      (hact : ¬ Miscounts s act)
      (hsound : s.Sound cfg → ∀ p', p = some p' → p'.Sound s.feedback) :
      CareMove cfg s act (s.withPass k p)
  | commit (k : Nat) (candidates : List (List String)) (resolution : Resolution)
      (stories : List StorySource) (newIds : List Uuid) (sub : Uuid) (now since : DateTime)
      (log : List FeedbackRow) (care : List (ThreadCare ℚ)) (prior : List (ThreadRow ℚ))
      (sources : List StorySource) (upserts : List (ThreadUpsert ℚ)) (thread : ThreadTable ℚ)
      (hpass : s.pass k = some ⟨sub, now, .threadsRead since log care prior⟩)
      (hupserts : upserts = maintainUpserts candidates resolution sources
        (prior.map (·.spine)) care since now cfg) :
      CareMove cfg s (.commit k candidates resolution stories newIds) { s.withPass k none with
        thread := thread
        watermark := s.watermark.advance sub now
        committed :=
          ⟨sub, now, since, log, sources, prior.map (·.spine), upserts⟩ :: s.committed }

section Steps

variable {cfg : MaintenanceConfig ℚ} {s s' : Care ℚ} {act : CareAction ℚ} {c : FeedbackRow}

theorem CareStep.moves (h : CareStep cfg s act s') : CareMove cfg s act s' := by
  unfold CareStep Care.next at h
  cases act with
  | wait duration =>
      obtain rfl := Option.some.inj h
      exact .wait duration
  | submit row =>
      obtain ⟨⟨_, hid⟩, heq⟩ := Option.ite_none_right_eq_some.mp h
      obtain rfl := Option.some.inj heq
      exact .submit row hid
  | start k sub =>
      dsimp only at h
      split at h
      · obtain rfl := Option.some.inj h
        refine .pass _ k _ (fun hno => hno) ?_
        rintro _ _ ⟨⟩
        exact ⟨List.nil_subset _, trivial, List.nodup_nil⟩
      · cases h
  | readCursor k =>
      dsimp only at h
      split at h
      · obtain rfl := Option.some.inj h
        refine .pass _ k _ (fun hno => hno) ?_
        rintro _ _ ⟨⟩
        exact ⟨List.nil_subset _, trivial, List.nodup_nil⟩
      · cases h
  | readCare k =>
      dsimp only at h
      split at h
      · obtain ⟨care, hcare, rfl⟩ := Option.map_eq_some_iff.mp h
        refine .pass _ k _ (fun hno => hno) ?_
        rintro hs _ ⟨⟩
        exact ⟨List.Subset.refl _, hcare, List.nodup_nil⟩
      · cases h
  | readThreads k =>
      dsimp only at h
      split at h
      · rename_i sub now since log care hpass
        obtain rfl := Option.some.inj h
        refine .pass _ k _ (fun hno => hno) ?_
        rintro hs _ ⟨⟩
        have hold := hs.pass k _ hpass
        exact ⟨hold.log, hold.care, loadThreads_ids_nodup⟩
      · cases h
  | commit k candidates resolution sources newIds =>
      dsimp only at h
      split at h
      · rename_i sub now since log care prior hpass
        obtain ⟨_, heq⟩ := Option.ite_none_right_eq_some.mp h
        obtain rfl := Option.some.inj heq
        exact .commit k candidates resolution sources newIds sub now since log care prior _ _ _
          hpass rfl
      · cases h
  | abort k =>
      obtain rfl := Option.some.inj h
      refine .pass _ k _ (fun hno => hno) ?_
      intro _ p' hp'
      cases hp'

theorem MaintenancePass.Sound.mono {feedback feedback' : List FeedbackRow} {p : MaintenancePass ℚ}
    (h : p.Sound feedback) (hsub : feedback ⊆ feedback') : p.Sound feedback' :=
  ⟨List.Subset.trans h.log hsub, h.care, h.prior⟩

theorem CommittedPass.Sound.mono {feedback feedback' : List FeedbackRow} {q : CommittedPass ℚ}
    (h : q.Sound cfg feedback) (hsub : feedback ⊆ feedback') : q.Sound cfg feedback' :=
  ⟨List.Subset.trans h.log hsub, h.prior, h.ids, h.scored⟩

theorem Care.Sound.withPass {k : Nat} {p : Option (MaintenancePass ℚ)} (h : s.Sound cfg)
    (hp : ∀ p', p = some p' → p'.Sound s.feedback) : (s.withPass k p).Sound cfg := by
  refine ⟨h.aimed, ?_, h.committed⟩
  intro k' p' hp'
  change Function.update s.pass k p k' = some p' at hp'
  by_cases hk : k' = k
  · subst hk
    rw [Function.update_self] at hp'
    exact hp p' hp'
  · rw [Function.update_of_ne hk] at hp'
    exact h.pass k' p' hp'

theorem MaintenancePass.Sound.committed {feedback log : List FeedbackRow} {sub : Uuid}
    {now since : DateTime} {care : List (ThreadCare ℚ)} {prior : List (ThreadRow ℚ)}
    {candidates : List (List String)} {resolution : Resolution} {sources : List StorySource}
    (h : (⟨sub, now, .threadsRead since log care prior⟩ : MaintenancePass ℚ).Sound feedback) :
    (⟨sub, now, since, log, sources, prior.map (·.spine), maintainUpserts candidates resolution
      sources (prior.map (·.spine)) care since now cfg⟩ : CommittedPass ℚ).Sound cfg feedback := by
  have hprior : ((prior.map (·.spine)).map (·.id)).Nodup := by
    rw [spine_ids]
    exact h.prior
  refine ⟨h.log, hprior, maintainUpserts_ids hprior, ?_⟩
  intro u hu
  unfold CommittedPass.score
  rw [careIn_of_threadCareSince h.care]
  exact maintainUpserts_unclamped hprior hu

theorem CareMove.sound (h : CareMove cfg s act s') (hs : s.Sound cfg) : s'.Sound cfg := by
  cases h with
  | wait duration => exact ⟨hs.aimed, hs.pass, hs.committed⟩
  | submit c hid =>
      have hsub : s.feedback ⊆ c :: s.feedback := List.subset_cons_self _ _
      refine ⟨?_, fun k p hp => (hs.pass k p hp).mono hsub,
        fun q hq => (hs.committed q hq).mono hsub⟩
      intro c' hc'
      dsimp only at hc'
      split at hc'
      · rcases List.mem_cons.mp hc' with rfl | hin
        · exact List.mem_cons_self
        · exact hsub (hs.aimed c' hin)
      · exact hsub (hs.aimed c' hc')
  | pass act k p _ hsound => exact hs.withPass (hsound hs)
  | commit k _ _ _ _ sub now since log care prior sources upserts thread hpass hupserts =>
      have hnone : (s.withPass k none).Sound cfg := hs.withPass fun p' hp' => nomatch hp'
      refine ⟨hs.aimed, hnone.pass, ?_⟩
      intro q hq
      rcases List.mem_cons.mp hq with rfl | hin
      · rw [hupserts]
        exact (hs.pass k _ hpass).committed
      · exact hs.committed q hin

theorem CareRuns.sound {ts : List (Run.Transition (Care ℚ) (CareAction ℚ))}
    (h : CareRuns cfg ts s) : s.Sound cfg := by
  refine Run.Runs.state_invariant h (Care.Sound cfg) ?_ fun t _ hstep => hstep.moves.sound
  constructor
  · simp
  · simp
  · simp

/-! ## What a step does to the count -/

theorem heard_eq_zero_iff : s.heard c = 0 ↔ ∀ q ∈ s.committed, ¬ q.Hears c := by
  unfold Care.heard
  rw [List.countP_eq_zero]
  simp only [decide_eq_true_eq]

theorem heard_fresh (hs : s.Sound cfg) (hid : c.id ∉ s.feedback.map (·.id)) : s.heard c = 0 := by
  rw [heard_eq_zero_iff]
  intro q hq hears
  exact hid (List.mem_map_of_mem ((hs.committed q hq).log hears.2.2.1))

/-- A pass keeps a signal counted once unless it hears it again, or leaves it behind unheard. -/
theorem countsOnce_commit {t : Care ℚ} {q : CommittedPass ℚ} (hs : s.Sound cfg) (ht : t.Sound cfg)
    (hcommitted : t.committed = q :: s.committed)
    (hwatermark : t.watermark = s.watermark.advance q.subscriber q.now)
    (honce : s.CountsOnce cfg c) : t.CountsOnce cfg c ↔ ¬ (c.subscriberId = q.subscriber ∧
      ((q.Hears c ∧ ∃ q' ∈ s.committed, q'.Hears c) ∨
        (¬ q.Hears c ∧ (∀ q' ∈ s.committed, ¬ q'.Hears c) ∧ c.createdAt ≤ q.now))) := by
  have hheard : t.heard c = (if q.Hears c then 1 else 0) + s.heard c := by
    unfold Care.heard
    rw [hcommitted, List.countP_cons, Nat.add_comm]
    simp only [decide_eq_true_eq]
  have hexists : (∃ q' ∈ s.committed, q'.Hears c) ↔ s.heard c ≠ 0 := by
    rw [ne_eq, heard_eq_zero_iff]
    push Not
    exact Iff.rfl
  rw [hs.countsOnce_iff] at honce
  rw [ht.countsOnce_iff, hexists, ← heard_eq_zero_iff, hheard, hwatermark]
  by_cases hsub : c.subscriberId = q.subscriber
  · rw [hsub] at honce ⊢
    by_cases hears : q.Hears c
    · rw [if_pos hears]
      simp only [hears, true_and, not_true_eq_false, false_and, or_false]
      by_cases hzero : s.heard c = 0
      · simp [hzero]
      · simp [hzero]
    · rw [if_neg hears]
      simp only [hears, true_and, false_and, not_false_eq_true, false_or]
      by_cases hzero : s.heard c = 0
      · have hahead : s.watermark.feedbackCursor q.subscriber < c.createdAt := by
          by_contra hle
          have hone := honce.2 (not_lt.mp hle)
          omega
        rw [le_feedbackCursor_advance hahead]
        simp [hzero]
      · omega
  · have hdeaf : ¬ q.Hears c := fun hears => hsub hears.1
    rw [feedbackCursor_advance_of_ne hsub]
    simpa [hsub, hdeaf] using honce

/-- A step keeps every signal counted once exactly when it does not miscount. -/
theorem CareStep.careOnce_iff (h : CareStep cfg s act s') (hs : s.Sound cfg)
    (honce : CareOnce cfg s) : CareOnce cfg s' ↔ ¬ Miscounts s act := by
  have hsound' := h.moves.sound hs
  have hiff : CareOnce cfg s' ↔ ∀ c ∈ s'.aimed, s'.CountsOnce cfg c :=
    ⟨fun hall => hall.once, fun hall => ⟨fun q hq => (hsound'.committed q hq).scored, hall⟩⟩
  rw [hiff]
  cases h.moves with
  | wait duration => exact iff_of_true honce.once fun hno => hno
  | pass act k p hact hsound => exact iff_of_true honce.once hact
  | submit c hid =>
      -- the passes have not changed
      have hcounts : ∀ c' ∈ s.aimed, Care.CountsOnce cfg { s with
          feedback := c :: s.feedback
          aimed := if c.onThread s.thread then c :: s.aimed else s.aimed } c' := honce.once
      unfold Miscounts
      dsimp only
      by_cases hon : c.onThread s.thread = true
      · have hnew := hsound'.countsOnce_iff (c := c)
        have hzero : s.heard c = 0 := heard_fresh hs hid
        simp only [if_pos hon, List.forall_mem_cons]
        simp only [if_pos hon] at hnew hcounts
        rw [and_iff_left hcounts, hnew]
        change s.heard c ≤ 1 ∧ (_ → s.heard c = 1) ↔ _
        rw [hzero]
        simp [hon]
      · simp only [if_neg hon] at hcounts ⊢
        exact iff_of_true hcounts fun hmis => hon hmis.1
  | commit k _ _ _ _ sub now since log care prior sources upserts thread hpass hupserts =>
      have hone : ∀ c ∈ s.aimed, Care.CountsOnce cfg { s.withPass k none with
            thread := thread
            watermark := s.watermark.advance sub now
            committed := ⟨sub, now, since, log, sources, prior.map (·.spine), upserts⟩ ::
              s.committed } c ↔ _ :=
        fun c hc => countsOnce_commit hs hsound' rfl rfl (honce.once c hc)
      have hears : ∀ c, (⟨sub, now, since, log, sources, prior.map (·.spine), upserts⟩ :
          CommittedPass ℚ).Hears c ↔ Hears sub since log prior c := by
        intro c
        refine and_congr_right fun _ => and_congr_right fun _ => and_congr_right fun _ =>
          and_congr_right fun _ => ?_
        simp [ThreadRow.spine]
      refine (forall₂_congr hone).trans ?_
      simp only [hears]
      constructor
      · rintro hall ⟨_, _, _, _, _, _, hpass', c, hc, hmis⟩
        obtain ⟨rfl, rfl, hphase⟩ :=
          MaintenancePass.mk.inj (Option.some.inj (hpass.symm.trans hpass'))
        obtain ⟨rfl, rfl, rfl, rfl⟩ := PassPhase.threadsRead.inj hphase
        exact hall c hc hmis
      · intro hno c hc hmis
        exact hno ⟨_, _, _, _, _, _, hpass, c, hc, hmis⟩

theorem careOnce_start : CareOnce cfg {} where
  scored := by simp
  once := by simp

/-- In every run every signal on a thread is counted once in every state exactly when no step
miscounts. -/
theorem care_once_iff {ts : List (Run.Transition (Care ℚ) (CareAction ℚ))} (h : CareRuns cfg ts s) :
    (∀ t ∈ ts, CareOnce cfg t.after) ↔ ∀ t ∈ ts, ¬ Miscounts t.before t.action := by
  refine Run.Runs.throughout_iff h careOnce_start ?_
  intro t ht honce
  obtain ⟨pre, post, heq, hpre⟩ := h.before_of_mem ht
  exact (h.step_of_mem ht).careOnce_iff (CareRuns.sound hpre) honce

end Steps

/-! ## A signal during a pass -/

def Care.play [SelectScore F] (cfg : MaintenanceConfig F) (s : Care F) (act : CareAction F) :
    Option (CareAction F × Care F) :=
  (s.next cfg act).map fun s' => (act, s')

theorem Care.play_ends [SelectScore F] {cfg : MaintenanceConfig F} {script : List (CareAction F)}
    {P : Care F → Bool}
    (h : (Run.execute (Care.play cfg) {} script).any P = true) :
    ∃ s, CareRuns cfg (Run.transitions (Care.play cfg) {} script) s ∧ P s = true := by
  refine Run.execute_ends ?_ h
  intro s cue act s' hplay
  obtain ⟨rfl, hnext⟩ := Run.eq_some_of_paired hplay
  exact hnext

def careCfg : MaintenanceConfig ℚ := MaintenanceConfig.default ℚ

def wholePass (k : Nat) (newIds : List Uuid) : List (CareAction ℚ) :=
  [.start k 7, .readCursor k, .readCare k, .readThreads k,
    .commit k [["user:a", "user:b"]] {} [] newIds]

def careSignal (id : Uuid) (signal : Signal) (createdAt : DateTime) : FeedbackRow where
  id := id
  subscriberId := 7
  targetType := .thread
  targetId := some 100
  signal := signal
  createdAt := createdAt

def settledCareScript : List (CareAction ℚ) :=
  wholePass 0 [100] ++ [.wait 10, .submit (careSignal 1 .careMore 11), .wait 10] ++
    wholePass 1 [101]

def settledCareRun : List (Run.Transition (Care ℚ) (CareAction ℚ)) :=
  Run.transitions (Care.play careCfg) {} settledCareScript

def Care.affinityOf100 (s : Care ℚ) : Option ℚ := s.thread[(100 : Uuid)]?.map (·.affinity)

theorem care_once_iff_settled : ∃ s, CareRuns careCfg settledCareRun s ∧
    s.aimed = [careSignal 1 .careMore 11] ∧
    s.contributions careCfg (careSignal 1 .careMore 11) = [([100], 1)] ∧ s.affinityOf100 = some 1 ∧
    ∀ t ∈ settledCareRun, ¬ Miscounts t.before t.action := by
  obtain ⟨s, hrun, hend⟩ : ∃ s, CareRuns careCfg settledCareRun s ∧ decide
      (s.aimed = [careSignal 1 .careMore 11] ∧
        s.contributions careCfg (careSignal 1 .careMore 11) = [([100], 1)] ∧
        s.affinityOf100 = some 1) = true :=
    Care.play_ends (by decide +kernel)
  have hall : (settledCareRun.all fun t => t.after.aimed.all fun c =>
      t.after.CountsOnce careCfg c) = true := by
    decide +kernel
  obtain ⟨haimed, hcounts, haffinity⟩ := of_decide_eq_true hend
  refine ⟨s, hrun, haimed, hcounts, haffinity, (care_once_iff hrun).mp ?_⟩
  intro t ht
  obtain ⟨pre, _, heq, _⟩ := hrun.before_of_mem ht
  refine ⟨fun q hq => ((CareRuns.sound (Run.Runs.upto (heq ▸ hrun))).committed q hq).scored, ?_⟩
  intro c hc
  exact of_decide_eq_true (List.all_eq_true.mp (List.all_eq_true.mp hall t ht) c hc)

/-- One signal is submitted after a pass has taken its clock and before it reads; another begins
before that and commits after. A later pass follows. -/
def unsettledCareScript : List (CareAction ℚ) :=
  wholePass 0 [100] ++ [.wait 9, .start 1 7, .wait 5, .submit (careSignal 1 .careMore 15),
    .readCursor 1, .readCare 1, .readThreads 1, .commit 1 [["user:a", "user:b"]] {} [] [101],
    .wait 5, .submit (careSignal 2 .careLess 8), .wait 5] ++ wholePass 2 [102]

def unsettledCareRun : List (Run.Transition (Care ℚ) (CareAction ℚ)) :=
  Run.transitions (Care.play careCfg) {} unsettledCareScript

/-- The first is counted by both passes, the second by none though the cursor is past it: the
affinity is 2, where they add up to 0. -/
theorem care_counted_twice_or_never : ∃ s, CareRuns careCfg unsettledCareRun s ∧
    s.aimed = [careSignal 2 .careLess 8, careSignal 1 .careMore 15] ∧
    s.watermark.feedbackCursor 7 = 25 ∧
    s.contributions careCfg (careSignal 1 .careMore 15) = [([100], 1), ([100], 1)] ∧
    s.contributions careCfg (careSignal 2 .careLess 8) = [] ∧ s.affinityOf100 = some 2 ∧
    ¬ CareOnce careCfg s := by
  obtain ⟨s, hrun, hend⟩ : ∃ s, CareRuns careCfg unsettledCareRun s ∧ decide
      (s.aimed = [careSignal 2 .careLess 8, careSignal 1 .careMore 15] ∧
        s.watermark.feedbackCursor 7 = 25 ∧
        s.contributions careCfg (careSignal 1 .careMore 15) = [([100], 1), ([100], 1)] ∧
        s.contributions careCfg (careSignal 2 .careLess 8) = [] ∧ s.affinityOf100 = some 2) = true :=
    Care.play_ends (by decide +kernel)
  obtain ⟨haimed, hcursor, htwice, hnever, haffinity⟩ := of_decide_eq_true hend
  refine ⟨s, hrun, haimed, hcursor, htwice, hnever, haffinity, ?_⟩
  intro honce
  have hle := (honce.once (careSignal 1 .careMore 15) (by rw [haimed]; simp)).2.1
  rw [htwice] at hle
  exact absurd hle (by decide)

end Bulletin
