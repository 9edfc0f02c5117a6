import Mathlib.Algebra.Order.Ring.Int
import Mathlib.Data.List.Pairwise
import Mathlib.Data.Nat.Find

/-! # Wall clocks

A wall clock shows the time plus an offset, and is set to another offset finitely many times.
Set forward it skips readings, set back it repeats some. A skipped reading stands for the
instant the offset before gives it, a repeated one for its last instant. Readings that no
change moves over are exactly those that the clock shows as passed when their instant is.
-/

structure ClockChange where
  since : Int
  offset : Int
deriving DecidableEq, Repr

structure WallClock where
  /-- The offset before the first change. -/
  first : Int
  changes : List ClockChange
  sorted : changes.Pairwise fun x y => x.since < y.since

namespace WallClock

variable {c : WallClock}

/-- The instant of a change; changes count from one. -/
def since (c : WallClock) : ℕ → Int
  | 0 => 0
  | i + 1 => (c.changes.map ClockChange.since).getD i 0

def offset (c : WallClock) : ℕ → Int
  | 0 => c.first
  | i + 1 => (c.changes.map ClockChange.offset).getD i 0

def changesAt (c : WallClock) (t : Int) : ℕ :=
  Nat.findGreatest (fun i => c.since i ≤ t) c.changes.length

/-- The last change after which the clock gets to show a reading. -/
def changesBefore (c : WallClock) (l : Int) : ℕ :=
  Nat.findGreatest (fun i => c.since i + c.offset i ≤ l) c.changes.length

def toLocal (c : WallClock) (t : Int) : Int := t + c.offset (c.changesAt t)

/-- The instant a reading stands for. -/
def toUtc (c : WallClock) (l : Int) : Int := l - c.offset (c.changesBefore l)

/-! ## The change in force -/

theorem since_lt_since {i j : ℕ} (hi : 0 < i) (hij : i < j) (hj : j ≤ c.changes.length) :
    c.since i < c.since j := by
  obtain ⟨i, rfl⟩ := Nat.exists_eq_add_one.mpr hi
  obtain ⟨j, rfl⟩ := Nat.exists_eq_add_one.mpr (Nat.lt_trans hi hij)
  have hlt : i < j := by omega
  have hjlt : j < c.changes.length := by omega
  have hsorted := List.pairwise_iff_getElem.mp c.sorted i j (by omega) hjlt hlt
  simpa [since, List.getD, hjlt, Nat.lt_trans hlt hjlt] using hsorted

theorem since_le_since {i j : ℕ} (hi : 0 < i) (hij : i ≤ j) (hj : j ≤ c.changes.length) :
    c.since i ≤ c.since j := by
  rcases Nat.lt_or_eq_of_le hij with hlt | rfl
  · exact (since_lt_since hi hlt hj).le
  · exact le_refl _

theorem changesAt_le {t : Int} : c.changesAt t ≤ c.changes.length :=
  Nat.findGreatest_le _

theorem since_changesAt_le {t : Int} (hpos : 0 < c.changesAt t) :
    c.since (c.changesAt t) ≤ t :=
  Nat.findGreatest_of_ne_zero rfl hpos.ne'

theorem lt_since {t : Int} {i : ℕ} (hi : c.changesAt t < i) (hle : i ≤ c.changes.length) :
    t < c.since i :=
  not_le.mp (Nat.findGreatest_is_greatest hi hle)

theorem changesAt_eq {t : Int} {i : ℕ} (hle : i ≤ c.changes.length)
    (hfrom : 0 < i → c.since i ≤ t)
    (hupto : i < c.changes.length → t < c.since (i + 1)) : c.changesAt t = i := by
  refine Nat.findGreatest_eq_iff.mpr ⟨hle, fun h => hfrom (Nat.pos_of_ne_zero h), ?_⟩
  intro j hij hj
  have hstep := hupto (by omega)
  have hlater := since_le_since (c := c) (Nat.add_one_pos i) hij hj
  exact not_le.mpr (lt_of_lt_of_le hstep hlater)

theorem changesBefore_le {l : Int} : c.changesBefore l ≤ c.changes.length :=
  Nat.findGreatest_le _

theorem since_changesBefore_le {l : Int} (hpos : 0 < c.changesBefore l) :
    c.since (c.changesBefore l) + c.offset (c.changesBefore l) ≤ l :=
  Nat.findGreatest_of_ne_zero rfl hpos.ne'

theorem lt_since_add {l : Int} {i : ℕ} (hi : c.changesBefore l < i)
    (hle : i ≤ c.changes.length) : l < c.since i + c.offset i :=
  not_le.mp (Nat.findGreatest_is_greatest hi hle)

theorem le_changesBefore {l : Int} {i : ℕ} (hle : i ≤ c.changes.length)
    (hshown : c.since i + c.offset i ≤ l) : i ≤ c.changesBefore l :=
  Nat.le_findGreatest hle hshown

theorem changesBefore_mono {l m : Int} (hlm : l ≤ m) :
    c.changesBefore l ≤ c.changesBefore m := by
  by_cases hpos : 0 < c.changesBefore l
  · exact le_changesBefore changesBefore_le (le_trans (since_changesBefore_le hpos) hlm)
  · omega

/-! ## Readings and instants -/

theorem since_le_toUtc {l : Int} (hpos : 0 < c.changesBefore l) :
    c.since (c.changesBefore l) ≤ c.toUtc l := by
  have hshown := since_changesBefore_le hpos
  unfold toUtc
  omega

/-- A reading later than the clock shows stands for a later instant. -/
theorem lt_toUtc {t l : Int} (h : c.toLocal t < l) : t < c.toUtc l := by
  unfold toLocal at h
  have hle : c.changesAt t ≤ c.changesBefore l := by
    by_cases hpos : 0 < c.changesAt t
    · have hsince := since_changesAt_le hpos
      exact le_changesBefore changesAt_le (by omega)
    · omega
  rcases Nat.lt_or_eq_of_le hle with hlt | heq
  · exact lt_of_lt_of_le (lt_since hlt changesBefore_le)
      (since_le_toUtc (Nat.lt_of_le_of_lt (Nat.zero_le _) hlt))
  · unfold toUtc
    rw [← heq]
    omega

theorem le_toLocal_toUtc (l : Int) : l ≤ c.toLocal (c.toUtc l) := by
  by_contra h
  exact lt_irrefl _ (lt_toUtc (not_le.mp h))

/-! ## Readings a change moves over -/

/-- The change sets the clock back to the reading or before it, from after it. -/
def Repeats (c : WallClock) (i : ℕ) (l : Int) : Prop :=
  c.since (i + 1) + c.offset (i + 1) ≤ l ∧ l < c.since (i + 1) + c.offset i

/-- The change sets the clock from before the reading to after it. -/
def Skips (c : WallClock) (i : ℕ) (l : Int) : Prop :=
  c.since (i + 1) + c.offset i < l ∧ l < c.since (i + 1) + c.offset (i + 1)

/-- Some change repeats the reading, or skips it after the change's own instant. -/
def MovesOver (c : WallClock) (l : Int) : Prop :=
  ∃ i < c.changes.length, c.Repeats i l ∨ c.Skips i l

/-- The clock is past a reading whose instant is still ahead. -/
def Hides (c : WallClock) (t l : Int) : Prop :=
  l ≤ c.toLocal t ∧ t < c.toUtc l

theorem Repeats.hides {i : ℕ} {l : Int} (h : c.Repeats i l) (hi : i < c.changes.length) :
    c.Hides (c.since (i + 1) - 1) l := by
  have hat : c.changesAt (c.since (i + 1) - 1) = i := by
    refine changesAt_eq hi.le (fun hpos => ?_) (fun _ => by omega)
    have hlt := since_lt_since (c := c) hpos (Nat.lt_add_one i) hi
    omega
  have hle : i + 1 ≤ c.changesBefore l := le_changesBefore hi h.1
  have hsince := since_le_since (c := c) (Nat.add_one_pos i) hle changesBefore_le
  have hutc := since_le_toUtc (Nat.lt_of_lt_of_le (Nat.add_one_pos i) hle)
  have hupto := h.2
  constructor
  · rw [toLocal, hat]
    omega
  · omega

theorem Skips.hides {i : ℕ} {l : Int} (h : c.Skips i l) (hi : i < c.changes.length) :
    c.Hides (c.since (i + 1)) l := by
  obtain ⟨hfrom, hupto⟩ := h
  have hat : c.changesAt (c.since (i + 1)) = i + 1 :=
    changesAt_eq hi (fun _ => le_refl _) fun hlt =>
      since_lt_since (Nat.add_one_pos i) (Nat.lt_add_one _) hlt
  constructor
  · rw [toLocal, hat]
    omega
  · by_cases hle : c.changesBefore l ≤ i
    · -- the offset before the change is the last that shows the reading
      have heq : c.changesBefore l = i := by
        refine le_antisymm hle ?_
        by_cases hpos : 0 < i
        · have hlt := since_lt_since (c := c) hpos (Nat.lt_add_one i) hi
          exact le_changesBefore hi.le (by omega)
        · omega
      rw [toUtc, heq]
      omega
    · have hne : c.changesBefore l ≠ i + 1 := by
        intro heq
        have hshown := since_changesBefore_le (c := c) (l := l) (by omega)
        rw [heq] at hshown
        omega
      have hlt := since_lt_since (c := c) (Nat.add_one_pos i) (by omega : i + 1 < _)
        (changesBefore_le (l := l))
      exact lt_of_lt_of_le hlt (since_le_toUtc (by omega))

theorem le_since_add_of_not_movesOver {l : Int} (h : ¬ c.MovesOver l) {i : ℕ}
    (hi : i < c.changes.length) (hbefore : l < c.since (i + 1) + c.offset (i + 1)) :
    l ≤ c.since (i + 1) + c.offset i := by
  by_contra hlt
  exact h ⟨i, hi, Or.inr ⟨not_le.mp hlt, hbefore⟩⟩

theorem lt_since_add_of_not_movesOver {l : Int} (h : ¬ c.MovesOver l) {i : ℕ}
    (hi : i < c.changes.length) (hbefore : l < c.since (i + 1) + c.offset i) :
    l < c.since (i + 1) + c.offset (i + 1) := by
  by_contra hle
  exact h ⟨i, hi, Or.inl ⟨not_lt.mp hle, hbefore⟩⟩

/-- Not moved over and shown before a later change, a reading comes before all later ones. -/
theorem lt_later_of_not_movesOver {l t : Int} (h : ¬ c.MovesOver l)
    (hshown : l ≤ c.toLocal t) {j : ℕ} (hj : c.changesAt t < j)
    (hle : j ≤ c.changes.length) : l < c.since j + c.offset j := by
  induction j, hj using Nat.le_induction with
  | base =>
      apply lt_since_add_of_not_movesOver h hle
      have hlt : t < c.since (c.changesAt t + 1) := lt_since (Nat.lt_add_one _) hle
      unfold toLocal at hshown
      omega
  | succ j hj ih =>
      apply lt_since_add_of_not_movesOver h hle
      have hbefore := ih (by omega)
      have hlt := since_lt_since (c := c) (by omega : 0 < j) (Nat.lt_add_one j) hle
      omega

/-- The readings some change moves over are those the clock passes before their instant. -/
theorem movesOver_iff {l : Int} : c.MovesOver l ↔ ∃ t, c.Hides t l := by
  constructor
  · rintro ⟨i, hi, h | h⟩
    · exact ⟨_, h.hides hi⟩
    · exact ⟨_, h.hides hi⟩
  · rintro ⟨t, hshown, hahead⟩
    by_contra h
    rcases Nat.lt_trichotomy (c.changesAt t) (c.changesBefore l) with hlt | heq | hgt
    · have hbefore := lt_later_of_not_movesOver h hshown hlt changesBefore_le
      have hafter := since_changesBefore_le (c := c) (l := l) (by omega)
      omega
    · unfold toLocal at hshown
      unfold toUtc at hahead
      rw [heq] at hshown
      omega
    · -- the first change after the reading's offset comes no earlier than the reading
      have hnext : c.changesBefore l + 1 ≤ c.changes.length :=
        le_trans hgt changesAt_le
      have hle := le_since_add_of_not_movesOver h hnext (lt_since_add (Nat.lt_add_one _) hnext)
      have hsince := since_le_since (c := c) (Nat.add_one_pos _) hgt changesAt_le
      have hnow := since_changesAt_le (c := c) (t := t) (by omega)
      unfold toUtc at hahead
      omega

/-! ## What the clock gains -/

/-- No later offset is ahead of an earlier one by more than this. -/
def GainsAtMost (c : WallClock) (gain : Int) : Prop :=
  ∀ i j, i < j → j ≤ c.changes.length → c.offset j - c.offset i ≤ gain

/-- Readings further apart than the clock gains stand for instants in their order. -/
theorem toUtc_add_le {gain l m : Int} (hgain : c.GainsAtMost gain) (hpos : 0 ≤ gain)
    (hlm : l ≤ m) : c.toUtc l + (m - l) ≤ c.toUtc m + gain := by
  unfold toUtc
  rcases Nat.lt_or_eq_of_le (changesBefore_mono (c := c) hlm) with hlt | heq
  · have hdiff := hgain _ _ hlt changesBefore_le
    omega
  · rw [heq]
    omega

theorem toUtc_le_of_not_movesOver {l m : Int} (h : ¬ c.MovesOver l) (hlm : l ≤ m) :
    c.toUtc l ≤ c.toUtc m := by
  by_contra hlt
  have hhidden : c.Hides (c.toUtc m) l :=
    ⟨le_trans hlm (le_toLocal_toUtc m), not_le.mp hlt⟩
  exact h (movesOver_iff.mpr ⟨_, hhidden⟩)

end WallClock
