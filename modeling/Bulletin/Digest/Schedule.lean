import Bulletin.Core.WallClock
import Bulletin.Digest.Subscriber
import Mathlib

/-! # The slots of a schedule

A schedule has one slot on each eligible date, the instant its time of day stands for there.
The next boundary is looked for on the wall clock. It is the earliest slot ahead unless the
clock has passed a date's time before its slot: then that slot is skipped.
-/

namespace Bulletin

/-- A time zone as its offset from UTC. -/
structure UtcOffset extends WallClock where
  /-- Offsets are whole seconds. -/
  whole : ∀ i, toWallClock.offset i % 1000000 = 0

def UtcOffset.zone (z : UtcOffset) : Zone where
  toLocal := z.toLocal
  toUtc := z.toUtc
  after := fun _ _ h => WallClock.lt_toUtc h
  whole := by
    intro t
    have h := z.whole (z.changesBefore t)
    change (t - z.offset (z.changesBefore t) - t) % 1000000 = 0
    omega

/-- A local time of day; midnight is its start and its end. -/
abbrev TimeOfDay := Set.Icc (0 : Int) microsPerDay

def Recurrence.Eligible : Recurrence → Int → Prop
  | daily, _ => True
  | weekly weekday, date => dayOfWeek (date * microsPerDay) = weekday.val

def Recurrence.days : Recurrence → Int
  | daily => 1
  | weekly _ => 7

/-- The local time of a date's slot. -/
def localSlot (atTime date : Int) : Int := date * microsPerDay + atTime

def Zone.slot (tz : Zone) (atTime date : Int) : DateTime := tz.toUtc (localSlot atTime date)

def slotsAfter (tz : Zone) (atTime : Int) (recurrence : Recurrence) (ref : DateTime) :
    Set DateTime :=
  { t | ref < t ∧ ∃ date, recurrence.Eligible date ∧ tz.slot atTime date = t }

/-- The next slot is the earliest one ahead, later the later it is asked for, and no boundary
that changed preferences set is behind. -/
structure KeepsSchedule (tz : Zone) (atTime : Int) (recurrence : Recurrence) : Prop where
  next : ∀ ref, IsLeast (slotsAfter tz atTime recurrence ref) (nextRun ref tz atTime recurrence)
  monotone : Monotone fun ref => nextRun ref tz atTime recurrence
  kept : ∀ ref date, recurrence.Eligible date → ref < tz.slot atTime date →
    nextRun ref tz atTime recurrence ≤ tz.slot atTime date
  updated : ∀ now digestTime row, timeOfDay digestTime = atTime →
    now < (updatePreferences now recurrence tz digestTime row).nextRunAt ∧
      ∀ last, row.lastRunAt = some last →
        last < (updatePreferences now recurrence tz digestTime row).nextRunAt

/-! ## The next date on the wall clock -/

section NextDate

variable {tz : Zone} {atTime : Int} {recurrence : Recurrence} {ref : DateTime} {date : Int}

theorem tmod_shift (d : Int) : Int.tmod (Int.tmod d 7 + 7) 7 = d % 7 := by
  have hlower : -7 < Int.tmod d 7 := Int.lt_tmod_of_pos d (by decide)
  rw [Int.tmod_eq_emod_of_nonneg (by omega), Int.tmod_eq_emod]
  split <;> omega

theorem dayOfWeek_date (d : Int) : dayOfWeek (d * microsPerDay) = (d + 4) % 7 := by
  unfold dayOfWeek
  rw [Int.mul_ediv_cancel d (by decide)]

theorem Recurrence.Eligible.next (h : recurrence.Eligible date) :
    recurrence.Eligible (date + recurrence.days) := by
  cases recurrence with
  | daily => trivial
  | weekly weekday =>
      simp only [Recurrence.Eligible, dayOfWeek_date, Recurrence.days] at h ⊢
      omega

theorem Recurrence.Eligible.add_days_le {later : Int} (h : recurrence.Eligible date)
    (hlater : recurrence.Eligible later) (hlt : date < later) : date + recurrence.days ≤ later := by
  cases recurrence with
  | daily => exact hlt
  | weekly weekday =>
      simp only [Recurrence.Eligible, dayOfWeek_date, Recurrence.days] at h hlater ⊢
      omega

theorem localSlot_lt_iff {d e : Int} : localSlot atTime d < localSlot atTime e ↔ d < e := by
  unfold localSlot microsPerDay
  omega

theorem localSlot_add (d e : Int) :
    localSlot atTime (d + e) = localSlot atTime d + e * microsPerDay := by
  unfold localSlot
  rw [Int.add_mul]
  omega

/-- The first eligible date whose time the wall clock has not reached. -/
structure NextOnClock (tz : Zone) (atTime : Int) (recurrence : Recurrence) (ref : DateTime)
    (date : Int) : Prop where
  eligible : recurrence.Eligible date
  ahead : tz.toLocal ref < localSlot atTime date
  first : ∀ e, recurrence.Eligible e → tz.toLocal ref < localSlot atTime e → date ≤ e

theorem nextRun_daily (hat : 0 ≤ atTime) (hday : atTime ≤ microsPerDay) :
    ∃ date, NextOnClock tz atTime .daily ref date ∧
      nextRun ref tz atTime .daily = tz.slot atTime date := by
  have hfloor := Int.ediv_mul_le (tz.toLocal ref) (by decide : microsPerDay ≠ 0)
  have hnext := Int.lt_ediv_add_one_mul_self (tz.toLocal ref) (by decide : 0 < microsPerDay)
  simp only [nextRun]
  generalize tz.toLocal ref / microsPerDay = today at hfloor hnext ⊢
  by_cases hle : today * microsPerDay + atTime ≤ tz.toLocal ref
  · rw [if_pos hle]
    refine ⟨today + 1, ⟨trivial, ?_, fun e _ he => ?_⟩, ?_⟩
    · rw [localSlot]
      omega
    · unfold localSlot microsPerDay at *
      omega
    · rw [Zone.slot, localSlot_add, one_mul, localSlot]
  · rw [if_neg hle]
    refine ⟨today, ⟨trivial, not_le.mp hle, fun e _ he => ?_⟩, rfl⟩
    unfold localSlot microsPerDay at *
    omega

theorem nextRun_weekly {weekday : Fin 7} (hat : 0 ≤ atTime) (hday : atTime ≤ microsPerDay) :
    ∃ date, NextOnClock tz atTime (.weekly weekday) ref date ∧
      nextRun ref tz atTime (.weekly weekday) = tz.slot atTime date := by
  have hfloor := Int.ediv_mul_le (tz.toLocal ref) (by decide : microsPerDay ≠ 0)
  have hnext := Int.lt_ediv_add_one_mul_self (tz.toLocal ref) (by decide : 0 < microsPerDay)
  simp only [nextRun, tmod_shift, dayOfWeek]
  generalize tz.toLocal ref / microsPerDay = today at hfloor hnext ⊢
  -- the first date from today on that falls on the weekday, and the one a week before it
  have hshift : ((today + ((weekday.val : Int) - (today + 4) % 7) % 7) + 4) % 7 = weekday.val := by
    omega
  have hnonneg : 0 ≤ ((weekday.val : Int) - (today + 4) % 7) % 7 := by omega
  have hlt : ((weekday.val : Int) - (today + 4) % 7) % 7 < 7 := by omega
  generalize ((weekday.val : Int) - (today + 4) % 7) % 7 = shift at hshift hnonneg hlt ⊢
  have heligible : Recurrence.Eligible (.weekly weekday) (today + shift) :=
    (dayOfWeek_date _).trans hshift
  by_cases hle : (today + shift) * microsPerDay + atTime ≤ tz.toLocal ref
  · rw [if_pos hle]
    refine ⟨today + shift + 7, ⟨heligible.next, ?_, fun e he hahead => ?_⟩, ?_⟩
    · unfold localSlot microsPerDay at *
      omega
    · have hgt : today + shift < e := localSlot_lt_iff.mp (lt_of_le_of_lt hle hahead)
      exact heligible.add_days_le he hgt
    · rw [Zone.slot, localSlot_add, localSlot]
  · rw [if_neg hle]
    refine ⟨today + shift, ⟨heligible, not_le.mp hle, fun e he hahead => ?_⟩, rfl⟩
    by_contra hgt
    have hweek := he.add_days_le heligible (not_le.mp hgt)
    simp only [Recurrence.days] at hweek
    unfold localSlot microsPerDay at *
    omega

theorem nextRun_eq (hat : 0 ≤ atTime) (hday : atTime ≤ microsPerDay) :
    ∃ date, NextOnClock tz atTime recurrence ref date ∧
      nextRun ref tz atTime recurrence = tz.slot atTime date := by
  cases recurrence with
  | daily => exact nextRun_daily hat hday
  | weekly weekday => exact nextRun_weekly hat hday

end NextDate

/-! ## When the next boundary is the next slot -/

section Next

variable {tz : Zone} {atTime : Int} {recurrence : Recurrence} {ref : DateTime} {date : Int}

/-- Of the dates ahead on the wall clock the first has the earliest slot, and a date that the
clock has passed before its slot is no earlier than one of them. -/
structure InClockOrder (tz : Zone) (atTime : Int) (recurrence : Recurrence) (ref : DateTime) :
    Prop where
  ahead : ∀ d e, NextOnClock tz atTime recurrence ref d → recurrence.Eligible e → d ≤ e →
    tz.slot atTime d ≤ tz.slot atTime e
  passed : ∀ e, recurrence.Eligible e → localSlot atTime e ≤ tz.toLocal ref →
    ref < tz.slot atTime e → ∃ d, recurrence.Eligible d ∧ tz.toLocal ref < localSlot atTime d ∧
      tz.slot atTime d ≤ tz.slot atTime e

theorem NextOnClock.mem (h : NextOnClock tz atTime recurrence ref date) :
    tz.slot atTime date ∈ slotsAfter tz atTime recurrence ref :=
  ⟨tz.after _ _ h.ahead, date, h.eligible, rfl⟩

theorem NextOnClock.isLeast_iff (h : NextOnClock tz atTime recurrence ref date) :
    IsLeast (slotsAfter tz atTime recurrence ref) (tz.slot atTime date) ↔
      InClockOrder tz atTime recurrence ref := by
  constructor
  · intro hleast
    constructor
    · intro d e hd he hde
      have hsame : d = date :=
        le_antisymm (hd.first _ h.eligible h.ahead) (h.first _ hd.eligible hd.ahead)
      have hahead : tz.toLocal ref < localSlot atTime e := by
        rcases Int.lt_or_eq_of_le hde with hlt | rfl
        · exact lt_trans hd.ahead (localSlot_lt_iff.mpr hlt)
        · exact hd.ahead
      rw [hsame]
      exact hleast.2 ⟨tz.after _ _ hahead, e, he, rfl⟩
    · intro e he _ hlt
      exact ⟨date, h.eligible, h.ahead, hleast.2 ⟨hlt, e, he, rfl⟩⟩
  · intro horder
    refine ⟨h.mem, ?_⟩
    rintro _ ⟨hlt, e, he, rfl⟩
    by_cases hpassed : localSlot atTime e ≤ tz.toLocal ref
    · obtain ⟨d, hd, hahead, hle⟩ := horder.passed e he hpassed hlt
      exact le_trans (horder.ahead _ _ h hd (h.first d hd hahead)) hle
    · exact horder.ahead _ _ h he (h.first e he (not_le.mp hpassed))

theorem nextRun_isLeast_iff (hat : 0 ≤ atTime) (hday : atTime ≤ microsPerDay) :
    IsLeast (slotsAfter tz atTime recurrence ref) (nextRun ref tz atTime recurrence) ↔
      InClockOrder tz atTime recurrence ref := by
  obtain ⟨date, hdate, heq⟩ : ∃ date, NextOnClock tz atTime recurrence ref date ∧
      nextRun ref tz atTime recurrence = tz.slot atTime date := nextRun_eq hat hday
  rw [heq]
  exact hdate.isLeast_iff

theorem update_last_lt {now last : DateTime} (digestTime : Fin 1440) (row : SubscriberRow)
    (hlast : row.lastRunAt = some last) :
    last < (updatePreferences now recurrence tz digestTime row).nextRunAt := by
  refine lt_of_le_of_lt ?_ (lt_nextRun (timeOfDay_nonneg _))
  rw [hlast]
  exact le_max_right _ _

theorem keepsSchedule_of_next
    (h : ∀ ref, IsLeast (slotsAfter tz atTime recurrence ref) (nextRun ref tz atTime recurrence)) :
    KeepsSchedule tz atTime recurrence where
  next := h
  monotone := by
    intro s t hst
    obtain ⟨hlt, hslot⟩ := (h t).1
    exact (h s).2 ⟨lt_of_le_of_lt hst hlt, hslot⟩
  kept := fun ref e he hlt => (h ref).2 ⟨hlt, e, he, rfl⟩
  updated := fun now digestTime row _ =>
    ⟨update_lt digestTime row, fun _ hlast => update_last_lt digestTime row hlast⟩

theorem keepsSchedule_iff (hat : 0 ≤ atTime) (hday : atTime ≤ microsPerDay) :
    KeepsSchedule tz atTime recurrence ↔ ∀ ref, InClockOrder tz atTime recurrence ref := by
  constructor
  · intro h ref
    exact (nextRun_isLeast_iff hat hday).mp (h.next ref)
  · intro h
    exact keepsSchedule_of_next fun ref => (nextRun_isLeast_iff hat hday).mpr (h ref)

end Next

/-! ## Changes of the clock -/

section Changes

variable {z : UtcOffset} {atTime : Int} {recurrence : Recurrence} {ref : DateTime}

theorem inClockOrder_of_not_movesOver
    (h : ∀ e, recurrence.Eligible e → ¬ z.MovesOver (localSlot atTime e)) :
    InClockOrder z.zone atTime recurrence ref where
  ahead := by
    intro d e hd _ hde
    have hle : localSlot atTime d ≤ localSlot atTime e :=
      not_lt.mp fun hlt => absurd (localSlot_lt_iff.mp hlt) (not_lt.mpr hde)
    exact WallClock.toUtc_le_of_not_movesOver (h d hd.eligible) hle
  passed := by
    intro e he hpassed hlt
    exact absurd (WallClock.movesOver_iff.mpr ⟨ref, hpassed, hlt⟩) (h e he)

def Recurrence.period (recurrence : Recurrence) : Int := recurrence.days * microsPerDay

theorem Recurrence.days_pos : 0 < recurrence.days := by
  cases recurrence with
  | daily => decide
  | weekly weekday => exact (by decide : (0 : Int) < 7)

theorem Recurrence.period_pos : 0 < recurrence.period :=
  Int.mul_pos recurrence.days_pos (by decide)

theorem slot_add_le (hgain : z.GainsAtMost recurrence.period) (atTime d : Int) {n : Int}
    (hn : 0 ≤ n) :
    z.toUtc (localSlot atTime d) + n * microsPerDay ≤
      z.toUtc (localSlot atTime (d + n)) + recurrence.period := by
  have hle := WallClock.toUtc_add_le hgain recurrence.period_pos.le
    (l := localSlot atTime d) (m := localSlot atTime (d + n))
    (by unfold localSlot microsPerDay; omega)
  have hdiff : localSlot atTime (d + n) - localSlot atTime d = n * microsPerDay := by
    rw [localSlot_add]
    omega
  rw [hdiff] at hle
  exact hle

theorem slot_le_slot (hgain : z.GainsAtMost recurrence.period) (atTime : Int) {d e : Int}
    (hd : recurrence.Eligible d) (he : recurrence.Eligible e) (hde : d ≤ e) :
    z.toUtc (localSlot atTime d) ≤ z.toUtc (localSlot atTime e) := by
  rcases Int.lt_or_eq_of_le hde with hlt | rfl
  · have hdays := hd.add_days_le he hlt
    have hle := slot_add_le hgain atTime d (Int.sub_nonneg_of_le hde)
    have hperiod : recurrence.period ≤ (e - d) * microsPerDay :=
      Int.mul_le_mul_of_nonneg_right (by omega) (by decide)
    rw [Int.add_comm d, Int.sub_add_cancel] at hle
    omega
  · exact le_refl _

theorem slot_lt_slot_two (hgain : z.GainsAtMost recurrence.period) (atTime d : Int) :
    z.toUtc (localSlot atTime d) <
      z.toUtc (localSlot atTime (d + recurrence.days + recurrence.days)) := by
  have hpos := recurrence.period_pos
  have hdays := recurrence.days_pos
  have hle := slot_add_le hgain atTime d (Int.add_nonneg hdays.le hdays.le)
  rw [Int.add_mul, ← Recurrence.period] at hle
  rw [Int.add_assoc]
  omega

/-- If the clock gains at most a period, order is kept where every date it has passed before
its slot shares the slot of the next date. -/
theorem inClockOrder_iff (hgain : z.GainsAtMost recurrence.period) :
    InClockOrder z.zone atTime recurrence ref ↔
      ∀ e, recurrence.Eligible e → z.Hides ref (localSlot atTime e) →
        z.zone.slot atTime (e + recurrence.days) = z.zone.slot atTime e := by
  constructor
  · intro h e he hhides
    obtain ⟨d, hd, hahead, hle⟩ := h.passed e he hhides.1 hhides.2
    have hed : e < d := localSlot_lt_iff.mp (lt_of_le_of_lt hhides.1 hahead)
    have hnext := slot_le_slot hgain atTime he.next hd (he.add_days_le hd hed)
    have hprev := slot_le_slot hgain atTime he he.next
      (Int.le_add_of_nonneg_right recurrence.days_pos.le)
    exact le_antisymm (le_trans hnext hle) hprev
  · intro h
    constructor
    · intro d e hd he hde
      exact slot_le_slot hgain atTime hd.eligible he hde
    · intro e he hpassed hlt
      have hshared := h e he ⟨hpassed, hlt⟩
      refine ⟨e + recurrence.days, he.next, ?_, hshared.le⟩
      -- were the next date passed too, the one after it would share the slot
      by_contra hle
      have hhides : z.Hides ref (localSlot atTime (e + recurrence.days)) :=
        ⟨not_lt.mp hle, lt_of_lt_of_eq hlt hshared.symm⟩
      have hagain := h _ he.next hhides
      exact absurd (hagain.trans hshared).symm (slot_lt_slot_two hgain atTime e).ne

end Changes

/-- The next boundary is the next slot where the slots ahead are in the order of the wall
clock. That is so if no change of the clock moves over a slot; and if the clock gains at most
a period only then, save for dates that share the slot of the next one. -/
theorem nextRun_keepsSchedule_iff (z : UtcOffset) (atTime : TimeOfDay) (recurrence : Recurrence) :
    (∀ ref, IsLeast (slotsAfter z.zone atTime recurrence ref)
        (nextRun ref z.zone atTime recurrence) ↔ InClockOrder z.zone atTime recurrence ref) ∧
      (KeepsSchedule z.zone atTime recurrence ↔
        ∀ ref, InClockOrder z.zone atTime recurrence ref) ∧
      ((∀ e, recurrence.Eligible e → ¬ z.MovesOver (localSlot atTime e)) →
        KeepsSchedule z.zone atTime recurrence) ∧
      (z.GainsAtMost recurrence.period →
        (KeepsSchedule z.zone atTime recurrence ↔
          ∀ e, recurrence.Eligible e → z.MovesOver (localSlot atTime e) →
            z.zone.slot atTime (e + recurrence.days) = z.zone.slot atTime e) ∧
        ∀ ref, IsLeast (slotsAfter z.zone atTime recurrence ref)
            (nextRun ref z.zone atTime recurrence) ↔
          ∀ e, recurrence.Eligible e → z.Hides ref (localSlot atTime e) →
            z.zone.slot atTime (e + recurrence.days) = z.zone.slot atTime e) ∧
      ∀ now digestTime row,
        now < (updatePreferences now recurrence z.zone digestTime row).nextRunAt ∧
          ∀ last, row.lastRunAt = some last →
            last < (updatePreferences now recurrence z.zone digestTime row).nextRunAt := by
  obtain ⟨hat, hday⟩ := atTime.property
  refine ⟨fun ref => nextRun_isLeast_iff hat hday, keepsSchedule_iff hat hday, ?_, ?_, ?_⟩
  · intro h
    exact (keepsSchedule_iff hat hday).mpr fun _ => inClockOrder_of_not_movesOver h
  · intro hgain
    refine ⟨?_, fun ref => (nextRun_isLeast_iff hat hday).trans (inClockOrder_iff hgain)⟩
    rw [keepsSchedule_iff hat hday]
    constructor
    · intro h e he hover
      obtain ⟨ref, hhides⟩ := WallClock.movesOver_iff.mp hover
      exact (inClockOrder_iff hgain).mp (h ref) e he hhides
    · intro h ref
      exact (inClockOrder_iff hgain).mpr fun e he hhides =>
        h e he (WallClock.movesOver_iff.mpr ⟨ref, hhides⟩)
  · intro now digestTime row
    exact ⟨update_lt digestTime row, fun _ hlast => update_last_lt digestTime row hlast⟩

def backAnHour : UtcOffset where
  first := 7200000000
  changes := [⟨3600000000, 3600000000⟩]
  sorted := List.pairwise_singleton _ _
  whole := by
    intro i
    match i with
    | 0 => decide
    | 1 => decide
    | _ + 2 => rfl

/-- Seven in the morning is never repeated or skipped there. -/
theorem nextRun_keepsSchedule_iff_atSeven :
    KeepsSchedule backAnHour.zone 25200000000 .daily := by
  refine (nextRun_keepsSchedule_iff backAnHour ⟨25200000000, by decide⟩ .daily).2.2.1 ?_
  rintro e - ⟨i, hi, h⟩
  obtain rfl : i = 0 := Nat.lt_one_iff.mp hi
  simp only [WallClock.Repeats, WallClock.Skips, WallClock.since, WallClock.offset, backAnHour,
    List.map_cons, List.getD_cons_zero, localSlot, microsPerDay] at h
  omega

/-- Asked between the two half past two, the schedule skips the second, still ahead; asked
later, between it and the change, it does not. -/
theorem nextRun_skips_repeated :
    backAnHour.zone.slot 9000000000 0 = 5400000000 ∧
      nextRun 2700000000 backAnHour.zone 9000000000 .daily = 91800000000 ∧
      nextRun 3600000000 backAnHour.zone 9000000000 .daily = 5400000000 ∧
      ¬ KeepsSchedule backAnHour.zone 9000000000 .daily := by
  have hslot : backAnHour.zone.slot 9000000000 0 = 5400000000 := by decide
  have hskip : nextRun 2700000000 backAnHour.zone 9000000000 .daily = 91800000000 := by decide
  have hlater : nextRun 3600000000 backAnHour.zone 9000000000 .daily = 5400000000 := by decide
  refine ⟨hslot, hskip, hlater, fun h => ?_⟩
  have hkept := h.kept 2700000000 0 trivial (by rw [hslot]; decide)
  rw [hslot, hskip] at hkept
  exact absurd hkept (by decide)

end Bulletin
