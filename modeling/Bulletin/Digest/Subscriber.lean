import Mathlib.Algebra.GroupWithZero.Nat
import Mathlib.Data.List.Sort
import Std.Data.ExtTreeMap
import Bulletin.Common.Types

/-! # Subscribers and their schedule

A subscriber's digest falls due at a local time of day, daily or on one weekday. The
boundary is computed on the local wall clock and anchored to UTC, and it only moves
when a digest is delivered or the preferences change.
-/

namespace Bulletin

/-- A delivery cadence; weekdays count from Sunday. -/
inductive Recurrence where
  | daily
  | weekly (weekday : Fin 7)
deriving DecidableEq, Repr

/-- A time zone as the database converts with it. Local times count microseconds too. -/
structure Zone where
  toLocal : DateTime → Int
  toUtc : Int → DateTime
  /-- A later wall clock time is resolved to a later instant. -/
  after : ∀ ref t, toLocal ref < t → ref < toUtc t
  /-- Offsets are whole seconds. -/
  whole : ∀ t, (toUtc t - t) % 1000000 = 0

def Zone.utc : Zone where
  toLocal := fun t => t
  toUtc := fun t => t
  after := fun _ _ h => h
  whole := by simp

def microsPerDay : Int := 86400000000

/-- The weekday of a local time; the epoch was a Thursday. -/
def dayOfWeek (t : Int) : Int := (t / microsPerDay + 4) % 7

/-- The first occurrence of the local time `atTime` after `ref`, on the right weekday. -/
def nextRun (ref : DateTime) (tz : Zone) (atTime : Int) (recurrence : Recurrence) : DateTime :=
  let localRef := tz.toLocal ref
  let today := localRef / microsPerDay
  match recurrence with
  | .daily =>
      let cand := today * microsPerDay + atTime
      tz.toUtc (if cand ≤ localRef then cand + microsPerDay else cand)
  | .weekly weekday =>
      let shift := Int.tmod (Int.tmod ((weekday.val : Int) - dayOfWeek localRef) 7 + 7) 7
      let cand := (today + shift) * microsPerDay + atTime
      tz.toUtc (if cand ≤ localRef then cand + 7 * microsPerDay else cand)

instance minutesOfDay : NeZero 1440 := ⟨by decide⟩

structure SubscriberRow where
  recurrence : Recurrence
  maxItems : Int
  timezone : Zone
  /-- Minutes after midnight, as hours and minutes parse. -/
  digestTime : Fin 1440
  nextRunAt : DateTime
  lastRunAt : Option DateTime

abbrev SubscriberTable := Std.ExtTreeMap Uuid SubscriberRow compare

def timeOfDay (digestTime : Fin 1440) : Int := digestTime.val * 60000000

/-- A new subscriber's digest falls due at the next occurrence. -/
def newSubscriber (now : DateTime) (recurrence : Recurrence) (timezone : Zone)
    (digestTime : Fin 1440) (maxItems : Int) : SubscriberRow where
  recurrence := recurrence
  maxItems := maxItems
  timezone := timezone
  digestTime := digestTime
  nextRunAt := nextRun now timezone (timeOfDay digestTime) recurrence
  lastRunAt := none

/-- A new recurrence moves the boundary to its next occurrence, past what was delivered. -/
def updatePreferences (now : DateTime) (recurrence : Recurrence) (timezone : Zone)
    (digestTime : Fin 1440) (row : SubscriberRow) : SubscriberRow :=
  { row with
    recurrence := recurrence
    timezone := timezone
    digestTime := digestTime
    nextRunAt := nextRun (max now (row.lastRunAt.getD now)) timezone
      (timeOfDay digestTime) recurrence }

/-- After a delivery the boundary moves past now, over any it missed. -/
def advanceAfterDelivery (now deliveredThrough : DateTime) (row : SubscriberRow) : SubscriberRow :=
  { row with
    lastRunAt := some deliveredThrough
    nextRunAt := nextRun now row.timezone (timeOfDay row.digestTime) row.recurrence }

/-- The subscribers whose boundary has passed, the longest due first. -/
def dueSubscribers (now : DateTime) (subscriber : SubscriberTable) : List (Uuid × DateTime) :=
  ((subscriber.toList.map fun entry => (entry.1, entry.2.nextRunAt)).filter fun entry =>
    entry.2 ≤ now).insertionSort fun x y => x.2 ≤ y.2

def Recurrence.displayWindow : Recurrence → Int
  | daily => microsPerDay + microsPerDay / 2
  | weekly _ => 7 * microsPerDay + microsPerDay

/-- What is older than this is not shown: back to the last delivery, and at least one window. -/
def Recurrence.displayFloor (recurrence : Recurrence) (now : DateTime) (lastRun : Option DateTime) :
    DateTime :=
  let cadenceFloor := now - recurrence.displayWindow
  (lastRun.map fun t => min t cadenceFloor).getD cadenceFloor

theorem displayFloor_le_iff {recurrence : Recurrence} {now t : DateTime}
    {lastRun : Option DateTime} : recurrence.displayFloor now lastRun ≤ t ↔
      now - recurrence.displayWindow ≤ t ∨ ∃ run, lastRun = some run ∧ run ≤ t := by
  unfold Recurrence.displayFloor
  cases lastRun with
  | none => simp
  | some run => simp [or_comm]

/-! ## The boundary moves forward -/

section NextRun

variable {ref now : DateTime} {tz : Zone} {atTime : Int} {recurrence : Recurrence}

theorem mod_shift_nonneg (d : Int) : 0 ≤ Int.tmod (Int.tmod d 7 + 7) 7 := by
  have hlower : -7 < Int.tmod d 7 := Int.lt_tmod_of_pos d (by decide)
  exact Int.tmod_nonneg 7 (by omega)

theorem lt_nextRun (hat : 0 ≤ atTime) : ref < nextRun ref tz atTime recurrence := by
  have hday : (0 : Int) < microsPerDay := by decide
  have htoday := Int.lt_ediv_add_one_mul_self (tz.toLocal ref) hday
  unfold nextRun
  cases recurrence with
  | daily =>
      apply tz.after
      by_cases h : tz.toLocal ref / microsPerDay * microsPerDay + atTime ≤ tz.toLocal ref
      · rw [if_pos h]
        rw [Int.add_mul] at htoday
        omega
      · rw [if_neg h]
        omega
  | weekly weekday =>
      apply tz.after
      have hshift := mod_shift_nonneg ((weekday.val : Int) - dayOfWeek (tz.toLocal ref))
      generalize Int.tmod (Int.tmod ((weekday.val : Int) - dayOfWeek (tz.toLocal ref)) 7 + 7) 7 = shift
        at hshift ⊢
      have hpos : 0 ≤ shift * microsPerDay := Int.mul_nonneg hshift (Int.le_of_lt hday)
      by_cases h : (tz.toLocal ref / microsPerDay + shift) * microsPerDay + atTime ≤ tz.toLocal ref
      · rw [if_pos h]
        rw [Int.add_mul] at htoday ⊢
        omega
      · rw [if_neg h]
        omega

theorem timeOfDay_nonneg (digestTime : Fin 1440) : 0 ≤ timeOfDay digestTime := by
  unfold timeOfDay
  omega

theorem nextRun_whole (hat : atTime % 1000000 = 0) :
    nextRun ref tz atTime recurrence % 1000000 = 0 := by
  have hwhole : ∀ t : Int, t % 1000000 = 0 → tz.toUtc t % 1000000 = 0 := by
    intro t ht
    have hsub : ∀ x y : Int, (x - y) % 1000000 = 0 → y % 1000000 = 0 → x % 1000000 = 0 := by omega
    exact hsub _ _ (tz.whole t) ht
  unfold nextRun microsPerDay
  cases recurrence with
  | daily =>
      apply hwhole
      split <;> omega
  | weekly weekday =>
      apply hwhole
      generalize tz.toLocal ref / 86400000000 + _ = day
      split <;> omega

theorem timeOfDay_whole (digestTime : Fin 1440) : timeOfDay digestTime % 1000000 = 0 := by
  unfold timeOfDay
  omega

theorem advance_lt (deliveredThrough : DateTime) (row : SubscriberRow) :
    now < (advanceAfterDelivery now deliveredThrough row).nextRunAt :=
  lt_nextRun (timeOfDay_nonneg _)

theorem update_lt (digestTime : Fin 1440) (row : SubscriberRow) :
    now < (updatePreferences now recurrence tz digestTime row).nextRunAt :=
  lt_of_le_of_lt (le_max_left _ _) (lt_nextRun (timeOfDay_nonneg _))

theorem newSubscriber_lt (digestTime : Fin 1440) (maxItems : Int) :
    now < (newSubscriber now recurrence tz digestTime maxItems).nextRunAt :=
  lt_nextRun (timeOfDay_nonneg _)

end NextRun

theorem mem_dueSubscribers {now w : DateTime} {subscriber : SubscriberTable} {sub : Uuid} :
    (sub, w) ∈ dueSubscribers now subscriber ↔
      w ≤ now ∧ ∃ row, subscriber[sub]? = some row ∧ row.nextRunAt = w := by
  unfold dueSubscribers
  rw [List.mem_insertionSort, List.mem_filter, List.mem_map, decide_eq_true_eq, and_comm]
  apply and_congr Iff.rfl
  constructor
  · intro h
    obtain ⟨entry, hentry, heq⟩ := h
    obtain ⟨rfl, rfl⟩ := Prod.mk.inj heq
    exact ⟨entry.2, Std.ExtTreeMap.mem_toList_iff_getElem?_eq_some.mp hentry, rfl⟩
  · intro h
    obtain ⟨row, hrow, rfl⟩ := h
    exact ⟨(sub, row), Std.ExtTreeMap.mem_toList_iff_getElem?_eq_some.mpr hrow, rfl⟩

end Bulletin
