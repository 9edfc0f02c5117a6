import Bulletin.System.Due
import Bulletin.System.History

/-! # The delivered-through watermark

The items of a digest are those of the attempt that froze them, and the watermark is the
clock of the attempt that delivered them.
-/

namespace Bulletin

variable {F : Type} [SelectScore F] {sha256 : List UInt8 → List UInt8} {s : Flow F}
  {ts : List (Run.Transition (Flow F) (FlowAction F))}

omit [SelectScore F] in
/-- Every delivery leaves a watermark, and a display floor after it, that is not later than the
read the items of its digest were selected from. -/
def WatermarkWithinRead (ts : List (Run.Transition (Flow F) (FlowAction F))) : Prop :=
  ∀ t ∈ ts, ∀ (a : Nat) (x : Attempt F) (id : Uuid) (instant : DateTime), Delivers t a x id →
    ItemsReadAt ts id instant → ∃ row watermark, t.after.subscriber[x.subscriber]? = some row ∧
      row.lastRunAt = some watermark ∧ watermark ≤ instant ∧
      ∀ now, row.recurrence.displayFloor now row.lastRunAt ≤ instant

/-- Every delivery is made by an attempt that began no later than that read. -/
def DeliveredInTime (ts : List (Run.Transition (Flow F) (FlowAction F))) : Prop :=
  ∀ t ∈ ts, ∀ (a : Nat) (x : Attempt F) (id : Uuid) (began instant : DateTime), Delivers t a x id →
    BeganAt ts a began → ItemsReadAt ts id instant → began ≤ instant

theorem displayFloor_le_watermark (recurrence : Recurrence) (now watermark : DateTime) :
    recurrence.displayFloor now (some watermark) ≤ watermark := min_le_left _ _

theorem FlowRuns.delivered_through (h : FlowRuns sha256 ts s)
    {t : Run.Transition (Flow F) (FlowAction F)}
    (ht : t ∈ ts) {a : Nat} {x : Attempt F} {id : Uuid} (hd : Delivers t a x id) :
    ∃ row, t.after.subscriber[x.subscriber]? = some row ∧ row.lastRunAt = some x.snapshotAt := by
  obtain ⟨pre, _, _, hpre⟩ := h.before_of_mem ht
  obtain ⟨row, items, hphase, hsubscriber, _⟩ := (h.step_of_mem ht).delivered hd
  have hplaced := (FlowRuns.windowsPlaced hpre).attempt hd.attempt
  obtain ⟨old, hold, _⟩ := hplaced.window row.nextRunAt (by rw [hphase]; rfl)
  refine ⟨advanceAfterDelivery t.before.db.now x.snapshotAt old, ?_, rfl⟩
  rw [hsubscriber, Std.ExtTreeMap.getElem?_modify, if_pos (by simp), hold]
  rfl

theorem FlowRuns.itemsReadAt_exists (h : FlowRuns sha256 ts s)
    {t : Run.Transition (Flow F) (FlowAction F)}
    (ht : t ∈ ts) {a : Nat} {x : Attempt F} {id : Uuid} (hd : Delivers t a x id) :
    ∃ instant, ItemsReadAt ts id instant := by
  obtain ⟨pre, post, rfl, hpre⟩ := h.before_of_mem ht
  obtain ⟨d, hrow, _⟩ := ((FlowRuns.windowsPlaced hpre).attempt hd.attempt).digest id hd.digest
  obtain ⟨instant, hinstant⟩ := (FlowRuns.recalled hpre).frozen hrow
  exact ⟨instant, hinstant.mono⟩

theorem FlowRuns.began (h : FlowRuns sha256 ts s) {t : Run.Transition (Flow F) (FlowAction F)}
    (ht : t ∈ ts) {a : Nat} {x : Attempt F} (hx : t.before.attempt[a]? = some x) :
    BeganAt ts a x.snapshotAt := by
  obtain ⟨pre, post, rfl, hpre⟩ := h.before_of_mem ht
  exact ((FlowRuns.recalled hpre).began hx).mono

theorem FlowRuns.inTime_of_frozenBy (h : FlowRuns sha256 ts s) {a : Nat} {id : Uuid}
    {began instant : DateTime}
    (hfrozen : FrozenBy ts id a) (hbegan : BeganAt ts a began) (hread : ItemsReadAt ts id instant) :
    began ≤ instant := by
  obtain ⟨b, ⟨u, hu, hbu, hmu⟩, hinstant⟩ := hread
  obtain ⟨t, ht, hat, hmt⟩ := hfrozen
  obtain rfl := FlowRuns.frozen_once h ht hu hat hbu hmt hmu
  have hab : a = b := (FlowAction.freeze.inj (hat.symm.trans hbu)).1
  subst hab
  exact FlowRuns.began_le_read h hbegan hinstant

/-- The items of every delivered digest were selected from one read, and the watermarks of a run
stay within these reads exactly when every delivering attempt began by then. -/
theorem watermark_within_read_iff (h : FlowRuns sha256 ts s) :
    (∀ t ∈ ts, ∀ (a : Nat) (x : Attempt F) (id : Uuid), Delivers t a x id →
      ∃! instant, ItemsReadAt ts id instant) ∧
      (WatermarkWithinRead ts ↔ DeliveredInTime ts) := by
  refine ⟨?_, ?_, ?_⟩
  · intro t ht a x id hd
    obtain ⟨instant, hinstant⟩ := FlowRuns.itemsReadAt_exists h ht hd
    exact ⟨instant, hinstant, fun i hi => FlowRuns.itemsReadAt_unique h hi hinstant⟩
  · intro hwithin t ht a x id began instant hd hbegan hread
    obtain ⟨row, watermark, hrow, hlast, hle, _⟩ := hwithin t ht a x id instant hd hread
    obtain ⟨row', hrow', hlast'⟩ := FlowRuns.delivered_through h ht hd
    obtain rfl := Option.some.inj (hrow.symm.trans hrow')
    obtain rfl := Option.some.inj (hlast.symm.trans hlast')
    rw [FlowRuns.beganAt_unique h hbegan (FlowRuns.began h ht hd.attempt)]
    exact hle
  · intro htime t ht a x id instant hd hread
    obtain ⟨row, hrow, hlast⟩ := FlowRuns.delivered_through h ht hd
    have hle := htime t ht a x id _ instant hd (FlowRuns.began h ht hd.attempt) hread
    refine ⟨row, x.snapshotAt, hrow, hlast, hle, ?_⟩
    intro now
    rw [hlast]
    exact le_trans (displayFloor_le_watermark _ now _) hle

/-! ## A retry that delivers what an earlier attempt froze -/

def deferredScript : List (Cue ℚ) :=
  dueScript ++ Cue.upToFreeze 0 7 (some dueKey) [dueCluster 1] 100 500 ++ Cue.upToRender 0 ++
    [.other (.compose 0 false), .other (.settle 0)]

/-- An hour later the job runs again, and its lead is written. -/
def lateRun : List (Run.Transition (Flow ℚ) (FlowAction ℚ)) :=
  Run.transitions (Flow.play plainDigest) {}
    (deferredScript ++ [.other (.background (.wait 3600000000))] ++
      Cue.upToFreeze 1 7 (some dueKey) [dueCluster 1] 200 501 ++ Cue.upToRender 1 ++ Cue.delivery 1)

def promptScript : List (Cue ℚ) :=
  dueScript ++ Cue.upToFreeze 0 7 (some dueKey) [dueCluster 1] 100 500 ++ Cue.upToRender 0 ++ Cue.delivery 0

def promptRun : List (Run.Transition (Flow ℚ) (FlowAction ℚ)) :=
  Run.transitions (Flow.play plainDigest) {} promptScript

theorem watermark_within_read_iff_prompt :
    (∃ s, FlowRuns plainDigest promptRun s) ∧ WatermarkWithinRead promptRun := by
  obtain ⟨s, hrun⟩ : ∃ s, FlowRuns plainDigest promptRun s := Flow.play_runs (by decide +kernel)
  refine ⟨⟨s, hrun⟩, (watermark_within_read_iff hrun).2.mpr ?_⟩
  intro t ht a x id began instant hd hbegan hread
  have hall : ∀ t ∈ promptRun, (match t.action with
      | .markDelivered b => b = 0 ∧ t.before.attempt[b]?.all fun x => x.phase.digest = some 500
      | _ => true) = true := by decide +kernel
  have hone := hall t ht
  rw [hd.action] at hone
  obtain ⟨rfl, hdigest⟩ := of_decide_eq_true hone
  rw [hd.attempt, Option.all_some, decide_eq_true_eq, hd.digest] at hdigest
  obtain rfl := Option.some.inj hdigest
  exact FlowRuns.inTime_of_frozenBy hrun (frozenBy_of_any (by decide +kernel)) hbegan hread

/-- The retry writes its own clock over items read an hour before. -/
theorem retried_watermark_late :
    (∃ s, FlowRuns plainDigest lateRun s) ∧ ¬ WatermarkWithinRead lateRun := by
  refine ⟨Flow.play_runs (by decide +kernel), ?_⟩
  intro hwithin
  have hread : ItemsReadAt lateRun 500 86400000000 :=
    ⟨0, frozenBy_of_any (by decide +kernel), readAt_of_any (by decide +kernel)⟩
  have hend : (lateRun.any fun t => match t.action with
      | .markDelivered 1 =>
        (t.before.attempt[1]?.any fun x => x.subscriber = 7 ∧ x.phase.digest = some 500) ∧
          t.after.subscriber[7]?.any fun row => row.lastRunAt = some 90000000000
      | _ => false) = true := by decide +kernel
  obtain ⟨t, ht, hend⟩ := List.any_eq_true.mp hend
  split at hend
  · next hact =>
      obtain ⟨hx, hrow⟩ := of_decide_eq_true hend
      obtain ⟨x, hx, hphase⟩ := Option.any_eq_true _ _ |>.mp hx
      obtain ⟨hsub, hdigest⟩ := of_decide_eq_true hphase
      obtain ⟨row, hrow, hlast⟩ := Option.any_eq_true _ _ |>.mp hrow
      obtain ⟨row', watermark, hrow', hlast', hle, _⟩ :=
        hwithin t ht 1 x 500 _ ⟨hact, hx, hdigest⟩ hread
      rw [hsub] at hrow'
      obtain rfl := Option.some.inj (hrow.symm.trans hrow')
      rw [of_decide_eq_true hlast] at hlast'
      obtain rfl := Option.some.inj hlast'
      exact absurd hle (by decide)
  · cases hend

end Bulletin
