import Bulletin.System.Due
import Bulletin.System.History

/-! # Digests frozen and never delivered

Items count as shown from the moment they are frozen. That is right as long as the
schedule waits for every digest it has frozen.
-/

namespace Bulletin

variable {F : Type} {sha256 : List UInt8 → List UInt8} {s s' : Flow F} {act : FlowAction F}
  {ts : List (Run.Transition (Flow F) (FlowAction F))}

/-- Every entry of `lastShown` is the snapshot of a delivered digest, the newest that shows the
story. -/
def ShownDelivered (digest : DigestTable) (sub : Uuid) (windowEnd : DateTime) : Prop :=
  ∀ (story : Uuid) (sh : Shown),
    (lastShown digest sub windowEnd contextHorizonDays)[story]? = some sh →
    ∃ (id : Uuid) (d : DigestRow), digest[id]? = some d ∧ InHorizon sub windowEnd d ∧
      d.deliveredAt ≠ none ∧
      (∃ item ∈ d.items, item.storyId = story ∧ item.shown = some sh) ∧
      ∀ (id' : Uuid) (d' : DigestRow) item, digest[id']? = some d' → InHorizon sub windowEnd d' →
        item ∈ d'.items → item.storyId = story → item.shown ≠ none → d'.windowEnd ≤ d.windowEnd

/-- The step moves a subscriber's schedule off the window of a frozen digest that it does not
deliver, or freezes a digest for a window the schedule has left. -/
inductive Abandons (s : Flow F) : FlowAction F → Prop
  | preferences (sub : Uuid) (recurrence : Recurrence) (timezone : Zone) (digestTime : Fin 1440)
      (row : SubscriberRow) (id : Uuid) (d : DigestRow) (hrow : s.subscriber[sub]? = some row)
      (hmoves : (updatePreferences s.db.now recurrence timezone digestTime row).nextRunAt ≠ row.nextRunAt)
      (hd : s.db.digest[id]? = some d) (hsub : d.subscriberId = sub)
      (hwindow : d.windowEnd = row.nextRunAt)
      (hundelivered : d.deliveredAt = none) :
      Abandons s (.updatePreferences sub recurrence timezone digestTime)
  | delivery (a : Nat) (x : Attempt F) (row : SubscriberRow) (id : Uuid) (d : DigestRow)
      (hx : s.attempt[a]? = some x) (hrow : s.subscriber[x.subscriber]? = some row)
      (hd : s.db.digest[id]? = some d) (hsub : d.subscriberId = x.subscriber)
      (hwindow : d.windowEnd = row.nextRunAt) (hundelivered : d.deliveredAt = none)
      (hother : x.phase.digest ≠ some id) : Abandons s (.markDelivered a)
  | freeze (a : Nat) (id : Uuid) (x : Attempt F) (loaded : SubscriberRow) (chosen : Chosen F)
      (row : SubscriberRow) (hx : s.attempt[a]? = some x) (hphase : x.phase = .chosen loaded chosen)
      (hrow : s.subscriber[x.subscriber]? = some row) (hleft : row.nextRunAt ≠ loaded.nextRunAt)
      (hnew : findDigest s.db.digest x.subscriber loaded.nextRunAt = none) :
      Abandons s (.freeze a id)

/-- A digest that is not delivered is that of the window its subscriber stands at. -/
def OnlyCurrent (s : Flow F) : Prop :=
  ∀ (id : Uuid) (d : DigestRow) (row : SubscriberRow), s.db.digest[id]? = some d →
    d.deliveredAt = none →
    s.subscriber[d.subscriberId]? = some row → row.nextRunAt = d.windowEnd

/-! ## Digests wait for their subscribers, and subscribers for their digests -/

section Steps

variable [SelectScore F]

theorem OnlyCurrent.step (h : FlowStep sha256 s act s') (hs : WindowsPlaced s)
    (hcurrent : OnlyCurrent s) (hnot : ¬ Abandons s act) : OnlyCurrent s' := by
  intro id d row hd hundelivered hrow
  cases h.stepped.digested hd with
  | kept hold =>
      cases h.stepped.scheduled hrow with
      | kept hrow => exact hcurrent id d row hold hundelivered hrow
      | signedUp _ _ _ _ hnew _ =>
          obtain ⟨row₀, hrow₀, _⟩ := (hs.digest hold).1
          cases hnew.symm.trans hrow₀
      | changed recurrence timezone digestTime row₀ hact hrow₀ heq =>
          subst hact heq
          have hstood := hcurrent id d row₀ hold hundelivered hrow₀
          by_contra hne
          exact hnot (.preferences _ recurrence timezone digestTime row₀ id d hrow₀
            (fun hsame => hne (hsame.trans hstood)) hold rfl hstood.symm hundelivered)
      | delivered a x loaded id₀ items row₀ hx hact hphase hsub hrow₀ heq =>
          subst hact
          have hstood := hcurrent id d row₀ hold hundelivered hrow₀
          by_cases hother : x.phase.digest = some id
          · obtain ⟨_, _, hphase', _, hdigest⟩ := h.delivered ⟨rfl, hx, hother⟩
            rw [hdigest, deliver_getElem?, if_pos rfl, hold] at hd
            have hsame : d.deliver s.db.now = d := Option.some.inj hd
            rw [← hsame] at hundelivered
            exact absurd hundelivered (d.deliver_ne_none s.db.now)
          · exact absurd (.delivery a x row₀ id d hx (hsub ▸ hrow₀) hold hsub.symm hstood.symm hundelivered
              hother) hnot
  | created a x loaded chosen hx hact hphase hnew heq =>
      subst heq hact
      have hsame : s.subscriber[x.subscriber]? = some row := by
        cases h.stepped.scheduled hrow with
        | kept hrow => exact hrow
        | signedUp _ _ _ _ hnone _ =>
            obtain ⟨row₀, hrow₀, _⟩ := (hs.attempt hx).window loaded.nextRunAt (by rw [hphase]; rfl)
            cases hnone.symm.trans hrow₀
        | changed _ _ _ _ hact _ _ => cases hact
        | delivered _ _ _ _ _ _ _ hact _ _ _ _ => cases hact
      by_contra hleft
      exact hnot (.freeze a id x loaded chosen row hx hphase hsame hleft hnew)
  | delivered a x loaded items d₀ _ _ _ _ heq =>
      subst heq
      exact absurd hundelivered (d₀.deliver_ne_none s.db.now)

theorem FlowRuns.onlyCurrent (h : FlowRuns sha256 ts s)
    (hkept : ∀ t ∈ ts, ¬ Abandons t.before t.action) :
    OnlyCurrent s := by
  refine Run.Runs.state_invariant h OnlyCurrent ?_ ?_
  · intro id d row hd
    cases Std.ExtTreeMap.getElem?_empty.symm.trans hd
  · intro t ht hstep hs
    obtain ⟨_, _, _, hpre⟩ := h.before_of_mem ht
    exact OnlyCurrent.step hstep (FlowRuns.windowsPlaced hpre) hs (hkept t ht)

omit [SelectScore F] in
theorem OnlyCurrent.shownDelivered (hcurrent : OnlyCurrent s) {sub : Uuid} {w : DateTime}
    (hdue : WasDue s sub w) : ShownDelivered s.db.digest sub w := by
  intro story sh hshown
  obtain ⟨id, d, hd, hin, hitem, hnewest⟩ := newest_of_lastShown hshown
  refine ⟨id, d, hd, hin, ?_, hitem, hnewest⟩
  intro hundelivered
  obtain ⟨row, hrow, hle, _⟩ := hdue
  have hstood := hcurrent id d row hd hundelivered (hin.1 ▸ hrow)
  exact absurd (lt_of_lt_of_le hin.2.1 (hle.trans (le_of_eq hstood))) (lt_irrefl _)

/-! ## What an attempt read -/

def ReadsDelivered (s : Flow F) : Prop :=
  ∀ (a : Nat) (x : Attempt F) (row : SubscriberRow) (r : Recompute F) (shown : DigestTable),
    s.attempt[a]? = some x → (x.phase = .read row r shown ∨ x.phase = .linked row r shown) →
      r.subscriber = x.subscriber ∧ ShownDelivered shown x.subscriber row.nextRunAt

theorem ReadsDelivered.step (h : FlowStep sha256 s act s') (hs : WindowsPlaced s)
    (hcurrent : OnlyCurrent s) (hread : ReadsDelivered s) : ReadsDelivered s' := by
  intro a y row r shown hy hphase
  cases h.stepped.attempted hy with
  | kept hold => exact hread a y row r shown hold hphase
  | begun _ _ _ _ heq _ =>
      subst heq
      rcases hphase with hphase | hphase <;> cases hphase
  | failed _ _ _ _ heq =>
      subst heq
      rcases hphase with hphase | hphase <;> cases hphase
  | moved x phase hx hmove heq =>
      subst heq
      cases hmove with
      | read row₀ r₀ hloaded hsub =>
          rcases hphase with hphase | hphase
          · obtain ⟨rfl, rfl, rfl⟩ := Phase.read.inj hphase
            refine ⟨hsub, hcurrent.shownDelivered ?_⟩
            exact (hs.attempt hx).window row₀.nextRunAt (by rw [hloaded]; rfl)
          · cases hphase
      | persist row₀ r₀ shown₀ hbefore =>
          rcases hphase with hphase | hphase
          · cases hphase
          · obtain ⟨rfl, rfl, rfl⟩ := Phase.linked.inj hphase
            exact hread a x row₀ r₀ shown₀ hx (Or.inl hbefore)
      | _ => rcases hphase with hphase | hphase <;> cases hphase

theorem FlowRuns.readsDelivered (h : FlowRuns sha256 ts s)
    (hkept : ∀ t ∈ ts, ¬ Abandons t.before t.action) :
    ReadsDelivered s := by
  refine Run.Runs.state_invariant h ReadsDelivered ?_ ?_
  · intro a x row r shown hx
    cases Std.ExtTreeMap.getElem?_empty.symm.trans hx
  · intro t ht hstep hs
    obtain ⟨_, _, heq, hpre⟩ := h.before_of_mem ht
    have hcurrent := FlowRuns.onlyCurrent hpre fun u hu => hkept u (heq ▸ List.mem_append_left _ hu)
    exact ReadsDelivered.step hstep (FlowRuns.windowsPlaced hpre) hcurrent hs

/-- A fire damps a story only when `lastShown` has an entry for it. -/
theorem shown_of_stillDeveloping {fire : Fire F} {r : Recompute F} {digest : DigestTable}
    {d : Decision F}
    (hd : d ∈ fire.linkAndSelect r digest) (hdamped : d.richness = stillDeveloping) :
    ∃ sh, (lastShown digest r.subscriber fire.windowEnd contextHorizonDays)[d.id]? = some sh := by
  obtain ⟨c, hc, hgate⟩ := mem_select hd
  rw [Fire.candidates_eq] at hc
  obtain ⟨story, _, rfl⟩ := List.mem_map.mp hc
  rcases hgate with hgate | ⟨_, v, rfl⟩
  · obtain ⟨cause, rfl⟩ := gate_eq_inl hgate
    exact absurd hdamped (richnessOf_ne_stillDeveloping _ _ _)
  · have hrich : (gatedOf (fire.candidateOf r digest story) fire.cfg fire.now).richness =
        stillDeveloping := hdamped
    obtain ⟨sh, hsh, _⟩ := Candidate.stale_iff.mp (gatedOf_richness.mp hrich)
    exact ⟨sh, hsh⟩

/-- In a run that abandons no digest, every entry an attempt reads as shown is that of a delivered
digest, and a story is damped only if a delivered digest showed it. -/
theorem shown_was_delivered (h : FlowRuns sha256 ts s)
    (hkept : ∀ t ∈ ts, ¬ Abandons t.before t.action) :
    (∀ t ∈ ts, ∀ (a : Nat) (x : Attempt F) (row : SubscriberRow) (r : Recompute F),
      t.action = .read a r →
      t.before.attempt[a]? = some x → x.phase = .loaded row →
        ShownDelivered t.before.db.digest x.subscriber row.nextRunAt) ∧
      ∀ t ∈ ts, ∀ (a : Nat) (x : Attempt F) (row : SubscriberRow) (r : Recompute F) (shown : DigestTable)
        (cfg : ScoringConfig F) (weights : Std.ExtTreeMap String F compare)
        (thread : Uuid → Option Uuid),
        t.action = .choose a cfg weights thread → t.before.attempt[a]? = some x →
          x.phase = .linked row r shown →
          ∀ d ∈ (Fire.ofSubscriber row t.before.db.now cfg weights thread).linkAndSelect r shown,
            d.richness = stillDeveloping → ∃ (id : Uuid) (digest : DigestRow),
              shown[id]? = some digest ∧
              digest.deliveredAt ≠ none ∧ digest.subscriberId = x.subscriber ∧
              ∃ item ∈ digest.items, item.storyId = d.id := by
  constructor
  · intro t ht a x row r _ hx hphase
    obtain ⟨_, _, heq, hpre⟩ := h.before_of_mem ht
    have hs := FlowRuns.windowsPlaced hpre
    have hcurrent := FlowRuns.onlyCurrent hpre fun u hu => hkept u (heq ▸ List.mem_append_left _ hu)
    exact hcurrent.shownDelivered ((hs.attempt hx).window row.nextRunAt (by rw [hphase]; rfl))
  · intro t ht a x row r shown cfg weights thread _ hx hphase d hd hdamped
    obtain ⟨_, _, heq, hpre⟩ := h.before_of_mem ht
    obtain ⟨hsub, hdelivered⟩ := FlowRuns.readsDelivered hpre
      (fun u hu => hkept u (heq ▸ List.mem_append_left _ hu)) a x row r shown hx (Or.inr hphase)
    obtain ⟨sh, hsh⟩ := shown_of_stillDeveloping hd hdamped
    rw [hsub] at hsh
    obtain ⟨id, digest, hrow, hin, hdel, ⟨item, hitem, hid, _⟩, _⟩ := hdelivered d.id sh hsh
    exact ⟨id, digest, hrow, hdel, hin.1, item, hitem, hid⟩

end Steps

/-! ## A preference change while the lead is missing -/

def remindedScript : List (Cue ℚ) :=
  dueScript ++ Cue.upToFreeze 0 7 (some dueKey) [dueCluster 1] 100 500 ++ Cue.upToRender 0 ++ Cue.delivery 0 ++
    [.other (.background (.wait 86400000000)), .other (.begin 1 7 none), .other (.load 1),
      .read 1 7 [dueCluster 1] 200, .other (.persist 1),
        .other (.choose 1 (.default ℚ) ∅ fun _ => none)]

def remindedRun : List (Run.Transition (Flow ℚ) (FlowAction ℚ)) :=
  Run.transitions (Flow.play plainDigest) {} remindedScript

/-- The step neither moves a digest nor delivers or freezes another than the one there is. -/
def keepsFrozen (t : Run.Transition (Flow ℚ) (FlowAction ℚ)) : Bool :=
  match t.action with
  | .updatePreferences _ _ _ _ => false
  | .markDelivered a => t.before.attempt[a]?.all fun x =>
      t.before.db.digest.toList.all fun entry => x.phase.digest = some entry.1
  | .freeze a _ => t.before.attempt[a]?.all fun x => match x.phase with
      | .chosen loaded _ => t.before.subscriber[x.subscriber]?.all fun row =>
          row.nextRunAt = loaded.nextRunAt
      | _ => true
  | _ => true

def readsShown (t : Run.Transition (Flow ℚ) (FlowAction ℚ)) : Bool :=
  match t.action with
  | .read 1 _ => t.before.attempt[1]?.any fun x => match x.phase with
      | .loaded row =>
          (lastShown t.before.db.digest 7 row.nextRunAt contextHorizonDays)[(100 : Uuid)]?.isSome
      | _ => false
  | _ => false

theorem shown_was_delivered_reminded :
    (∃ s, FlowRuns plainDigest remindedRun s) ∧ ∃ t ∈ remindedRun,
      ∃ (x : Attempt ℚ) (row : SubscriberRow),
      t.before.attempt[1]? = some x ∧ x.phase = .loaded row ∧
        (lastShown t.before.db.digest 7 row.nextRunAt contextHorizonDays)[(100 : Uuid)]?.isSome ∧
        ShownDelivered t.before.db.digest x.subscriber row.nextRunAt := by
  obtain ⟨s, hrun⟩ : ∃ s, FlowRuns plainDigest remindedRun s := Flow.play_runs (by decide +kernel)
  refine ⟨⟨s, hrun⟩, ?_⟩
  have hall : ∀ t ∈ remindedRun, keepsFrozen t = true := by decide +kernel
  have hkept : ∀ t ∈ remindedRun, ¬ Abandons t.before t.action := by
    intro t ht habandons
    have hone := hall t ht
    unfold keepsFrozen at hone
    generalize t.action = act at habandons hone
    cases habandons with
    | preferences _ _ _ _ _ _ _ _ _ _ _ _ _ => cases hone
    | delivery a x row id d hx _ hd _ _ _ hother =>
        dsimp only at hone
        rw [hx, Option.all_some, List.all_eq_true] at hone
        exact hother (of_decide_eq_true (hone (id, d) (Std.ExtTreeMap.mem_toList_iff_getElem?_eq_some.mpr hd)))
    | freeze a id x loaded chosen row hx hphase hrow hleft _ =>
        dsimp only at hone
        rw [hx, Option.all_some, hphase] at hone
        dsimp only at hone
        rw [hrow, Option.all_some] at hone
        exact hleft (of_decide_eq_true hone)
  have hany : remindedRun.any readsShown = true := by decide +kernel
  obtain ⟨t, ht, hany⟩ := List.any_eq_true.mp hany
  unfold readsShown at hany
  split at hany
  · next r hact =>
      obtain ⟨x, hx, hshown⟩ := Option.any_eq_true _ _ |>.mp hany
      split at hshown
      · next row hphase =>
          exact ⟨t, ht, x, row, hx, hphase, hshown,
            (shown_was_delivered hrun hkept).1 t ht 1 x row r hact hx hphase⟩
      · cases hshown
  · cases hany

/-- The first window's digest is frozen and waits for its lead when the subscriber moves the digest
by an hour. -/
def movedScript : List (Cue ℚ) :=
  dueScript ++ Cue.upToFreeze 0 7 (some dueKey) [dueCluster 1] 100 500 ++ Cue.upToRender 0 ++
    [.other (.compose 0 false), .other (.settle 0), .other (.updatePreferences 7 .daily .utc 60),
      .other (.background (.wait 3600000000)), .other (.begin 1 7 none), .other (.load 1),
      .read 1 7 [dueCluster 1] 200, .other (.persist 1),
        .other (.choose 1 (.default ℚ) ∅ fun _ => none)]

def movedRun : List (Run.Transition (Flow ℚ) (FlowAction ℚ)) :=
  Run.transitions (Flow.play plainDigest) {} movedScript

/-- The second attempt ranks story 100 as shown, and no digest is delivered. -/
def ranksUndelivered (t : Run.Transition (Flow ℚ) (FlowAction ℚ)) : Bool :=
  match t.action with
  | .read 1 r => t.before.attempt[1]?.any fun x => match x.phase with
      | .loaded row => x.subscriber = 7 ∧
          (lastShown t.before.db.digest 7 row.nextRunAt contextHorizonDays)[(100 : Uuid)]?.isSome ∧
          (∀ entry ∈ t.before.db.digest.toList, entry.2.deliveredAt = none) ∧
          ((Fire.ofSubscriber row t.before.db.now (.default ℚ) ∅ fun _ => none).linkAndSelect r
            t.before.db.digest).map (fun d => (d.id, d.richness)) = [(100, stillDeveloping)]
      | _ => false
  | _ => false

/-- The next fire reads story 100 as shown and damps it, though nothing was ever delivered. -/
theorem abandoned_digest_shown :
    (∃ s, FlowRuns plainDigest movedRun s ∧ s.mail = []) ∧
      ∃ t ∈ movedRun, ∃ r, t.action = .read 1 r ∧
      ∃ (x : Attempt ℚ) (row : SubscriberRow), t.before.attempt[1]? = some x ∧
        x.phase = .loaded row ∧
        ¬ ShownDelivered t.before.db.digest x.subscriber row.nextRunAt ∧
        ((Fire.ofSubscriber row t.before.db.now (.default ℚ) ∅ fun _ => none).linkAndSelect r
          t.before.db.digest).map (fun d => (d.id, d.richness)) = [(100, stillDeveloping)] := by
  constructor
  · obtain ⟨s, hrun, hmail⟩ : ∃ s, FlowRuns plainDigest movedRun s ∧ decide (s.mail = []) = true :=
      Flow.play_ends (by decide +kernel)
    exact ⟨s, hrun, of_decide_eq_true hmail⟩
  have hany : movedRun.any ranksUndelivered = true := by decide +kernel
  obtain ⟨t, ht, hany⟩ := List.any_eq_true.mp hany
  unfold ranksUndelivered at hany
  split at hany
  · next r hact =>
      obtain ⟨x, hx, hshown⟩ := Option.any_eq_true _ _ |>.mp hany
      split at hshown
      · next row hphase =>
          obtain ⟨hsub, hentry, hnone, hdamped⟩ := of_decide_eq_true hshown
          refine ⟨t, ht, r, hact, x, row, hx, hphase, ?_, hdamped⟩
          intro hdelivered
          rw [hsub] at hdelivered
          obtain ⟨sh, hsh⟩ := Option.isSome_iff_exists.mp hentry
          obtain ⟨id, d, hd, _, hdel, _⟩ := hdelivered 100 sh hsh
          exact hdel (hnone (id, d) (Std.ExtTreeMap.mem_toList_iff_getElem?_eq_some.mpr hd))
      · cases hshown
  · cases hany

end Bulletin
