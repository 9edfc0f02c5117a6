import Bulletin.System.Due
import Bulletin.System.History

/-! # One mail for each window

An attempt checks that its window's digest is not delivered when it freezes, and marks it
delivered after the mail. Whether another attempt got in between shows when it sends.
-/

namespace Bulletin

variable {F : Type} {sha256 : List UInt8 → List UInt8} {s s' : Flow F} {act : FlowAction F}
  {ts : List (Run.Transition (Flow F) (FlowAction F))}

/-- The step advances the schedule of `sub` for the delivery of window `w`. -/
def Advances (t : Run.Transition (Flow F) (FlowAction F)) (sub : Uuid) (w : DateTime) : Prop :=
  ∃ (a : Nat) (x : Attempt F) (row : SubscriberRow) (id : Uuid) (items : Nat),
    t.action = .markDelivered a ∧
    t.before.attempt[a]? = some x ∧ x.subscriber = sub ∧ x.phase = .sent row id items ∧
      row.nextRunAt = w

/-- At most one mail for each subscriber and window, and at most one advance. -/
structure OnceEach (ts : List (Run.Transition (Flow F) (FlowAction F))) (s : Flow F) : Prop where
  mail : s.mail.Nodup
  advance : ts.Pairwise fun t u => ∀ (sub : Uuid) (w : DateTime),
    ¬ (Advances t sub w ∧ Advances u sub w)

/-- No attempt breaks off between its mail and its mark. -/
def CrashFree (ts : List (Run.Transition (Flow F) (FlowAction F))) : Prop :=
  ∀ t ∈ ts, ∀ (a : Nat) (x : Attempt F) (row : SubscriberRow) (id : Uuid) (items : Nat),
    t.action = .fail a →
    t.before.attempt[a]? = some x → x.phase ≠ .sent row id items

/-- What the attempt checked still holds when it sends: its digest is not delivered, and no other
attempt has sent it and not marked it yet. -/
def SendsFresh (s : Flow F) (act : FlowAction F) : Prop :=
  ∀ (a : Nat) (x : Attempt F) (row : SubscriberRow) (id : Uuid) (items : Nat), act = .send a →
    s.attempt[a]? = some x → x.phase = .composed row id items →
      (∀ d : DigestRow, s.db.digest[id]? = some d → d.deliveredAt = none) ∧
        ∀ (b : Nat) (y : Attempt F) (row' : SubscriberRow) (items' : Nat), s.attempt[b]? = some y →
          y.phase ≠ .sent row' id items'

/-! ## Windows and their digests -/

def WindowsKeyed (s : Flow F) : Prop :=
  ∀ {id id' : Uuid} {d d' : DigestRow}, s.db.digest[id]? = some d → s.db.digest[id']? = some d' →
    d.subscriberId = d'.subscriberId → d.windowEnd = d'.windowEnd → id = id'

/-- Attempt `b` has sent the mail of the digest and not marked it. -/
def Sending (s : Flow F) (b : Nat) (y : Attempt F) (id : Uuid) : Prop :=
  s.attempt[b]? = some y ∧ ∃ row items, y.phase = .sent row id items

/-- A window was mailed when its digest is delivered, or about to be marked so. -/
structure Mailed (s : Flow F) : Prop where
  sent : ∀ entry ∈ s.mail, ∃ (id : Uuid) (d : DigestRow), s.db.digest[id]? = some d ∧
    entry = (d.subscriberId, d.windowEnd) ∧ (d.deliveredAt ≠ none ∨ ∃ b y, Sending s b y id)
  sending : ∀ {b : Nat} {y : Attempt F} {id : Uuid} {d : DigestRow}, Sending s b y id →
    s.db.digest[id]? = some d → (d.subscriberId, d.windowEnd) ∈ s.mail
  delivered : ∀ {id : Uuid} {d : DigestRow}, s.db.digest[id]? = some d → d.deliveredAt ≠ none →
    (d.subscriberId, d.windowEnd) ∈ s.mail

/-- A digest is being sent by one attempt at most, and none once it is delivered. -/
structure SentOnce (s : Flow F) : Prop where
  unique : ∀ {a b : Nat} {x y : Attempt F} {id : Uuid}, Sending s a x id → Sending s b y id → a = b
  undelivered : ∀ {b : Nat} {y : Attempt F} {id : Uuid} {d : DigestRow}, Sending s b y id →
    s.db.digest[id]? = some d → d.deliveredAt = none

section Steps

variable [SelectScore F]

theorem WindowsKeyed.step (h : FlowStep sha256 s act s') (hs : WindowsKeyed s) :
    WindowsKeyed s' := by
  -- a digest of the state before, or the one created for a window that had none
  have horigin : ∀ {id : Uuid} {d : DigestRow}, s'.db.digest[id]? = some d →
      (∃ d₀, s.db.digest[id]? = some d₀ ∧ d₀.subscriberId = d.subscriberId ∧
        d₀.windowEnd = d.windowEnd) ∨
        (∃ a, act = .freeze a id) ∧ findDigest s.db.digest d.subscriberId d.windowEnd = none := by
    intro id d hd
    cases h.stepped.digested hd with
    | kept hold => exact Or.inl ⟨d, hold, rfl, rfl⟩
    | created a x row chosen _ hact _ hnew heq =>
        subst heq
        exact Or.inr ⟨⟨a, hact⟩, hnew⟩
    | delivered a x row items d₀ _ _ _ hold heq =>
        subst heq
        exact Or.inl ⟨d₀, hold, rfl, rfl⟩
  intro id id' d d' hd hd' hsub hwindow
  rcases horigin hd with ⟨d₀, hold, hsub₀, hwin₀⟩ | ⟨⟨a, hact⟩, hnew⟩
  · rcases horigin hd' with ⟨d₁, hold', hsub₁, hwin₁⟩ | ⟨_, hnew'⟩
    · exact hs hold hold' (by rw [hsub₀, hsub₁, hsub]) (by rw [hwin₀, hwin₁, hwindow])
    · exact absurd (hwin₀.trans hwindow) (findDigest_eq_none hnew' hold (hsub₀.trans hsub))
  · rcases horigin hd' with ⟨d₁, hold', hsub₁, hwin₁⟩ | ⟨⟨a', hact'⟩, _⟩
    · exact absurd (hwin₁.trans hwindow.symm) (findDigest_eq_none hnew hold' (hsub₁.trans hsub.symm))
    · exact (FlowAction.freeze.inj (hact.symm.trans hact')).2

theorem FlowRuns.windowsKeyed (h : FlowRuns sha256 ts s) : WindowsKeyed s := by
  refine Run.Runs.state_invariant h (fun s => WindowsKeyed s) ?_ fun _ _ hstep hs => hs.step hstep
  intro id id' d d' hd
  cases Std.ExtTreeMap.getElem?_empty.symm.trans hd

/-! ## Attempts that are sending -/

theorem Stepped.sending_from (h : Stepped sha256 s act s') {b : Nat} {y : Attempt F} {id : Uuid}
    (hy : Sending s' b y id) :
      Sending s b y id ∨ ∃ (x : Attempt F) (row : SubscriberRow) (items : Nat),
      act = .send b ∧ s.attempt[b]? = some x ∧ x.phase = .composed row id items ∧
      y = { x with phase := .sent row id items } := by
  obtain ⟨hy, row, items, hphase⟩ := hy
  cases h.attempted hy with
  | kept hold => exact Or.inl ⟨hold, row, items, hphase⟩
  | begun _ _ _ _ heq _ =>
      subst heq
      cases hphase
  | failed _ _ _ _ heq =>
      subst heq
      cases hphase
  | moved x phase hx hmove heq =>
      subst heq
      cases hmove with
      | send row' id' items' hcomposed =>
          obtain ⟨rfl, rfl, rfl⟩ := Phase.sent.inj hphase
          exact Or.inr ⟨x, row', items', rfl, hx, hcomposed, rfl⟩
      | _ => cases hphase

theorem Stepped.sending_kept (h : Stepped sha256 s act s') {b : Nat} {y : Attempt F} {id : Uuid}
    (hy : Sending s b y id) (hcrash : act ≠ .fail b) :
    Sending s' b y id ∨ act = .markDelivered b := by
  obtain ⟨hy, row, items, hphase⟩ := hy
  cases h.fated hy with
  | kept h => exact Or.inl ⟨h, row, items, hphase⟩
  | failed hact _ _ => exact absurd hact hcrash
  | moved phase hmove _ => exact Or.inr (hmove.of_sent hphase)

omit [SelectScore F] in
theorem Sending.digest {b : Nat} {y : Attempt F} {id : Uuid} (hy : Sending s b y id) :
    y.phase.digest = some id := by
  obtain ⟨_, row, items, hphase⟩ := hy
  rw [hphase]
  rfl

omit [SelectScore F] in
theorem WindowsPlaced.composed (hs : WindowsPlaced s) {a : Nat} {x : Attempt F}
    {row : SubscriberRow} {id : Uuid} {items : Nat} (hx : s.attempt[a]? = some x)
    (hphase : x.phase = .composed row id items) :
    ∃ d, s.db.digest[id]? = some d ∧
      (x.subscriber, row.nextRunAt) = (d.subscriberId, d.windowEnd) := by
  obtain ⟨d, hd, hsub, hwindow⟩ := (hs.attempt hx).digest id (by rw [hphase]; rfl)
  rw [hphase] at hwindow
  exact ⟨d, hd, by rw [hsub, ← Option.some.inj hwindow]⟩

theorem FlowStep.digest_row (h : FlowStep sha256 s act s') {id : Uuid} {d : DigestRow}
    (hd : s.db.digest[id]? = some d) :
      ∃ d', s'.db.digest[id]? = some d' ∧ d'.subscriberId = d.subscriberId ∧
      d'.windowEnd = d.windowEnd ∧ (d.deliveredAt ≠ none → d'.deliveredAt ≠ none) := by
  rcases h.digest_kept hd with hsame | hdelivered
  · exact ⟨d, hsame, rfl, rfl, fun hdelivered => hdelivered⟩
  · exact ⟨_, hdelivered, rfl, rfl, fun _ => d.deliver_ne_none _⟩

theorem Stepped.mail_prefix (h : Stepped sha256 s act s') : s.mail <+: s'.mail := by
  rcases h.mailed with hsame | ⟨_, _, _, _, _, _, _, _, happend⟩
  · rw [hsame]
  · rw [happend]
    exact List.prefix_append _ _

/-! ## Mails and digests agree -/

theorem Mailed.step (h : FlowStep sha256 s act s') (hs : WindowsPlaced s) (hmailed : Mailed s)
    (hcrash : ∀ b y id, Sending s b y id → act ≠ .fail b) : Mailed s' := by
  have hstep := h.stepped
  have hgrow := hstep.mail_prefix.subset
  constructor
  · intro entry hentry
    have hold : entry ∈ s.mail → ∃ (id : Uuid) (d : DigestRow), s'.db.digest[id]? = some d ∧
        entry = (d.subscriberId, d.windowEnd) ∧
            (d.deliveredAt ≠ none ∨ ∃ b y, Sending s' b y id) := by
      intro hmem
      obtain ⟨id, d, hd, heq, hor⟩ := hmailed.sent entry hmem
      obtain ⟨d', hd', hsub, hwindow, hdelivered⟩ := h.digest_row hd
      refine ⟨id, d', hd', by rw [heq, hsub, hwindow], ?_⟩
      rcases hor with hdel | ⟨b, y, hy⟩
      · exact Or.inl (hdelivered hdel)
      · rcases hstep.sending_kept hy (hcrash b y id hy) with hkept | hact
        · exact Or.inr ⟨b, y, hkept⟩
        · obtain ⟨_, _, _, _, hdigest⟩ := h.delivered ⟨hact, hy.1, hy.digest⟩
          rw [hdigest, deliver_getElem?, if_pos rfl, hd] at hd'
          obtain rfl := Option.some.inj hd'
          exact Or.inl (d.deliver_ne_none _)
    rcases hstep.mailed with hsame | ⟨a, x, row, id, items, hact, hx, hphase, happend⟩
    · exact hold (hsame ▸ hentry)
    · rw [happend] at hentry
      rcases List.mem_append.mp hentry with hmem | hlast
      · exact hold hmem
      · obtain rfl := List.mem_singleton.mp hlast
        obtain ⟨d, hd, hwindow⟩ := hs.composed hx hphase
        obtain ⟨d', hd', hsub', hwindow', _⟩ := h.digest_row hd
        refine ⟨id, d', hd', by rw [hwindow, hsub', hwindow'], Or.inr ?_⟩
        subst hact
        obtain ⟨y, phase, hy, hmove⟩ := h.own rfl
        obtain rfl := Option.some.inj (hx.symm.trans hy)
        cases hmove with
        | send row' id' items' hphase' =>
            obtain ⟨rfl, rfl, rfl⟩ := Phase.composed.inj (hphase.symm.trans hphase')
            exact ⟨a, _, Std.ExtTreeMap.getElem?_insert_self, row, items, rfl⟩
  · intro b y id d' hy hd'
    rcases hstep.sending_from hy with hold | ⟨x, row, items, hact, hx, hphase, _⟩
    · obtain ⟨d, hd, _⟩ := (hs.attempt hold.1).digest id hold.digest
      obtain ⟨d'', hd'', hsub, hwindow, _⟩ := h.digest_row hd
      obtain rfl := Option.some.inj (hd''.symm.trans hd')
      rw [hsub, hwindow]
      exact hgrow (hmailed.sending hold hd)
    · obtain ⟨d, hd, hwindow⟩ := hs.composed hx hphase
      obtain ⟨d'', hd'', hsub', hwindow', _⟩ := h.digest_row hd
      obtain rfl := Option.some.inj (hd''.symm.trans hd')
      rw [hsub', hwindow', ← hwindow]
      rcases hstep.mailed with hsame | ⟨a, x', row', id', items', hact', hx', hphase', happend⟩
      · subst hact
        obtain ⟨z, phase, hz, hmove⟩ := h.own rfl
        cases hmove with
        | send _ _ _ _ => exact absurd hsame (by simp)
      · obtain rfl := FlowAction.send.inj (hact.symm.trans hact')
        obtain rfl := Option.some.inj (hx.symm.trans hx')
        obtain ⟨rfl, _, _⟩ := Phase.composed.inj (hphase.symm.trans hphase')
        rw [happend]
        exact List.mem_append_right _ (List.mem_singleton_self _)
  · intro id d' hd' hdelivered
    cases hstep.digested hd' with
    | kept hold => exact hgrow (hmailed.delivered hold hdelivered)
    | created _ _ _ _ _ _ _ _ heq =>
        subst heq
        exact absurd rfl hdelivered
    | delivered a x row items d hx _ hphase hold heq =>
        have hmem := hmailed.sending ⟨hx, row, items, hphase⟩ hold
        subst heq
        exact hgrow hmem

/-! ## Fresh sends -/

theorem SentOnce.step (h : FlowStep sha256 s act s') (honce : SentOnce s)
    (hfresh : SendsFresh s act) : SentOnce s' := by
  have hstep := h.stepped
  constructor
  · intro a b x y id hx hy
    rcases hstep.sending_from hx with hxold | ⟨x₀, row, items, hact, hx₀, hphase, _⟩
    · rcases hstep.sending_from hy with hyold | ⟨y₀, row, items, hact, hy₀, hphase, _⟩
      · exact honce.unique hxold hyold
      · obtain ⟨hxa, row', items', hsent⟩ := hxold
        exact absurd hsent ((hfresh b y₀ row id items hact hy₀ hphase).2 a x row' items' hxa)
    · rcases hstep.sending_from hy with ⟨hyb, row', items', hsent⟩ | ⟨y₀, row', items', hact', _⟩
      · exact absurd hsent ((hfresh a x₀ row id items hact hx₀ hphase).2 b y row' items' hyb)
      · exact FlowAction.send.inj (hact.symm.trans hact')
  · intro b y id d' hy hd'
    cases hstep.digested hd' with
    | kept hold =>
        rcases hstep.sending_from hy with hyold | ⟨y₀, row, items, hact, hy₀, hphase, _⟩
        · exact honce.undelivered hyold hold
        · exact (hfresh b y₀ row id items hact hy₀ hphase).1 d' hold
    | created _ _ _ _ _ _ _ _ heq =>
        subst heq
        rfl
    | delivered a x row items d hx hact hphase hold _ =>
        -- the attempt that delivers is the one that was sending, and it is done
        subst hact
        obtain ⟨x', phase, hx', hmove⟩ := h.own rfl
        have hdone : s'.attempt[a]? = some { x' with phase := phase } := by
          rw [hmove.attempt]
          exact Std.ExtTreeMap.getElem?_insert_self
        rcases hstep.sending_from hy with hyold | ⟨_, _, _, hact', _⟩
        · obtain rfl := honce.unique hyold ⟨hx, row, items, hphase⟩
          obtain ⟨hyb, row', items', hsent⟩ := hy
          obtain rfl := Option.some.inj (hdone.symm.trans hyb)
          cases hmove with
          | markDelivered _ _ _ _ => cases hsent
        · cases hact'

theorem nodup_step (h : FlowStep sha256 s act s') (hs : WindowsPlaced s) (hkeyed : WindowsKeyed s)
    (hmailed : Mailed s) (hfresh : SendsFresh s act) (hnodup : s.mail.Nodup) : s'.mail.Nodup := by
  rcases h.stepped.mailed with hsame | ⟨a, x, row, id, items, hact, hx, hphase, happend⟩
  · rw [hsame]
    exact hnodup
  · rw [happend]
    refine List.Nodup.append hnodup (List.nodup_singleton _) ?_
    intro entry hentry hlast
    obtain rfl := List.mem_singleton.mp hlast
    obtain ⟨id', d', hd', heq, hor⟩ := hmailed.sent _ hentry
    obtain ⟨d, hd, hwindow⟩ := hs.composed hx hphase
    obtain ⟨hsub, hend⟩ := Prod.mk.inj (hwindow.symm.trans heq)
    obtain rfl := hkeyed hd hd' hsub hend
    obtain ⟨hundelivered, hnone⟩ := hfresh a x row id items hact hx hphase
    rcases hor with hdelivered | ⟨b, y, hyb, row', items', hsent⟩
    · exact hdelivered (hundelivered d' hd')
    · exact hnone b y row' items' hyb hsent

theorem mailed_again (h : FlowStep sha256 s act s') (hs : WindowsPlaced s) (hmailed : Mailed s)
    (hnot : ¬ SendsFresh s act) : ¬ s'.mail.Nodup := by
  intro hnodup
  apply hnot
  intro a x row id items hact hx hphase
  obtain ⟨d, hd, hwindow⟩ := hs.composed hx hphase
  have hnew : (d.subscriberId, d.windowEnd) ∉ s.mail := by
    rcases h.stepped.mailed with hsame | ⟨a', x', row', id', items', hact', hx', hphase', happend⟩
    · subst hact
      obtain ⟨y, phase, hy, hmove⟩ := h.own rfl
      cases hmove with
      | send _ _ _ _ => exact absurd hsame (by simp)
    · obtain rfl := FlowAction.send.inj (hact.symm.trans hact')
      obtain rfl := Option.some.inj (hx.symm.trans hx')
      obtain ⟨rfl, _, _⟩ := Phase.composed.inj (hphase.symm.trans hphase')
      rw [happend, hwindow] at hnodup
      exact fun hmem => (List.nodup_append.mp hnodup).2.2 _ hmem _ (List.mem_singleton_self _) rfl
  constructor
  · intro d' hd'
    obtain rfl := Option.some.inj (hd.symm.trans hd')
    by_contra hdelivered
    exact hnew (hmailed.delivered hd hdelivered)
  · intro b y row' items' hy hsent
    exact hnew (hmailed.sending ⟨hy, row', items', hsent⟩ hd)

/-! ## Runs -/

theorem FlowRuns.mailed (h : FlowRuns sha256 ts s) (hcrash : CrashFree ts) : Mailed s := by
  refine Run.Runs.state_invariant h Mailed ?_ ?_
  · constructor
    · intro entry hentry
      cases hentry
    · intro b y id d _ hd
      cases Std.ExtTreeMap.getElem?_empty.symm.trans hd
    · intro id d hd
      cases Std.ExtTreeMap.getElem?_empty.symm.trans hd
  · intro t ht hstep hmailed
    obtain ⟨_, _, _, hpre⟩ := h.before_of_mem ht
    refine Mailed.step hstep (FlowRuns.windowsPlaced hpre) hmailed ?_
    intro b y id hy hact
    obtain ⟨hyb, row, items, hsent⟩ := hy
    exact hcrash t ht b y row id items hact hyb hsent

theorem FlowRuns.sentOnce (h : FlowRuns sha256 ts s)
    (hfresh : ∀ t ∈ ts, SendsFresh t.before t.action) :
    SentOnce s := by
  refine Run.Runs.state_invariant h SentOnce ?_ ?_
  · constructor
    · intro a b x y id hx
      cases Std.ExtTreeMap.getElem?_empty.symm.trans hx.1
    · intro b y id d hy
      cases Std.ExtTreeMap.getElem?_empty.symm.trans hy.1
  · intro t ht hstep honce
    exact SentOnce.step hstep honce (hfresh t ht)

theorem WindowDelivered.step (h : FlowStep sha256 s act s') {sub : Uuid} {w : DateTime}
    (hdelivered : WindowDelivered s sub w) : WindowDelivered s' sub w := by
  obtain ⟨id, d, hd, hsub, hwindow, hdel⟩ := hdelivered
  obtain ⟨d', hd', hsub', hwindow', hdel'⟩ := h.digest_row hd
  exact ⟨id, d', hd', hsub'.trans hsub, hwindow'.trans hwindow, hdel' hdel⟩

/-- An advance is that of a window some attempt is sending, and leaves it delivered. -/
theorem Advances.sending {t : Run.Transition (Flow F) (FlowAction F)}
    (h : FlowStep sha256 t.before t.action t.after) (hs : WindowsPlaced t.before) {sub : Uuid}
    {w : DateTime} (hadvance : Advances t sub w) :
      (∃ b y id d, Sending t.before b y id ∧ t.before.db.digest[id]? = some d ∧
      d.subscriberId = sub ∧ d.windowEnd = w) ∧ WindowDelivered t.after sub w := by
  obtain ⟨a, x, row, id, items, hact, hx, rfl, hphase, rfl⟩ := hadvance
  have hsending : Sending t.before a x id := ⟨hx, row, items, hphase⟩
  obtain ⟨d, hd, hsub, hwindow⟩ := (hs.attempt hx).digest id hsending.digest
  rw [hphase] at hwindow
  have hend : d.windowEnd = row.nextRunAt := (Option.some.inj hwindow).symm
  refine ⟨⟨a, x, id, d, hsending, hd, hsub, hend⟩, id, d.deliver t.before.db.now, ?_, hsub, hend,
    d.deliver_ne_none _⟩
  obtain ⟨_, _, _, _, hdigest⟩ := h.delivered ⟨hact, hx, hsending.digest⟩
  rw [hdigest, deliver_getElem?, if_pos rfl, hd]
  rfl

theorem FlowRuns.advance_once (h : FlowRuns sha256 ts s)
    (hfresh : ∀ t ∈ ts, SendsFresh t.before t.action) :
    ts.Pairwise fun t u => ∀ (sub : Uuid) (w : DateTime),
      ¬ (Advances t sub w ∧ Advances u sub w) := by
  refine Run.Runs.invariant h (fun pre _ => pre.Pairwise _) List.Pairwise.nil ?_
  intro pre u post heq hpre hstep hpairwise
  refine List.pairwise_append.mpr ⟨hpairwise, List.pairwise_singleton _ _, ?_⟩
  intro t ht u' hu' sub w hboth
  obtain rfl := List.mem_singleton.mp hu'
  obtain ⟨pre', _, _, hpre'⟩ := Run.Runs.before_of_mem hpre ht
  have hafter := (hboth.1.sending (Run.Runs.step_of_mem hpre ht) (FlowRuns.windowsPlaced hpre')).2
  have hbefore : WindowDelivered u'.before sub w := Run.Runs.kept_of_mem hpre
    (Q := fun s => WindowDelivered s sub w)
    (fun v hv => WindowDelivered.step (Run.Runs.step_of_mem hpre hv)) ht hafter
  obtain ⟨⟨b, y, id, d, hsending, hd, hsub, hend⟩, _⟩ :=
    hboth.2.sending hstep (FlowRuns.windowsPlaced hpre)
  obtain ⟨id', d', hd', hsub', hend', hdelivered⟩ := hbefore
  obtain rfl := FlowRuns.windowsKeyed hpre hd hd' (hsub.trans hsub'.symm) (hend.trans hend'.symm)
  have honce := FlowRuns.sentOnce hpre fun v hv => hfresh v (heq ▸ List.mem_append_left _ hv)
  exact hdelivered (honce.undelivered hsending hd')

/-- A crash-free run mails and advances each window at most once exactly when every send is
fresh. -/
theorem one_mail_iff (h : FlowRuns sha256 ts s) (hcrash : CrashFree ts) :
    OnceEach ts s ↔ ∀ t ∈ ts, SendsFresh t.before t.action := by
  have hbefore : ∀ t ∈ ts, WindowsPlaced t.before ∧ WindowsKeyed t.before ∧ Mailed t.before := by
    intro t ht
    obtain ⟨_, _, heq, hpre⟩ := h.before_of_mem ht
    exact ⟨FlowRuns.windowsPlaced hpre, FlowRuns.windowsKeyed hpre,
      FlowRuns.mailed hpre fun u hu => hcrash u (heq ▸ List.mem_append_left _ hu)⟩
  constructor
  · intro honce t ht
    by_contra hnot
    obtain ⟨hs, _, hmailed⟩ := hbefore t ht
    have hprefix : t.after.mail <+: s.mail :=
      Run.Runs.kept_of_mem h (Q := fun s => t.after.mail <+: s.mail)
      (fun u hu hq => hq.trans (h.step_of_mem hu).stepped.mail_prefix) ht (List.prefix_refl _)
    exact mailed_again (h.step_of_mem ht) hs hmailed hnot (honce.mail.sublist hprefix.sublist)
  · intro hfresh
    refine ⟨?_, FlowRuns.advance_once h hfresh⟩
    refine Run.Runs.state_invariant h (fun s => s.mail.Nodup) List.nodup_nil ?_
    intro t ht hstep hnodup
    obtain ⟨hs, hkeyed, hmailed⟩ := hbefore t ht
    exact nodup_step hstep hs hkeyed hmailed (hfresh t ht) hnodup

end Steps

/-! ## Two attempts at one window -/

theorem crashFree_of_all (h : ∀ t ∈ ts, (match t.action with
    | .fail _ => false
    | _ => true) = true) : CrashFree ts := by
  intro t ht a x row id items hact
  have hone := h t ht
  rw [hact] at hone
  cases hone

/-- An operator's attempt loads the subscriber, and the job delivers before it looks at the
digest. -/
def orderedScript : List (Cue ℚ) :=
  dueScript ++ [.other (.begin 1 7 none), .other (.load 1)] ++
    Cue.upToFreeze 0 7 (some dueKey) [dueCluster 1] 100 500 ++ Cue.upToRender 0 ++ Cue.delivery 0 ++
    [.read 1 7 [dueCluster 1] 200, .other (.persist 1),
      .other (.choose 1 (.default ℚ) ∅ fun _ => none), .other (.freeze 1 501)]

def orderedRun : List (Run.Transition (Flow ℚ) (FlowAction ℚ)) :=
  Run.transitions (Flow.play plainDigest) {} orderedScript

theorem one_mail_iff_ordered :
    ∃ s, FlowRuns plainDigest orderedRun s ∧ s.mail = [(7, dueWindow)] ∧ OnceEach orderedRun s := by
  obtain ⟨s, hrun, hmail⟩ : ∃ s, FlowRuns plainDigest orderedRun s ∧
      decide (s.mail = [(7, dueWindow)]) = true := Flow.play_ends (by decide +kernel)
  refine ⟨s, hrun, of_decide_eq_true hmail,
    (one_mail_iff hrun (crashFree_of_all (by decide +kernel))).mpr ?_⟩
  intro t ht a x row id items hact _ _
  have hall : ∀ t ∈ orderedRun, (match t.action with
      | .send _ => (∀ entry ∈ t.before.db.digest.toList, entry.2.deliveredAt = none) ∧
          ∀ entry ∈ t.before.attempt.toList, entry.2.phase.stage ≠ 10
      | _ => true) = true := by decide +kernel
  have hone := hall t ht
  rw [hact] at hone
  obtain ⟨hnone, hstage⟩ := of_decide_eq_true hone
  constructor
  · intro d hd
    exact hnone (id, d) (Std.ExtTreeMap.mem_toList_iff_getElem?_eq_some.mpr hd)
  · intro b y row' items' hy hsent
    have hne := hstage (b, y) (Std.ExtTreeMap.mem_toList_iff_getElem?_eq_some.mpr hy)
    rw [hsent] at hne
    exact hne rfl

def overlappingRun : List (Run.Transition (Flow ℚ) (FlowAction ℚ)) :=
  Run.transitions (Flow.play plainDigest) {} (dueScript ++
    Cue.upToFreeze 0 7 (some dueKey) [dueCluster 1] 100 500 ++ Cue.upToRender 0 ++
    Cue.upToFreeze 1 7 none [dueCluster 1] 200 501 ++ Cue.upToRender 1 ++ Cue.delivery 0 ++ Cue.delivery 1)

theorem overlapping_attempts_mail_twice :
    ∃ s, FlowRuns plainDigest overlappingRun s ∧ CrashFree overlappingRun ∧
      s.mail = [(7, dueWindow), (7, dueWindow)] ∧ ¬ OnceEach overlappingRun s := by
  obtain ⟨s, hrun, hmail⟩ : ∃ s, FlowRuns plainDigest overlappingRun s ∧
      decide (s.mail = [(7, dueWindow), (7, dueWindow)]) = true :=
        Flow.play_ends (by decide +kernel)
  have htwice := of_decide_eq_true hmail
  refine ⟨s, hrun, crashFree_of_all (by decide +kernel), htwice, ?_⟩
  intro honce
  have hnodup := honce.mail
  rw [htwice] at hnodup
  exact absurd hnodup (by decide)

end Bulletin
