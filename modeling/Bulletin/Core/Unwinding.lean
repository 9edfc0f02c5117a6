import Bulletin.Core.Run

/-! # Two runs that look the same

Some actions of a system are hidden from an observer. A relation between states that the
hidden actions keep on either side, and the visible ones when both runs take them, relates
the ends of any two runs with the same visible actions.
-/

namespace Run

variable {σ α : Type*}

/-- What an observer who does not see the hidden actions can hold two states for one by. -/
structure Unwinding (step : σ → α → σ → Prop) (visible : α → Bool)
    (alike : σ → σ → Prop) : Prop where
  symm : ∀ s t, alike s t → alike t s
  hidden : ∀ s a s' t, step s a s' → visible a = false → alike s t → alike s' t
  seen : ∀ s t a s' t', step s a s' → step t a t' → visible a = true → alike s t → alike s' t'

/-- What the observer sees of a run. -/
def observed (visible : α → Bool) (ts : List (Transition σ α)) : List α :=
  (ts.map (·.action)).filter visible

variable {step : σ → α → σ → Prop} {visible : α → Bool} {alike : σ → σ → Prop}
  {s₀ t₀ s t : σ} {ts us : List (Transition σ α)} {x : Transition σ α}

theorem observed_snoc_hidden (h : visible x.action = false) :
    observed visible (ts ++ [x]) = observed visible ts := by
  simp [observed, h]

theorem observed_snoc_seen (h : visible x.action = true) :
    observed visible (ts ++ [x]) = observed visible ts ++ [x.action] := by
  simp [observed, h]

theorem Unwinding.unseen (h : Unwinding step visible alike) (hinit : alike t₀ s)
    (hrun : Runs step t₀ us t) (hus : observed visible us = []) : alike t s := by
  induction hrun with
  | nil => exact hinit
  | @snoc us m t' a _ hstep ih =>
      cases ha : visible a with
      | false =>
          rw [observed_snoc_hidden (x := ⟨m, a, t'⟩) ha] at hus
          exact h.hidden m a t' s hstep ha (ih hus)
      | true =>
          rw [observed_snoc_seen (x := ⟨m, a, t'⟩) ha] at hus
          simp at hus

/-- A run that ends in a visible action catches up with one that takes the same action next. -/
theorem Unwinding.catchUp (h : Unwinding step visible alike) {a : α} {s' : σ} {seen : List α}
    (hstep : step s a s') (ha : visible a = true)
    (hbefore : ∀ us t, Runs step t₀ us t → observed visible us = seen → alike s t)
    (hrun : Runs step t₀ us t) (hus : observed visible us = seen ++ [a]) : alike s' t := by
  induction hrun with
  | nil => simp [observed] at hus
  | @snoc us m t' b hpre hlast ih =>
      cases hb : visible b with
      | false =>
          rw [observed_snoc_hidden (x := ⟨m, b, t'⟩) hb] at hus
          exact h.symm _ _ (h.hidden m b t' s' hlast hb (h.symm _ _ (ih hus)))
      | true =>
          rw [observed_snoc_seen (x := ⟨m, b, t'⟩) hb] at hus
          obtain ⟨hseen, hact⟩ := List.append_inj' hus rfl
          obtain rfl : b = a := List.singleton_injective hact
          exact h.seen s m b s' t' hstep hlast ha (hbefore us m hpre hseen)

theorem Unwinding.noninterference (h : Unwinding step visible alike) (hinit : alike s₀ t₀)
    (hs : Runs step s₀ ts s) (ht : Runs step t₀ us t)
    (hsame : observed visible ts = observed visible us) : alike s t := by
  induction hs generalizing us t with
  | nil => exact h.symm _ _ (h.unseen (h.symm _ _ hinit) ht hsame.symm)
  | @snoc ts m s' a _ hstep ih =>
      cases ha : visible a with
      | false =>
          rw [observed_snoc_hidden (x := ⟨m, a, s'⟩) ha] at hsame
          exact h.hidden m a s' t hstep ha (ih ht hsame)
      | true =>
          rw [observed_snoc_seen (x := ⟨m, a, s'⟩) ha] at hsame
          exact h.catchUp hstep ha (fun us t hus heq => ih hus heq.symm) ht hsame.symm

end Run
