import Mathlib.Order.Lattice

/-! # Sweeps until nothing changes

A sweep visits the members of a list one after the other and updates a state in place, so a visit
sees what the visits before it did. Sweeps are repeated until one of them changes nothing, some
number of times at most.
-/

namespace Sweep

/-! ## The first greatest -/

section Best

variable {α β : Type}

/-- Keep the entry so far unless the next one is greater. -/
def better (ge : β → β → Bool) (best : Option (α × β)) (entry : α × β) : Option (α × β) :=
  match best with
  | some b => if ge b.2 entry.2 then some b else some entry
  | none => some entry

def firstBest (ge : β → β → Bool) (entries : List (α × β)) : Option (α × β) :=
  entries.foldl (better ge) none

variable [LinearOrder α] [LinearOrder β] {ge : β → β → Bool} {b e : α × β}
  {entries : List (α × β)}

/-- The entry is greatest, and its key the smallest of those that are. -/
def IsBest (entries : List (α × β)) (b : α × β) : Prop :=
  b ∈ entries ∧ ∀ e ∈ entries, e.2 ≤ b.2 ∧ (e.2 = b.2 → b.1 ≤ e.1)

theorem foldl_better (hge : ∀ x y, ge x y = true ↔ y ≤ x)
    (hsorted : (e :: entries).Pairwise fun x y => x.1 < y.1)
    (h : entries.foldl (better ge) (some e) = some b) : IsBest (e :: entries) b := by
  induction entries generalizing e with
  | nil =>
      obtain rfl := Option.some.inj h
      exact ⟨List.mem_cons_self, by simp⟩
  | cons next rest ih =>
      rw [List.foldl_cons, better] at h
      obtain ⟨hfirst, hrest⟩ := List.pairwise_cons.mp hsorted
      by_cases hkeep : ge e.2 next.2 = true
      · rw [if_pos hkeep] at h
        have hle : next.2 ≤ e.2 := (hge _ _).mp hkeep
        have hskip : (e :: rest).Pairwise fun x y => x.1 < y.1 :=
          hsorted.sublist (List.Sublist.cons_cons e (List.sublist_cons_self next rest))
        obtain ⟨hmem, hbest⟩ := ih hskip h
        obtain ⟨hetop, hekey⟩ := hbest e List.mem_cons_self
        refine ⟨?_, ?_⟩
        · rcases List.mem_cons.mp hmem with rfl | hin
          · exact List.mem_cons_self
          · exact List.mem_cons_of_mem _ (List.mem_cons_of_mem _ hin)
        · intro x hx
          rcases List.mem_cons.mp hx with rfl | hx
          · exact ⟨hetop, hekey⟩
          rcases List.mem_cons.mp hx with rfl | hx
          · -- a later entry can tie only with a tie of the entry kept
            refine ⟨hle.trans hetop, fun htie => ?_⟩
            have hsame : e.2 = b.2 := le_antisymm hetop (htie ▸ hle)
            exact (hekey hsame).trans (hfirst x List.mem_cons_self).le
          · exact hbest x (List.mem_cons_of_mem _ hx)
      · rw [if_neg hkeep] at h
        have hlt : e.2 < next.2 := lt_of_not_ge fun hle => hkeep ((hge _ _).mpr hle)
        obtain ⟨hmem, hbest⟩ := ih hrest h
        refine ⟨List.mem_cons_of_mem _ hmem, ?_⟩
        intro x hx
        rcases List.mem_cons.mp hx with rfl | hx
        · have hless : x.2 < b.2 := hlt.trans_le (hbest next List.mem_cons_self).1
          exact ⟨hless.le, fun htie => absurd htie hless.ne⟩
        · exact hbest x hx

theorem firstBest_spec (hge : ∀ x y, ge x y = true ↔ y ≤ x)
    (hsorted : entries.Pairwise fun x y => x.1 < y.1) (hne : entries ≠ []) :
    ∃ b, firstBest ge entries = some b ∧ IsBest entries b := by
  cases entries with
  | nil => exact absurd rfl hne
  | cons e rest =>
      have hsome : ∀ (l : List (α × β)) (x : α × β),
          ∃ b, l.foldl (better ge) (some x) = some b := by
        intro l
        induction l with
        | nil => exact fun x => ⟨x, rfl⟩
        | cons next l ih =>
            intro x
            rw [List.foldl_cons, better]
            split
            · exact ih x
            · exact ih next
      obtain ⟨b, hb⟩ := hsome rest e
      exact ⟨b, hb, foldl_better hge hsorted hb⟩

end Best

/-! ## Sweeps -/

section Sweeps

variable {σ α : Type} (visit : σ → α → Option (σ × Bool))

/-- Visit after visit, and whether one of them changed anything. -/
def sweep : List α → σ → Option (σ × Bool)
  | [], s => some (s, false)
  | x :: xs, s => (visit s x).bind fun first =>
      (sweep xs first.1).map fun last => (last.1, first.2 || last.2)

/-- Sweep after sweep, and whether one that changed nothing was the last. -/
def settle (xs : List α) : Nat → σ → Option (σ × Bool)
  | 0, s => some (s, false)
  | n + 1, s => (sweep visit xs s).bind fun last =>
      if last.2 then settle xs n last.1 else some (last.1, true)

variable {visit} {xs : List α} {s s' : σ} {n : Nat} {Inv : σ → Prop}

theorem sweep_invariant
    (hvisit : ∀ s, ∀ x ∈ xs, Inv s → ∃ s' changed, visit s x = some (s', changed) ∧ Inv s')
    (hs : Inv s) : ∃ s' changed, sweep visit xs s = some (s', changed) ∧ Inv s' := by
  induction xs generalizing s with
  | nil => exact ⟨s, false, rfl, hs⟩
  | cons x xs ih =>
      obtain ⟨s₁, first, hfirst, hs₁⟩ := hvisit s x List.mem_cons_self hs
      obtain ⟨s₂, last, hlast, hs₂⟩ := ih (fun s y hy => hvisit s y (List.mem_cons_of_mem x hy)) hs₁
      refine ⟨s₂, first || last, ?_, hs₂⟩
      rw [sweep, hfirst, Option.bind_some, hlast]
      rfl

theorem settle_invariant
    (hvisit : ∀ s, ∀ x ∈ xs, Inv s → ∃ s' changed, visit s x = some (s', changed) ∧ Inv s')
    (hs : Inv s) : ∃ s' settled, settle visit xs n s = some (s', settled) ∧ Inv s' := by
  induction n generalizing s with
  | zero => exact ⟨s, false, rfl, hs⟩
  | succ n ih =>
      obtain ⟨s₁, changed, hsweep, hs₁⟩ := sweep_invariant hvisit hs
      rw [settle, hsweep, Option.bind_some]
      cases changed with
      | true => exact ih hs₁
      | false => exact ⟨s₁, true, rfl, hs₁⟩

theorem sweep_unchanged (hsame : ∀ s s' x, visit s x = some (s', false) → s' = s)
    (h : sweep visit xs s = some (s', false)) :
    s' = s ∧ ∀ x ∈ xs, visit s x = some (s, false) := by
  induction xs generalizing s with
  | nil =>
      obtain ⟨rfl, _⟩ := Prod.mk.inj (Option.some.inj h)
      exact ⟨rfl, by simp⟩
  | cons x xs ih =>
      rw [sweep] at h
      obtain ⟨⟨s₁, first⟩, hfirst, h⟩ := Option.bind_eq_some_iff.mp h
      obtain ⟨⟨s₂, last⟩, hlast, h⟩ := Option.map_eq_some_iff.mp h
      obtain ⟨rfl, hnone⟩ := Prod.mk.inj h
      obtain ⟨rfl, rfl⟩ := Bool.or_eq_false_iff.mp hnone
      obtain rfl := hsame s s₁ x hfirst
      obtain ⟨rfl, hall⟩ := ih hlast
      exact ⟨rfl, List.forall_mem_cons.mpr ⟨hfirst, hall⟩⟩

/-- Where the sweeps end before their number is up, no visit changes anything any more. -/
theorem settle_settled (hsame : ∀ s s' x, visit s x = some (s', false) → s' = s)
    (h : settle visit xs n s = some (s', true)) : ∀ x ∈ xs, visit s' x = some (s', false) := by
  induction n generalizing s with
  | zero => cases h
  | succ n ih =>
      rw [settle] at h
      obtain ⟨⟨s₁, changed⟩, hsweep, h⟩ := Option.bind_eq_some_iff.mp h
      cases changed with
      | true => exact ih h
      | false =>
          obtain ⟨rfl, _⟩ := Prod.mk.inj (Option.some.inj h)
          obtain ⟨rfl, hall⟩ := sweep_unchanged hsame hsweep
          exact hall

end Sweeps

end Sweep
