import Mathlib.Data.Finset.Max
import Mathlib.Order.Lattice
import Mathlib.Data.List.Basic

/-! # Claiming in turn

Bidders come in order, each with a list of wanted items. A bidder keeps the
least item it wants that no earlier bidder keeps, or nothing. `Keeps` states that rule on
the lists alone; `find?_keeps` is the step that ties it to a loop carrying the
set of items already taken.
-/

namespace Claim

variable {α : Type*} [LinearOrder α]

/-- Bidder `k` keeps `a`: it wants `a`, no earlier bidder keeps `a`, and every
smaller item it wants is kept by an earlier bidder. -/
def Keeps (wants : List (List α)) (k : Nat) (a : α) : Prop :=
  (∃ w, wants[k]? = some w ∧ a ∈ w ∧ ∀ b ∈ w, b < a → ∃ j : Fin k, Keeps wants j b) ∧
    ∀ j : Fin k, ¬ Keeps wants j a
termination_by k

theorem keeps_iff {wants : List (List α)} {k : Nat} {a : α} :
    Keeps wants k a ↔
      (∃ w, wants[k]? = some w ∧ a ∈ w ∧ ∀ b ∈ w, b < a → ∃ j < k, Keeps wants j b) ∧
        ∀ j < k, ¬ Keeps wants j a := by
  rw [Keeps]
  simp only [Fin.exists_iff, Fin.forall_iff, exists_prop]

theorem Keeps.wanted {wants : List (List α)} {k : Nat} {a : α} (h : Keeps wants k a) :
    ∃ w, wants[k]? = some w ∧ a ∈ w := by
  obtain ⟨⟨w, hw, ha, _⟩, _⟩ := keeps_iff.mp h
  exact ⟨w, hw, ha⟩

theorem Keeps.not_smaller {wants : List (List α)} {k : Nat} {a b : α} (ha : Keeps wants k a)
    (hb : Keeps wants k b) : ¬ a < b := by
  intro hlt
  obtain ⟨w, hw, haw⟩ := ha.wanted
  obtain ⟨⟨w', hw', _, hbefore⟩, _⟩ := keeps_iff.mp hb
  obtain rfl : w = w' := Option.some.inj (hw.symm.trans hw')
  obtain ⟨j, hj, hja⟩ := hbefore a haw hlt
  exact (keeps_iff.mp ha).2 j hj hja

theorem Keeps.item_unique {wants : List (List α)} {k : Nat} {a b : α} (ha : Keeps wants k a)
    (hb : Keeps wants k b) : a = b :=
  le_antisymm (not_lt.mp (hb.not_smaller ha)) (not_lt.mp (ha.not_smaller hb))

/-- A bidder that wants an item no earlier bidder keeps does keep something, at most that item. -/
theorem exists_keeps {wants : List (List α)} {k : Nat} {w : List α} {a : α}
    (hw : wants[k]? = some w) (ha : a ∈ w) (hfree : ∀ j < k, ¬ Keeps wants j a) :
    ∃ b ≤ a, Keeps wants k b := by
  classical
  let free : Finset α := w.toFinset.filter fun b => ∀ j < k, ¬ Keeps wants j b
  have hmem : ∀ b, b ∈ free ↔ b ∈ w ∧ ∀ j < k, ¬ Keeps wants j b := by
    intro b
    simp [free]
  have hne : free.Nonempty := ⟨a, (hmem a).mpr ⟨ha, hfree⟩⟩
  refine ⟨free.min' hne, Finset.min'_le free a ((hmem a).mpr ⟨ha, hfree⟩), ?_⟩
  obtain ⟨hin, hmin⟩ := (hmem _).mp (Finset.min'_mem free hne)
  refine keeps_iff.mpr ⟨⟨w, hw, hin, ?_⟩, hmin⟩
  intro b hb hlt
  by_contra hnone
  have hbfree : b ∈ free := (hmem b).mpr ⟨hb, fun j hj hk => hnone ⟨j, hj, hk⟩⟩
  exact absurd (Finset.min'_le free b hbfree) (not_le.mpr hlt)

/-- `taken` holds, of the wanted items, exactly those kept by the first `k` bidders. -/
def TakenBefore (wants : List (List α)) (k : Nat) (taken : α → Prop) : Prop :=
  ∀ a, (∃ w ∈ wants, a ∈ w) → (taken a ↔ ∃ j < k, Keeps wants j a)

theorem takenBefore_zero (wants : List (List α)) : TakenBefore wants 0 fun _ => False := by
  intro a _
  simp

theorem TakenBefore.succ {wants : List (List α)} {k : Nat} {taken taken' : α → Prop}
    (h : TakenBefore wants k taken)
    (hk : ∀ a, (∃ w ∈ wants, a ∈ w) → (taken' a ↔ Keeps wants k a ∨ taken a)) :
    TakenBefore wants (k + 1) taken' := by
  intro a ha
  rw [hk a ha, h a ha]
  constructor
  · intro hor
    rcases hor with hkeep | ⟨j, hj, hkeep⟩
    · exact ⟨k, by omega, hkeep⟩
    · exact ⟨j, by omega, hkeep⟩
  · intro hex
    obtain ⟨j, hj, hkeep⟩ := hex
    by_cases hjk : j = k
    · exact Or.inl (hjk ▸ hkeep)
    · exact Or.inr ⟨j, by omega, hkeep⟩

theorem find?_keeps {wants : List (List α)} {k : Nat} {w : List α} {taken : α → Prop}
    [DecidablePred taken] (hw : wants[k]? = some w) (hsorted : w.Pairwise (· < ·))
    (htaken : TakenBefore wants k taken) (a : α) :
    w.find? (fun b => ¬ taken b) = some a ↔ Keeps wants k a := by
  have hwants : ∀ b ∈ w, (taken b ↔ ∃ j < k, Keeps wants j b) :=
    fun b hb => htaken b ⟨w, List.mem_of_getElem? hw, hb⟩
  constructor
  · intro hfind
    obtain ⟨hfree, before, after, rfl, hbefore⟩ := List.find?_eq_some_iff_append.mp hfind
    have ha : a ∈ before ++ a :: after := by simp
    have hfree' : ¬ taken a := by simpa using hfree
    refine keeps_iff.mpr ⟨⟨_, hw, ha, ?_⟩, fun j hj hk => hfree' ((hwants a ha).mpr ⟨j, hj, hk⟩)⟩
    intro b hb hlt
    have hin : b ∈ before := by
      rcases List.mem_append.mp hb with hb' | hb'
      · exact hb'
      · have hafter := (List.pairwise_append.mp hsorted).2.1
        rcases List.mem_cons.mp hb' with rfl | hb''
        · exact absurd hlt (lt_irrefl b)
        · exact absurd ((List.pairwise_cons.mp hafter).1 b hb'') (lt_asymm hlt)
    have htb : taken b := by simpa using hbefore b hin
    exact (hwants b hb).mp htb
  · intro hk
    obtain ⟨⟨w', hw', ha, hsmaller⟩, hnone⟩ := keeps_iff.mp hk
    obtain rfl : w = w' := Option.some.inj (hw.symm.trans hw')
    obtain ⟨before, after, rfl⟩ := List.append_of_mem ha
    have hfree : ¬ taken a := by
      rw [hwants a ha]
      rintro ⟨j, hj, hkj⟩
      exact hnone j hj hkj
    refine List.find?_eq_some_iff_append.mpr ⟨by simpa using hfree, before, after, rfl, ?_⟩
    intro b hb
    have hlt : b < a := (List.pairwise_append.mp hsorted).2.2 b hb a List.mem_cons_self
    have hbw : b ∈ before ++ a :: after := List.mem_append_left _ hb
    have htb : taken b := (hwants b hbw).mpr (hsmaller b hbw hlt)
    simpa using htb

theorem find?_none_iff {wants : List (List α)} {k : Nat} {w : List α} {taken : α → Prop}
    [DecidablePred taken] (hw : wants[k]? = some w) (hsorted : w.Pairwise (· < ·))
    (htaken : TakenBefore wants k taken) :
    w.find? (fun b => ¬ taken b) = none ↔ ∀ a, ¬ Keeps wants k a := by
  rw [Option.eq_none_iff_forall_ne_some]
  exact forall_congr' fun a => not_congr (find?_keeps hw hsorted htaken a)

end Claim
