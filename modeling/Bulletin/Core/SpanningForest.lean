import Mathlib.Order.Bounds.Basic
import Bulletin.Core.GuardedMerge

/-! # Maximum spanning forests

Links are walked strongest first, and each that joins two classes is recorded with one of its
ends. The weakest recorded link of a class is its best bottleneck: the class is connected by links
at least that strong, and by no stronger ones.
-/

namespace SpanningForest

open GuardedMerge

structure Link (α W : Type*) where
  a : α
  b : α
  weight : W

variable {α W : Type*} {links : List (Link α W)} {P : W → Prop} {l : Link α W}

/-- Nodes joined by a path of links with weights in `P`. -/
def connected (links : List (Link α W)) (P : W → Prop) : Setoid α :=
  Relation.EqvGen.setoid fun x y => ∃ l ∈ links, P l.weight ∧ l.a = x ∧ l.b = y

theorem connected_le_iff {s : Setoid α} :
    connected links P ≤ s ↔ ∀ l ∈ links, P l.weight → s l.a l.b := by
  constructor
  · intro h l hl hP
    exact h (Relation.EqvGen.rel _ _ ⟨l, hl, hP, rfl, rfl⟩)
  · intro h
    refine Setoid.eqvGen_le ?_
    rintro x y ⟨l, hl, hP, rfl, rfl⟩
    exact h l hl hP

theorem connected_link (hl : l ∈ links) (hP : P l.weight) : connected links P l.a l.b :=
  connected_le_iff.mp le_rfl l hl hP

theorem connected_mono {links' : List (Link α W)} {Q : W → Prop}
    (h : ∀ l ∈ links, P l.weight → l ∈ links' ∧ Q l.weight) :
    connected links P ≤ connected links' Q := by
  refine connected_le_iff.mpr ?_
  intro l hl hP
  obtain ⟨hl', hQ⟩ := h l hl hP
  exact connected_link hl' hQ

theorem connected_nil : connected ([] : List (Link α W)) P = ⊥ := by
  refine le_antisymm (connected_le_iff.mpr ?_) bot_le
  intro l hl
  cases hl

theorem connected_false : connected links (fun _ => False) = ⊥ :=
  le_antisymm (connected_le_iff.mpr fun _ _ h => h.elim) bot_le

theorem connected_append (hP : P l.weight) :
    connected (links ++ [l]) P = join (connected links P) l.a l.b := by
  refine le_antisymm (connected_le_iff.mpr ?_) (join_le_iff.mpr ⟨connected_mono ?_, ?_⟩)
  · intro k hk hPk
    rcases List.mem_append.mp hk with hin | hlast
    · exact le_join _ _ _ (connected_link hin hPk)
    · obtain rfl := List.mem_singleton.mp hlast
      exact join_joins _ _ _
  · intro k hk hPk
    exact ⟨List.mem_append_left _ hk, hPk⟩
  · exact connected_link (List.mem_append_right _ List.mem_cons_self) hP

theorem connected_append_of_not (hP : ¬ P l.weight) :
    connected (links ++ [l]) P = connected links P := by
  refine le_antisymm (connected_mono ?_) (connected_mono ?_)
  · intro k hk hPk
    rcases List.mem_append.mp hk with hin | hlast
    · exact ⟨hin, hPk⟩
    · obtain rfl := List.mem_singleton.mp hlast
      exact absurd hPk hP
  · intro k hk hPk
    exact ⟨List.mem_append_left _ hk, hPk⟩

/-! ## The walk -/

variable [LinearOrder W]

/-- What holds after a walk over links, for its partition and the links it recorded. -/
structure Walked (links : List (Link α W)) (same : Setoid α) (taken : List (α × W)) : Prop where
  joined : same = connected links fun _ => True
  /-- The recorded links of a class connect it. -/
  held : ∀ (P : W → Prop) x, (∀ s ∈ taken, same s.1 x → P s.2) →
    ∀ y, same x y → connected links P x y
  /-- No recorded link can be replaced by stronger ones. -/
  needed : ∀ s ∈ taken, ∃ b, same s.1 b ∧ ¬ connected links (s.2 < ·) s.1 b
  weights : ∀ s ∈ taken, ∃ l ∈ links, l.weight = s.2

theorem Walked.nil : Walked ([] : List (Link α W)) ⊥ [] where
  joined := connected_nil.symm
  held := by
    intro P x _ y h
    rw [connected_nil]
    exact h
  needed := by simp
  weights := by simp

section Step

variable {same : Setoid α} {taken : List (α × W)}

theorem Walked.needed_append (h : Walked links same taken)
    (hweak : ∀ k ∈ links, l.weight ≤ k.weight) {s : α × W} (hs : s ∈ taken) {b : α}
    (hneeded : ¬ connected links (s.2 < ·) s.1 b) :
    ¬ connected (links ++ [l]) (s.2 < ·) s.1 b := by
  obtain ⟨k, hk, hweight⟩ := h.weights s hs
  have hbelow : ¬ s.2 < l.weight := by
    rw [← hweight]
    exact not_lt.mpr (hweak k hk)
  rwa [connected_append_of_not hbelow]

theorem Walked.skip (h : Walked links same taken) (hweak : ∀ k ∈ links, l.weight ≤ k.weight)
    (hsame : same l.a l.b) : Walked (links ++ [l]) same taken where
  joined := by
    rw [connected_append trivial, ← h.joined]
    exact le_antisymm (le_join _ _ _) (join_le_iff.mpr ⟨le_rfl, hsame⟩)
  held := by
    intro P x hP y hxy
    exact connected_mono (fun k hk hPk => ⟨List.mem_append_left _ hk, hPk⟩) (h.held P x hP y hxy)
  needed := by
    intro s hs
    obtain ⟨b, hb, hneeded⟩ := h.needed s hs
    exact ⟨b, hb, h.needed_append hweak hs hneeded⟩
  weights := by
    intro s hs
    obtain ⟨k, hk, hweight⟩ := h.weights s hs
    exact ⟨k, List.mem_append_left _ hk, hweight⟩

theorem Walked.take (h : Walked links same taken) (hweak : ∀ k ∈ links, l.weight ≤ k.weight)
    (hapart : ¬ same l.a l.b) :
    Walked (links ++ [l]) (join same l.a l.b) (taken ++ [(l.a, l.weight)]) where
  joined := by rw [connected_append trivial, ← h.joined]
  held := by
    intro P x hP y hxy
    have hclass : ∀ z, join same l.a l.b z x → ∀ z', same z z' →
        connected (links ++ [l]) P z z' := by
      intro z hz z' hzz
      refine connected_mono (fun k hk hPk => ⟨List.mem_append_left _ hk, hPk⟩)
        (h.held P z ?_ z' hzz)
      intro s hs hsz
      exact hP s (List.mem_append_left _ hs) (Setoid.trans' _ (le_join _ _ _ hsz) hz)
    have hlink : join same l.a l.b l.a x → connected (links ++ [l]) P l.a l.b := by
      intro ha
      refine connected_link (List.mem_append_right _ List.mem_cons_self) ?_
      exact hP (l.a, l.weight) (List.mem_append_right _ List.mem_cons_self) ha
    have hab := join_joins same l.a l.b
    rcases join_iff.mp hxy with hin | ⟨hxa, hby⟩ | ⟨hxb, hay⟩
    · exact hclass x (Setoid.refl' _ x) y hin
    · have ha : join same l.a l.b l.a x := Setoid.symm' _ (le_join _ _ _ hxa)
      have hb : join same l.a l.b l.b x := Setoid.trans' _ (Setoid.symm' _ hab) ha
      exact Setoid.trans' _ (hclass x (Setoid.refl' _ x) _ hxa)
        (Setoid.trans' _ (hlink ha) (hclass _ hb y hby))
    · have hb : join same l.a l.b l.b x := Setoid.symm' _ (le_join _ _ _ hxb)
      have ha : join same l.a l.b l.a x := Setoid.trans' _ hab hb
      exact Setoid.trans' _ (hclass x (Setoid.refl' _ x) _ hxb)
        (Setoid.trans' _ (Setoid.symm' _ (hlink ha)) (hclass _ ha y hay))
  needed := by
    intro s hs
    rcases List.mem_append.mp hs with hold | hlast
    · obtain ⟨b, hb, hneeded⟩ := h.needed s hold
      exact ⟨b, le_join _ _ _ hb, h.needed_append hweak hold hneeded⟩
    · obtain rfl := List.mem_singleton.mp hlast
      refine ⟨l.b, join_joins _ _ _, ?_⟩
      intro hcon
      rw [connected_append_of_not (lt_irrefl _)] at hcon
      refine hapart ?_
      rw [h.joined]
      exact connected_mono (fun k hk _ => ⟨hk, trivial⟩) hcon
  weights := by
    intro s hs
    rcases List.mem_append.mp hs with hold | hlast
    · obtain ⟨k, hk, hweight⟩ := h.weights s hold
      exact ⟨k, List.mem_append_left _ hk, hweight⟩
    · obtain rfl := List.mem_singleton.mp hlast
      exact ⟨l, List.mem_append_right _ List.mem_cons_self, rfl⟩

/-! ## Bottlenecks -/

theorem Walked.alone (h : Walked links same taken) {x : α} (hnone : ∀ s ∈ taken, ¬ same s.1 x)
    {y : α} (hxy : same x y) : x = y := by
  have hbot := h.held (fun _ => False) x (fun s hs hsame => hnone s hs hsame) y hxy
  rw [connected_false] at hbot
  exact hbot

theorem Walked.isGreatest (h : Walked links same taken) {x : α} {s : α × W} (hs : s ∈ taken)
    (hsx : same s.1 x) (hleast : ∀ r ∈ taken, same r.1 x → s.2 ≤ r.2) :
    IsGreatest {w | ∀ y, same x y → connected links (w ≤ ·) x y} s.2 := by
  refine ⟨fun y hxy => h.held (s.2 ≤ ·) x hleast y hxy, ?_⟩
  intro w hw
  obtain ⟨b, hb, hneeded⟩ := h.needed s hs
  by_contra hlt
  refine hneeded ?_
  have habove : connected links (w ≤ ·) ≤ connected links (s.2 < ·) :=
    connected_mono fun k hk hwk => ⟨hk, lt_of_lt_of_le (not_le.mp hlt) hwk⟩
  have hx := hw s.1 (Setoid.symm' _ hsx)
  have hxb := hw b (Setoid.trans' _ (Setoid.symm' _ hsx) hb)
  exact habove (Setoid.trans' _ (Setoid.symm' _ hx) hxb)

theorem Walked.not_alone (h : Walked links same taken) {x : α} {s : α × W} (hs : s ∈ taken)
    (hsx : same s.1 x) : ∃ y, same x y ∧ x ≠ y := by
  obtain ⟨b, hb, hneeded⟩ := h.needed s hs
  by_contra hnone
  push Not at hnone
  refine hneeded ?_
  rw [← hnone s.1 (Setoid.symm' _ hsx), ← hnone b (Setoid.trans' _ (Setoid.symm' _ hsx) hb)]

end Step

end SpanningForest
