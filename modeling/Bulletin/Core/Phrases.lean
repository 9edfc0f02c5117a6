import Mathlib.Data.List.Infix
import Mathlib.Data.List.Intervals

/-! # Phrases in a text

Words joined by one separator. With a separator at both ends, containment of such texts is
containment of their sequences of words: no word is cut.
-/

namespace Phrases

variable {α : Type*} {c : α} {w v : List α} {ws hs : List (List α)}

def phrase (c : α) (ws : List (List α)) : List α := [c].intercalate ws

def padded (c : α) (ws : List (List α)) : List α := c :: phrase c ws ++ [c]

@[simp] theorem phrase_nil : phrase c ([] : List (List α)) = [] := rfl

@[simp] theorem phrase_singleton : phrase c [w] = w := by simp [phrase]

theorem phrase_cons_cons : phrase c (w :: v :: ws) = w ++ c :: phrase c (v :: ws) := by
  simp [phrase, List.intercalate_cons_cons]

theorem phrase_concat (hne : ws ≠ []) : phrase c (ws ++ [w]) = phrase c ws ++ c :: w := by
  induction ws with
  | nil => exact absurd rfl hne
  | cons v ws ih =>
      cases ws with
      | nil => simp [phrase_cons_cons]
      | cons u ws =>
          have hrest := ih (List.cons_ne_nil u ws)
          rw [List.cons_append] at hrest
          rw [List.cons_append, List.cons_append, phrase_cons_cons, phrase_cons_cons, hrest,
            List.append_assoc, List.cons_append]

theorem phrase_concat_append : phrase c (ws ++ [w ++ v]) = phrase c (ws ++ [w]) ++ v := by
  by_cases hne : ws = []
  · rw [hne, List.nil_append, List.nil_append, phrase_singleton, phrase_singleton]
  · rw [phrase_concat hne, phrase_concat hne, List.append_assoc, List.cons_append]

theorem phrase_eq_nil (hws : ∀ w ∈ ws, w ≠ []) : phrase c ws = [] ↔ ws = [] := by
  refine ⟨fun h => ?_, fun h => h ▸ rfl⟩
  cases ws with
  | nil => rfl
  | cons w ws =>
      have hw : w ≠ [] := hws w List.mem_cons_self
      cases ws with
      | nil => exact absurd (by simpa using h) hw
      | cons v ws => simp [phrase_cons_cons] at h

theorem map_phrase {f : α → α} (hf : ∀ w ∈ ws, ∀ x ∈ w, f x = x) :
    (phrase c ws).map f = phrase (f c) ws := by
  induction ws with
  | nil => rfl
  | cons w ws ih =>
      have hw : w.map f = w := (List.map_congr_left (hf w List.mem_cons_self)).trans w.map_id
      have hrest := ih fun v hv => hf v (List.mem_cons_of_mem w hv)
      cases ws with
      | nil => simpa using hw
      | cons v ws => rw [phrase_cons_cons, phrase_cons_cons, List.map_append, List.map_cons, hw, hrest]

/-! ## Words inside words -/

theorem firstSep_inj {x y : List α} (hw : c ∉ w) (hv : c ∉ v) (h : w ++ c :: x = v ++ c :: y) :
    w = v ∧ x = y := by
  induction w generalizing v with
  | nil =>
      cases v with
      | nil => exact ⟨rfl, (List.cons.inj h).2⟩
      | cons b v => exact absurd (by simp [(List.cons.inj h).1]) hv
  | cons a w ih =>
      cases v with
      | nil => exact absurd (by simp [← (List.cons.inj h).1]) hw
      | cons b v =>
          obtain ⟨rfl, hrest⟩ := List.cons.inj h
          obtain ⟨rfl, hxy⟩ := ih (fun hc => hw (List.mem_cons_of_mem a hc))
            (fun hc => hv (List.mem_cons_of_mem a hc)) hrest
          exact ⟨rfl, hxy⟩

def blocks (c : α) (ws : List (List α)) : List α := ws.flatMap (c :: ·) ++ [c]

theorem blocks_cons : blocks c (w :: ws) = c :: (w ++ blocks c ws) := by simp [blocks]

theorem exists_blocks (c : α) (ws : List (List α)) : ∃ rest, blocks c ws = c :: rest := by
  cases ws with
  | nil => exact ⟨[], rfl⟩
  | cons w ws => exact ⟨w ++ blocks c ws, blocks_cons⟩

theorem padded_eq_blocks (hne : ws ≠ []) : padded c ws = blocks c ws := by
  induction ws with
  | nil => exact absurd rfl hne
  | cons w ws ih =>
      cases ws with
      | nil => simp [padded, blocks]
      | cons v ws =>
          rw [blocks_cons, ← ih (List.cons_ne_nil v ws)]
          simp [padded, phrase_cons_cons]

theorem blocks_prefix (hws : ∀ w ∈ ws, c ∉ w) (hhs : ∀ w ∈ hs, c ∉ w) :
    blocks c ws <+: blocks c hs ↔ ws <+: hs := by
  induction ws generalizing hs with
  | nil =>
      obtain ⟨rest, hrest⟩ := exists_blocks c hs
      rw [hrest]
      simp [blocks]
  | cons w ws ih =>
      obtain ⟨more, hmore⟩ := exists_blocks c ws
      cases hs with
      | nil =>
          refine iff_of_false ?_ (by simp)
          intro h
          have hlen := h.length_le
          rw [blocks_cons, hmore] at hlen
          simp [blocks] at hlen
      | cons v hs =>
          obtain ⟨rest, hrest⟩ := exists_blocks c hs
          have hih : blocks c ws <+: blocks c hs ↔ ws <+: hs :=
            ih (fun u hu => hws u (List.mem_cons_of_mem w hu))
              fun u hu => hhs u (List.mem_cons_of_mem v hu)
          rw [blocks_cons, blocks_cons, List.cons_prefix_cons, List.cons_prefix_cons, ← hih]
          constructor
          · rintro ⟨_, tail, htail⟩
            rw [hmore, hrest, List.append_assoc, List.cons_append] at htail
            obtain ⟨rfl, hrests⟩ :=
              firstSep_inj (hws w List.mem_cons_self) (hhs v List.mem_cons_self) htail
            refine ⟨rfl, tail, ?_⟩
            rw [hmore, hrest, List.cons_append, hrests]
          · rintro ⟨rfl, hprefix⟩
            exact ⟨rfl, (List.prefix_append_right_inj w).mpr hprefix⟩

theorem infix_of_infix_append {x y : List α} (hw : c ∉ w) (h : c :: x <:+: w ++ y) :
    c :: x <:+: y := by
  induction w with
  | nil => exact h
  | cons a w ih =>
      rw [List.cons_append, List.infix_cons_iff] at h
      rcases h with hstart | hlater
      · exact absurd (by simp [(List.cons_prefix_cons.mp hstart).1]) hw
      · exact ih (fun hc => hw (List.mem_cons_of_mem a hc)) hlater

theorem blocks_infix (hws : ∀ w ∈ ws, c ∉ w) (hhs : ∀ w ∈ hs, c ∉ w) (hne : ws ≠ []) :
    blocks c ws <:+: blocks c hs ↔ ws <:+: hs := by
  induction hs with
  | nil =>
      refine iff_of_false ?_ (by simpa using hne)
      intro h
      cases ws with
      | nil => exact hne rfl
      | cons w ws =>
          have hlen := h.length_le
          obtain ⟨more, hmore⟩ := exists_blocks c ws
          rw [blocks_cons, hmore] at hlen
          simp [blocks] at hlen
  | cons v hs ih =>
      have hih := ih fun u hu => hhs u (List.mem_cons_of_mem v hu)
      rw [List.infix_cons_iff, ← blocks_prefix hws hhs, ← hih, blocks_cons, List.infix_cons_iff]
      refine or_congr Iff.rfl ?_
      constructor
      · intro h
        obtain ⟨rest, hrest⟩ := exists_blocks c ws
        rw [hrest] at h ⊢
        exact infix_of_infix_append (hhs v List.mem_cons_self) h
      · intro h
        exact h.trans (List.suffix_append v _).isInfix

/-- A padded phrase is inside another one exactly if its words are a run of the other's. -/
theorem padded_infix (hws : ∀ w ∈ ws, c ∉ w) (hhs : ∀ w ∈ hs, c ∉ w) (hphrase : phrase c ws ≠ []) :
    padded c ws <:+: padded c hs ↔ ws <:+: hs := by
  have hne : ws ≠ [] := by
    rintro rfl
    exact hphrase rfl
  cases hs with
  | nil =>
      refine iff_of_false ?_ (by simpa using hne)
      intro h
      have hpos := List.length_pos_iff.mpr hphrase
      have hlen := h.length_le
      have hpadded : (padded c ws).length = (phrase c ws).length + 2 := by simp [padded]
      have hempty : (padded c ([] : List (List α))).length = 2 := rfl
      omega
  | cons v hs =>
      rw [padded_eq_blocks hne, padded_eq_blocks (List.cons_ne_nil v hs)]
      exact blocks_infix hws hhs hne

end Phrases
