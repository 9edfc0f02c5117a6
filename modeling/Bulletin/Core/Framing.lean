import Bulletin.Core.Phrases

/-! # Sequences written one after another

What can be read back from a byte string that is the concatenation of framed items: blocks of one
length, or items that each end in a terminator. An item that holds the terminator reads as the
pieces it is cut into.
-/

namespace Framing

variable {α β : Type*}

/-! ## Slices -/

/-- The elements from `lo` to `hi`, if these are in range. -/
def slice (xs : List α) (lo hi : Nat) : Option (List α) :=
  if lo ≤ hi ∧ hi ≤ xs.length then some ((xs.take hi).drop lo) else none

theorem slice_eq {before middle after : List α} {lo hi : Nat} (hlo : before.length = lo)
    (hhi : lo + middle.length = hi) : slice (before ++ (middle ++ after)) lo hi = some middle := by
  subst hlo hhi
  have hlength : before.length + middle.length ≤ (before ++ (middle ++ after)).length := by
    simp only [List.length_append]
    omega
  rw [slice, if_pos ⟨Nat.le_add_right _ _, hlength⟩, ← List.append_assoc,
    List.take_left' List.length_append, List.drop_left]

theorem slice_of_le {xs : List α} {lo len : Nat} (h : lo + len ≤ xs.length) :
    slice xs lo (lo + len) = some ((xs.drop lo).take len) := by
  rw [slice, if_pos ⟨Nat.le_add_right lo len, h⟩, List.drop_take, Nat.add_sub_cancel_left]

/-! ## Blocks of one length -/

theorem flatMap_eq_iff_of_length {f : α → List β} {width : Nat} (hwidth : 0 < width)
    (hf : ∀ a, (f a).length = width) {xs ys : List α} :
    xs.flatMap f = ys.flatMap f ↔ xs.map f = ys.map f := by
  induction xs generalizing ys with
  | nil =>
      cases ys with
      | nil => simp
      | cons y ys =>
          have hne : f y ≠ [] := List.ne_nil_of_length_pos ((hf y).symm ▸ hwidth)
          simp [hne]
  | cons x xs ih =>
      cases ys with
      | nil =>
          have hne : f x ≠ [] := List.ne_nil_of_length_pos ((hf x).symm ▸ hwidth)
          simp [hne]
      | cons y ys =>
          have hlength : (f x).length = (f y).length := (hf x).trans (hf y).symm
          rw [List.flatMap_cons, List.flatMap_cons, List.map_cons, List.map_cons, List.cons.injEq,
            ← ih]
          constructor
          · intro h
            exact List.append_inj h hlength
          · rintro ⟨hhead, htail⟩
            rw [hhead, htail]

/-! ## Terminated items -/

section Terminated

variable {c : α} {items others : List (List α)}

def terminated (c : α) (items : List (List α)) : List α := items.flatMap (· ++ [c])

@[simp] theorem terminated_nil : terminated c ([] : List (List α)) = [] := rfl

@[simp] theorem terminated_cons {w : List α} :
    terminated c (w :: items) = w ++ c :: terminated c items := by
  simp [terminated]

theorem terminated_append :
    terminated c (items ++ others) = terminated c items ++ terminated c others :=
  List.flatMap_append

theorem mem_terminated {a : α} (ha : a ∈ terminated c items) : a = c ∨ ∃ w ∈ items, a ∈ w := by
  obtain ⟨w, hw, hmem⟩ := List.mem_flatMap.mp ha
  rcases List.mem_append.mp hmem with hin | hlast
  · exact Or.inr ⟨w, hw, hin⟩
  · exact Or.inl (List.mem_singleton.mp hlast)

theorem terminated_inj (hitems : ∀ w ∈ items, c ∉ w) (hothers : ∀ w ∈ others, c ∉ w) :
    terminated c items = terminated c others ↔ items = others := by
  refine ⟨fun h => ?_, fun h => h ▸ rfl⟩
  induction items generalizing others with
  | nil =>
      cases others with
      | nil => rfl
      | cons v others => simp at h
  | cons w items ih =>
      cases others with
      | nil => simp at h
      | cons v others =>
          rw [terminated_cons, terminated_cons] at h
          obtain ⟨hhead, htail⟩ := Phrases.firstSep_inj (hitems w List.mem_cons_self)
            (hothers v List.mem_cons_self) h
          have hrest := ih (fun u hu => hitems u (List.mem_cons_of_mem w hu))
            (fun u hu => hothers u (List.mem_cons_of_mem v hu)) htail
          rw [hhead, hrest]

theorem terminated_eq_phrase (hne : items ≠ []) :
    terminated c items = Phrases.phrase c items ++ [c] := by
  induction items with
  | nil => exact absurd rfl hne
  | cons w items ih =>
      cases items with
      | nil => simp
      | cons v items =>
          rw [terminated_cons, ih (List.cons_ne_nil v items), Phrases.phrase_cons_cons,
            List.append_assoc, List.cons_append]

/-! ## Items that hold the terminator -/

variable [DecidableEq α]

/-- The pieces of all items, cut at the terminator. -/
def pieces (c : α) (items : List (List α)) : List (List α) := items.flatMap (List.splitOn c)

theorem notMem_of_mem_splitOn {w piece : List α} (hpiece : piece ∈ w.splitOn c) : c ∉ piece := by
  induction w generalizing piece with
  | nil =>
      rw [List.splitOn_nil, List.mem_singleton] at hpiece
      exact hpiece ▸ List.not_mem_nil
  | cons a w ih =>
      obtain ⟨first, rest, hw⟩ := List.exists_cons_of_ne_nil (List.splitOn_ne_nil c w)
      rw [List.splitOn_cons_eq_if_modifyHead, hw, List.modifyHead_cons] at hpiece
      rw [hw] at ih
      by_cases ha : (a == c) = true
      · rw [if_pos ha] at hpiece
        rcases List.mem_cons.mp hpiece with heq | hin
        · exact heq ▸ List.not_mem_nil
        · exact ih hin
      · rw [if_neg ha] at hpiece
        rcases List.mem_cons.mp hpiece with heq | hin
        · intro hmem
          rcases List.mem_cons.mp (heq ▸ hmem) with hc | hfirst
          · exact ha (beq_iff_eq.mpr hc.symm)
          · exact ih List.mem_cons_self hfirst
        · exact ih (List.mem_cons_of_mem first hin)

theorem notMem_of_mem_pieces {piece : List α} (hpiece : piece ∈ pieces c items) : c ∉ piece := by
  obtain ⟨w, _, hw⟩ := List.mem_flatMap.mp hpiece
  exact notMem_of_mem_splitOn hw

theorem pieces_eq_self (hitems : ∀ w ∈ items, c ∉ w) : pieces c items = items := by
  induction items with
  | nil => rfl
  | cons w items ih =>
      have hrest := ih fun u hu => hitems u (List.mem_cons_of_mem w hu)
      unfold pieces at hrest ⊢
      rw [List.flatMap_cons, hrest, List.splitOn_eq_singleton (hitems w List.mem_cons_self),
        List.singleton_append]

theorem terminated_splitOn {w : List α} : terminated c (w.splitOn c) = w ++ [c] := by
  rw [terminated_eq_phrase (List.splitOn_ne_nil c w)]
  exact congrArg (· ++ [c]) (List.intercalate_splitOn c)

theorem terminated_pieces : terminated c (pieces c items) = terminated c items := by
  induction items with
  | nil => rfl
  | cons w items ih =>
      unfold pieces at ih ⊢
      rw [List.flatMap_cons, terminated_append, terminated_splitOn, ih, terminated_cons,
        List.append_assoc, List.singleton_append]

theorem terminated_eq_iff :
    terminated c items = terminated c others ↔ pieces c items = pieces c others := by
  rw [← terminated_pieces, ← @terminated_pieces _ c others]
  exact terminated_inj (fun _ h => notMem_of_mem_pieces h) fun _ h => notMem_of_mem_pieces h

end Terminated

end Framing
