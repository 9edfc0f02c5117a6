import Mathlib.Data.List.TakeWhile
import Mathlib.Algebra.BigOperators.Group.List.Basic
import Mathlib.Algebra.GroupWithZero.Nat

/-! # Texts as lists of characters

Byte offsets into UTF-8, the words between separators, and texts that are trimmed, filtered
or rewritten word by word.
-/

namespace Text

/-! ## Byte offsets -/

def byteLen (s : List Char) : Nat := (s.map Char.utf8Size).sum

def splitAtByte : Nat → List Char → Option (List Char × List Char)
  | 0, s => some ([], s)
  | _ + 1, [] => none
  | n + 1, c :: s =>
      if c.utf8Size ≤ n + 1 then
        (splitAtByte (n + 1 - c.utf8Size) s).map fun p => (c :: p.1, p.2)
      else none

/-- The bytes from `start` to `stop`, if these are boundaries in order. -/
def byteSlice (s : List Char) (start stop : Nat) : Option (List Char) :=
  if start ≤ stop then
    (splitAtByte stop s).bind fun p => (splitAtByte start p.1).map (·.2)
  else none

section Bytes

variable {a b c s : List Char}

@[simp] theorem byteLen_nil : byteLen [] = 0 := rfl

@[simp] theorem byteLen_append : byteLen (a ++ b) = byteLen a + byteLen b := by
  simp [byteLen]

theorem byteLen_pos (h : s ≠ []) : 0 < byteLen s := by
  cases s with
  | nil => exact absurd rfl h
  | cons x xs =>
      have hx := x.utf8Size_pos
      simp only [byteLen, List.map_cons, List.sum_cons]
      omega

theorem splitAtByte_byteLen : splitAtByte (byteLen a) (a ++ b) = some (a, b) := by
  induction a with
  | nil => simp [splitAtByte]
  | cons x xs ih =>
      have hx := x.utf8Size_pos
      have hlen : byteLen (x :: xs) = x.utf8Size + byteLen xs := by simp [byteLen]
      obtain ⟨n, hn⟩ : ∃ n, byteLen (x :: xs) = n + 1 := ⟨byteLen (x :: xs) - 1, by omega⟩
      have hrest : n + 1 - x.utf8Size = byteLen xs := by omega
      rw [hn, List.cons_append, splitAtByte, if_pos (by omega), hrest, ih]
      rfl

theorem byteSlice_mid :
    byteSlice (a ++ b ++ c) (byteLen a) (byteLen a + byteLen b) = some b := by
  unfold byteSlice
  rw [if_pos (by omega), ← byteLen_append, splitAtByte_byteLen, Option.bind_some,
    splitAtByte_byteLen]
  rfl

theorem byteSlice_take {n : Nat} (h : byteLen (s.take n) = n) :
    byteSlice s 0 n = some (s.take n) := by
  have hmid : byteSlice ([] ++ s.take n ++ s.drop n) 0 (0 + byteLen (s.take n)) = some (s.take n) :=
    byteSlice_mid
  rwa [List.nil_append, List.take_append_drop, h, Nat.zero_add] at hmid

theorem byteSlice_drop {n : Nat} (h : byteLen (s.take n) = n) :
    byteSlice s n (byteLen s) = some (s.drop n) := by
  have hmid : byteSlice (s.take n ++ s.drop n ++ []) (byteLen (s.take n))
      (byteLen (s.take n) + byteLen (s.drop n)) = some (s.drop n) := byteSlice_mid
  rwa [List.append_nil, ← byteLen_append, List.take_append_drop, h] at hmid

theorem splitAtByte_spec {n : Nat} (h : splitAtByte n s = some (a, b)) :
    s = a ++ b ∧ byteLen a = n := by
  induction s generalizing n a with
  | nil =>
      cases n with
      | zero =>
          obtain ⟨rfl, rfl⟩ : [] = a ∧ [] = b := by simpa [splitAtByte] using h
          exact ⟨rfl, rfl⟩
      | succ n => cases h
  | cons c s ih =>
      cases n with
      | zero =>
          obtain ⟨rfl, rfl⟩ : [] = a ∧ c :: s = b := by simpa [splitAtByte] using h
          exact ⟨rfl, rfl⟩
      | succ n =>
          unfold splitAtByte at h
          split at h
          · rename_i hle
            obtain ⟨⟨a', b'⟩, hrest, heq⟩ := Option.map_eq_some_iff.mp h
            obtain ⟨rfl, rfl⟩ := Prod.mk.inj heq
            obtain ⟨rfl, hlen⟩ := ih hrest
            refine ⟨rfl, ?_⟩
            simp only [byteLen, List.map_cons, List.sum_cons] at hlen ⊢
            omega
          · cases h

theorem byteSlice_spec {start stop : Nat} (h : byteSlice s start stop = some b) :
    ∃ a c, s = a ++ b ++ c ∧ byteLen a = start ∧ byteLen (a ++ b) = stop := by
  unfold byteSlice at h
  split at h
  · obtain ⟨⟨front, c⟩, hstop, hstart⟩ := Option.bind_eq_some_iff.mp h
    obtain ⟨⟨a, b'⟩, hcut, rfl⟩ := Option.map_eq_some_iff.mp hstart
    obtain ⟨rfl, hlen⟩ := splitAtByte_spec hstop
    obtain ⟨rfl, ha⟩ := splitAtByte_spec hcut
    exact ⟨a, c, rfl, ha, hlen⟩
  · cases h

theorem byteSlice_of_lt {start stop : Nat} (h : stop < start) : byteSlice s start stop = none := by
  unfold byteSlice
  exact if_neg (by omega)

end Bytes

/-! ## Trimming -/

def trimMatches (p : Char → Bool) (s : List Char) : List Char :=
  ((s.dropWhile p).reverse.dropWhile p).reverse

section Trim

variable {p : Char → Bool} {s lead core trail : List Char}

structure Trimmed (p : Char → Bool) (core : List Char) : Prop where
  head : ∀ c ∈ core.head?, p c = false
  last : ∀ c ∈ core.getLast?, p c = false

theorem head_dropWhile {c : Char} {rest : List Char} (h : s.dropWhile p = c :: rest) :
    p c = false := by
  have hstop := List.head?_dropWhile_not p s
  rwa [h] at hstop

theorem dropWhile_lead (hlead : ∀ c ∈ lead, p c = true) (hhead : ∀ c ∈ core.head?, p c = false) :
    (lead ++ core).dropWhile p = core := by
  induction lead with
  | nil =>
      cases core with
      | nil => rfl
      | cons c cs =>
          have hc : p c = false := hhead c rfl
          simp [hc]
  | cons c cs ih =>
      rw [List.cons_append, List.dropWhile_cons_of_pos (hlead c List.mem_cons_self)]
      exact ih fun x hx => hlead x (List.mem_cons_of_mem c hx)

theorem takeWhile_lead (hlead : ∀ c ∈ lead, p c = true) (hhead : ∀ c ∈ core.head?, p c = false) :
    (lead ++ core).takeWhile p = lead := by
  have hsplit : (lead ++ core).takeWhile p ++ (lead ++ core).dropWhile p = lead ++ core :=
    List.takeWhile_append_dropWhile
  rw [dropWhile_lead hlead hhead] at hsplit
  exact List.append_cancel_right hsplit

theorem dropWhile_trail (htrail : ∀ c ∈ trail, p c = true)
    (hlast : ∀ c ∈ core.getLast?, p c = false) :
    ((core ++ trail).reverse.dropWhile p).reverse = core := by
  rw [List.reverse_append, dropWhile_lead (by simpa using htrail) (by simpa using hlast),
    List.reverse_reverse]

theorem takeWhile_trail (htrail : ∀ c ∈ trail, p c = true)
    (hlast : ∀ c ∈ core.getLast?, p c = false) :
    ((core ++ trail).reverse.takeWhile p).reverse = trail := by
  rw [List.reverse_append, takeWhile_lead (by simpa using htrail) (by simpa using hlast),
    List.reverse_reverse]

/-- A text with a character outside of `p` is its core between two stretches of `p`. -/
theorem exists_core (h : ∃ c ∈ s, p c = false) : ∃ lead core trail, s = lead ++ core ++ trail ∧
    (∀ c ∈ lead, p c = true) ∧ (∀ c ∈ trail, p c = true) ∧ core ≠ [] ∧ Trimmed p core := by
  have hdrop : ∀ l : List Char, (∃ c ∈ l, p c = false) → ∃ lead rest, l = lead ++ rest ∧
      (∀ c ∈ lead, p c = true) ∧ rest ≠ [] ∧ ∀ c ∈ rest.head?, p c = false := by
    intro l hl
    refine ⟨l.takeWhile p, l.dropWhile p, List.takeWhile_append_dropWhile.symm, ?_, ?_, ?_⟩
    · intro c hc
      exact List.mem_takeWhile_imp hc
    · intro hnil
      obtain ⟨c, hc, hp⟩ := hl
      simpa [hp] using List.dropWhile_eq_nil_iff.mp hnil c hc
    · intro c hc
      cases hrest : l.dropWhile p with
      | nil => simp [hrest] at hc
      | cons x xs =>
          obtain rfl : x = c := by simpa [hrest] using hc
          exact head_dropWhile hrest
  obtain ⟨lead, rest, rfl, hlead, hne, hhead⟩ := hdrop s h
  have hback : ∃ c ∈ rest.reverse, p c = false := by
    cases rest with
    | nil => exact absurd rfl hne
    | cons x xs => exact ⟨x, by simp, hhead x rfl⟩
  obtain ⟨trail, core, heq, htrail, hcore, hlast⟩ := hdrop rest.reverse hback
  have hrest : rest = core.reverse ++ trail.reverse := by
    rw [← List.reverse_append, ← heq, List.reverse_reverse]
  refine ⟨lead, core.reverse, trail.reverse, by rw [hrest, List.append_assoc],
    hlead, ?_, ?_, ?_, ?_⟩
  · simpa using htrail
  · simpa using hcore
  · intro c hc
    refine hhead c ?_
    rw [hrest, List.head?_append_of_ne_nil _ (by simpa using hcore)]
    exact hc
  · simpa using hlast

theorem trimMatches_core (hlead : ∀ c ∈ lead, p c = true) (htrail : ∀ c ∈ trail, p c = true)
    (hne : core ≠ []) (hcore : Trimmed p core) : trimMatches p (lead ++ core ++ trail) = core := by
  have hhead : ∀ c ∈ (core ++ trail).head?, p c = false := by
    rw [List.head?_append_of_ne_nil _ hne]
    exact hcore.head
  unfold trimMatches
  rw [List.append_assoc, dropWhile_lead hlead hhead, dropWhile_trail htrail hcore.last]

theorem trimMatches_all (h : ∀ c ∈ s, p c = true) : trimMatches p s = [] := by
  unfold trimMatches
  rw [List.dropWhile_eq_nil_iff.mpr h]
  rfl

theorem trimMatches_idem : trimMatches p (trimMatches p s) = trimMatches p s := by
  by_cases hall : ∀ c ∈ s, p c = true
  · rw [trimMatches_all hall]
    rfl
  · push Not at hall
    obtain ⟨lead, core, trail, rfl, hlead, htrail, hne, hcore⟩ :=
      exists_core (hall.imp fun c hc => ⟨hc.1, by simpa using hc.2⟩)
    rw [trimMatches_core hlead htrail hne hcore]
    have hbare : trimMatches p ([] ++ core ++ []) = core :=
      trimMatches_core (by simp) (by simp) hne hcore
    simpa using hbare

theorem infix_trimMatches (hne : core ≠ []) (hcore : Trimmed p core) (h : core <:+: s) :
    core <:+: trimMatches p s := by
  obtain ⟨lead, trail, rfl⟩ := h
  have hhead : ∀ c ∈ (core ++ trail).head?, p c = false := by
    rw [List.head?_append_of_ne_nil _ hne]
    exact hcore.head
  have hkeep : ∀ {l rest : List Char}, (∀ c ∈ rest.head?, p c = false) →
      (l ++ rest).dropWhile p = l.dropWhile p ++ rest := by
    intro l rest hrest
    have hrest' : ([] ++ rest).dropWhile p = rest := dropWhile_lead (by simp) hrest
    rw [List.nil_append] at hrest'
    rw [List.dropWhile_append, hrest']
    split
    · rename_i hnil
      rw [List.isEmpty_iff.mp hnil]
      rfl
    · rfl
  have hback : ∀ c ∈ (core.reverse ++ (lead.dropWhile p).reverse).head?, p c = false := by
    rw [List.head?_append_of_ne_nil _ (by simpa using hne), List.head?_reverse]
    exact hcore.last
  have hfront : (lead ++ core ++ trail).dropWhile p = lead.dropWhile p ++ core ++ trail := by
    rw [List.append_assoc, hkeep hhead, List.append_assoc]
  unfold trimMatches
  rw [hfront, List.reverse_append, List.reverse_append, hkeep hback]
  exact ⟨lead.dropWhile p, (trail.reverse.dropWhile p).reverse, by simp⟩

end Trim

/-! ## Words -/

/-- The maximal stretches without a separator. -/
def words (sep : Char → Bool) (s : List Char) : List (List Char) :=
  (s.splitOnP sep).filter (· ≠ [])

/-- A text with its words rewritten and its separators as they are; `word` is the word so far. -/
def mapWords (sep : Char → Bool) (f : List Char → List Char) (word : List Char) :
    List Char → List Char
  | [] => if word = [] then [] else f word
  | c :: s =>
      if sep c then (if word = [] then [] else f word) ++ c :: mapWords sep f [] s
      else mapWords sep f (word ++ [c]) s

section Words

variable {sep p : Char → Bool} {f : List Char → List Char} {s t w : List Char} {c : Char}

theorem sepInduction (sep : Char → Bool) {motive : List Char → Prop}
    (whole : ∀ w, (∀ c ∈ w, sep c = false) → motive w)
    (cut : ∀ w c s, (∀ c ∈ w, sep c = false) → sep c = true → motive s → motive (w ++ c :: s))
    (s : List Char) : motive s := by
  induction hn : s.length using Nat.strong_induction_on generalizing s with
  | _ n ih =>
      by_cases hsep : ∃ c ∈ s, sep c = true
      · have hword : ∀ c ∈ s.takeWhile (fun c => !sep c), sep c = false := by
          intro c hc
          simpa using List.mem_takeWhile_imp hc
        have heq : s.takeWhile (fun c => !sep c) ++ s.dropWhile (fun c => !sep c) = s :=
          List.takeWhile_append_dropWhile
        cases hrest : s.dropWhile (fun c => !sep c) with
        | nil =>
            obtain ⟨c, hc, hp⟩ := hsep
            simpa [hp] using List.dropWhile_eq_nil_iff.mp hrest c hc
        | cons c rest =>
            have hc : sep c = true := by
              simpa using head_dropWhile hrest
            rw [hrest] at heq
            rw [← heq]
            refine cut _ c rest hword hc (ih rest.length ?_ rest rfl)
            rw [← hn, ← heq, List.length_append, List.length_cons]
            omega
      · exact whole s fun c hc => by simpa using fun h => hsep ⟨c, hc, h⟩

theorem words_whole (h : ∀ c ∈ w, sep c = false) : words sep w = if w = [] then [] else [w] := by
  unfold words
  rw [List.splitOnP_eq_singleton h]
  by_cases hw : w = [] <;> simp [hw]

theorem words_cut (h : sep c = true) : words sep (s ++ c :: t) = words sep s ++ words sep t := by
  unfold words
  rw [List.splitOnP_append_cons s t h, List.filter_append]

theorem mapWords_word (h : ∀ c ∈ s, sep c = false) :
    mapWords sep f w s = if w ++ s = [] then [] else f (w ++ s) := by
  induction s generalizing w with
  | nil => simp [mapWords]
  | cons c s ih =>
      have hc : sep c = false := h c List.mem_cons_self
      rw [mapWords, if_neg (by simp [hc]), ih fun x hx => h x (List.mem_cons_of_mem c hx)]
      simp

theorem mapWords_whole (h : ∀ c ∈ w, sep c = false) :
    mapWords sep f [] w = if w = [] then [] else f w := mapWords_word h

theorem mapWords_cut (h : sep c = true) :
    mapWords sep f w (s ++ c :: t) = mapWords sep f w s ++ c :: mapWords sep f [] t := by
  induction s generalizing w with
  | nil => simp [mapWords, h]
  | cons x s ih =>
      rw [List.cons_append, mapWords, mapWords]
      split
      · rw [ih, List.append_assoc, List.cons_append]
      · exact ih

theorem words_space {space : List Char} (h : ∀ c ∈ space, sep c = true) :
    words sep (space ++ s) = words sep s := by
  induction space with
  | nil => rfl
  | cons c space ih =>
      have hcut := words_cut (s := []) (t := space ++ s) (h c List.mem_cons_self)
      rw [List.nil_append] at hcut
      rw [List.cons_append, hcut, ih fun x hx => h x (List.mem_cons_of_mem c hx)]
      rfl

theorem mapWords_space {space : List Char} (h : ∀ c ∈ space, sep c = true) :
    mapWords sep f [] (space ++ s) = space ++ mapWords sep f [] s := by
  induction space with
  | nil => rfl
  | cons c space ih =>
      rw [List.cons_append, mapWords, if_pos (h c List.mem_cons_self),
        ih fun x hx => h x (List.mem_cons_of_mem c hx)]
      rfl

theorem words_word (hne : w ≠ []) (hw : ∀ c ∈ w, sep c = false)
    (hs : ∀ c ∈ s.head?, sep c = true) : words sep (w ++ s) = w :: words sep s := by
  cases s with
  | nil => rw [List.append_nil, words_whole hw, if_neg hne, words_whole (by simp), if_pos rfl]
  | cons c s =>
      have hc : sep c = true := hs c rfl
      have hcut := words_cut (s := []) (t := s) hc
      rw [List.nil_append] at hcut
      rw [words_cut hc, words_whole hw, if_neg hne, hcut]
      rfl

theorem mapWords_append (hne : w ≠ []) (hw : ∀ c ∈ w, sep c = false)
    (hs : ∀ c ∈ s.head?, sep c = true) :
    mapWords sep f [] (w ++ s) = f w ++ mapWords sep f [] s := by
  cases s with
  | nil => simp [mapWords_whole hw, hne, mapWords]
  | cons c s =>
      have hc : sep c = true := hs c rfl
      have hcut := mapWords_cut (f := f) (w := []) (s := []) (t := s) hc
      rw [List.nil_append] at hcut
      rw [mapWords_cut hc, mapWords_whole hw, if_neg hne, hcut]
      rfl

theorem mem_words (hw : w ∈ words sep s) : w ≠ [] ∧ ∀ c ∈ w, sep c = false ∧ c ∈ s := by
  induction s using sepInduction sep with
  | whole s hs =>
      rw [words_whole hs] at hw
      split at hw
      · cases hw
      · rename_i hne
        obtain rfl := List.mem_singleton.mp hw
        exact ⟨hne, fun c hc => ⟨hs c hc, hc⟩⟩
  | cut a c s ha hc ih =>
      rw [words_cut hc, words_whole ha, List.mem_append] at hw
      rcases hw with hfirst | hrest
      · split at hfirst
        · cases hfirst
        · rename_i hne
          obtain rfl := List.mem_singleton.mp hfirst
          exact ⟨hne, fun x hx => ⟨ha x hx, List.mem_append_left _ hx⟩⟩
      · obtain ⟨hne, hall⟩ := ih hrest
        refine ⟨hne, fun x hx => ⟨(hall x hx).1, ?_⟩⟩
        exact List.mem_append_right _ (List.mem_cons_of_mem c (hall x hx).2)

theorem mapWords_congr {g : List Char → List Char} (h : ∀ w ∈ words sep s, f w = g w) :
    mapWords sep f [] s = mapWords sep g [] s := by
  induction s using sepInduction sep with
  | whole s hs =>
      rw [mapWords_whole hs, mapWords_whole hs]
      split
      · rfl
      · rename_i hne
        exact h s (by rw [words_whole hs, if_neg hne]; exact List.mem_singleton_self s)
  | cut a c s ha hc ih =>
      rw [words_cut hc, words_whole ha] at h
      rw [mapWords_cut hc, mapWords_cut hc, ih fun w hw => h w (List.mem_append_right _ hw),
        mapWords_whole ha, mapWords_whole ha]
      split
      · rfl
      · rename_i hne
        rw [h a (List.mem_append_left _ (by simp [hne]))]

theorem mapWords_id : mapWords sep id [] s = s := by
  induction s using sepInduction sep with
  | whole s hs =>
      rw [mapWords_whole hs]
      split
      · rename_i hnil
        exact hnil.symm
      · rfl
  | cut a c s ha hc ih =>
      rw [mapWords_cut hc, ih, mapWords_whole ha]
      split
      · rename_i hnil
        rw [hnil]
      · rfl

/-- The words of a filtered text are what the filter leaves of the stretches between the
separators it keeps. -/
theorem words_filter : words sep (s.filter p) =
    ((words (fun c => sep c && p c) s).map (List.filter p)).filter (· ≠ []) := by
  have hwhole : ∀ w : List Char, (∀ c ∈ w, (sep c && p c) = false) → words sep (w.filter p) =
      ((words (fun c => sep c && p c) w).map (List.filter p)).filter (· ≠ []) := by
    intro w hw
    have hfree : ∀ c ∈ w.filter p, sep c = false := by
      intro c hc
      obtain ⟨hin, hp⟩ := List.mem_filter.mp hc
      simpa [hp] using hw c hin
    rw [words_whole hfree, words_whole hw]
    by_cases hnil : w = []
    · simp [hnil]
    · by_cases hfilter : w.filter p = [] <;> simp [hnil, hfilter]
  induction s using sepInduction fun c => sep c && p c with
  | whole s hs => exact hwhole s hs
  | cut a c s ha hc ih =>
      obtain ⟨hsep, hp⟩ := Bool.and_eq_true_iff.mp hc
      have hcut : words (fun c => sep c && p c) (a ++ c :: s) =
          words (fun c => sep c && p c) a ++ words (fun c => sep c && p c) s := words_cut hc
      rw [List.filter_append, List.filter_cons_of_pos hp, words_cut hsep, hwhole a ha, ih, hcut,
        List.map_append, List.filter_append]

/-- What is in a rewritten text is a separator of the text or in a rewritten word. -/
theorem mem_mapWords (h : c ∈ mapWords sep f [] s) :
    (sep c = true ∧ c ∈ s) ∨ ∃ w ∈ words sep s, c ∈ f w := by
  induction s using sepInduction sep with
  | whole s hs =>
      rw [mapWords_whole hs] at h
      split at h
      · cases h
      · rename_i hne
        refine Or.inr ⟨s, ?_, h⟩
        rw [words_whole hs, if_neg hne]
        exact List.mem_singleton_self s
  | cut a x s ha hx ih =>
      rw [mapWords_cut hx, mapWords_whole ha, List.mem_append, List.mem_cons] at h
      rw [words_cut hx, words_whole ha]
      rcases h with hfirst | rfl | hrest
      · split at hfirst
        · cases hfirst
        · rename_i hne
          exact Or.inr ⟨a, List.mem_append_left _ (by simp [hne]), hfirst⟩
      · exact Or.inl ⟨hx, by simp⟩
      · rcases ih hrest with ⟨hc, hin⟩ | ⟨w, hw, hin⟩
        · exact Or.inl ⟨hc, List.mem_append_right _ (List.mem_cons_of_mem x hin)⟩
        · exact Or.inr ⟨w, List.mem_append_right _ hw, hin⟩

/-- The stretches between separators, empty ones included, are rewritten one by one. -/
theorem splitOnP_mapWords (hnil : f [] = [])
    (hf : ∀ w, w ≠ [] → (∀ c ∈ w, sep c = false) → ∀ c ∈ f w, sep c = false) :
    (mapWords sep f [] s).splitOnP sep = (s.splitOnP sep).map f := by
  have hword : ∀ w : List Char, (∀ c ∈ w, sep c = false) → mapWords sep f [] w = f w ∧
      ∀ c ∈ f w, sep c = false := by
    intro w hw
    rw [mapWords_whole hw]
    by_cases hne : w = []
    · simp [hne, hnil]
    · exact ⟨if_neg hne, hf w hne hw⟩
  induction s using sepInduction sep with
  | whole s hs =>
      obtain ⟨heq, hfree⟩ := hword s hs
      rw [heq, List.splitOnP_eq_singleton hfree, List.splitOnP_eq_singleton hs, List.map_singleton]
  | cut a c s ha hc ih =>
      obtain ⟨heq, hfree⟩ := hword a ha
      rw [mapWords_cut hc, heq, List.splitOnP_append_cons _ _ hc, List.splitOnP_append_cons _ _ hc,
        ih, List.splitOnP_eq_singleton hfree, List.splitOnP_eq_singleton ha, List.map_append,
        List.map_singleton]

theorem separators_mapWords
    (hf : ∀ w, w ≠ [] → (∀ c ∈ w, sep c = false) → ∀ c ∈ f w, sep c = false) :
    (mapWords sep f [] s).filter sep = s.filter sep := by
  have hword : ∀ w : List Char, (∀ c ∈ w, sep c = false) →
      (mapWords sep f [] w).filter sep = w.filter sep := by
    intro w hw
    rw [mapWords_whole hw]
    split
    · rename_i hnil
      rw [hnil]
    · rename_i hne
      rw [List.filter_eq_nil_iff.mpr (by simpa using hf w hne hw),
        List.filter_eq_nil_iff.mpr (by simpa using hw)]
  induction s using sepInduction sep with
  | whole s hs => exact hword s hs
  | cut a c s ha hc ih =>
      rw [mapWords_cut hc, List.filter_append, List.filter_append, hword a ha,
        List.filter_cons_of_pos hc, List.filter_cons_of_pos hc, ih]
theorem mapWords_ne_nil (hf : ∀ w ∈ words sep s, f w ≠ []) (hs : s ≠ []) :
    mapWords sep f [] s ≠ [] := by
  induction s using sepInduction sep with
  | whole s hs' =>
      rw [mapWords_whole hs', if_neg hs]
      exact hf s (by rw [words_whole hs', if_neg hs]; exact List.mem_singleton_self s)
  | cut a x s ha hx ih =>
      rw [mapWords_cut hx]
      simp

theorem words_mapWords (hkept : ∀ c, p c = true → sep c = true)
    (hf : ∀ w ∈ words sep s, f w ≠ [] ∧ ∀ c ∈ f w, sep c = false) :
    words p (mapWords sep f [] s) = (words p s).map (mapWords sep f []) := by
  have hwhole : ∀ a : List Char, (∀ w ∈ words sep a, f w ≠ [] ∧ ∀ c ∈ f w, sep c = false) →
      (∀ c ∈ a, p c = false) →
      words p (mapWords sep f [] a) = (words p a).map (mapWords sep f []) := by
    intro a ha hp
    have hfree : ∀ c ∈ mapWords sep f [] a, p c = false := by
      intro c hc
      rcases mem_mapWords hc with ⟨_, hin⟩ | ⟨w, hw, hin⟩
      · exact hp c hin
      · exact Bool.eq_false_iff.mpr fun hpc => by simpa [hkept c hpc] using (ha w hw).2 c hin
    rw [words_whole hfree, words_whole hp]
    by_cases hnil : a = []
    · simp [hnil, mapWords]
    · simp [hnil, mapWords_ne_nil (fun w hw => (ha w hw).1) hnil]
  induction s using sepInduction p with
  | whole s hs => exact hwhole s hf hs
  | cut a c s ha hc ih =>
      rw [words_cut (hkept c hc)] at hf
      rw [mapWords_cut (hkept c hc), words_cut hc, words_cut hc, List.map_append,
        ih fun w hw => hf w (List.mem_append_right _ hw),
        hwhole a (fun w hw => hf w (List.mem_append_left _ hw)) ha]

theorem words_refine (hkept : ∀ c, p c = true → sep c = true) :
    words sep s = (words p s).flatMap (words sep) := by
  have hwhole : ∀ a : List Char, (∀ c ∈ a, p c = false) →
      words sep a = (words p a).flatMap (words sep) := by
    intro a ha
    rw [words_whole ha]
    split
    · rename_i hnil
      rw [hnil]
      rfl
    · simp
  induction s using sepInduction p with
  | whole s hs => exact hwhole s hs
  | cut a c s ha hc ih =>
      rw [words_cut (hkept c hc), words_cut hc, List.flatMap_append, ← hwhole a ha, ih]

theorem words_within (hw : w ∈ words sep s) : w <:+: s := by
  induction s using sepInduction sep with
  | whole s hs =>
      rw [words_whole hs] at hw
      split at hw
      · cases hw
      · obtain rfl := List.mem_singleton.mp hw
        exact List.infix_rfl
  | cut a c s ha hc ih =>
      rw [words_cut hc, words_whole ha, List.mem_append] at hw
      rcases hw with hfirst | hrest
      · split at hfirst
        · cases hfirst
        · rw [List.mem_singleton.mp hfirst]
          exact (List.prefix_append a (c :: s)).isInfix
      · have hsuffix : s <:+ a ++ c :: s := ⟨a ++ [c], by simp⟩
        exact (ih hrest).trans hsuffix.isInfix

end Words

/-! ## Stretches of several texts -/

/-- Two lists of parts, with the last of the one and the first of the other put together. -/
def glue {α : Type} : List (List α) → List (List α) → List (List α)
  | [], ys => ys
  | [x], [] => [x]
  | [x], y :: ys => (x ++ y) :: ys
  | x :: next :: xs, ys => x :: glue (next :: xs) ys

/-- The stretches between separators of some texts in a row, each as the parts that the texts have
of it. -/
def stretches (sep : Char → Bool) : List (List Char) → List (List (List Char))
  | [] => [[]]
  | s :: rest => glue ((s.splitOnP sep).map fun part => [part]) (stretches sep rest)

section Stretches

variable {α β : Type} {sep : Char → Bool} {f g : List Char → List Char} {s t : List Char}
  {texts : List (List Char)}

theorem map_glue {h : List α → List β} (happend : ∀ x y, h (x ++ y) = h x ++ h y) :
    ∀ xs ys : List (List α), (glue xs ys).map h = glue (xs.map h) (ys.map h)
  | [], _ => rfl
  | [_], [] => rfl
  | [x], y :: ys => by simp [glue, happend]
  | x :: next :: xs, ys => by
      have hrest := map_glue happend (next :: xs) ys
      simpa [glue] using hrest

theorem splitOnP_append : (s ++ t).splitOnP sep = glue (s.splitOnP sep) (t.splitOnP sep) := by
  have hcons : ∀ (c : Char) (x : List Char) (xs ys : List (List Char)), ys ≠ [] →
      (glue (x :: xs) ys).modifyHead (List.cons c) = glue ((c :: x) :: xs) ys := by
    intro c x xs ys hys
    cases xs with
    | cons next xs => rfl
    | nil =>
        cases ys with
        | nil => exact absurd rfl hys
        | cons y ys => rfl
  induction s with
  | nil =>
      obtain ⟨y, ys, hys⟩ := List.exists_cons_of_ne_nil (List.splitOnP_ne_nil sep t)
      rw [List.nil_append, hys]
      rfl
  | cons c s ih =>
      obtain ⟨x, xs, hxs⟩ := List.exists_cons_of_ne_nil (List.splitOnP_ne_nil sep s)
      rw [List.cons_append, List.splitOnP_cons_eq_if_modifyHead,
        List.splitOnP_cons_eq_if_modifyHead, ih, hxs]
      split
      · rfl
      · exact hcons c x xs _ (List.splitOnP_ne_nil sep t)

theorem splitOnP_flatMap (hg : ∀ s, (g s).splitOnP sep = (s.splitOnP sep).map f) :
    (texts.flatMap g).splitOnP sep =
      (stretches sep texts).map fun stretch => stretch.flatMap f := by
  induction texts with
  | nil => rfl
  | cons s rest ih =>
      have hparts : ((s.splitOnP sep).map fun part => [part]).map (fun stretch =>
        stretch.flatMap f) =
          (s.splitOnP sep).map f := by
        rw [List.map_map]
        exact List.map_congr_left fun part _ => by simp
      rw [List.flatMap_cons, splitOnP_append, ih, hg, stretches,
        map_glue (fun _ _ => List.flatMap_append), hparts]

end Stretches

end Text
