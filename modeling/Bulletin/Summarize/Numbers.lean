import Bulletin.Common.Text

/-! # Numeric tokens

A number or a date is a stretch of digits and the marks that glue them. The scanner collects one
stretch at a time; what it returns are the numeric words of the text.
-/

namespace Bulletin

open Text

/-! ## The scanner -/

def isNumericChar (c : Char) : Bool := c.isDigit || "%.,:-/+".toList.contains c

def isGlue (c : Char) : Bool := ".,:-/+".toList.contains c

def pushNumeric (cur : List Char) (hasDigit : Bool) (out : List (List Char)) : List (List Char) :=
  let trimmed := trimMatches isGlue cur
  if hasDigit && trimmed != [] then out ++ [trimmed] else out

def tokenizeLoop (cur : List Char) (hasDigit : Bool) (out : List (List Char)) :
    List Char → List (List Char)
  | [] => pushNumeric cur hasDigit out
  | c :: s =>
      if isNumericChar c then tokenizeLoop (cur ++ [c]) (hasDigit || c.isDigit) out s
      else tokenizeLoop [] false (pushNumeric cur hasDigit out) s

/-- The numbers and dates of a text. -/
def tokenizeNumeric (text : List Char) : List (List Char) := tokenizeLoop [] false [] text

example : (tokenizeNumeric "up 40% since 2024-05-01.".toList).map String.ofList =
    ["40%", "2024-05-01"] := by decide +kernel

/-! ## Tokens as words -/

def isNumericBreak (c : Char) : Bool := !isNumericChar c

def numericTokens (runs : List (List Char)) : List (List Char) :=
  (runs.filter fun run => run.any Char.isDigit).map (trimMatches isGlue)

section Tokens

variable {s t run cur : List Char} {c : Char} {out : List (List Char)}

theorem isGlue_of_isDigit (h : c.isDigit = true) : isGlue c = false := by
  have hmarks : ∀ x ∈ ".,:-/+".toList, x.isDigit = false := by simp [Char.isDigit]
  by_contra hglue
  have hmem : c ∈ ".,:-/+".toList := by
    rw [isGlue, Bool.not_eq_false, List.contains_iff_mem] at hglue
    exact hglue
  simp [hmarks c hmem] at h

theorem exists_token (h : run.any Char.isDigit = true) : ∃ lead token trail,
    run = lead ++ token ++ trail ∧ token ≠ [] ∧ Trimmed isGlue token ∧
      trimMatches isGlue run = token ∧ token.any Char.isDigit = true := by
  obtain ⟨c, hc, hdigit⟩ := List.any_eq_true.mp h
  obtain ⟨lead, token, trail, rfl, hlead, htrail, hne, hcore⟩ :=
    exists_core (p := isGlue) ⟨c, hc, isGlue_of_isDigit hdigit⟩
  refine ⟨lead, token, trail, rfl, hne, hcore, trimMatches_core hlead htrail hne hcore, ?_⟩
  refine List.any_eq_true.mpr ⟨c, ?_, hdigit⟩
  rw [List.mem_append, List.mem_append] at hc
  rcases hc with (hin | hin) | hin
  · exact absurd (hlead c hin) (by simp [isGlue_of_isDigit hdigit])
  · exact hin
  · exact absurd (htrail c hin) (by simp [isGlue_of_isDigit hdigit])

theorem pushNumeric_eq : pushNumeric cur (cur.any Char.isDigit) out =
    out ++ numericTokens (if cur = [] then [] else [cur]) := by
  unfold pushNumeric numericTokens
  by_cases hdigit : cur.any Char.isDigit = true
  · obtain ⟨_, token, _, _, hne, _, htrim, _⟩ := exists_token hdigit
    have hcur : cur ≠ [] := by
      intro hnil
      simp [hnil] at hdigit
    simp [hdigit, htrim, hne, hcur]
  · have hno : cur.any Char.isDigit = false := by simpa using hdigit
    by_cases hcur : cur = [] <;> simp [hno, hcur]

theorem tokenizeLoop_eq (hcur : ∀ c ∈ cur, isNumericBreak c = false) :
    tokenizeLoop cur (cur.any Char.isDigit) out s =
      out ++ numericTokens (words isNumericBreak (cur ++ s)) := by
  induction s generalizing cur out with
  | nil => rw [tokenizeLoop, pushNumeric_eq, List.append_nil, words_whole hcur]
  | cons c s ih =>
      rw [tokenizeLoop]
      by_cases hnumeric : isNumericChar c = true
      · have hnext : ∀ x ∈ cur ++ [c], isNumericBreak x = false := by
          simpa [or_imp, forall_and, isNumericBreak, hnumeric] using hcur
        have hany : (cur ++ [c]).any Char.isDigit = (cur.any Char.isDigit || c.isDigit) := by simp
        rw [if_pos hnumeric, ← hany, ih hnext]
        simp
      · have hbreak : isNumericBreak c = true := by simp [isNumericBreak, hnumeric]
        have hrest := @ih [] (pushNumeric cur (cur.any Char.isDigit) out) (by simp)
        rw [if_neg hnumeric, words_cut hbreak, words_whole hcur]
        rw [List.any_nil, List.nil_append] at hrest
        rw [hrest, pushNumeric_eq, numericTokens, numericTokens, numericTokens, List.filter_append,
          List.map_append, List.append_assoc]

theorem tokenizeNumeric_eq : tokenizeNumeric s = numericTokens (words isNumericBreak s) := by
  have hloop : tokenizeLoop [] ([].any Char.isDigit) [] s =
      [] ++ numericTokens (words isNumericBreak ([] ++ s)) := tokenizeLoop_eq (by simp)
  rwa [List.any_nil, List.nil_append, List.nil_append] at hloop

theorem tokenizeNumeric_cut (h : isNumericBreak c = true) :
    tokenizeNumeric (s ++ c :: t) = tokenizeNumeric s ++ tokenizeNumeric t := by
  simp only [tokenizeNumeric_eq, words_cut h, numericTokens, List.filter_append, List.map_append]

theorem tokenizeNumeric_around {lead trail : List Char}
    (hlead : ∀ c ∈ lead, isNumericBreak c = true) (htrail : ∀ c ∈ trail, isNumericBreak c = true) :
    tokenizeNumeric (lead ++ s ++ trail) = tokenizeNumeric s := by
  have hnone : ∀ space : List Char, (∀ c ∈ space, isNumericBreak c = true) →
      tokenizeNumeric space = [] := by
    intro space hspace
    have hwords := words_space (s := []) hspace
    rw [List.append_nil] at hwords
    rw [tokenizeNumeric_eq, hwords]
    rfl
  have hfront : tokenizeNumeric (lead ++ (s ++ trail)) = tokenizeNumeric (s ++ trail) := by
    rw [tokenizeNumeric_eq, tokenizeNumeric_eq, words_space hlead]
  rw [List.append_assoc, hfront]
  cases trail with
  | nil => rw [List.append_nil]
  | cons c trail =>
      rw [tokenizeNumeric_cut (htrail c List.mem_cons_self),
        hnone trail fun x hx => htrail x (List.mem_cons_of_mem c hx), List.append_nil]

theorem isNumericBreak_of_isWhitespace (h : isWhitespace c = true) : isNumericBreak c = true := by
  have hmarks : ∀ x ∈ "%.,:-/+".toList, isWhitespace x = false := by simp [isWhitespace]
  by_contra hnumeric
  have hcases : c.isDigit = true ∨ c ∈ "%.,:-/+".toList := by
    simpa only [isNumericBreak, isNumericChar, Bool.not_eq_true,
      Bool.not_eq_false', Bool.or_eq_true, List.contains_iff_mem] using hnumeric
  rcases hcases with hdigit | hmark
  · have hlow : 48 ≤ c.toNat ∧ c.toNat ≤ 57 := by
      simpa [Char.isDigit, UInt32.le_iff_toNat_le] using hdigit
    simp only [isWhitespace, Bool.or_eq_true, Bool.and_eq_true, decide_eq_true_eq, beq_iff_eq] at h
    omega
  · simp [hmarks c hmark] at h

theorem tokenizeNumeric_trim (s : String) :
    tokenizeNumeric (trim s).toList = tokenizeNumeric s.toList := by
  have htoList : (trim s).toList = trimMatches isWhitespace s.toList := by simp [trim, trimMatches]
  rw [htoList]
  by_cases hcore : ∃ c ∈ s.toList, isWhitespace c = false
  · obtain ⟨lead, core, trail, heq, hlead, htrail, hne, htrimmed⟩ := exists_core hcore
    rw [heq, trimMatches_core hlead htrail hne htrimmed, tokenizeNumeric_around]
    · exact fun c hc => isNumericBreak_of_isWhitespace (hlead c hc)
    · exact fun c hc => isNumericBreak_of_isWhitespace (htrail c hc)
  · have hall : ∀ c ∈ s.toList, isWhitespace c = true := by simpa using hcore
    have hbreaks : ∀ c ∈ s.toList, isNumericBreak c = true :=
      fun c hc => isNumericBreak_of_isWhitespace (hall c hc)
    have hnone : tokenizeNumeric (s.toList ++ [] ++ []) = tokenizeNumeric [] :=
      tokenizeNumeric_around hbreaks (by simp)
    rw [List.append_nil, List.append_nil] at hnone
    rw [trimMatches_all hall, hnone]

theorem mem_tokenizeNumeric (h : t ∈ tokenizeNumeric s) : t ≠ [] ∧ Trimmed isGlue t ∧
    t.any Char.isDigit = true ∧ ∀ c ∈ t, isNumericChar c = true := by
  rw [tokenizeNumeric_eq] at h
  obtain ⟨run, hrun, rfl⟩ := List.mem_map.mp h
  obtain ⟨hword, hdigit⟩ := List.mem_filter.mp hrun
  obtain ⟨lead, token, trail, rfl, hne, hcore, htrim, hany⟩ := exists_token hdigit
  rw [htrim]
  refine ⟨hne, hcore, hany, fun c hc => ?_⟩
  have hfree := ((mem_words hword).2 c (by simp [hc])).1
  simpa [isNumericBreak] using hfree

theorem tokenizeNumeric_token (h : t ∈ tokenizeNumeric s) : tokenizeNumeric t = [t] := by
  obtain ⟨hne, hcore, hdigit, hchars⟩ := mem_tokenizeNumeric h
  have htrim : trimMatches isGlue t = t := by
    have hwhole : trimMatches isGlue ([] ++ t ++ []) = t :=
      trimMatches_core (by simp) (by simp) hne hcore
    simpa using hwhole
  rw [tokenizeNumeric_eq, words_whole (by simpa [isNumericBreak] using hchars), if_neg hne]
  simp [numericTokens, hdigit, htrim]

/-! ## A text cut short -/

/-- The numeric characters before a cut that goes through a stretch of them. -/
def cutStretch (s : List Char) (n : Nat) : List Char :=
  if (s.drop n).head?.any isNumericChar then
    ((s.take n).reverse.takeWhile isNumericChar).reverse
  else []

/-- The token a cut leaves of the stretch it goes through. -/
def cutToken (s : List Char) (n : Nat) : Option (List Char) :=
  if (cutStretch s n).any Char.isDigit then some (trimMatches isGlue (cutStretch s n)) else none

/-- A text before a cut is a part that ends with a break, and the numeric characters after it. -/
theorem exists_tail (a : List Char) : ∃ front, a = front ++
    (a.reverse.takeWhile isNumericChar).reverse ∧
      ∀ c ∈ front.getLast?, isNumericBreak c = true := by
  refine ⟨(a.reverse.dropWhile isNumericChar).reverse, ?_, ?_⟩
  · rw [← List.reverse_append, List.takeWhile_append_dropWhile, List.reverse_reverse]
  · intro c hc
    rw [List.getLast?_reverse] at hc
    cases hrest : a.reverse.dropWhile isNumericChar with
    | nil => simp [hrest] at hc
    | cons x rest =>
        obtain rfl : x = c := by simpa [hrest] using hc
        simpa [isNumericBreak] using head_dropWhile hrest

theorem tokenizeNumeric_front {front : List Char}
    (h : ∀ c ∈ front.getLast?, isNumericBreak c = true) :
    tokenizeNumeric (front ++ t) = tokenizeNumeric front ++ tokenizeNumeric t := by
  rcases List.eq_nil_or_concat front with rfl | ⟨rest, c, rfl⟩
  · rfl
  · have hc : isNumericBreak c = true := h c (by simp)
    have hlast := tokenizeNumeric_cut (s := rest) (t := []) hc
    have hnil : tokenizeNumeric [] = [] := rfl
    rw [hnil, List.append_nil] at hlast
    rw [List.concat_eq_append, List.append_assoc, List.singleton_append, tokenizeNumeric_cut hc,
      hlast]

theorem mem_tokenizeNumeric_run (hrun : ∀ c ∈ run, isNumericBreak c = false) :
    t ∈ tokenizeNumeric run ↔ run.any Char.isDigit = true ∧ trimMatches isGlue run = t := by
  rw [tokenizeNumeric_eq, words_whole hrun]
  by_cases hnil : run = []
  · simp [hnil, numericTokens]
  · cases hdigit : run.any Char.isDigit <;> simp [hnil, numericTokens, hdigit, eq_comm]

theorem cutStretch_numeric {n : Nat} : ∀ c ∈ cutStretch s n, isNumericBreak c = false := by
  intro c hc
  unfold cutStretch at hc
  split at hc
  · have hin := List.mem_takeWhile_imp (List.mem_reverse.mp hc)
    simpa [isNumericBreak] using hin
  · cases hc

/-- The tokens of a text cut short are tokens of the text, up to what is left of the last. -/
theorem mem_tokenizeNumeric_take {n : Nat} (h : t ∈ tokenizeNumeric (s.take n)) :
    t ∈ tokenizeNumeric s ∨ cutToken s n = some t := by
  obtain ⟨front, hfront, hbreak⟩ := exists_tail (s.take n)
  have hwhole : tokenizeNumeric s = tokenizeNumeric front ++
      tokenizeNumeric (((s.take n).reverse.takeWhile isNumericChar).reverse ++ s.drop n) := by
    rw [← tokenizeNumeric_front hbreak, ← List.append_assoc, ← hfront, List.take_append_drop]
  rw [hfront, tokenizeNumeric_front hbreak, List.mem_append] at h
  rw [hwhole, List.mem_append]
  rcases h with hin | hin
  · exact Or.inl (Or.inl hin)
  · by_cases hthrough : (s.drop n).head?.any isNumericChar = true
    · have hcut : cutStretch s n = ((s.take n).reverse.takeWhile isNumericChar).reverse :=
        if_pos hthrough
      rw [← hcut, mem_tokenizeNumeric_run cutStretch_numeric] at hin
      exact Or.inr (by rw [cutToken, if_pos hin.1, hin.2])
    · -- the stretch ends where the text is cut
      refine Or.inl (Or.inr ?_)
      cases hrest : s.drop n with
      | nil => simpa using hin
      | cons c rest =>
          have hc : isNumericBreak c = true := by
            simpa [hrest, isNumericBreak] using hthrough
          rw [tokenizeNumeric_cut hc, List.mem_append]
          exact Or.inl hin

theorem mem_of_cutToken {n : Nat} (h : cutToken s n = some t) : t ∈ tokenizeNumeric (s.take n) := by
  unfold cutToken at h
  split at h
  · rename_i hdigit
    have hin : t ∈ tokenizeNumeric (cutStretch s n) :=
      (mem_tokenizeNumeric_run cutStretch_numeric).mpr ⟨hdigit, Option.some.inj h⟩
    unfold cutStretch at hin
    split at hin
    · obtain ⟨front, hfront, hbreak⟩ := exists_tail (s.take n)
      rw [hfront, tokenizeNumeric_front hbreak, List.mem_append]
      exact Or.inr hin
    · cases hin
  · cases h

end Tokens

end Bulletin
