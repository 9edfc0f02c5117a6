import Bulletin.Common.Inert

/-! # Rewritten texts can be read back

The rewriting only puts brackets around dots and colons of clickable words. A text that has no
brackets of its own is what is left when they are taken away.
-/

namespace Bulletin

open Text

/-! ## Brackets around marks -/

/-- A text with `[mark]` replaced by `mark`, from left to right. -/
def unbracket (mark : Char) : List Char → List Char
  | '[' :: c :: ']' :: s =>
      if c = mark then mark :: unbracket mark s else '[' :: unbracket mark (c :: ']' :: s)
  | c :: s => c :: unbracket mark s
  | [] => []

/-- The second text is the first with some of its dots and colons in brackets. -/
inductive Bracketed : List Char → List Char → Prop
  | nil : Bracketed [] []
  | keep {c : Char} {s t : List Char} (hc : c ≠ '[') (rest : Bracketed s t) :
      Bracketed (c :: s) (c :: t)
  | mark {c : Char} {s t : List Char} (hc : c = '.' ∨ c = ':') (rest : Bracketed s t) :
      Bracketed (c :: s) ('[' :: c :: ']' :: t)

section Brackets

variable {mark c : Char} {s t s' t' : List Char}

theorem unbracket_cons (hc : c ≠ '[') : unbracket mark (c :: s) = c :: unbracket mark s :=
  unbracket.eq_2 mark c s fun _ _ h _ => hc h

theorem unbracket_mark : unbracket mark ('[' :: mark :: ']' :: s) = mark :: unbracket mark s := by
  rw [unbracket, if_pos rfl]

theorem unbracket_other (hc : c ≠ mark) (hbracket : c ≠ '[') :
    unbracket mark ('[' :: c :: ']' :: s) = '[' :: c :: ']' :: unbracket mark s := by
  rw [unbracket, if_neg hc, unbracket_cons hbracket, unbracket_cons (by decide)]

namespace Bracketed

theorem self (h : ∀ c ∈ s, c ≠ '[') : Bracketed s s := by
  induction s with
  | nil => exact .nil
  | cons c s ih =>
      exact .keep (h c List.mem_cons_self) (ih fun x hx => h x (List.mem_cons_of_mem c hx))

theorem append (h : Bracketed s t) (h' : Bracketed s' t') : Bracketed (s ++ s') (t ++ t') := by
  induction h with
  | nil => exact h'
  | keep hc _ ih => exact .keep hc ih
  | mark hc _ ih => exact .mark hc ih

theorem unbracket_eq (h : Bracketed s t) : unbracket ':' (unbracket '.' t) = s := by
  induction h with
  | nil => rfl
  | keep hc _ ih => rw [unbracket_cons hc, unbracket_cons hc, ih]
  | mark hc _ ih =>
      rcases hc with rfl | rfl
      · rw [unbracket_mark, unbracket_cons (by decide), ih]
      · rw [unbracket_other (by decide) (by decide), unbracket_mark, ih]

end Bracketed

end Brackets

/-! ## What the rewriting puts in brackets -/

section Rewriting

variable {unicode : UnicodeTables} {s t u core word : List Char}

namespace Bracketed

theorem replaceDots (h : ∀ c ∈ s, c ≠ '[') : Bracketed s (replaceDots s) := by
  induction s with
  | nil => exact .nil
  | cons c s ih =>
      have hrest := ih fun x hx => h x (List.mem_cons_of_mem c hx)
      rw [replaceDots_cons]
      by_cases hdot : c = '.'
      · rw [if_pos hdot, hdot]
        exact .mark (Or.inl rfl) hrest
      · rw [if_neg hdot]
        exact .keep (h c List.mem_cons_self) hrest

theorem replaceSchemes (h : Bracketed s t) : Bracketed s (replaceSchemes t) := by
  induction h with
  | nil => exact .nil
  | @keep c s t hc _ ih =>
      by_cases hscheme : ∃ t', c = ':' ∧ t = '/' :: '/' :: t'
      · obtain ⟨t', rfl, rfl⟩ := hscheme
        have hbroken : Bulletin.replaceSchemes (':' :: '/' :: '/' :: t') =
            '[' :: ':' :: ']' :: Bulletin.replaceSchemes ('/' :: '/' :: t') := by
          simp [Bulletin.replaceSchemes]
        rw [hbroken]
        exact .mark (Or.inr rfl) ih
      · rw [replaceSchemes.eq_2 c t fun t' hcolon ht => hscheme ⟨t', hcolon, ht⟩]
        exact .keep hc ih
  | @mark c s t hc _ ih =>
      have hkept : Bulletin.replaceSchemes ('[' :: c :: ']' :: t) =
          '[' :: c :: ']' :: Bulletin.replaceSchemes t := by
        rw [replaceSchemes.eq_2 '[' _ (by simp), replaceSchemes.eq_2 c _ (by simp),
          replaceSchemes.eq_2 ']' _ (by simp)]
      rw [hkept]
      exact .mark hc ih

theorem exists_cons {c : Char} (hc : c ≠ '[') (h : Bracketed s (c :: t)) :
    ∃ rest, s = c :: rest ∧ Bracketed rest t := by
  cases h with
  | keep _ hrest => exact ⟨_, rfl, hrest⟩
  | mark _ _ => exact absurd rfl hc

theorem exists_rest (hu : ∀ c ∈ u, c ≠ '[') (h : Bracketed s (u ++ t)) :
    ∃ rest, s = u ++ rest ∧ Bracketed rest t := by
  induction u generalizing s with
  | nil => exact ⟨s, rfl, h⟩
  | cons c u ih =>
      obtain ⟨s', rfl, hrest⟩ := exists_cons (hu c List.mem_cons_self) h
      obtain ⟨rest, rfl, hback⟩ := ih (fun x hx => hu x (List.mem_cons_of_mem c hx)) hrest
      exact ⟨rest, rfl, hback⟩

theorem inertToken (h : ∀ c ∈ core, c ≠ '[') : Bracketed core (inertToken core) := by
  have hbroken := (replaceDots h).replaceSchemes
  unfold Bulletin.inertToken
  generalize Bulletin.replaceSchemes (Bulletin.replaceDots core) = t at hbroken
  dsimp only
  split
  · rename_i hmail
    obtain ⟨hcut, hletters⟩ := mailto_cut hmail
    generalize t.take 6 = a at hcut hletters
    generalize t.drop 7 = b at hcut
    subst hcut
    have hplain : ∀ c ∈ a, c ≠ '[' := by
      intro c hc hbracket
      have hmem : c.toLower ∈ "mailto".toList := by
        rw [← hletters]
        exact List.mem_map_of_mem hc
      rw [hbracket] at hmem
      revert hmem
      decide
    obtain ⟨rest, rfl, hrest⟩ := exists_rest hplain hbroken
    obtain ⟨last, rfl, hlast⟩ := exists_cons (by decide) hrest
    have hend : Bracketed (':' :: last) ('[' :: ':' :: ']' :: b) := .mark (Or.inr rfl) hlast
    have hjoin : a ++ "[:]".toList ++ b = a ++ '[' :: ':' :: ']' :: b := by simp
    rw [hjoin]
    exact (self hplain).append hend
  · exact hbroken

theorem inertWord (h : ∀ c ∈ word, c ≠ '[') : Bracketed word (inertWord unicode word) := by
  by_cases hclick : isClickable unicode word = true
  · obtain ⟨lead, core, trail, rfl, _, _, _, _, hinert⟩ := exists_clickable_core hclick
    rw [hinert]
    have hlead : Bracketed lead lead := self fun c hc => h c (by simp [hc])
    have hcore : Bracketed core (Bulletin.inertToken core) :=
      inertToken fun c hc => h c (by simp [hc])
    have htrail : Bracketed trail trail := self fun c hc => h c (by simp [hc])
    exact (hlead.append hcore).append htrail
  · unfold Bulletin.inertWord
    rw [if_neg hclick]
    exact self h

theorem inertText (h : ∀ c ∈ s, c ≠ '[') : Bracketed s (inertText unicode s) := by
  unfold Bulletin.inertText
  have hword : ∀ w : List Char, (∀ c ∈ w, isWhitespace c = false) → (∀ c ∈ w, c ≠ '[') →
      Bracketed w (mapWords isWhitespace (Bulletin.inertWord unicode) [] w) := by
    intro w hspace hw
    rw [mapWords_whole hspace]
    split
    · rename_i hnil
      rw [hnil]
      exact .nil
    · exact inertWord hw
  induction s using sepInduction isWhitespace with
  | whole s hs => exact hword s hs h
  | cut a c s ha hc ih =>
      rw [mapWords_cut hc]
      have hfirst := hword a ha fun x hx => h x (List.mem_append_left _ hx)
      have hrest := ih fun x hx => h x (List.mem_append_right _ (List.mem_cons_of_mem c hx))
      exact hfirst.append (.keep (h c (by simp)) hrest)

end Bracketed

end Rewriting

/-! ## The contract -/

section Contract

variable {unicode : UnicodeTables} {text out word : List Char}

theorem inertWord_of_not_clickable (h : isClickable unicode word = false) :
    inertWord unicode word = word := by
  unfold inertWord
  rw [if_neg (by simp [h])]

theorem inertText_of_clean (h : firstLinkableToken unicode text = none) :
    inertText unicode text = text := by
  have hclean := firstLinkableToken_eq_none.mp h
  unfold inertText
  rw [mapWords_congr fun w hw => inertWord_of_not_clickable (hclean w hw)]
  exact mapWords_id

theorem splitOnP_inertText : (inertText unicode text).splitOnP isWhitespace =
    (text.splitOnP isWhitespace).map (inertWord unicode) := by
  refine splitOnP_mapWords (inertWord_of_not_clickable rfl) ?_
  intro w hne hword
  exact (inertWord_word hne hword).2

/-- What `defang` returns holds no clickable token and is not rewritten again. Only clickable words
are rewritten, each into one word between the same whitespace, and the brackets put into a text
without brackets can be taken away again. -/
theorem defang_contract (h : defang unicode text = some out) :
    firstLinkableToken unicode out = none ∧ defang unicode out = some out ∧
      out.filter isWhitespace = text.filter isWhitespace ∧
      out.splitOnP isWhitespace = (text.splitOnP isWhitespace).map (inertWord unicode) ∧
      splitWhitespace out = (splitWhitespace text).map (inertWord unicode) ∧
      (∀ word, isClickable unicode word = false → inertWord unicode word = word) ∧
      ((∀ c ∈ text, c ≠ '[' ∧ c ≠ ']') → unbracket ':' (unbracket '.' out) = text) := by
  rw [defang_spec] at h
  split at h
  · obtain rfl := Option.some.inj h
    have hclean : firstLinkableToken unicode (inertText unicode text) = none :=
      firstLinkableToken_inertText
    have hagain : defang unicode (inertText unicode text) = some (inertText unicode text) := by
      have htrimmable : Trimmable unicode (inertText unicode text) := Or.inl hclean
      rw [defang_spec, if_pos htrimmable, inertText_of_clean hclean]
    refine ⟨hclean, hagain, separators_mapWords ?_, splitOnP_inertText, splitWhitespace_inertText,
      fun _ => inertWord_of_not_clickable, ?_⟩
    · intro w hne hword
      exact (inertWord_word hne hword).2
    · intro hbrackets
      exact (Bracketed.inertText fun c hc => (hbrackets c hc).1).unbracket_eq
  · cases h

/-- One clickable word among others. -/
theorem defang_contract_sentence :
    firstLinkableToken asciiTables "see (acme[.]com), http[:]//a".toList = none ∧
      unbracket ':' (unbracket '.' "see (acme[.]com), http[:]//a".toList) =
        "see (acme.com), http://a".toList := by
  have hout : defang asciiTables "see (acme.com), http://a".toList =
      some "see (acme[.]com), http[:]//a".toList := by decide +kernel
  obtain ⟨hclean, _, _, _, _, _, hback⟩ := defang_contract hout
  exact ⟨hclean, hback (by simp)⟩

end Contract

end Bulletin
