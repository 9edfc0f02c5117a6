import Bulletin.Common.Inert
import Bulletin.Digest.Render
import Bulletin.Summarize.Prose

/-! # Editorial text in a digest

What a feed or a model wrote is made inert first; then the characters that hide or reorder text
are dropped, and what is left is encoded for the view it goes to.
-/

namespace Bulletin

open Text

/-! ## Unsafe characters -/

/-- Control codes, zero-width and join controls, and the bidi family. -/
def isUnsafeChar (c : Char) : Bool :=
  let n := c.toNat
  n ≤ 0x1F || (0x7F ≤ n && n ≤ 0x9F) || (0x200B ≤ n && n ≤ 0x200F) || (0x2060 ≤ n && n ≤ 0x2064) ||
    (0x2066 ≤ n && n ≤ 0x2069) || (0x202A ≤ n && n ≤ 0x202E) || n == 0xFEFF

def clean (s : List Char) : List Char :=
  if s.any isUnsafeChar then s.filter fun c => !isUnsafeChar c else s

theorem clean_eq (s : List Char) : clean s = s.filter fun c => !isUnsafeChar c := by
  unfold clean
  split
  · rfl
  · rename_i hclean
    refine (List.filter_eq_self.mpr ?_).symm
    intro c hc
    simpa using fun h => hclean (List.any_eq_true.mpr ⟨c, hc, h⟩)

/-! ## The two views -/

/-- An encoder of text for HTML, with the text a reader's client takes from what it returns. -/
structure HtmlEscape where
  encodeText : List Char → List Char
  textContent : List Char → List Char
  textContent_encodeText : ∀ s, textContent (encodeText s) = s

def encodeEntities : List Char → List Char :=
  List.flatMap fun c =>
    if c = '&' then "&amp;".toList else if c = '<' then "&lt;".toList
    else if c = '>' then "&gt;".toList else [c]

def decodeEntities : List Char → List Char
  | '&' :: 'a' :: 'm' :: 'p' :: ';' :: s => '&' :: decodeEntities s
  | '&' :: 'l' :: 't' :: ';' :: s => '<' :: decodeEntities s
  | '&' :: 'g' :: 't' :: ';' :: s => '>' :: decodeEntities s
  | c :: s => c :: decodeEntities s
  | [] => []

theorem decodeEntities_encodeEntities (s : List Char) : decodeEntities (encodeEntities s) = s := by
  induction s with
  | nil => rfl
  | cons c s ih =>
      have hcons : encodeEntities (c :: s) = (if c = '&' then "&amp;".toList
          else if c = '<' then "&lt;".toList else if c = '>' then "&gt;".toList else [c]) ++
            encodeEntities s := rfl
      rw [hcons]
      by_cases hamp : c = '&'
      · simp [hamp, decodeEntities, ih]
      · by_cases hlt : c = '<'
        · simp [hlt, decodeEntities, ih]
        · by_cases hgt : c = '>'
          · simp [hgt, decodeEntities, ih]
          · simp [hamp, hlt, hgt, decodeEntities, ih]

def htmlEntities : HtmlEscape := ⟨encodeEntities, decodeEntities, decodeEntities_encodeEntities⟩

section Views

variable (unicode : UnicodeTables) (html : HtmlEscape)

def escape (s : List Char) : List Char := html.encodeText (clean s)

/-- `none` is a panic. -/
def escapeProse (s : List Char) : Option (List Char) := (defang unicode s).map (escape html)

def cleanProse (s : List Char) : Option (List Char) := (defang unicode s).map clean

end Views

section Inert

variable {unicode : UnicodeTables} {html : HtmlEscape} {s out : List Char}

theorem cleanProse_spec : cleanProse unicode s =
    if Trimmable unicode s then some (clean (inertText unicode s)) else none := by
  unfold cleanProse
  rw [defang_spec]
  split <;> rfl

theorem isSome_cleanProse : (cleanProse unicode s).isSome ↔ Trimmable unicode s := by
  rw [cleanProse, Option.isSome_map]
  exact defang_isSome

theorem isSome_escapeProse : (escapeProse unicode html s).isSome ↔ Trimmable unicode s := by
  rw [escapeProse, Option.isSome_map]
  exact defang_isSome

theorem textContent_escapeProse :
    (escapeProse unicode html s).map html.textContent = cleanProse unicode s := by
  unfold escapeProse cleanProse
  rw [Option.map_map]
  refine congrArg (fun f => Option.map f (defang unicode s)) (funext fun t => ?_)
  exact html.textContent_encodeText (clean t)

/-! ## Links that come together -/

/-- Whitespace that stays in a view. -/
def isKeptSpace (c : Char) : Bool := isWhitespace c && !isUnsafeChar c

def isSafeChar (c : Char) : Bool := !isUnsafeChar c

/-- What a view makes of a stretch of text without whitespace that stays: its words, each made
inert, put together where characters are dropped. -/
def joinedToken (unicode : UnicodeTables) (stretch : List Char) : List Char :=
  (splitWhitespace stretch).flatMap fun w => (inertWord unicode w).filter isSafeChar

/-- Dropping characters makes a link of what was none. -/
def JoinsToLink (unicode : UnicodeTables) (stretch : List Char) : Prop :=
  (∃ c ∈ stretch, isUnsafeChar c = true) ∧ isClickable unicode (joinedToken unicode stretch) = true

instance (stretch : List Char) : Decidable (JoinsToLink unicode stretch) :=
  inferInstanceAs (Decidable ((∃ c ∈ stretch, isUnsafeChar c = true) ∧
    isClickable unicode (joinedToken unicode stretch) = true))

theorem filter_mapWords {f : List Char → List Char}
    (h : ∀ c ∈ s, isWhitespace c = true → isUnsafeChar c = true) :
    (mapWords isWhitespace f [] s).filter isSafeChar =
      (splitWhitespace s).flatMap fun w => (f w).filter isSafeChar := by
  induction s using sepInduction isWhitespace with
  | whole w hw =>
      rw [mapWords_whole hw, splitWhitespace_eq, words_whole hw]
      by_cases hnil : w = [] <;> simp [hnil]
  | cut w c s hw hc ih =>
      have hdropped : isSafeChar c = false := by simp [isSafeChar, h c (by simp) hc]
      have hrest := ih fun x hx => h x (by simp [hx])
      rw [mapWords_cut hc, splitWhitespace_eq, words_cut hc, List.flatMap_append,
        List.filter_append, List.filter_cons_of_neg (by simp [hdropped]), hrest, mapWords_whole hw,
        words_whole hw]
      by_cases hnil : w = [] <;> simp [hnil, splitWhitespace_eq]

theorem words_clean_inertText : splitWhitespace (clean (inertText unicode s)) =
    ((words isKeptSpace s).map (joinedToken unicode)).filter (· ≠ []) := by
  have hkept : (fun c => isWhitespace c && isSafeChar c) = isKeptSpace := rfl
  have hstretches : words isKeptSpace (inertText unicode s) =
      (words isKeptSpace s).map (mapWords isWhitespace (inertWord unicode) []) := by
    refine words_mapWords (fun c hc => (Bool.and_eq_true_iff.mp hc).1) ?_
    intro w hw
    obtain ⟨hne, hword⟩ := mem_words hw
    exact inertWord_word hne fun c hc => (hword c hc).1
  have hfilter : clean (inertText unicode s) = (inertText unicode s).filter isSafeChar :=
    clean_eq _
  rw [hfilter, splitWhitespace_eq, words_filter, hkept, hstretches, List.map_map]
  refine congrArg _ (List.map_congr_left ?_)
  intro stretch hstretch
  refine filter_mapWords ?_
  intro c hc hspace
  have hfree := ((mem_words hstretch).2 c hc).1
  simpa [isKeptSpace, hspace] using hfree

theorem joinedToken_safe {stretch : List Char} (hstretch : stretch ∈ words isKeptSpace s)
    (hsafe : ∀ c ∈ stretch, isUnsafeChar c = false) :
    joinedToken unicode stretch = inertWord unicode stretch := by
  obtain ⟨hne, hfree⟩ := mem_words hstretch
  have hword : ∀ c ∈ stretch, isWhitespace c = false := by
    intro c hc
    simpa [isKeptSpace, hsafe c hc] using (hfree c hc).1
  have hkeep : (inertWord unicode stretch).filter isSafeChar = inertWord unicode stretch := by
    have hbrackets : ∀ c ∈ "[.:]/".toList, isSafeChar c = true := by
      simp [isSafeChar, isUnsafeChar]
    refine List.filter_eq_self.mpr ?_
    intro c hc
    rcases mem_inertWord hc with hin | hbracket
    · simp [isSafeChar, hsafe c hin]
    · exact hbrackets c hbracket
  unfold joinedToken
  rw [splitWhitespace_eq, words_whole hword, if_neg hne]
  simpa using hkeep

theorem firstLinkableToken_clean_inertText :
    firstLinkableToken unicode (clean (inertText unicode s)) = none ↔
      ∀ stretch ∈ words isKeptSpace s, ¬ JoinsToLink unicode stretch := by
  have hempty : isClickable unicode [] = false := rfl
  rw [firstLinkableToken_eq_none, words_clean_inertText]
  constructor
  · intro h stretch hstretch hjoins
    by_cases hnil : joinedToken unicode stretch = []
    · rw [JoinsToLink, hnil, hempty] at hjoins
      exact absurd hjoins.2 (by simp)
    · have hin := h _ (List.mem_filter.mpr ⟨List.mem_map_of_mem hstretch, by simpa using hnil⟩)
      rw [hjoins.2] at hin
      cases hin
  · intro h token htoken
    obtain ⟨stretch, hstretch, rfl⟩ := List.mem_map.mp (List.mem_filter.mp htoken).1
    by_cases hdrop : ∃ c ∈ stretch, isUnsafeChar c = true
    · exact Bool.eq_false_iff.mpr fun hclick => h stretch hstretch ⟨hdrop, hclick⟩
    · have hsafe : ∀ c ∈ stretch, isUnsafeChar c = false := by simpa using hdrop
      rw [joinedToken_safe hstretch hsafe]
      exact isClickable_inertWord

/-- Both views of a text are free of links unless the text is one the rewriting returns on and a
stretch of it is put together to a link. -/
theorem views_inert_iff :
    ((∀ out, cleanProse unicode s = some out → firstLinkableToken unicode out = none) ∧
      ∀ out, escapeProse unicode html s = some out →
        firstLinkableToken unicode (html.textContent out) = none) ↔
      (Trimmable unicode s → ∀ stretch ∈ words isKeptSpace s, ¬ JoinsToLink unicode stretch) := by
  have hcontent : ∀ out, escapeProse unicode html s = some out →
      cleanProse unicode s = some (html.textContent out) := by
    intro out hout
    have hcontent := @textContent_escapeProse unicode html s
    rw [← hcontent, hout, Option.map_some]
  rw [← firstLinkableToken_clean_inertText]
  constructor
  · intro h htrim
    exact h.1 _ (by rw [cleanProse_spec, if_pos htrim])
  · intro h
    have hclean : ∀ out, cleanProse unicode s = some out →
        firstLinkableToken unicode out = none := by
      intro out hout
      rw [cleanProse_spec] at hout
      split at hout
      · rename_i htrim
        obtain rfl := Option.some.inj hout
        exact h htrim
      · cases hout
    exact ⟨hclean, fun out hout => hclean _ (hcontent out hout)⟩

/-- Neither half of the name is clickable, and the line break between them is dropped afterwards. -/
theorem newline_completes_link : ¬ ∀ (unicode : UnicodeTables) (s out : List Char),
    cleanProse unicode s = some out → firstLinkableToken unicode out = none := by
  intro h
  have hout : cleanProse asciiTables "acme\n.com".toList = some "acme.com".toList := by
    decide +kernel
  have hfree := h _ _ _ hout
  revert hfree
  decide +kernel

end Inert

end Bulletin
