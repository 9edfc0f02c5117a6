import Bulletin.Core.Scan
import Bulletin.Summarize.Gate

/-! # The house voice

The lint slices the text at byte offsets and goes on behind a failed match. It misses no word, since
an occurrence that overlaps a match has a letter of the match before it.
-/

namespace Bulletin

open Text Scan

/-! ## The lint on bytes -/

section Bytes

variable (unicode : UnicodeTables)

/-- Search from a byte offset; each round takes a character at least. `none` is a panic. -/
def containsWordLoop (haystack needle : List Char) : Nat → Nat → Option Bool
  | 0, _ => none
  | fuel + 1, start =>
      (byteSlice haystack start (byteLen haystack)).bind fun rest =>
        match find needle rest with
        | none => some false
        | some pos =>
            let i := start + pos
            (byteSlice haystack 0 i).bind fun before =>
              let after := i + byteLen needle
              (byteSlice haystack after (byteLen haystack)).bind fun behind =>
                if isEdge unicode before.getLast? && isEdge unicode behind.head? then some true
                else containsWordLoop haystack needle fuel after

def containsWordBytes (haystack needle : List Char) : Option Bool :=
  containsWordLoop unicode haystack needle (haystack.length + 1) 0

def findWordBytes (haystack : List Char) : List (List Char) → Option (Option (List Char))
  | [] => some none
  | word :: rest =>
      (containsWordBytes unicode haystack word).bind fun found =>
        if found then some (some word) else findWordBytes haystack rest

def bannedWordInBytes (text : List Char) : Option (Option (List Char)) :=
  (findWordBytes unicode (unicode.toLowercase text) bannedWords).map fun found =>
    match found with
    | some word => some word
    | none => if text.contains '!' then some ['!'] else none

end Bytes

section Refinement

variable {unicode : UnicodeTables} {needle haystack s a b text : List Char} {prev : Option Char}
  {skip fuel : Nat}

def wordProbe (unicode : UnicodeTables) (needle : List Char) (prev : Option Char) (s : List Char) :
    Option Unit × Nat :=
  if needle.isPrefixOf s then
    (if isEdge unicode prev && isEdge unicode (s.drop needle.length).head? then some () else none,
      needle.length - 1)
  else (none, 0)

theorem containsWordFrom_eq : containsWordFrom unicode needle skip prev s =
    !(scan (wordProbe unicode needle) skip prev s).isEmpty := by
  induction s generalizing skip prev with
  | nil => cases skip <;> rfl
  | cons c s ih =>
      cases skip with
      | succ skip => exact ih
      | zero =>
          rw [containsWordFrom, scan, wordProbe]
          split
          · rw [ih]
            split
            · rename_i hedges
              rw [hedges]
              rfl
            · rename_i hedges
              rw [Bool.not_eq_true] at hedges
              rw [hedges]
              rfl
          · rw [ih]
            rfl

theorem scan_word_cut (hne : needle ≠ []) : scan (wordProbe unicode needle) 0 prev (needle ++ b) =
    (if isEdge unicode prev && isEdge unicode b.head? then [()] else []) ++
      scan (wordProbe unicode needle) 0 (needle.getLast?.or prev) b := by
  obtain ⟨c, word, rfl⟩ := List.exists_cons_of_ne_nil hne
  have hprobe : wordProbe unicode (c :: word) prev (c :: (word ++ b)) =
      (if isEdge unicode prev && isEdge unicode b.head? then some () else none, word.length) := by
    have hprefix : (c :: word).isPrefixOf (c :: (word ++ b)) = true :=
      List.isPrefixOf_iff_prefix.mpr ⟨b, rfl⟩
    unfold wordProbe
    rw [if_pos hprefix]
    simp
  rw [List.cons_append, scan, hprobe, getLast?_cons_or]
  dsimp only
  rw [scan_pass]
  split <;> rfl

/-- Every slice is on a boundary, and the search finds what the search of characters finds. -/
theorem containsWordLoop_eq (hne : needle ≠ []) (hfuel : s.length < fuel) :
    containsWordLoop unicode (a ++ s) needle fuel (byteLen a) =
      some (containsWordFrom unicode needle 0 a.getLast? s) := by
  rw [containsWordFrom_eq]
  induction fuel generalizing a s with
  | zero => omega
  | succ fuel ih =>
      have hrest : byteSlice (a ++ s) (byteLen a) (byteLen (a ++ s)) = some s := by
        have hmid := @byteSlice_mid a s []
        rwa [List.append_nil, ← byteLen_append] at hmid
      unfold containsWordLoop
      rw [hrest, Option.bind_some]
      cases hfind : find needle s with
      | none =>
          have hmissing := find_eq_none hfind
          have hquiet : scan (wordProbe unicode needle) 0 a.getLast? (s ++ []) =
              scan (wordProbe unicode needle) 0 (s.getLast?.or a.getLast?) [] := by
            refine scan_quiet fun x t hs _ prev => ?_
            unfold wordProbe
            rw [if_neg]
            rw [List.append_nil, List.isPrefixOf_iff_prefix]
            exact hmissing x t hs
          rw [List.append_nil] at hquiet
          rw [hquiet]
          rfl
      | some pos =>
          obtain ⟨x, y, rfl, rfl, hfirst⟩ := find_eq_some hfind
          have hbefore : byteSlice (a ++ (x ++ (needle ++ y))) 0 (byteLen a + byteLen x) =
              some (a ++ x) := by
            have hmid := @byteSlice_mid [] (a ++ x) (needle ++ y)
            rwa [List.nil_append, List.append_assoc, byteLen_nil, Nat.zero_add, byteLen_append]
              at hmid
          have hbehind : byteSlice (a ++ (x ++ (needle ++ y)))
              (byteLen a + byteLen x + byteLen needle)
              (byteLen (a ++ (x ++ (needle ++ y)))) = some y := by
            have hmid := @byteSlice_mid (a ++ x ++ needle) y []
            rw [List.append_nil, ← byteLen_append, byteLen_append (b := needle), byteLen_append]
              at hmid
            simpa using hmid
          have hquiet : scan (wordProbe unicode needle) 0 a.getLast? (x ++ (needle ++ y)) =
              scan (wordProbe unicode needle) 0 (a ++ x).getLast? (needle ++ y) := by
            rw [List.getLast?_append]
            refine scan_quiet fun u t hx hne prev => ?_
            unfold wordProbe
            rw [if_neg]
            rw [List.isPrefixOf_iff_prefix]
            exact hfirst u t hx hne
          have hmore := @ih y (a ++ x ++ needle) (by
            have hpos := List.length_pos_of_ne_nil hne
            rw [List.length_append, List.length_append] at hfuel
            omega)
          rw [hquiet, scan_word_cut hne]
          dsimp only
          rw [hbefore, hbehind, Option.bind_some, Option.bind_some]
          split
          · rename_i hedges
            rfl
          · rw [List.nil_append]
            simpa [Option.or_assoc, Nat.add_assoc] using hmore

theorem containsWordBytes_eq (hne : needle ≠ []) :
    containsWordBytes unicode haystack needle = some (containsWord unicode haystack needle) :=
  @containsWordLoop_eq unicode needle haystack [] _ hne (Nat.lt_succ_self _)

theorem findWordBytes_eq {list : List (List Char)} (hne : ∀ word ∈ list, word ≠ []) :
    findWordBytes unicode haystack list = some (list.find? (containsWord unicode haystack)) := by
  induction list with
  | nil => rfl
  | cons word rest ih =>
      have hrest := ih fun w hw => hne w (List.mem_cons_of_mem word hw)
      rw [findWordBytes, containsWordBytes_eq (hne word List.mem_cons_self), Option.bind_some,
        List.find?_cons, hrest]
      cases containsWord unicode haystack word <;> rfl

theorem bannedWords_ne_nil : ∀ word ∈ bannedWords, word ≠ [] := by decide +kernel

theorem bannedWordInBytes_eq :
    bannedWordInBytes unicode text = some (bannedWordIn unicode text) := by
  unfold bannedWordInBytes bannedWordIn
  rw [findWordBytes_eq bannedWords_ne_nil]
  rfl

end Refinement

/-! ## Whole words -/

section WholeWords

variable {unicode : UnicodeTables} {needle word haystack text : List Char}

/-- A word occurs with no letter or digit next to it. -/
def HasWord (unicode : UnicodeTables) (s word : List Char) : Prop :=
  ∃ a b, s = a ++ (word ++ b) ∧ isEdge unicode a.getLast? = true ∧ isEdge unicode b.head? = true

/-- Where a word can overlap itself, a letter or digit of it stands before the overlap. -/
def Inseparable (unicode : UnicodeTables) (word : List Char) : Prop :=
  ∀ lead rest, word = lead ++ rest → lead ≠ [] → rest ≠ [] → rest <+: word →
    isEdge unicode lead.getLast? = false

theorem bannedWords_inseparable (hword : word ∈ bannedWords) : Inseparable unicode word := by
  have hcheck : ∀ word ∈ bannedWords, ∀ k ∈ List.range word.length, 0 < k →
      (word.drop k).isPrefixOf word = true →
        (word.take k).getLast?.any (fun c => c.toNat < 128 && c.isAlphanum) = true := by
    decide +kernel
  intro lead rest heq hlead hrest hprefix
  have hshort : lead.length < word.length := by
    have hpos := List.length_pos_of_ne_nil hrest
    rw [heq, List.length_append]
    omega
  have hletter := hcheck word hword lead.length (List.mem_range.mpr hshort)
    (List.length_pos_of_ne_nil hlead) (by
      rw [heq, List.drop_left, ← heq]
      exact List.isPrefixOf_iff_prefix.mpr hprefix)
  rw [heq, List.take_left] at hletter
  cases hlast : lead.getLast? with
  | none => exact absurd (List.getLast?_eq_none_iff.mp hlast) hlead
  | some c =>
      rw [hlast, Option.any_some, Bool.and_eq_true, decide_eq_true_eq] at hletter
      simp [isEdge, unicode.ascii c hletter.1, hletter.2]

theorem wordProbe_eq_some {prev : Option Char} {s : List Char} {u : Unit} :
    (wordProbe unicode needle prev s).1 = some u ↔
      ∃ b, s = needle ++ b ∧ isEdge unicode prev = true ∧ isEdge unicode b.head? = true := by
  unfold wordProbe
  split
  · rename_i hprefix
    obtain ⟨b, rfl⟩ := List.isPrefixOf_iff_prefix.mp hprefix
    simp
  · rename_i hprefix
    refine iff_of_false (by simp) ?_
    rintro ⟨b, rfl, _⟩
    exact hprefix (List.isPrefixOf_iff_prefix.mpr (List.prefix_append needle b))

theorem wordProbe_passesNothing (h : Inseparable unicode needle) :
    PassesNothing (wordProbe unicode needle) := by
  intro prev c s a d t hs hshort
  refine Option.eq_none_iff_forall_ne_some.mpr fun u hfound => ?_
  obtain ⟨b, hlater, hedge, _⟩ := wordProbe_eq_some.mp hfound
  unfold wordProbe at hshort
  split at hshort
  · rename_i hhere
    obtain ⟨y, hy⟩ := List.isPrefixOf_iff_prefix.mp hhere
    dsimp only at hshort
    -- the later occurrence starts inside the match
    have hover : (c :: a) ++ d :: t = needle ++ y := by rw [hy, hs, List.cons_append]
    obtain ⟨rest, hneedle, hrest⟩ : ∃ rest, needle = (c :: a) ++ rest ∧ d :: t = rest ++ y := by
      rcases List.append_eq_append_iff.mp hover with ⟨rest, hn, hd⟩ | ⟨rest, hn, _⟩
      · exact ⟨rest, hn, hd⟩
      · have hlen := congrArg List.length hn
        simp only [List.length_append, List.length_cons] at hlen
        omega
    have hne : rest ≠ [] := by
      intro hnil
      have hlen := congrArg List.length hneedle
      simp only [hnil, List.length_append, List.length_cons, List.length_nil] at hlen
      omega
    have hborder : rest <+: needle := by
      refine List.prefix_of_prefix_length_le ⟨y, hrest.symm⟩ ⟨b, hlater.symm⟩ ?_
      rw [hneedle, List.length_append]
      omega
    have hinside := h (c :: a) rest hneedle (List.cons_ne_nil c a) hne hborder
    have hlast : (c :: a).getLast? = a.getLast?.or (some c) := by
      rw [← Option.or_none (o := (c :: a).getLast?), getLast?_cons_or]
    rw [hlast, hedge] at hinside
    cases hinside
  · exact absurd hshort (Nat.not_lt_zero _)

theorem containsWord_iff (hne : needle ≠ []) (h : Inseparable unicode needle) :
    containsWord unicode haystack needle = true ↔ HasWord unicode haystack needle := by
  unfold containsWord
  rw [containsWordFrom_eq, scan_eq_everyHit (wordProbe_passesNothing h) quiet_zero,
    Bool.not_eq_true', List.isEmpty_eq_false_iff_exists_mem]
  simp only [mem_everyHit, wordProbe_eq_some, Option.or_none]
  constructor
  · rintro ⟨_, a, c, t, rfl, b, ht, hbefore, hbehind⟩
    exact ⟨a, b, by rw [ht], hbefore, hbehind⟩
  · rintro ⟨a, b, rfl, hbefore, hbehind⟩
    obtain ⟨c, rest, rfl⟩ := List.exists_cons_of_ne_nil hne
    exact ⟨(), a, c, rest ++ b, rfl, b, rfl, hbefore, hbehind⟩

theorem containsWord_banned (hword : word ∈ bannedWords) :
    containsWord unicode haystack word = true ↔ HasWord unicode haystack word :=
  containsWord_iff (bannedWords_ne_nil word hword) (bannedWords_inseparable hword)

theorem bannedWordIn_eq_none : bannedWordIn unicode text = none ↔
    '!' ∉ text ∧ ∀ word ∈ bannedWords, ¬ HasWord unicode (unicode.toLowercase text) word := by
  have hwords : bannedWords.find? (containsWord unicode (unicode.toLowercase text)) = none ↔
      ∀ word ∈ bannedWords, ¬ HasWord unicode (unicode.toLowercase text) word := by
    rw [List.find?_eq_none]
    exact forall₂_congr fun word hword => not_congr (containsWord_banned hword)
  unfold bannedWordIn
  cases hfind : bannedWords.find? (containsWord unicode (unicode.toLowercase text)) with
  | some word =>
      refine iff_of_false (by simp) fun h => ?_
      rw [hwords.mpr h.2] at hfind
      cases hfind
  | none =>
      have hclean := hwords.mp hfind
      simpa using fun _ => hclean

/-- The lint does not panic and lets a text through exactly if it has no exclamation mark and, in
lower case, none of the banned words as a whole word; and its search of any text for one of them is
a search for a whole word at every position. -/
theorem banned_word_in_exact :
    bannedWordInBytes unicode text = some (bannedWordIn unicode text) ∧
      (bannedWordIn unicode text = none ↔
        '!' ∉ text ∧ ∀ word ∈ bannedWords, ¬ HasWord unicode (unicode.toLowercase text) word) ∧
      ∀ haystack, ∀ word ∈ bannedWords, ∃ found,
        containsWordBytes unicode haystack word = some found ∧
          (found = true ↔ HasWord unicode haystack word) :=
  ⟨bannedWordInBytes_eq, bannedWordIn_eq_none, fun _ word hword =>
    ⟨_, containsWordBytes_eq (bannedWords_ne_nil word hword), containsWord_banned hword⟩⟩

example : bannedWordInBytes asciiTables "game-changingame-changing, huge".toList =
    some (some "huge".toList) := by decide +kernel

end WholeWords

end Bulletin
