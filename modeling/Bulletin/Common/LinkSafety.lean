import Bulletin.Common.Text

/-! # Link safety

A mail client turns what looks like a URL or a host into a link of its own. A token that does is
found by its shape, and is rewritten until it no longer does.
-/

namespace Bulletin

open Text

/-- What the tables of a Unicode version tell of characters and of texts. -/
structure UnicodeTables where
  isAlphanumeric : Char → Bool
  toLowercase : List Char → List Char
  ascii : ∀ c : Char, c.toNat < 128 → isAlphanumeric c = c.isAlphanum
  ascii_lower : ∀ s : List Char, (∀ c ∈ s, c.toNat < 128) → toLowercase s = asciiLower s

/-! ## Tokens that look clickable -/

def occursIn (pat : List Char) : List Char → Bool
  | [] => pat.isEmpty
  | c :: s => pat.isPrefixOf (c :: s) || occursIn pat s

theorem occursIn_iff {pat s : List Char} : occursIn pat s = true ↔ pat <:+: s := by
  induction s with
  | nil => cases pat <;> simp [occursIn]
  | cons c s ih =>
      rw [occursIn, Bool.or_eq_true, ih, List.isPrefixOf_iff_prefix, List.infix_cons_iff]

/-- Whether a token starts with a lower case text, in either case. -/
def startsWithIgnoreCase (lead tok : List Char) : Bool :=
  asciiLower (tok.take lead.length) == lead

/-- The host a token may name: its authority without user info and port. -/
def hostOf (tok : List Char) : List Char :=
  let authority := tok.takeWhile fun c => c != '/' && c != '?' && c != '#'
  let afterUserinfo := (authority.reverse.takeWhile (· != '@')).reverse
  afterUserinfo.takeWhile (· != ':')

def isHostLabel (label : List Char) : Bool :=
  label != [] && label.all fun c => c.isAlphanum || c == '-'

def looksLikeHost (tok : List Char) : Bool :=
  let labels := (hostOf tok).splitOnP (· == '.')
  let last := labels.getLast?.getD []
  labels.all isHostLabel && 2 ≤ labels.length && 2 ≤ byteLen last && last.all Char.isAlpha

def isLinkableToken (tok : List Char) : Bool :=
  occursIn "://".toList tok || startsWithIgnoreCase "www.".toList tok ||
    startsWithIgnoreCase "mailto:".toList tok || looksLikeHost tok

section Tokens

variable (unicode : UnicodeTables)

def UnicodeTables.isMark (c : Char) : Bool := !unicode.isAlphanumeric c

def coreToken (word : List Char) : List Char := trimMatches unicode.isMark word

def isClickable (word : List Char) : Bool :=
  let core := coreToken unicode word
  core != [] && isLinkableToken core

/-- The first clickable token of a text. -/
def firstLinkableToken (text : List Char) : Option (List Char) :=
  ((splitWhitespace text).map (coreToken unicode)).find? fun tok => tok != [] && isLinkableToken tok

/-! ## Rewriting them -/

def replaceDots (s : List Char) : List Char :=
  s.flatMap fun c => if c = '.' then "[.]".toList else [c]

def replaceSchemes : List Char → List Char
  | ':' :: '/' :: '/' :: s => "[:]//".toList ++ replaceSchemes s
  | c :: s => c :: replaceSchemes s
  | [] => []

/-- A token that looks like no link any more. `none` is a panic. -/
def neutralize (core : List Char) : Option (List Char) :=
  let s := replaceSchemes (replaceDots core)
  match byteSlice s 0 7 with
  | none => some s
  | some p =>
      if asciiLower p = "mailto:".toList then
        (byteSlice s 0 6).bind fun a => (byteSlice s 7 (byteLen s)).map fun b =>
          a ++ "[:]".toList ++ b
      else some s

/-- One word: its lengths before and after the core are measured from its two ends. -/
def defangWord (word : List Char) : Option (List Char) :=
  let leadLen := byteLen word - byteLen (word.dropWhile unicode.isMark)
  let trailLen := byteLen word - byteLen (trimEndMatches unicode.isMark word)
  (byteSlice word leadLen (byteLen word - trailLen)).bind fun core =>
    if core ≠ [] ∧ isLinkableToken core = true then
      (byteSlice word 0 leadLen).bind fun lead =>
        (neutralize core).bind fun inert =>
          (byteSlice word (byteLen word - trailLen) (byteLen word)).map fun trail =>
            lead ++ inert ++ trail
    else some word

/-- Word after word, with the whitespace between them as it is; each round takes a character at
least. -/
def defangLoop : Nat → List Char → Option (List Char)
  | _, [] => some []
  | 0, _ :: _ => none
  | fuel + 1, rest =>
      let space := rest.takeWhile isWhitespace
      let rest := rest.dropWhile isWhitespace
      if rest = [] then some space
      else
        let word := rest.takeWhile fun c => !isWhitespace c
        (defangWord unicode word).bind fun out =>
          (defangLoop fuel (rest.dropWhile fun c => !isWhitespace c)).map fun tail =>
            space ++ out ++ tail

/-- A text with its clickable tokens rewritten; a text without one is returned as it is. -/
def defang (text : List Char) : Option (List Char) :=
  if ((splitWhitespace text).map (coreToken unicode)).any fun tok => tok != [] && isLinkableToken tok
  then defangLoop unicode text.length text
  else some text

end Tokens

def asciiTables : UnicodeTables :=
  ⟨Char.isAlphanum, asciiLower, fun _ _ => rfl, fun _ _ => rfl⟩

example : (defang asciiTables "(see acme.com).".toList).map String.ofList =
    some "(see acme[.]com)." := by decide +kernel

/-! ## What the rewriting returns -/

def inertToken (core : List Char) : List Char :=
  let s := replaceSchemes (replaceDots core)
  if startsWithIgnoreCase "mailto:".toList s then s.take 6 ++ "[:]".toList ++ s.drop 7 else s

theorem utf8Size_of_toLower {c : Char} (h : c.toLower.toNat < 128) : c.utf8Size = 1 := by
  have hc : c.toNat < 128 := by
    by_cases hupper : c.toNat < 128
    · exact hupper
    · have hsame : c.toLower = c := by
        refine toLower_of_not_upper ?_
        intro hbounds
        have hle : c.val.toNat ≤ 90 := hbounds.2
        exact hupper (by unfold Char.toNat; omega)
      rwa [hsame] at h
  unfold Char.utf8Size
  rw [if_pos]
  show c.val.toNat ≤ 127
  unfold Char.toNat at hc
  omega

/-- A text that is ASCII once it is in lower case has one byte for each character. -/
theorem byteLen_of_asciiLower {a lead : List Char} (h : asciiLower a = lead)
    (hlead : ∀ c ∈ lead, c.toNat < 128) : byteLen a = a.length := by
  subst h
  induction a with
  | nil => rfl
  | cons c a ih =>
      have hc := utf8Size_of_toLower (hlead c.toLower List.mem_cons_self)
      have hrest := ih fun x hx => hlead x (List.mem_cons_of_mem _ hx)
      simp only [byteLen, List.map_cons, List.sum_cons, List.length_cons] at hrest ⊢
      omega

theorem neutralize_eq (core : List Char) : neutralize core = some (inertToken core) := by
  unfold neutralize inertToken
  generalize replaceSchemes (replaceDots core) = s
  dsimp only
  have hascii : ∀ c ∈ "mailto:".toList, c.toNat < 128 := by simp
  by_cases hmail : startsWithIgnoreCase "mailto:".toList s = true
  · have hlower : asciiLower (s.take 7) = "mailto:".toList := eq_of_beq hmail
    have hseven : byteLen (s.take 7) = 7 := by
      have hlength : (s.take 7).length = 7 := by
        simpa [asciiLower] using congrArg List.length hlower
      rw [byteLen_of_asciiLower hlower hascii, hlength]
    have hsix : byteLen (s.take 6) = 6 := by
      have hshort : asciiLower (s.take 6) = "mailto".toList := by
        have htake : s.take 6 = (s.take 7).take 6 := by simp [List.take_take]
        rw [htake, asciiLower, List.map_take]
        exact congrArg (List.take 6) hlower
      have hlength : (s.take 6).length = 6 := by
        simpa [asciiLower] using congrArg List.length hshort
      rw [byteLen_of_asciiLower hshort (by simp), hlength]
    rw [byteSlice_take hseven, byteSlice_take hsix, byteSlice_drop hseven]
    simp only [hlower, hmail, if_true, Option.bind_some, Option.map_some]
  · rw [if_neg hmail]
    cases hslice : byteSlice s 0 7 with
    | none => rfl
    | some p =>
        refine if_neg ?_
        intro hlower
        -- the slice is the first seven characters, which are the marker
        obtain ⟨a, c, rfl, ha, hp⟩ := byteSlice_spec hslice
        obtain rfl : a = [] := by
          by_contra hne
          have hpos := byteLen_pos hne
          omega
        have hlength : p.length = 7 := by simpa [asciiLower] using congrArg List.length hlower
        refine hmail (beq_iff_eq.mpr ?_)
        have htake : (([] ++ p ++ c).take "mailto:".toList.length) = p := by
          rw [List.nil_append]
          exact List.take_left' hlength
        rw [htake, hlower]

section Words

variable {unicode : UnicodeTables} {word s : List Char}

/-- A word with its core made inert if it is clickable. -/
def inertWord (unicode : UnicodeTables) (word : List Char) : List Char :=
  if isClickable unicode word = true then
    word.takeWhile unicode.isMark ++ inertToken (coreToken unicode word) ++
      (word.reverse.takeWhile unicode.isMark).reverse
  else word

theorem defangWord_marks (hne : word ≠ []) (h : ∀ c ∈ word, unicode.isMark c = true) :
    defangWord unicode word = none := by
  have hlead : word.dropWhile unicode.isMark = [] := List.dropWhile_eq_nil_iff.mpr h
  have htrail : trimEndMatches unicode.isMark word = [] := by
    unfold trimEndMatches
    rw [List.dropWhile_eq_nil_iff.mpr (by simpa using h)]
    rfl
  have hpos := byteLen_pos hne
  unfold defangWord
  dsimp only
  rw [hlead, htrail, byteLen_nil, Nat.sub_zero, Nat.sub_self, byteSlice_of_lt hpos]
  rfl

section Cut

variable {lead core trail : List Char}

theorem coreToken_cut (hlead : ∀ c ∈ lead, unicode.isMark c = true)
    (htrail : ∀ c ∈ trail, unicode.isMark c = true) (hne : core ≠ [])
    (hcore : Trimmed unicode.isMark core) : coreToken unicode (lead ++ core ++ trail) = core :=
  trimMatches_core hlead htrail hne hcore

theorem inertWord_cut (hlead : ∀ c ∈ lead, unicode.isMark c = true)
    (htrail : ∀ c ∈ trail, unicode.isMark c = true) (hne : core ≠ [])
    (hcore : Trimmed unicode.isMark core) : inertWord unicode (lead ++ core ++ trail) =
      if isLinkableToken core = true then lead ++ inertToken core ++ trail
      else lead ++ core ++ trail := by
  have hhead : ∀ c ∈ (core ++ trail).head?, unicode.isMark c = false := by
    rw [List.head?_append_of_ne_nil _ hne]
    exact hcore.head
  have hlast : ∀ c ∈ (lead ++ core).getLast?, unicode.isMark c = false := by
    rw [List.getLast?_append_of_ne_nil _ hne]
    exact hcore.last
  have hfront : (lead ++ core ++ trail).takeWhile unicode.isMark = lead := by
    rw [List.append_assoc]
    exact takeWhile_lead hlead hhead
  unfold inertWord isClickable
  rw [coreToken_cut hlead htrail hne hcore, hfront, takeWhile_trail htrail hlast]
  simp [hne]

theorem defangWord_cut (hlead : ∀ c ∈ lead, unicode.isMark c = true)
    (htrail : ∀ c ∈ trail, unicode.isMark c = true) (hne : core ≠ [])
    (hcore : Trimmed unicode.isMark core) : defangWord unicode (lead ++ core ++ trail) =
      some (inertWord unicode (lead ++ core ++ trail)) := by
  have hhead : ∀ c ∈ (core ++ trail).head?, unicode.isMark c = false := by
    rw [List.head?_append_of_ne_nil _ hne]
    exact hcore.head
  have hlast : ∀ c ∈ (lead ++ core).getLast?, unicode.isMark c = false := by
    rw [List.getLast?_append_of_ne_nil _ hne]
    exact hcore.last
  have hfront : (lead ++ core ++ trail).dropWhile unicode.isMark = core ++ trail := by
    rw [List.append_assoc]
    exact dropWhile_lead hlead hhead
  have hback : trimEndMatches unicode.isMark (lead ++ core ++ trail) = lead ++ core :=
    dropWhile_trail htrail hlast
  have hleadLen : byteLen (lead ++ core ++ trail) - byteLen (core ++ trail) = byteLen lead := by
    simp only [byteLen_append]
    omega
  have hstop : byteLen (lead ++ core ++ trail) -
      (byteLen (lead ++ core ++ trail) - byteLen (lead ++ core)) = byteLen lead + byteLen core := by
    simp only [byteLen_append]
    omega
  have hfirst : byteSlice (lead ++ core ++ trail) 0 (byteLen lead) = some lead := by
    have hmid : byteSlice ([] ++ lead ++ (core ++ trail)) 0 (0 + byteLen lead) = some lead :=
      byteSlice_mid
    rwa [List.nil_append, Nat.zero_add, ← List.append_assoc] at hmid
  have hrest : byteSlice (lead ++ core ++ trail) (byteLen lead + byteLen core)
      (byteLen (lead ++ core ++ trail)) = some trail := by
    have hmid : byteSlice (lead ++ core ++ trail ++ []) (byteLen (lead ++ core))
        (byteLen (lead ++ core) + byteLen trail) = some trail := byteSlice_mid
    rwa [List.append_nil, ← byteLen_append, byteLen_append (a := lead) (b := core)] at hmid
  rw [inertWord_cut hlead htrail hne hcore]
  unfold defangWord
  dsimp only
  rw [hfront, hback, hleadLen, hstop, byteSlice_mid, Option.bind_some, hfirst, hrest,
    neutralize_eq]
  by_cases hlink : isLinkableToken core = true
  · rw [if_pos ⟨hne, hlink⟩, if_pos hlink]
    rfl
  · rw [if_neg (fun h => hlink h.2), if_neg hlink]

end Cut

def HasCore (unicode : UnicodeTables) (word : List Char) : Prop :=
  ∃ c ∈ word, unicode.isMark c = false

instance (unicode : UnicodeTables) (word : List Char) : Decidable (HasCore unicode word) :=
  List.decidableBEx (fun c => unicode.isMark c = false) word

theorem defangWord_eq (hne : word ≠ []) : defangWord unicode word =
    if HasCore unicode word then some (inertWord unicode word) else none := by
  split
  · rename_i hcore
    obtain ⟨lead, core, trail, rfl, hlead, htrail, hne, hcore⟩ := exists_core hcore
    exact defangWord_cut hlead htrail hne hcore
  · rename_i hmarks
    refine defangWord_marks hne ?_
    intro c hc
    by_contra hmark
    exact hmarks ⟨c, hc, by simpa using hmark⟩

theorem exists_round (h : s.dropWhile isWhitespace ≠ []) : ∃ space word rest,
    s = space ++ (word ++ rest) ∧ (∀ c ∈ space, isWhitespace c = true) ∧ word ≠ [] ∧
      (∀ c ∈ word, isWhitespace c = false) ∧ (∀ c ∈ rest.head?, isWhitespace c = true) ∧
      s.takeWhile isWhitespace = space ∧ s.dropWhile isWhitespace = word ++ rest ∧
      (word ++ rest).takeWhile (fun c => !isWhitespace c) = word ∧
      (word ++ rest).dropWhile (fun c => !isWhitespace c) = rest := by
  have hword : (s.dropWhile isWhitespace).takeWhile (fun c => !isWhitespace c) ++
      (s.dropWhile isWhitespace).dropWhile (fun c => !isWhitespace c) = s.dropWhile isWhitespace :=
    List.takeWhile_append_dropWhile
  refine ⟨s.takeWhile isWhitespace, (s.dropWhile isWhitespace).takeWhile fun c => !isWhitespace c,
    (s.dropWhile isWhitespace).dropWhile fun c => !isWhitespace c, ?_, ?_, ?_, ?_, ?_, rfl,
    hword.symm, by rw [hword], by rw [hword]⟩
  · rw [hword, List.takeWhile_append_dropWhile]
  · exact fun c hc => List.mem_takeWhile_imp hc
  · cases hrest : s.dropWhile isWhitespace with
    | nil => exact absurd hrest h
    | cons c rest =>
        rw [List.takeWhile_cons_of_pos (by simp [head_dropWhile hrest])]
        exact List.cons_ne_nil _ _
  · intro c hc
    simpa using List.mem_takeWhile_imp hc
  · intro c hc
    cases hrest : (s.dropWhile isWhitespace).dropWhile fun c => !isWhitespace c with
    | nil => simp [hrest] at hc
    | cons x rest =>
        obtain rfl : x = c := by simpa [hrest] using hc
        simpa using head_dropWhile hrest

theorem defangLoop_round {fuel : Nat} (h : s.dropWhile isWhitespace ≠ []) :
    defangLoop unicode (fuel + 1) s =
      (defangWord unicode ((s.dropWhile isWhitespace).takeWhile fun c => !isWhitespace c)).bind
        fun out => (defangLoop unicode fuel
          ((s.dropWhile isWhitespace).dropWhile fun c => !isWhitespace c)).map fun tail =>
            s.takeWhile isWhitespace ++ out ++ tail := by
  cases s with
  | nil => exact absurd rfl h
  | cons c s => exact if_neg h

/-- With a round for each character the loop rewrites every word, unless it comes to one of marks
alone. -/
theorem defangLoop_eq {fuel : Nat} (hfuel : s.length ≤ fuel) : defangLoop unicode fuel s =
    if ∀ w ∈ splitWhitespace s, HasCore unicode w then
      some (mapWords isWhitespace (inertWord unicode) [] s) else none := by
  induction fuel generalizing s with
  | zero =>
      obtain rfl := List.eq_nil_of_length_eq_zero (Nat.le_zero.mp hfuel)
      simp [defangLoop, splitWhitespace, mapWords]
  | succ fuel ih =>
      by_cases hspace : s.dropWhile isWhitespace = []
      · have hall := List.dropWhile_eq_nil_iff.mp hspace
        have htake : s.takeWhile isWhitespace = s := by
          have hsplit := List.takeWhile_append_dropWhile (p := isWhitespace) (l := s)
          rwa [hspace, List.append_nil] at hsplit
        have hwords : splitWhitespace s = [] := by
          have hnone := words_space (s := []) hall
          rwa [List.append_nil] at hnone
        have hmap := mapWords_space (f := inertWord unicode) (s := []) hall
        rw [List.append_nil] at hmap
        rw [hwords, if_pos (by simp), hmap]
        cases s with
        | nil => rfl
        | cons c s => simp [defangLoop, hspace, htake, mapWords]
      · obtain ⟨space, word, rest, heq, hspaces, hne, hword, hrest, htake, hdrop, hw, hr⟩ :=
          exists_round hspace
        have hshort : rest.length ≤ fuel := by
          have hpos := List.length_pos_of_ne_nil hne
          rw [heq, List.length_append, List.length_append] at hfuel
          omega
        rw [defangLoop_round hspace, htake, hdrop, hw, hr, defangWord_eq hne, ih hshort]
        have hwords : splitWhitespace s = word :: splitWhitespace rest := by
          rw [heq]
          exact (words_space hspaces).trans (words_word hne hword hrest)
        rw [hwords]
        by_cases hcore : HasCore unicode word
        · by_cases hall : ∀ w ∈ splitWhitespace rest, HasCore unicode w
          · rw [if_pos hcore, if_pos hall, if_pos (by simpa using ⟨hcore, hall⟩), heq,
              mapWords_space hspaces, mapWords_append hne hword hrest]
            simp
          · rw [if_pos hcore, if_neg hall,
              if_neg fun h => hall fun w hw => h w (List.mem_cons_of_mem _ hw)]
            rfl
        · rw [if_neg hcore, Option.bind_none, if_neg fun h => hcore (h word List.mem_cons_self)]

/-- A text without a clickable word is left as it is; another is rewritten, unless it has a word of
marks alone. -/
theorem defang_eq (s : List Char) : defang unicode s =
    if (∀ w ∈ splitWhitespace s, isClickable unicode w = false) ∨
        ∀ w ∈ splitWhitespace s, HasCore unicode w then
      some (mapWords isWhitespace (inertWord unicode) [] s) else none := by
  unfold defang
  have hany : (((splitWhitespace s).map (coreToken unicode)).any fun tok =>
      tok != [] && isLinkableToken tok) = true ↔
        ¬ ∀ w ∈ splitWhitespace s, isClickable unicode w = false := by
    simp [isClickable, List.any_eq_true]
  by_cases hclean : ∀ w ∈ splitWhitespace s, isClickable unicode w = false
  · have hid : mapWords isWhitespace (inertWord unicode) [] s = s := by
      refine (mapWords_congr (g := id) ?_).trans mapWords_id
      intro w hw
      unfold inertWord
      rw [if_neg (by simp [hclean w hw])]
      rfl
    rw [if_neg (by rw [hany]; exact not_not_intro hclean), if_pos (Or.inl hclean), hid]
  · rw [if_pos (hany.mpr hclean), defangLoop_eq (Nat.le_refl _)]
    by_cases hall : ∀ w ∈ splitWhitespace s, HasCore unicode w
    · rw [if_pos hall, if_pos (Or.inr hall)]
    · rw [if_neg hall, if_neg (not_or.mpr ⟨hclean, hall⟩)]

end Words

end Bulletin
