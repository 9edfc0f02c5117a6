import Bulletin.Common.Inert

/-! # Hosts inside words

A linkifier looks at the maximal runs of host characters, wherever they stand in a word. The
detector looks at words as a whole, so a host may stay in a word that it does not flag, and marks
before a flagged word may make a host of its first label.
-/

namespace Bulletin

open Text

/-! ## What a linkifier sees -/

def isHostChar (c : Char) : Bool := c.isAlphanum || c == '.' || c == '-'

/-- The maximal runs of host characters. -/
def hostRuns (text : List Char) : List (List Char) := words (fun c => !isHostChar c) text

/-- At least two labels, none empty, and the last one a word of two letters or more. -/
def isBareHost (run : List Char) : Bool :=
  let labels := run.splitOnP (· == '.')
  let last := labels.getLast?.getD []
  labels.all (· != []) && 2 ≤ labels.length && 2 ≤ last.length && last.all Char.isAlpha

/-- A character that a token keeps as it is and that a run goes through. -/
def isPlain (c : Char) : Bool := isHostChar c && c != '.'

/-- What a linkifier still sees the dots of: all of a word that is not clickable, and of one that is
the marks before its core and the core up to its first dot or other mark. -/
def exposed (unicode : UnicodeTables) (word : List Char) : List Char :=
  if isClickable unicode word = true then
    word.takeWhile unicode.isMark ++ (coreToken unicode word).takeWhile isPlain
  else word

section Hosts

variable {run s : List Char} {p : Char}

theorem suffix_of_splitOnP_getLast {sep : Char → Bool} {last : List Char}
    (h : (s.splitOnP sep).getLast? = some last) : last <:+ s := by
  induction s using sepInduction sep with
  | whole s hs =>
      rw [List.splitOnP_eq_singleton hs] at h
      obtain rfl : s = last := by simpa using h
      exact List.suffix_rfl
  | cut a c s ha hc ih =>
      rw [List.splitOnP_append_cons _ _ hc,
        List.getLast?_append_of_ne_nil _ (List.splitOnP_ne_nil _ _)] at h
      exact (ih h).trans ⟨a ++ [c], by simp⟩

theorem isBareHost_last (h : isBareHost run = true) :
    ∃ front c, run = front ++ [c] ∧ c.isAlpha = true := by
  unfold isBareHost at h
  simp only [Bool.and_eq_true, decide_eq_true_eq] at h
  obtain ⟨⟨_, hlong⟩, halpha⟩ := h
  cases hlast : (run.splitOnP (· == '.')).getLast? with
  | none => simp [hlast] at hlong
  | some last =>
      rw [hlast, Option.getD_some] at hlong halpha
      have hne : last ≠ [] := by
        intro hnil
        simp [hnil] at hlong
      obtain ⟨front, hfront⟩ := suffix_of_splitOnP_getLast hlast
      refine ⟨front ++ last.dropLast, last.getLast hne, ?_, ?_⟩
      · rw [List.append_assoc, List.dropLast_append_getLast, hfront]
      · exact List.all_eq_true.mp halpha _ (List.getLast_mem hne)

theorem hostOf_run (hrun : ∀ c ∈ run, isHostChar c = true) : hostOf run = run := by
  have hfree : ∀ x, isHostChar x = false → ∀ c ∈ run, (c != x) = true := by
    intro x hx c hc
    have hne : c ≠ x := by
      intro heq
      rw [← heq, hrun c hc] at hx
      cases hx
    simpa using hne
  have hauthority : run.takeWhile (fun c => c != '/' && c != '?' && c != '#') = run := by
    refine List.takeWhile_eq_self_iff.mpr fun c hc => ?_
    rw [hfree '/' (by decide) c hc, hfree '?' (by decide) c hc, hfree '#' (by decide) c hc]
    rfl
  have huser : (run.reverse.takeWhile (· != '@')).reverse = run := by
    rw [List.takeWhile_eq_self_iff.mpr, List.reverse_reverse]
    intro c hc
    exact hfree '@' (by decide) c (List.mem_reverse.mp hc)
  have hport : run.takeWhile (· != ':') = run :=
    List.takeWhile_eq_self_iff.mpr (hfree ':' (by decide))
  unfold hostOf
  simp only [hauthority, huser, hport]

theorem looksLikeHost_of_isBareHost (hrun : ∀ c ∈ run, isHostChar c = true)
    (h : isBareHost run = true) : looksLikeHost run = true := by
  have hbytes : ∀ s : List Char, s.length ≤ byteLen s := by
    intro s
    induction s with
    | nil => simp
    | cons c s ih =>
        have hc := c.utf8Size_pos
        simp only [byteLen, List.map_cons, List.sum_cons, List.length_cons] at ih ⊢
        omega
  unfold isBareHost at h
  simp only [Bool.and_eq_true, decide_eq_true_eq, List.all_eq_true] at h
  obtain ⟨⟨⟨hlabels, htwo⟩, hlong⟩, halpha⟩ := h
  unfold looksLikeHost
  simp only [hostOf_run hrun, Bool.and_eq_true, decide_eq_true_eq, List.all_eq_true]
  refine ⟨⟨⟨?_, htwo⟩, hlong.trans (hbytes _)⟩, halpha⟩
  intro label hlabel
  have hne : label ≠ [] := by simpa using hlabels label hlabel
  have hword : label ∈ words (· == '.') run := List.mem_filter.mpr ⟨hlabel, by simpa using hne⟩
  refine Bool.and_eq_true_iff.mpr ⟨by simpa using hne, List.all_eq_true.mpr ?_⟩
  intro c hc
  obtain ⟨hdot, hin⟩ := (mem_words hword).2 c hc
  have hhost := hrun c hin
  unfold isHostChar at hhost
  rw [hdot, Bool.or_false] at hhost
  exact hhost

/-- Behind brackets a run has no dot that could follow a label, and marks at its end are no
letters. -/
theorem not_isBareHost_of_dotsBroken {unicode : UnicodeTables} {trail : List Char}
    (hbroken : dotsBroken p s = true) (htrail : ∀ c ∈ trail, unicode.isMark c = true)
    (hrun : run ∈ hostRuns (s ++ trail)) : isBareHost run = false := by
  by_contra hbare
  rw [Bool.not_eq_false] at hbare
  have hchars : ∀ c ∈ run, isHostChar c = true := fun c hc => by
    simpa using ((mem_words hrun).2 c hc).1
  have hinside : run <:+: s := by
    obtain ⟨a, b, hcut⟩ := words_within hrun
    obtain ⟨front, c, rfl, hletter⟩ := isBareHost_last hbare
    rcases List.append_eq_append_iff.mp hcut with ⟨d, hs, _⟩ | ⟨d, hs, htail⟩
    · exact ⟨a, d, hs.symm⟩
    · rcases List.eq_nil_or_concat' d with rfl | ⟨d, x, rfl⟩
      · exact ⟨a, [], by simpa using hs⟩
      · -- the run would end among the marks
        exfalso
        rw [← List.append_assoc, ← List.append_assoc] at hs
        obtain ⟨_, hlast⟩ := List.append_inj' hs rfl
        obtain rfl : c = x := by simpa using hlast
        have hmark := htrail c (by simp [htail])
        have halnum : c.isAlphanum = true := by simp [Char.isAlphanum, hletter]
        have hascii := (toNat_of_isAlphanum halnum).2
        simp [UnicodeTables.isMark, unicode.ascii c (by omega), halnum] at hmark
  obtain ⟨q, hq⟩ := dotsBroken_within hinside hbroken
  have hhost := looksLikeHost_of_isBareHost hchars hbare
  rw [looksLikeHost_of_dotsBroken hq] at hhost
  cases hhost

end Hosts

/-! ## The first stretch of a token -/

section Stretch

variable {core s : List Char}

theorem takeWhile_replaceDots : (replaceDots s).takeWhile isPlain = s.takeWhile isPlain := by
  induction s with
  | nil => rfl
  | cons c s ih =>
      rw [replaceDots_cons]
      by_cases hdot : c = '.'
      · rw [if_pos hdot, hdot]
        rfl
      · rw [if_neg hdot, List.singleton_append, List.takeWhile_cons, List.takeWhile_cons, ih]

theorem takeWhile_replaceSchemes : (replaceSchemes s).takeWhile isPlain = s.takeWhile isPlain := by
  induction s using replaceSchemes.induct with
  | case1 s => simp [replaceSchemes, isPlain, isHostChar]
  | case2 c s hscheme ih =>
      rw [replaceSchemes.eq_2 c s hscheme, List.takeWhile_cons, List.takeWhile_cons, ih]
  | case3 => rfl

theorem takeWhile_inertToken : (inertToken core).takeWhile isPlain = core.takeWhile isPlain := by
  have hbroken : (replaceSchemes (replaceDots core)).takeWhile isPlain = core.takeWhile isPlain :=
    takeWhile_replaceSchemes.trans takeWhile_replaceDots
  unfold inertToken
  generalize replaceSchemes (replaceDots core) = t at hbroken
  dsimp only
  split
  · rename_i hmail
    obtain ⟨hcut, _⟩ := mailto_cut hmail
    have hstop : ∀ (a b b' : List Char) (x y : Char), isPlain x = false → isPlain y = false →
        (a ++ x :: b).takeWhile isPlain = (a ++ y :: b').takeWhile isPlain := by
      intro a b b' x y hx hy
      simp [List.takeWhile_append, hx, hy]
    have hjoin : t.take 6 ++ "[:]".toList ++ t.drop 7 =
        t.take 6 ++ '[' :: ':' :: ']' :: t.drop 7 := by
      simp
    rw [hjoin, ← hbroken, hstop _ _ (t.drop 7) '[' ':' (by decide) (by decide), ← hcut]
  · exact hbroken

theorem dotsBroken_of_dotless {p : Char} (h : ∀ c ∈ s, c ≠ '.') : dotsBroken p s = true := by
  induction s generalizing p with
  | nil => rfl
  | cons c s ih =>
      rw [dotsBroken_cons]
      exact ⟨fun hdot => absurd hdot (h c List.mem_cons_self),
        ih fun x hx => h x (List.mem_cons_of_mem c hx)⟩

theorem exists_not_plain (h : isLinkableToken core = true) : ∃ c ∈ core, isPlain c = false := by
  by_contra hplain
  push Not at hplain
  have hne : ∀ x, isPlain x = false → ∀ c ∈ core, c ≠ x := by
    intro x hx c hc heq
    exact hplain c hc (by rw [heq, hx])
  have hdots : dotsBroken ' ' core = true := dotsBroken_of_dotless (hne '.' (by decide))
  have hcolonless := hne ':' (by decide)
  have hscheme : occursIn [':', '/', '/'] core = false := by
    have hnil := occursIn_append_of_colonless (t := []) hcolonless rfl
    rwa [List.append_nil] at hnil
  have hmail : startsWithIgnoreCase "mailto:".toList core = false := by
    by_contra hmail
    obtain ⟨hcut, _⟩ := mailto_cut (Bool.not_eq_false _ ▸ hmail)
    exact hcolonless ':' (by rw [hcut]; simp) rfl
  unfold isLinkableToken at h
  rw [show "://".toList = [':', '/', '/'] from rfl, hscheme, hmail,
    startsWith_www_of_dotsBroken hdots, looksLikeHost_of_dotsBroken hdots] at h
  cases h

theorem mem_inertToken_of_mem {c : Char} (h : c ∈ core) : c ∈ inertToken core := by
  have hdots : c ∈ replaceDots core := by
    refine List.mem_flatMap.mpr ⟨c, h, ?_⟩
    by_cases hdot : c = '.' <;> simp [hdot]
  have hschemes : ∀ s : List Char, c ∈ s → c ∈ replaceSchemes s := by
    intro s hs
    induction s using replaceSchemes.induct with
    | case1 s ih =>
        simp only [List.mem_cons] at hs
        rcases hs with rfl | rfl | rfl | hrest
        · simp [replaceSchemes]
        · simp [replaceSchemes]
        · simp [replaceSchemes]
        · simp [replaceSchemes, ih hrest]
    | case2 x s hscheme ih =>
        rw [replaceSchemes.eq_2 x s hscheme, List.mem_cons]
        exact (List.mem_cons.mp hs).imp_right ih
    | case3 => exact hs
  have hbroken := hschemes _ hdots
  unfold inertToken
  generalize replaceSchemes (replaceDots core) = t at hbroken
  dsimp only
  split
  · rename_i hmail
    obtain ⟨hcut, _⟩ := mailto_cut hmail
    rw [hcut, List.mem_append, List.mem_cons] at hbroken
    rcases hbroken with hfront | rfl | hback
    · simp [hfront]
    · simp
    · simp [hback]
  · exact hbroken

/-- The rewriting puts a bracket where the stretch ended, or leaves the mark that ended it. -/
theorem inertToken_cut (h : isLinkableToken core = true) : ∃ c rest,
    inertToken core = core.takeWhile isPlain ++ c :: rest ∧ isHostChar c = false ∧
      dotsBroken c rest = true := by
  obtain ⟨x, hx, hmark⟩ := exists_not_plain h
  have hcut : core.takeWhile isPlain ++ (inertToken core).dropWhile isPlain = inertToken core := by
    rw [← takeWhile_inertToken]
    exact List.takeWhile_append_dropWhile
  have hbroken : dotsBroken ' ' (inertToken core) = true := dotsBroken_inertToken
  cases hrest : (inertToken core).dropWhile isPlain with
  | nil =>
      have hall := List.dropWhile_eq_nil_iff.mp hrest x (mem_inertToken_of_mem hx)
      rw [hmark] at hall
      cases hall
  | cons c rest =>
      have hc : isPlain c = false := head_dropWhile hrest
      rw [hrest] at hcut
      rw [← hcut, dotsBroken_append, dotsBroken_cons] at hbroken
      obtain ⟨_, hdot, hback⟩ := hbroken
      refine ⟨c, rest, hcut.symm, ?_, hback⟩
      by_contra hhost
      rw [Bool.not_eq_false] at hhost
      obtain rfl : c = '.' := by simpa [isPlain, hhost] using hc
      -- what stands before the dot is in the stretch, or nothing does
      cases hlast : (core.takeWhile isPlain).getLast? with
      | none => simp [hlast] at hdot
      | some y =>
          obtain rfl : y = '[' := by simpa [hlast] using hdot
          have hplain := List.mem_takeWhile_imp (List.mem_of_getLast? hlast)
          cases hplain

end Stretch

/-! ## Words and texts -/

section Exposed

variable {unicode : UnicodeTables} {text out word : List Char}

/-- What the rewriting leaves of the bare hosts of a word are those of its exposed part. -/
theorem bareHosts_inertWord : (∀ run ∈ hostRuns (inertWord unicode word), isBareHost run = false) ↔
    ∀ run ∈ hostRuns (exposed unicode word), isBareHost run = false := by
  by_cases hclick : isClickable unicode word = true
  · obtain ⟨lead, core, trail, rfl, hlead, htrail, hne, hcore, hinert⟩ :=
      exists_clickable_core hclick
    have htoken : coreToken unicode (lead ++ core ++ trail) = core :=
      coreToken_cut hlead htrail hne hcore
    have hlink : isLinkableToken core = true := by
      unfold isClickable at hclick
      rw [htoken] at hclick
      exact (Bool.and_eq_true_iff.mp hclick).2
    have hfront : (lead ++ core ++ trail).takeWhile unicode.isMark = lead := by
      rw [List.append_assoc]
      refine takeWhile_lead hlead ?_
      rw [List.head?_append_of_ne_nil _ hne]
      exact hcore.head
    obtain ⟨c, rest, hcut, hc, hbroken⟩ := inertToken_cut hlink
    have hjoin : lead ++ inertToken core ++ trail =
        (lead ++ core.takeWhile isPlain) ++ c :: (rest ++ trail) := by
      rw [hcut]
      simp
    have hruns : hostRuns (lead ++ inertToken core ++ trail) =
        hostRuns (lead ++ core.takeWhile isPlain) ++ hostRuns (rest ++ trail) := by
      rw [hjoin]
      exact words_cut (by simp [hc])
    unfold exposed
    rw [if_pos hclick, hinert, hruns, hfront, htoken]
    refine ⟨fun h run hrun => h run (List.mem_append_left _ hrun), fun h run hrun => ?_⟩
    rcases List.mem_append.mp hrun with hfirst | hback
    · exact h run hfirst
    · exact not_isBareHost_of_dotsBroken hbroken htrail hback
  · unfold exposed inertWord
    rw [if_neg hclick, if_neg hclick]

theorem hostRuns_eq_flatMap : hostRuns text = (splitWhitespace text).flatMap hostRuns := by
  refine words_refine fun c hc => ?_
  by_contra hhost
  rw [Bool.not_eq_true, Bool.not_eq_false'] at hhost
  have hascii : c.toNat < 128 ∧ 45 ≤ c.toNat := by
    unfold isHostChar at hhost
    simp only [Bool.or_eq_true, beq_iff_eq] at hhost
    rcases hhost with (halnum | rfl) | rfl
    · have hrange := toNat_of_isAlphanum halnum
      omega
    · decide
    · decide
  simp only [isWhitespace, Bool.or_eq_true, Bool.and_eq_true, decide_eq_true_eq, beq_iff_eq] at hc
  omega

/-- `defang` leaves a bare host in its output exactly if a word exposes one. -/
theorem bareHosts_defang_iff (h : defang unicode text = some out) :
    (∀ run ∈ hostRuns out, isBareHost run = false) ↔
      ∀ word ∈ splitWhitespace text, ∀ run ∈ hostRuns (exposed unicode word),
        isBareHost run = false := by
  rw [defang_spec] at h
  split at h
  · obtain rfl := Option.some.inj h
    rw [hostRuns_eq_flatMap, splitWhitespace_inertText]
    simp only [List.flatMap_map, List.mem_flatMap, forall_exists_index, and_imp]
    constructor
    · intro hall word hword
      exact bareHosts_inertWord.mp fun run hrun => hall run word hword hrun
    · intro hall run word hword hrun
      exact bareHosts_inertWord.mpr (hall word hword) run hrun
  · cases h

/-- A mark that belongs to a word hides the host before it from the detector. -/
theorem defang_leaves_host : ¬ ∀ text out, defang asciiTables text = some out →
    ∀ run ∈ hostRuns out, isBareHost run = false := by
  intro h
  have hout : defang asciiTables "acme.com's page".toList = some "acme.com's page".toList := by
    decide +kernel
  have hhost := h _ _ hout "acme.com".toList (by decide +kernel)
  revert hhost
  decide +kernel

/-- The second word is flagged and loses its host, the first is not. -/
theorem bareHosts_defang_iff_sentence :
    (∀ run ∈ hostRuns "acme.com's www[.]acme[.]com".toList, isBareHost run = false) ↔
      ∀ word ∈ splitWhitespace "acme.com's www.acme.com".toList,
        ∀ run ∈ hostRuns (exposed asciiTables word), isBareHost run = false :=
  bareHosts_defang_iff (by decide +kernel)

end Exposed

end Bulletin
