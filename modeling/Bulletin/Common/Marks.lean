import Bulletin.Common.Inert

/-! # The marks a rewriting breaks

The rewriting puts brackets around some dots and colons of clickable words. Which ones is read off
the text before it: with them a text is known as it was, as it will be, and as a scanner of numbers
reads it then.
-/

namespace Bulletin

open Text

/-! ## Marked texts -/

/-- A text with some of its characters marked. -/
abbrev Marked := List (Char × Bool)

namespace Marked

def unmarked (s : List Char) : Marked := s.map fun c => (c, false)

def plain (m : Marked) : List Char := m.map (·.1)

def bracketed (m : Marked) : List Char :=
  m.flatMap fun p => if p.2 then ['[', p.1, ']'] else [p.1]

def severed (m : Marked) : List Char := m.map fun p => if p.2 then ' ' else p.1

end Marked

def markSchemes : List Char → Marked
  | ':' :: '/' :: '/' :: s => (':', true) :: ('/', false) :: ('/', false) :: markSchemes s
  | c :: s => (c, c == '.') :: markSchemes s
  | [] => []

/-- The marks of a token: its dots, the colons of its schemes and that of a leading `mailto:`. -/
def markToken (core : List Char) : Marked :=
  let m := markSchemes core
  if startsWithIgnoreCase "mailto:".toList core then m.take 6 ++ (':', true) :: m.drop 7 else m

section Texts

variable (unicode : UnicodeTables)

/-- The marks of a word are those of its core, if it is clickable. -/
def markWord (word : List Char) : Marked :=
  if isClickable unicode word = true then
    Marked.unmarked (word.takeWhile unicode.isMark) ++ markToken (coreToken unicode word) ++
      Marked.unmarked (word.reverse.takeWhile unicode.isMark).reverse
  else Marked.unmarked word

/-- How many dots and colons of a text are broken. -/
def brokenMarks (text : List Char) : Nat :=
  ((splitWhitespace text).map fun word => (markWord unicode word).countP (·.2)).sum

/-- A text with a space for each mark that is broken. -/
def severText (text : List Char) : List Char :=
  mapWords isWhitespace (fun word => Marked.severed (markWord unicode word)) [] text

end Texts

/-! ## Tokens -/

section Tokens

variable {core s t u : List Char} {m : Marked} {c : Char}

theorem Marked.bracketed_cons {p : Char × Bool} : Marked.bracketed (p :: m) =
    (if p.2 then ['[', p.1, ']'] else [p.1]) ++ Marked.bracketed m := rfl

theorem plain_markSchemes : Marked.plain (markSchemes s) = s := by
  induction s using markSchemes.induct with
  | case1 s ih => simpa [markSchemes, Marked.plain] using ih
  | case2 c s hscheme ih =>
      rw [markSchemes.eq_2 c s hscheme]
      simpa [Marked.plain] using ih
  | case3 => rfl

theorem replaceDots_slash (h : replaceDots s = '/' :: t) :
    ∃ rest, s = '/' :: rest ∧ replaceDots rest = t := by
  cases s with
  | nil => cases h
  | cons c s =>
      rw [replaceDots_cons] at h
      by_cases hdot : c = '.'
      · simp [hdot] at h
      · rw [if_neg hdot, List.singleton_append] at h
        obtain ⟨rfl, rfl⟩ := List.cons.inj h
        exact ⟨s, rfl, rfl⟩

theorem bracketed_markSchemes :
    Marked.bracketed (markSchemes s) = replaceSchemes (replaceDots s) := by
  induction s using markSchemes.induct with
  | case1 s ih =>
      have hdots : replaceDots (':' :: '/' :: '/' :: s) = ':' :: '/' :: '/' :: replaceDots s := by
        simp [replaceDots_cons]
      rw [hdots, replaceSchemes, markSchemes, ← ih]
      rfl
  | case2 c s hscheme ih =>
      rw [markSchemes.eq_2 c s hscheme, Marked.bracketed_cons, replaceDots_cons, ih]
      by_cases hdot : c = '.'
      · subst hdot
        simp [replaceSchemes]
      · rw [if_neg hdot, if_neg (by simpa using hdot), List.singleton_append]
        refine (replaceSchemes.eq_2 c _ fun t hcolon hslashes => ?_).symm
        obtain ⟨rest, rfl, hrest⟩ := replaceDots_slash hslashes
        obtain ⟨last, rfl, _⟩ := replaceDots_slash hrest
        exact hscheme last hcolon rfl
  | case3 => rfl

theorem mem_markSchemes {p : Char × Bool} (hp : p ∈ markSchemes s) (hmark : p.2 = true) :
    p.1 = '.' ∨ p.1 = ':' := by
  induction s using markSchemes.induct with
  | case1 s ih =>
      simp only [markSchemes, List.mem_cons] at hp
      rcases hp with rfl | rfl | rfl | hp
      · exact Or.inr rfl
      · cases hmark
      · cases hmark
      · exact ih hp
  | case2 c s hscheme ih =>
      rw [markSchemes.eq_2 c s hscheme, List.mem_cons] at hp
      rcases hp with rfl | hp
      · exact Or.inl (by simpa using hmark)
      · exact ih hp
  | case3 => cases hp

theorem Marked.bracketed_prefix (hu : ∀ c ∈ u, c ≠ '[') (h : Marked.bracketed m = u ++ t) :
    ∃ rest, m = Marked.unmarked u ++ rest ∧ Marked.bracketed rest = t := by
  induction u generalizing m with
  | nil => exact ⟨m, rfl, h⟩
  | cons c u ih =>
      cases m with
      | nil => cases h
      | cons p m =>
          obtain ⟨x, broken⟩ := p
          rw [Marked.bracketed_cons] at h
          cases broken with
          | true =>
              have hhead : '[' = c := (List.cons.inj h).1
              exact absurd hhead.symm (hu c List.mem_cons_self)
          | false =>
              obtain ⟨rfl, htail⟩ := List.cons.inj h
              obtain ⟨rest, rfl, hrest⟩ :=
                ih (fun x hx => hu x (List.mem_cons_of_mem _ hx)) htail
              exact ⟨rest, rfl, hrest⟩

theorem plain_append {m' : Marked} :
    Marked.plain (m ++ m') = Marked.plain m ++ Marked.plain m' := List.map_append

theorem bracketed_append {m' : Marked} :
    Marked.bracketed (m ++ m') = Marked.bracketed m ++ Marked.bracketed m' := List.flatMap_append

theorem severed_append {m' : Marked} :
    Marked.severed (m ++ m') = Marked.severed m ++ Marked.severed m' := List.map_append

@[simp] theorem plain_unmarked : Marked.plain (Marked.unmarked s) = s := by
  simp [Marked.plain, Marked.unmarked, Function.comp_def]

@[simp] theorem bracketed_unmarked : Marked.bracketed (Marked.unmarked s) = s := by
  simp [Marked.bracketed, Marked.unmarked, List.flatMap_map]

@[simp] theorem severed_unmarked : Marked.severed (Marked.unmarked s) = s := by
  simp [Marked.severed, Marked.unmarked, Function.comp_def]

theorem mailto_unbracketed {a : List Char} (h : asciiLower a = "mailto".toList) :
    ∀ c ∈ a, c ≠ '[' ∧ c ≠ '.' ∧ c ≠ ':' := by
  intro c hc
  have hmem : c.toLower ∈ "mailto".toList := by
    rw [← h]
    exact List.mem_map_of_mem hc
  refine ⟨?_, ?_, ?_⟩
  all_goals
    rintro rfl
    revert hmem
    decide

theorem markSchemes_letters {a : List Char} (h : ∀ c ∈ a, c ≠ '.' ∧ c ≠ ':') :
    markSchemes (a ++ s) = Marked.unmarked a ++ markSchemes s := by
  induction a with
  | nil => rfl
  | cons c a ih =>
      obtain ⟨hdot, hcolon⟩ := h c List.mem_cons_self
      rw [List.cons_append, markSchemes.eq_2 c _ fun t hc => absurd hc hcolon,
        ih fun x hx => h x (List.mem_cons_of_mem c hx)]
      simp [Marked.unmarked, hdot]

theorem startsWith_mailto {a : List Char} (h : asciiLower a = "mailto".toList) :
    startsWithIgnoreCase "mailto:".toList (a ++ c :: t) = (c.toLower == ':') := by
  have hsix : a.length = 6 := by simpa [asciiLower] using congrArg List.length h
  have htake : (a ++ c :: t).take 7 = a ++ [c] := by
    simp [List.take_append, hsix, List.take_of_length_le]
  unfold startsWithIgnoreCase
  rw [show "mailto:".toList.length = 7 from rfl, htake, asciiLower_append, h]
  simp [asciiLower]

theorem mailto_spec {a : List Char} (h : asciiLower a = "mailto".toList) : ∃ rest,
    markToken (a ++ ':' :: s) = Marked.unmarked a ++ (':', true) :: rest ∧
      (∃ broken, markSchemes (a ++ ':' :: s) = Marked.unmarked a ++ (':', broken) :: rest) ∧
      inertToken (a ++ ':' :: s) = a ++ '[' :: ':' :: ']' :: Marked.bracketed rest := by
  have hfree := mailto_unbracketed h
  have hsix : a.length = 6 := by simpa [asciiLower] using congrArg List.length h
  have hmarks : markSchemes (a ++ ':' :: s) = Marked.unmarked a ++ markSchemes (':' :: s) :=
    markSchemes_letters fun c hc => (hfree c hc).2
  obtain ⟨broken, rest, hcolon⟩ : ∃ broken rest,
      markSchemes (':' :: s) = (':', broken) :: rest := by
    have hplain : Marked.plain (markSchemes (':' :: s)) = ':' :: s := plain_markSchemes
    cases hm : markSchemes (':' :: s) with
    | nil => simp [hm, Marked.plain] at hplain
    | cons p rest =>
        rw [hm] at hplain
        exact ⟨p.2, rest, by rw [← (List.cons.inj hplain).1]⟩
  have hbroken : replaceSchemes (replaceDots (a ++ ':' :: s)) =
      a ++ ((if broken then ['[', ':', ']'] else [':']) ++ Marked.bracketed rest) := by
    rw [← bracketed_markSchemes, hmarks, hcolon, bracketed_append, bracketed_unmarked]
    rfl
  refine ⟨rest, ?_, ⟨broken, by rw [hmarks, hcolon]⟩, ?_⟩
  · have hlength : (Marked.unmarked a).length = 6 := by simpa [Marked.unmarked] using hsix
    unfold markToken
    rw [startsWith_mailto h, hmarks, hcolon]
    simp [List.drop_append, hlength, List.drop_eq_nil_of_le]
  · unfold inertToken
    rw [hbroken]
    cases broken with
    | true =>
        refine if_neg ?_
        rw [if_pos rfl, List.cons_append, startsWith_mailto h]
        decide
    | false =>
        have hmail : startsWithIgnoreCase "mailto:".toList (a ++ ':' :: Marked.bracketed rest) =
            true := by
          rw [startsWith_mailto h]
          decide
        refine (if_pos hmail).trans ?_
        simp [List.drop_append, hsix, List.drop_eq_nil_of_le]

/-- A token and what becomes of it; only dots and colons are marked. -/
theorem markToken_spec : Marked.plain (markToken core) = core ∧
    Marked.bracketed (markToken core) = inertToken core ∧
    ∀ p ∈ markToken core, p.2 = true → p.1 = '.' ∨ p.1 = ':' := by
  have hplain : Marked.plain (markSchemes core) = core := plain_markSchemes
  by_cases hmail : startsWithIgnoreCase "mailto:".toList core = true
  · obtain ⟨hcut, hletters⟩ := mailto_cut hmail
    generalize core.take 6 = a at hcut hletters
    generalize core.drop 7 = b at hcut
    subst hcut
    obtain ⟨rest, htoken, ⟨broken, hschemes⟩, hinert⟩ := mailto_spec (s := b) hletters
    rw [htoken, hinert]
    refine ⟨?_, ?_, ?_⟩
    · rw [hschemes, plain_append, plain_unmarked] at hplain
      rw [plain_append, plain_unmarked]
      exact hplain
    · rw [bracketed_append, bracketed_unmarked]
      rfl
    · intro p hp hmark
      rw [List.mem_append, List.mem_cons] at hp
      rcases hp with hp | rfl | hp
      · obtain ⟨c, _, rfl⟩ := List.mem_map.mp hp
        cases hmark
      · exact Or.inr rfl
      · refine mem_markSchemes (s := a ++ ':' :: b) ?_ hmark
        rw [hschemes]
        exact List.mem_append_right _ (List.mem_cons_of_mem _ hp)
  · have htoken : markToken core = markSchemes core := if_neg hmail
    have hinert : inertToken core = replaceSchemes (replaceDots core) := by
      refine if_neg fun hbroken => ?_
      -- a marker without brackets was there before
      obtain ⟨hcut, hletters⟩ := mailto_cut hbroken
      generalize (replaceSchemes (replaceDots core)).take 6 = a at hcut hletters
      generalize (replaceSchemes (replaceDots core)).drop 7 = b at hcut
      have hfree : ∀ c ∈ a ++ [':'], c ≠ '[' := by
        intro c hc
        rcases List.mem_append.mp hc with hin | hin
        · exact (mailto_unbracketed hletters c hin).1
        · rw [List.mem_singleton.mp hin]
          decide
      have hstart : Marked.bracketed (markSchemes core) = (a ++ [':']) ++ b := by
        rw [bracketed_markSchemes, hcut]
        simp
      obtain ⟨rest, hrest, _⟩ := Marked.bracketed_prefix hfree hstart
      rw [hrest, plain_append, plain_unmarked, List.append_assoc, List.singleton_append] at hplain
      rw [← hplain, startsWith_mailto hletters] at hmail
      exact hmail (by decide)
    rw [htoken, hinert]
    exact ⟨hplain, bracketed_markSchemes, fun p => mem_markSchemes⟩

end Tokens

/-! ## Texts -/

/-- A text with its marks, what becomes of it, how it reads with spaces for the marks, and how many
these are. It starts and ends with no mark. -/
structure Views (m : Marked) (s inert severed : List Char) (broken : Nat) : Prop where
  plain : Marked.plain m = s
  bracketed : Marked.bracketed m = inert
  severed : Marked.severed m = severed
  count : m.countP (·.2) = broken
  marks : ∀ p ∈ m, p.2 = true → p.1 = '.' ∨ p.1 = ':'
  head : ∀ p ∈ m.head?, p.2 = false
  last : ∀ p ∈ m.getLast?, p.2 = false

section Views

variable {unicode : UnicodeTables} {m m' : Marked} {s inert severed s' inert' severed' : List Char}
  {broken broken' : Nat}

theorem views_unmarked : Views (Marked.unmarked s) s s s 0 where
  plain := plain_unmarked
  bracketed := bracketed_unmarked
  severed := severed_unmarked
  count := by simp [Marked.unmarked]
  marks p hp hmark := by
    obtain ⟨c, _, rfl⟩ := List.mem_map.mp hp
    cases hmark
  head p hp := by
    obtain ⟨c, _, rfl⟩ := List.mem_map.mp (List.mem_of_mem_head? hp)
    rfl
  last p hp := by
    obtain ⟨c, _, rfl⟩ := List.mem_map.mp (List.mem_of_mem_getLast? hp)
    rfl

theorem Views.append (h : Views m s inert severed broken)
    (h' : Views m' s' inert' severed' broken') :
    Views (m ++ m') (s ++ s') (inert ++ inert') (severed ++ severed') (broken + broken') where
  plain := by rw [plain_append, h.plain, h'.plain]
  bracketed := by rw [bracketed_append, h.bracketed, h'.bracketed]
  severed := by rw [severed_append, h.severed, h'.severed]
  count := by rw [List.countP_append, h.count, h'.count]
  marks p hp := by
    rcases List.mem_append.mp hp with hin | hin
    · exact h.marks p hin
    · exact h'.marks p hin
  head p hp := by
    cases m with
    | nil => exact h'.head p hp
    | cons q m => exact h.head p hp
  last p hp := by
    rcases List.eq_nil_or_concat m' with rfl | ⟨rest, q, rfl⟩
    · rw [List.append_nil] at hp
      exact h.last p hp
    · rw [List.concat_eq_append, List.getLast?_append_of_ne_nil _ (by simp)] at hp
      exact h'.last p (by rwa [List.concat_eq_append])

theorem views_markToken {core : List Char} (hcore : Trimmed unicode.isMark core) :
    Views (markToken core) core (inertToken core) (Marked.severed (markToken core))
      ((markToken core).countP (·.2)) := by
  obtain ⟨hplain, hbracketed, hmarks⟩ := @markToken_spec core
  have hunmarked : ∀ p ∈ markToken core, unicode.isMark p.1 = false → p.2 = false := by
    intro p hp hletter
    by_contra hmark
    rcases hmarks p hp (by simpa using hmark) with hdot | hcolon
    · exact ne_of_isMark hletter (x := '.') (by decide) rfl hdot
    · exact ne_of_isMark hletter (x := ':') (by decide) rfl hcolon
  have hhead : core.head? = (markToken core).head?.map (·.1) := by
    rw [← List.head?_map]
    exact congrArg List.head? hplain.symm
  have hlast : core.getLast? = (markToken core).getLast?.map (·.1) := by
    rw [← List.getLast?_map]
    exact congrArg List.getLast? hplain.symm
  refine ⟨hplain, hbracketed, rfl, rfl, hmarks, ?_, ?_⟩
  · intro p hp
    refine hunmarked p (List.mem_of_mem_head? hp) (hcore.head p.1 ?_)
    rw [hhead, Option.mem_def.mp hp]
    rfl
  · intro p hp
    refine hunmarked p (List.mem_of_mem_getLast? hp) (hcore.last p.1 ?_)
    rw [hlast, Option.mem_def.mp hp]
    rfl

theorem views_markWord {word : List Char} : Views (markWord unicode word) word
    (inertWord unicode word) (Marked.severed (markWord unicode word))
      ((markWord unicode word).countP (·.2)) := by
  by_cases hclick : isClickable unicode word = true
  · obtain ⟨lead, core, trail, rfl, hlead, htrail, hne, hcore, hinert⟩ :=
      exists_clickable_core hclick
    have hhead : ∀ c ∈ (core ++ trail).head?, unicode.isMark c = false := by
      rw [List.head?_append_of_ne_nil _ hne]
      exact hcore.head
    have hlast : ∀ c ∈ (lead ++ core).getLast?, unicode.isMark c = false := by
      rw [List.getLast?_append_of_ne_nil _ hne]
      exact hcore.last
    have hfront : (lead ++ core ++ trail).takeWhile unicode.isMark = lead := by
      rw [List.append_assoc]
      exact takeWhile_lead hlead hhead
    have hmark : markWord unicode (lead ++ core ++ trail) =
        Marked.unmarked lead ++ markToken core ++ Marked.unmarked trail := by
      unfold markWord
      rw [if_pos hclick, hfront, coreToken_cut hlead htrail hne hcore,
        takeWhile_trail htrail hlast]
    have hviews := ((views_unmarked (s := lead)).append (views_markToken hcore)).append
      (views_unmarked (s := trail))
    rw [hmark, hinert]
    exact ⟨hviews.plain, hviews.bracketed, rfl, rfl, hviews.marks, hviews.head, hviews.last⟩
  · have hmark : markWord unicode word = Marked.unmarked word := if_neg hclick
    have hinert : inertWord unicode word = word := if_neg hclick
    rw [hmark, hinert]
    exact ⟨plain_unmarked, bracketed_unmarked, rfl, rfl, views_unmarked.marks, views_unmarked.head,
      views_unmarked.last⟩

theorem exists_views : ∃ m, Views m s (inertText unicode s) (severText unicode s)
    (brokenMarks unicode s) := by
  have hword : ∀ w : List Char, (∀ c ∈ w, isWhitespace c = false) →
      ∃ m, Views m w (inertText unicode w) (severText unicode w) (brokenMarks unicode w) := by
    intro w hw
    unfold inertText severText brokenMarks
    rw [mapWords_whole hw, mapWords_whole hw, splitWhitespace_eq, words_whole hw]
    by_cases hnil : w = []
    · rw [if_pos hnil, if_pos hnil, if_pos hnil, hnil]
      exact ⟨[], @views_unmarked []⟩
    · rw [if_neg hnil, if_neg hnil, if_neg hnil]
      exact ⟨_, by simpa using views_markWord⟩
  induction s using sepInduction isWhitespace with
  | whole w hw => exact hword w hw
  | cut w c s hw hc ih =>
      obtain ⟨m, hm⟩ := hword w hw
      obtain ⟨m', hm'⟩ := ih
      have hcut : brokenMarks unicode (w ++ c :: s) =
          brokenMarks unicode w + (0 + brokenMarks unicode s) := by
        unfold brokenMarks
        rw [splitWhitespace_eq, words_cut hc, List.map_append, List.sum_append, Nat.zero_add]
        rfl
      have hviews := hm.append ((views_unmarked (s := [c])).append hm')
      refine ⟨m ++ (Marked.unmarked [c] ++ m'), ?_⟩
      unfold inertText severText at hviews ⊢
      rw [hcut, mapWords_cut hc, mapWords_cut hc]
      exact hviews

theorem exists_views_flatMap {texts : List (List Char)} : ∃ m, Views m texts.flatten
    (texts.flatMap (inertText unicode)) (texts.flatMap (severText unicode))
      (texts.map (brokenMarks unicode)).sum := by
  induction texts with
  | nil => exact ⟨[], @views_unmarked []⟩
  | cons s texts ih =>
      obtain ⟨m, hm⟩ := @exists_views unicode s
      obtain ⟨m', hm'⟩ := ih
      exact ⟨m ++ m', hm.append hm'⟩

theorem length_bracketed (m : Marked) : (Marked.bracketed m).length =
    (Marked.plain m).length + 2 * m.countP (·.2) := by
  induction m with
  | nil => rfl
  | cons p m ih =>
      rw [Marked.bracketed_cons, List.length_append, ih, List.countP_cons]
      obtain ⟨c, _ | _⟩ := p
      · simp [Marked.plain]
        omega
      · simp [Marked.plain]
        omega

theorem Views.length (h : Views m s inert severed broken) :
    inert.length = s.length + 2 * broken := by
  rw [← h.plain, ← h.bracketed, ← h.count]
  exact length_bracketed m

theorem Views.ends (h : Views m s inert severed broken) : inert.head? = s.head? ∧
    inert.getLast? = s.getLast? ∧ severed.head? = s.head? ∧ severed.getLast? = s.getLast? := by
  obtain ⟨rfl, rfl, rfl, _, _, hhead, hlast⟩ := h
  have hfront : (Marked.bracketed m).head? = (Marked.plain m).head? ∧
      (Marked.severed m).head? = (Marked.plain m).head? := by
    cases m with
    | nil => exact ⟨rfl, rfl⟩
    | cons p m =>
        obtain ⟨c, broken⟩ := p
        obtain rfl : broken = false := hhead _ rfl
        exact ⟨rfl, rfl⟩
  have hback : (Marked.bracketed m).getLast? = (Marked.plain m).getLast? ∧
      (Marked.severed m).getLast? = (Marked.plain m).getLast? := by
    rcases List.eq_nil_or_concat m with rfl | ⟨rest, ⟨c, broken⟩, rfl⟩
    · exact ⟨rfl, rfl⟩
    · obtain rfl : broken = false := hlast (c, broken) (by simp)
      simp [Marked.bracketed, Marked.severed, Marked.plain]
  exact ⟨hfront.1, hback.1, hfront.2, hback.2⟩

end Views

end Bulletin
