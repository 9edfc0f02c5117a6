import Bulletin.Common.Ascii
import Bulletin.Common.LinkSafety

/-! # Rewritten words are inert

Every dot of a rewritten token stands after a bracket, and every colon that would mark a scheme
before one, so the token has no clickable shape left.
-/

namespace Bulletin

open Text

/-! ## Dots in brackets -/

/-- Every dot of a text stands after an opening bracket; `prev` is what stands before the text. -/
def dotsBroken (prev : Char) : List Char → Bool
  | [] => true
  | c :: s => (c != '.' || prev == '[') && dotsBroken c s

section Dots

variable {p q c : Char} {s t u : List Char}

@[simp] theorem dotsBroken_cons :
    dotsBroken p (c :: s) = true ↔ (c = '.' → p = '[') ∧ dotsBroken c s = true := by
  by_cases hdot : c = '.' <;> simp [dotsBroken, hdot]

/-- What stands before a text matters only if it is a bracket. -/
theorem dotsBroken_of_ne (hp : p ≠ '[') (h : dotsBroken p s = true) : dotsBroken q s = true := by
  cases s with
  | nil => rfl
  | cons c s =>
      rw [dotsBroken_cons] at h ⊢
      exact ⟨fun hdot => absurd (h.1 hdot) hp, h.2⟩

theorem dotsBroken_append : dotsBroken p (s ++ t) = true ↔
    dotsBroken p s = true ∧ dotsBroken (s.getLast?.getD p) t = true := by
  induction s generalizing p with
  | nil => simp [dotsBroken]
  | cons c s ih =>
      rw [List.cons_append, dotsBroken_cons, dotsBroken_cons, ih, List.getLast?_cons,
        Option.getD_some, and_assoc]

theorem dotsBroken_within (hu : u <:+: s) (h : dotsBroken p s = true) :
    ∃ q, dotsBroken q u = true := by
  obtain ⟨lead, trail, rfl⟩ := hu
  exact ⟨_, (dotsBroken_append.mp (dotsBroken_append.mp h).1).2⟩

theorem replaceDots_cons : replaceDots (c :: s) =
    (if c = '.' then "[.]".toList else [c]) ++ replaceDots s := rfl

theorem dotsBroken_replaceDots : dotsBroken p (replaceDots s) = true := by
  induction s generalizing p with
  | nil => rfl
  | cons c s ih =>
      rw [replaceDots_cons]
      by_cases hdot : c = '.'
      · rw [if_pos hdot]
        simpa using ih
      · rw [if_neg hdot]
        simpa [hdot] using ih

theorem dotsBroken_replaceSchemes (h : dotsBroken p s = true) :
    dotsBroken p (replaceSchemes s) = true := by
  induction s using replaceSchemes.induct generalizing p with
  | case1 s ih => simpa [replaceSchemes] using ih (by simpa using h)
  | case2 c s hscheme ih =>
      rw [replaceSchemes.eq_2 c s hscheme, dotsBroken_cons]
      rw [dotsBroken_cons] at h
      exact ⟨h.1, ih h.2⟩
  | case3 => rfl

theorem hostOf_within (s : List Char) : hostOf s <:+: s := by
  let authority := s.takeWhile fun c => c != '/' && c != '?' && c != '#'
  have hauthority : authority <:+: s := (List.takeWhile_prefix _).isInfix
  have huser : (authority.reverse.takeWhile (· != '@')).reverse <:+: authority := by
    have hfront := (List.takeWhile_prefix (p := (· != '@')) (l := authority.reverse)).isInfix
    simpa using List.reverse_infix.mpr hfront
  exact ((List.takeWhile_prefix _).isInfix.trans huser).trans hauthority

theorem looksLikeHost_of_dotsBroken (h : dotsBroken p s = true) : looksLikeHost s = false := by
  obtain ⟨q, hbroken⟩ := dotsBroken_within (hostOf_within s) h
  by_contra hhost
  have hshape : (∀ label ∈ (hostOf s).splitOnP (· == '.'), isHostLabel label = true) ∧
      2 ≤ ((hostOf s).splitOnP (· == '.')).length := by
    simp only [looksLikeHost, Bool.not_eq_false, Bool.and_eq_true, decide_eq_true_eq,
      List.all_eq_true] at hhost
    exact hhost.1.1
  obtain ⟨hlabels, htwo⟩ := hshape
  generalize hostOf s = host at hbroken hlabels htwo
  have hcut : host.takeWhile (fun c => !(c == '.')) ++ host.dropWhile (fun c => !(c == '.')) =
      host := List.takeWhile_append_dropWhile
  have hlabel : ∀ c ∈ host.takeWhile (fun c => !(c == '.')), (c == '.') = false := by
    intro c hc
    simpa using List.mem_takeWhile_imp hc
  generalize host.takeWhile (fun c => !(c == '.')) = label at hcut hlabel
  cases hrest : host.dropWhile (fun c => !(c == '.')) with
  | nil =>
      rw [hrest, List.append_nil] at hcut
      rw [← hcut, List.splitOnP_eq_singleton hlabel] at htwo
      simp at htwo
  | cons c rest =>
      obtain rfl : c = '.' := by simpa using head_dropWhile hrest
      rw [hrest] at hcut
      subst hcut
      have hfirst := hlabels label (by
        rw [List.splitOnP_append_cons _ _ (by simp), List.splitOnP_eq_singleton hlabel]
        simp)
      have hlast := (dotsBroken_cons.mp (dotsBroken_append.mp hbroken).2).1 rfl
      cases hback : label.getLast? with
      | none => simp [List.getLast?_eq_none_iff.mp hback, isHostLabel] at hfirst
      | some c =>
          obtain rfl : c = '[' := by simpa [hback] using hlast
          have hall := (Bool.and_eq_true_iff.mp hfirst).2
          simpa using List.all_eq_true.mp hall _ (List.mem_of_getLast? hback)

theorem startsWith_www_of_dotsBroken (h : dotsBroken p s = true) :
    startsWithIgnoreCase "www.".toList s = false := by
  by_contra hwww
  have hlower : asciiLower (s.take 4) = ['w', 'w', 'w', '.'] :=
    eq_of_beq (by simpa [startsWithIgnoreCase] using hwww)
  match s with
  | [] | [_] | [_, _] | [_, _, _] => simp [asciiLower] at hlower
  | a :: b :: c :: d :: s =>
      simp only [asciiLower, List.take_succ_cons, List.take_zero, List.map_cons, List.map_nil,
        List.cons.injEq] at hlower
      simp only [dotsBroken_cons] at h
      have hdot : d = '.' := eq_of_toLower hlower.2.2.2.1 (by decide)
      rw [h.2.2.2.1 hdot] at hlower
      exact absurd hlower.2.2.1 (by decide)

end Dots

/-! ## Schemes -/

section Schemes

variable {s t : List Char} {c : Char}

theorem replaceSchemes_slash (h : replaceSchemes s = '/' :: t) :
    ∃ rest, s = '/' :: rest ∧ replaceSchemes rest = t := by
  induction s using replaceSchemes.induct with
  | case1 s => simp [replaceSchemes] at h
  | case2 c s hscheme =>
      rw [replaceSchemes.eq_2 c s hscheme, List.cons.injEq] at h
      exact ⟨s, by rw [h.1], h.2⟩
  | case3 => simp [replaceSchemes] at h

theorem occursIn_cons : occursIn [':', '/', '/'] (c :: s) =
    ((':' == c && ['/', '/'].isPrefixOf s) || occursIn [':', '/', '/'] s) := rfl

theorem occursIn_replaceSchemes : occursIn [':', '/', '/'] (replaceSchemes s) = false := by
  induction s using replaceSchemes.induct with
  | case1 s ih => simpa [replaceSchemes, occursIn_cons, List.isPrefixOf] using ih
  | case2 c s hscheme ih =>
      rw [replaceSchemes.eq_2 c s hscheme, occursIn_cons, ih, Bool.or_false]
      by_contra hprefix
      obtain ⟨hcolon, hslashes⟩ := Bool.and_eq_true_iff.mp (Bool.not_eq_false _ ▸ hprefix)
      obtain rfl : ':' = c := eq_of_beq hcolon
      obtain ⟨t, ht⟩ := List.isPrefixOf_iff_prefix.mp hslashes
      obtain ⟨rest, rfl, hrest⟩ := replaceSchemes_slash ht.symm
      obtain ⟨last, rfl, _⟩ := replaceSchemes_slash hrest
      exact hscheme last rfl rfl
  | case3 => rfl

theorem occursIn_append_right (h : occursIn [':', '/', '/'] (s ++ t) = false) :
    occursIn [':', '/', '/'] t = false := by
  induction s with
  | nil => exact h
  | cons c s ih =>
      rw [List.cons_append, occursIn_cons, Bool.or_eq_false_iff] at h
      exact ih h.2

theorem occursIn_append_of_colonless (hs : ∀ c ∈ s, c ≠ ':')
    (h : occursIn [':', '/', '/'] t = false) : occursIn [':', '/', '/'] (s ++ t) = false := by
  induction s with
  | nil => exact h
  | cons c s ih =>
      have hc : (':' == c) = false := by simpa using (hs c List.mem_cons_self).symm
      rw [List.cons_append, occursIn_cons, ih fun x hx => hs x (List.mem_cons_of_mem _ hx), hc]
      rfl

end Schemes

/-! ## Tokens -/

section Tokens

variable {core : List Char}

theorem mailto_cut {s : List Char} (h : startsWithIgnoreCase "mailto:".toList s = true) :
    s = s.take 6 ++ ':' :: s.drop 7 ∧ asciiLower (s.take 6) = "mailto".toList := by
  have hlower : asciiLower (s.take 7) = ['m', 'a', 'i', 'l', 't', 'o', ':'] :=
    eq_of_beq (by simpa [startsWithIgnoreCase] using h)
  have hseven : 7 ≤ s.length := by
    have hlength := congrArg List.length hlower
    simp [asciiLower] at hlength
    omega
  have hcolon : s[6] = ':' := by
    refine eq_of_toLower ?_ (by decide)
    have hsixth := congrArg (·[6]?) hlower
    simpa [asciiLower, hseven] using hsixth
  refine ⟨?_, ?_⟩
  · rw [← hcolon, ← List.drop_eq_getElem_cons, List.take_append_drop]
  · have htake : s.take 6 = (s.take 7).take 6 := by simp [List.take_take]
    rw [htake, asciiLower, List.map_take]
    exact congrArg (List.take 6) hlower

theorem dotsBroken_inertToken : dotsBroken ' ' (inertToken core) = true := by
  have hdots : dotsBroken ' ' (replaceSchemes (replaceDots core)) = true :=
    dotsBroken_replaceSchemes dotsBroken_replaceDots
  unfold inertToken
  generalize replaceSchemes (replaceDots core) = s at hdots
  dsimp only
  split
  · rename_i hmail
    obtain ⟨hcut, _⟩ := mailto_cut hmail
    generalize s.take 6 = a at hcut
    generalize s.drop 7 = b at hcut
    subst hcut
    obtain ⟨ha, hb⟩ := dotsBroken_append.mp hdots
    have hrest : dotsBroken ']' b = true :=
      dotsBroken_of_ne (by decide) (dotsBroken_cons.mp hb).2
    have hjoin : a ++ "[:]".toList ++ b = a ++ '[' :: ':' :: ']' :: b := by simp
    rw [hjoin]
    exact dotsBroken_append.mpr ⟨ha, by simpa using hrest⟩
  · exact hdots

theorem isLinkableToken_inertToken : isLinkableToken (inertToken core) = false := by
  have hdots : dotsBroken ' ' (inertToken core) = true := dotsBroken_inertToken
  have hschemes : occursIn [':', '/', '/'] (replaceSchemes (replaceDots core)) = false :=
    occursIn_replaceSchemes
  unfold isLinkableToken
  rw [startsWith_www_of_dotsBroken hdots, looksLikeHost_of_dotsBroken hdots, Bool.or_false,
    Bool.or_false, Bool.or_eq_false_iff]
  unfold inertToken
  generalize replaceSchemes (replaceDots core) = s at hschemes
  dsimp only
  split
  · rename_i hmail
    obtain ⟨hcut, hletters⟩ := mailto_cut hmail
    generalize s.take 6 = a at hcut hletters
    generalize s.drop 7 = b at hcut
    subst hcut
    have hlength : a.length = 6 := by simpa [asciiLower] using congrArg List.length hletters
    have hcolonless : ∀ c ∈ a, c ≠ ':' := by
      intro c hc hcolon
      have hmem : c.toLower ∈ "mailto".toList := by
        rw [← hletters]
        exact List.mem_map_of_mem hc
      rw [hcolon] at hmem
      revert hmem
      decide
    have hmarkless : occursIn [':', '/', '/'] (a ++ '[' :: ':' :: ']' :: b) = false := by
      have hb : occursIn [':', '/', '/'] b = false := by
        have htail := occursIn_append_right hschemes
        exact occursIn_append_right (s := [':']) htail
      refine occursIn_append_of_colonless hcolonless ?_
      simpa [occursIn_cons, List.isPrefixOf] using hb
    have hmark : startsWithIgnoreCase "mailto:".toList (a ++ '[' :: ':' :: ']' :: b) = false := by
      have htake : (a ++ '[' :: ':' :: ']' :: b).take 7 = a ++ ['['] := by
        rw [List.take_append, hlength]
        simp [List.take_of_length_le, hlength]
      unfold startsWithIgnoreCase
      rw [show "mailto:".toList.length = 7 from rfl, htake, asciiLower, List.map_append]
      rw [show a.map Char.toLower = "mailto".toList from hletters]
      decide
    have hjoin : a ++ "[:]".toList ++ b = a ++ '[' :: ':' :: ']' :: b := by simp
    rw [hjoin]
    exact ⟨hmarkless, hmark⟩
  · rename_i hmail
    exact ⟨hschemes, Bool.eq_false_iff.mpr hmail⟩

/-! A token keeps its two ends, and no whitespace comes into it. -/

theorem replaceSchemes_concat {c : Char} (hc : c ≠ '/') :
    replaceSchemes (core ++ [c]) = replaceSchemes core ++ [c] := by
  induction core using replaceSchemes.induct with
  | case1 s ih => simpa [replaceSchemes] using ih
  | case2 x s hscheme ih =>
      rw [replaceSchemes.eq_2 x s hscheme, List.cons_append, List.cons_append, ← ih]
      refine replaceSchemes.eq_2 x _ ?_
      intro t hx ht
      match s with
      | [] => simp [hc] at ht
      | [_] => simp [hc] at ht
      | _ :: _ :: s =>
          simp only [List.cons_append, List.cons.injEq] at ht
          exact hscheme s hx (by rw [ht.1, ht.2.1])
  | case3 => simp [replaceSchemes]

theorem head_replace {c : Char} {s : List Char} (hdot : c ≠ '.') (hcolon : c ≠ ':') :
    replaceSchemes (replaceDots (c :: s)) = c :: replaceSchemes (replaceDots s) := by
  rw [replaceDots_cons, if_neg hdot, List.singleton_append]
  refine replaceSchemes.eq_2 c _ ?_
  exact fun t hc => absurd hc hcolon

theorem last_replace {c : Char} {s : List Char} (hdot : c ≠ '.') (hslash : c ≠ '/') :
    replaceSchemes (replaceDots (s ++ [c])) = replaceSchemes (replaceDots s) ++ [c] := by
  have hdots : replaceDots (s ++ [c]) = replaceDots s ++ [c] := by
    unfold replaceDots
    rw [List.flatMap_append]
    simp [hdot]
  rw [hdots, replaceSchemes_concat hslash]

theorem ne_of_isMark {unicode : UnicodeTables} {c x : Char} (hc : unicode.isMark c = false)
    (hx : x.toNat < 128) (hmark : x.isAlphanum = false) : c ≠ x := by
  intro heq
  subst heq
  simp [UnicodeTables.isMark, unicode.ascii c hx, hmark] at hc

theorem inertToken_head {c : Char} {s : List Char} (hdot : c ≠ '.') (hcolon : c ≠ ':') :
    (inertToken (c :: s)).head? = some c := by
  unfold inertToken
  rw [head_replace hdot hcolon]
  dsimp only
  split <;> rfl

theorem inertToken_last {c : Char} {s : List Char} (hdot : c ≠ '.') (hslash : c ≠ '/')
    (hcolon : c ≠ ':') : (inertToken (s ++ [c])).getLast? = some c := by
  unfold inertToken
  rw [last_replace hdot hslash]
  generalize replaceSchemes (replaceDots s) = t
  dsimp only
  split
  · rename_i hmail
    obtain ⟨hcut, _⟩ := mailto_cut hmail
    -- the marker's colon is not the end of the token
    have hrest : (t ++ [c]).drop 7 ≠ [] := by
      intro hnil
      rw [hnil] at hcut
      exact hcolon (List.append_inj_right' hcut rfl |> List.singleton_inj.mp)
    have hlong : 7 ≤ t.length := by
      by_contra hshort
      refine hrest (List.drop_eq_nil_of_le ?_)
      rw [List.length_append, List.length_singleton]
      omega
    rw [List.drop_append_of_le_length hlong, List.getLast?_append_of_ne_nil _ (by simp)]
    simp
  · simp

theorem inertToken_trimmed {unicode : UnicodeTables} (hne : core ≠ [])
    (hcore : Trimmed unicode.isMark core) :
    inertToken core ≠ [] ∧ Trimmed unicode.isMark (inertToken core) := by
  obtain ⟨a, s, hhead⟩ := List.exists_cons_of_ne_nil hne
  obtain ⟨t, b, hlast⟩ : ∃ t b, core = t ++ [b] :=
    ⟨core.dropLast, core.getLast hne, (List.dropLast_append_getLast hne).symm⟩
  have ha : unicode.isMark a = false := hcore.head a (by rw [hhead]; rfl)
  have hb : unicode.isMark b = false := hcore.last b (by rw [hlast]; simp)
  have hfirst : (inertToken core).head? = some a := by
    rw [hhead]
    exact inertToken_head (ne_of_isMark ha (by decide) rfl) (ne_of_isMark ha (by decide) rfl)
  have hend : (inertToken core).getLast? = some b := by
    rw [hlast]
    exact inertToken_last (ne_of_isMark hb (by decide) rfl) (ne_of_isMark hb (by decide) rfl)
      (ne_of_isMark hb (by decide) rfl)
  refine ⟨?_, ?_, ?_⟩
  · intro hnil
    simp [hnil] at hfirst
  · intro c hc
    obtain rfl : a = c := by simpa [hfirst] using hc
    exact ha
  · intro c hc
    obtain rfl : b = c := by simpa [hend] using hc
    exact hb

theorem mem_replaceSchemes {c : Char} {s : List Char} (h : c ∈ replaceSchemes s) :
    c ∈ s ∨ c ∈ "[:]/".toList := by
  induction s using replaceSchemes.induct with
  | case1 s ih =>
      simp only [replaceSchemes, List.mem_append, List.mem_cons] at h ⊢
      rcases h with hmark | hrest
      · exact Or.inr (by revert hmark; simp)
      · exact (ih hrest).imp_left fun hin => Or.inr (Or.inr (Or.inr hin))
  | case2 x s hscheme ih =>
      rw [replaceSchemes.eq_2 x s hscheme, List.mem_cons] at h
      rcases h with rfl | hrest
      · exact Or.inl List.mem_cons_self
      · exact (ih hrest).imp_left (List.mem_cons_of_mem x)
  | case3 => simp [replaceSchemes] at h

theorem mem_inertToken {c : Char} (h : c ∈ inertToken core) : c ∈ core ∨ c ∈ "[.:]/".toList := by
  have hreplaced : ∀ x ∈ replaceSchemes (replaceDots core), x ∈ core ∨ x ∈ "[.:]/".toList := by
    intro x hx
    rcases mem_replaceSchemes hx with hdots | hmark
    · obtain ⟨y, hy, hin⟩ := List.mem_flatMap.mp hdots
      split at hin
      · exact Or.inr (by revert hin; simp; tauto)
      · obtain rfl := List.mem_singleton.mp hin
        exact Or.inl hy
    · exact Or.inr (by revert hmark; simp; tauto)
  unfold inertToken at h
  dsimp only at h
  split at h
  · rw [List.mem_append, List.mem_append] at h
    rcases h with (hfront | hmark) | hback
    · exact hreplaced c (List.mem_of_mem_take hfront)
    · exact Or.inr (by revert hmark; simp; tauto)
    · exact hreplaced c (List.mem_of_mem_drop hback)
  · exact hreplaced c h

end Tokens

/-! ## Words -/

section Words

variable {unicode : UnicodeTables} {word : List Char}

theorem exists_clickable_core (h : isClickable unicode word = true) : ∃ lead core trail,
    word = lead ++ core ++ trail ∧ (∀ c ∈ lead, unicode.isMark c = true) ∧
      (∀ c ∈ trail, unicode.isMark c = true) ∧ core ≠ [] ∧ Trimmed unicode.isMark core ∧
      inertWord unicode word = lead ++ inertToken core ++ trail := by
  have hcore : HasCore unicode word := by
    by_contra hmarks
    have hall : ∀ c ∈ word, unicode.isMark c = true := by
      intro c hc
      by_contra hmark
      exact hmarks ⟨c, hc, by simpa using hmark⟩
    simp [isClickable, coreToken, trimMatches_all hall] at h
  obtain ⟨lead, core, trail, rfl, hlead, htrail, hne, hcore⟩ := exists_core hcore
  refine ⟨lead, core, trail, rfl, hlead, htrail, hne, hcore, ?_⟩
  have hlink : isLinkableToken core = true := by
    unfold isClickable at h
    rw [coreToken_cut hlead htrail hne hcore] at h
    exact (Bool.and_eq_true_iff.mp h).2
  rw [inertWord_cut hlead htrail hne hcore, if_pos hlink]

theorem isClickable_inertWord : isClickable unicode (inertWord unicode word) = false := by
  by_cases hclick : isClickable unicode word = true
  · obtain ⟨lead, core, trail, _, hlead, htrail, hne, hcore, hinert⟩ :=
      exists_clickable_core hclick
    obtain ⟨hkept, htrimmed⟩ := inertToken_trimmed hne hcore
    unfold isClickable
    rw [hinert, coreToken_cut hlead htrail hkept htrimmed]
    simp [isLinkableToken_inertToken]
  · unfold inertWord
    rw [if_neg hclick]
    simpa using hclick

theorem mem_inertWord {c : Char} (h : c ∈ inertWord unicode word) :
    c ∈ word ∨ c ∈ "[.:]/".toList := by
  by_cases hclick : isClickable unicode word = true
  · obtain ⟨lead, core, trail, rfl, _, _, _, _, hinert⟩ := exists_clickable_core hclick
    rw [hinert, List.mem_append, List.mem_append] at h
    rcases h with (hlead | htoken) | htrail
    · exact Or.inl (by simp [hlead])
    · exact (mem_inertToken htoken).imp_left fun hin => by simp [hin]
    · exact Or.inl (by simp [htrail])
  · unfold inertWord at h
    rw [if_neg hclick] at h
    exact Or.inl h

theorem inertWord_ne_nil (hne : word ≠ []) : inertWord unicode word ≠ [] := by
  by_cases hclick : isClickable unicode word = true
  · obtain ⟨lead, core, trail, _, _, _, hcorene, hcore, hinert⟩ := exists_clickable_core hclick
    rw [hinert]
    simp [(inertToken_trimmed hcorene hcore).1]
  · unfold inertWord
    rwa [if_neg hclick]

theorem inertWord_word (hne : word ≠ []) (hword : ∀ c ∈ word, isWhitespace c = false) :
    inertWord unicode word ≠ [] ∧ ∀ c ∈ inertWord unicode word, isWhitespace c = false := by
  have hbrackets : ∀ c ∈ "[.:]/".toList, isWhitespace c = false := by simp [isWhitespace]
  refine ⟨inertWord_ne_nil hne, ?_⟩
  intro c hc
  rcases mem_inertWord hc with hin | hbracket
  · exact hword c hin
  · exact hbrackets c hbracket

end Words

/-! ## Texts -/

section Texts

variable {unicode : UnicodeTables} {s : List Char}

theorem splitWhitespace_eq_nil : splitWhitespace s = [] ↔ ∀ c ∈ s, isWhitespace c = true := by
  have hword : ∀ w : List Char, (∀ c ∈ w, isWhitespace c = false) →
      (splitWhitespace w = [] ↔ ∀ c ∈ w, isWhitespace c = true) := by
    intro w hw
    rw [splitWhitespace_eq, words_whole hw]
    cases w with
    | nil => simp
    | cons c w => simp [hw c List.mem_cons_self]
  induction s using sepInduction isWhitespace with
  | whole w hw => exact hword w hw
  | cut w c s hw hc ih =>
      have hcut : splitWhitespace (w ++ c :: s) = splitWhitespace w ++ splitWhitespace s :=
        words_cut hc
      have hrest : splitWhitespace s = [] ↔ ∀ c ∈ s, isWhitespace c = true := ih
      rw [hcut, List.append_eq_nil_iff, hword w hw, hrest]
      simp [or_imp, forall_and, hc]

theorem trim_eq_empty {s : String} : trim s = "" ↔ splitWhitespace s.toList = [] := by
  rw [splitWhitespace_eq_nil]
  have htoList : trim s = "" ↔ trimMatches isWhitespace s.toList = [] := by
    unfold trim trimMatches
    rw [← String.toList_inj]
    simp
  rw [htoList]
  constructor
  · intro h c hc
    by_contra hword
    have hsome : ∃ c ∈ s.toList, isWhitespace c = false := ⟨c, hc, by simpa using hword⟩
    obtain ⟨lead, core, trail, heq, hlead, htrail, hne, hcore⟩ := exists_core hsome
    rw [heq, trimMatches_core hlead htrail hne hcore] at h
    exact hne h
  · exact trimMatches_all

theorem firstLinkableToken_eq_none : firstLinkableToken unicode s = none ↔
    ∀ w ∈ splitWhitespace s, isClickable unicode w = false := by
  unfold firstLinkableToken isClickable
  simp [List.find?_eq_none]

/-- The texts the rewriting returns on: none of their words is clickable, or every one has something
to trim it to. -/
def Trimmable (unicode : UnicodeTables) (s : List Char) : Prop :=
  firstLinkableToken unicode s = none ∨ ∀ w ∈ splitWhitespace s, HasCore unicode w

instance : Decidable (Trimmable unicode s) :=
  inferInstanceAs (Decidable (firstLinkableToken unicode s = none ∨
    ∀ w ∈ splitWhitespace s, HasCore unicode w))

def inertText (unicode : UnicodeTables) (s : List Char) : List Char :=
  mapWords isWhitespace (inertWord unicode) [] s

theorem defang_spec : defang unicode s =
    if Trimmable unicode s then some (inertText unicode s) else none := by
  rw [defang_eq]
  exact if_congr (or_congr_left firstLinkableToken_eq_none.symm) rfl rfl

theorem defang_isSome : (defang unicode s).isSome ↔ Trimmable unicode s := by
  rw [defang_spec]
  split <;> simp_all

theorem trim_blank {s : String} : trim (trim s) = "" ↔ trim s = "" := by
  constructor
  · intro h
    by_contra hne
    rw [trim_eq_empty, splitWhitespace_eq_nil] at hne
    push Not at hne
    obtain ⟨c, hc, hword⟩ := hne
    have hsome : ∃ c ∈ s.toList, isWhitespace c = false := ⟨c, hc, by simpa using hword⟩
    obtain ⟨lead, core, trail, heq, hlead, htrail, hne, hcore⟩ := exists_core hsome
    have htrim : (trim s).toList = core := by
      have htoList : (trim s).toList = trimMatches isWhitespace s.toList := by
        simp [trim, trimMatches]
      rw [htoList, heq, trimMatches_core hlead htrail hne hcore]
    obtain ⟨x, rest, rfl⟩ := List.exists_cons_of_ne_nil hne
    rw [trim_eq_empty, splitWhitespace_eq_nil, htrim] at h
    have hspace := h x List.mem_cons_self
    rw [hcore.head x rfl] at hspace
    cases hspace
  · intro h
    rw [h]
    decide +kernel

theorem splitWhitespace_inertText : splitWhitespace (inertText unicode s) =
    (splitWhitespace s).map (inertWord unicode) := by
  have hwords : splitWhitespace (inertText unicode s) =
      (splitWhitespace s).map (mapWords isWhitespace (inertWord unicode) []) :=
    words_mapWords (fun _ h => h) fun w hw => by
      obtain ⟨hne, hword⟩ := mem_words hw
      exact inertWord_word hne fun c hc => (hword c hc).1
  rw [hwords]
  refine List.map_congr_left fun w hw => ?_
  obtain ⟨hne, hword⟩ := mem_words hw
  rw [mapWords_whole fun c hc => (hword c hc).1, if_neg hne]

theorem firstLinkableToken_inertText : firstLinkableToken unicode (inertText unicode s) = none := by
  rw [firstLinkableToken_eq_none, splitWhitespace_inertText]
  intro w hw
  obtain ⟨v, _, rfl⟩ := List.mem_map.mp hw
  exact isClickable_inertWord

end Texts

end Bulletin
