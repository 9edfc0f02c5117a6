import Bulletin.Common.Ascii
import Bulletin.Common.LinkSafety
import Bulletin.Core.Phrases
import Bulletin.Identity.Resolve
import Bulletin.Ingest.Event

/-! # The grounding gate

A model proposes what an item is about. A proposal becomes an entity only if its words stand in the
title or in the body, in order and next to each other.
-/

namespace Bulletin

open Phrases Text

/-! ## Normal texts -/

/-- The tables with the lower case of single characters: of a letter or a digit it is never empty
and never blank. -/
structure CharTables extends UnicodeTables where
  lowerChar : Char → List Char
  lowerChar_ne : ∀ c, isAlphanumeric c = true → lowerChar c ≠ []
  lowerChar_solid : ∀ c, isAlphanumeric c = true → ∀ x ∈ lowerChar c, isWhitespace x = false
  lowerChar_ascii : ∀ c : Char, c.toNat < 128 → lowerChar c = [c.toLower]

section Normalize

variable (tables : CharTables)

def normalizeLoop : List Char → List Char → Bool → List Char
  | [], out, _ => if out.getLast? = some ' ' then out.dropLast else out
  | c :: s, out, prevSpace =>
      if tables.isAlphanumeric c then normalizeLoop s (out ++ tables.lowerChar c) false
      else if !prevSpace && out != [] then normalizeLoop s (out ++ [' ']) true
      else normalizeLoop s out prevSpace

/-- Lower case words with single blanks between them. -/
def normalizeText (s : String) : List Char := normalizeLoop tables s.toList [] false

end Normalize

def stripArticle (s : List Char) : List Char :=
  if "the ".toList.isPrefixOf s then s.drop 4 else s

/-! ## The gate -/

/-- What the model proposes, by kind. -/
structure Enrichment where
  places : List String := []
  orgs : List String := []
  people : List String := []
  topics : List String := []

def Enrichment.namespaced (e : Enrichment) : List (String × List String) :=
  [("place", e.places), ("org", e.orgs), ("person", e.people), ("topic", e.topics)]

section Gate

variable (tables : CharTables)

/-- The token of a proposed value that stands in one of the texts. -/
def groundedToken (ns value : String) (haystacks : List (List Char)) : Option String :=
  let needle := stripArticle (normalizeText tables value)
  if needle = [] then none
  else if !haystacks.any (occursIn (' ' :: needle ++ [' '])) then none
  else some (ns ++ ":" ++ String.ofList (needle.map fun c => if c = ' ' then '-' else c))

/-- A text to look in: its words with a blank at both ends. -/
def haystack (s : String) : List Char := ' ' :: normalizeText tables s ++ [' ']

def groundEntities (title : String) (body : Option String) (e : Enrichment) : List String :=
  let haystacks := haystack tables title ::
    ((body.filter (!·.isEmpty)).map (haystack tables)).toList
  sortDedup (e.namespaced.flatMap fun p =>
    p.2.filterMap fun value => groundedToken tables p.1 value haystacks)

end Gate

theorem not_isWhitespace_of_isAlphanum {c : Char} (h : c.isAlphanum = true) :
    isWhitespace c = false := by
  have hrange := toNat_of_isAlphanum h
  simp only [isWhitespace, Bool.or_eq_false_iff, Bool.and_eq_false_iff, decide_eq_false_iff_not,
    beq_eq_false_iff_ne]
  omega

def asciiCharTables : CharTables where
  toUnicodeTables := asciiTables
  lowerChar := fun c => [c.toLower]
  lowerChar_ne := by simp
  lowerChar_solid := by
    intro c hc x hx
    obtain rfl := List.mem_singleton.mp hx
    exact not_isWhitespace_of_isAlphanum ((toLower_spec c).1.trans hc)
  lowerChar_ascii := fun _ _ => rfl

example : groundedToken asciiCharTables "place" "the English Channel"
    [haystack asciiCharTables "Shots in the English  Channel!"] = some "place:english-channel" := by
  decide +kernel

/-! ## Words -/

section Words

variable (tables : CharTables)

/-- The words of a text: its stretches of letters and digits, in lower case. -/
def textWords (s : List Char) : List (List Char) :=
  (words (fun c => !tables.isAlphanumeric c) s).map (·.flatMap tables.lowerChar)

def dropArticle : List (List Char) → List (List Char)
  | w :: v :: ws => if w = "the".toList then v :: ws else w :: v :: ws
  | ws => ws

end Words

variable {tables : CharTables} {s t p w : List Char} {ws : List (List Char)} {c : Char}

theorem textWords_whole (hne : p ≠ []) (hp : ∀ c ∈ p, tables.isAlphanumeric c = true) :
    textWords tables p = [p.flatMap tables.lowerChar] := by
  rw [textWords, words_whole (by simpa using hp), if_neg hne, List.map_singleton]

theorem textWords_cut (hc : tables.isAlphanumeric c = false) :
    textWords tables (s ++ c :: t) = textWords tables s ++ textWords tables t := by
  rw [textWords, words_cut (by simpa using hc), List.map_append]
  rfl

def Solid (ws : List (List Char)) : Prop := ∀ w ∈ ws, w ≠ [] ∧ ∀ x ∈ w, isWhitespace x = false

theorem solid_word (hne : p ≠ []) (hp : ∀ c ∈ p, tables.isAlphanumeric c = true) :
    Solid [p.flatMap tables.lowerChar] := by
  intro w hw
  obtain rfl := List.mem_singleton.mp hw
  refine ⟨?_, ?_⟩
  · intro hnil
    obtain ⟨c, hc⟩ := List.exists_mem_of_ne_nil p hne
    exact tables.lowerChar_ne c (hp c hc) (List.flatMap_eq_nil_iff.mp hnil c hc)
  · intro x hx
    obtain ⟨c, hc, hx⟩ := List.mem_flatMap.mp hx
    exact tables.lowerChar_solid c (hp c hc) x hx

theorem solid_append {vs : List (List Char)} (hws : Solid ws) (hvs : Solid vs) :
    Solid (ws ++ vs) := fun w hw => (List.mem_append.mp hw).elim (hws w) (hvs w)

theorem solid_textWords : Solid (textWords tables s) := by
  intro w hw
  obtain ⟨p, hp, rfl⟩ := List.mem_map.mp hw
  obtain ⟨hne, hword⟩ := mem_words hp
  have halnum : ∀ c ∈ p, tables.isAlphanumeric c = true := by
    intro c hc
    simpa using (hword c hc).1
  have hsolid : Solid [p.flatMap tables.lowerChar] := solid_word hne halnum
  exact hsolid _ (by simp)

theorem Solid.blank_not_mem (hws : Solid ws) : ∀ w ∈ ws, ' ' ∉ w := by
  intro w hw hblank
  exact absurd ((hws w hw).2 ' ' hblank) (by decide)

theorem Solid.phrase_ne (hws : Solid ws) (hne : ws ≠ []) : phrase ' ' ws ≠ [] :=
  mt (phrase_eq_nil fun w hw => (hws w hw).1).mp hne

theorem Solid.phrase_last {sep : Char} (hws : Solid ws) :
    ∀ x ∈ (phrase sep ws).getLast?, isWhitespace x = false := by
  rcases List.eq_nil_or_concat' ws with rfl | ⟨front, w, rfl⟩
  · simp
  · obtain ⟨hw, hsolid⟩ := hws w (by simp)
    have hlast : (phrase sep (front ++ [w])).getLast? = w.getLast? := by
      by_cases hfront : front = []
      · rw [hfront, List.nil_append, phrase_singleton]
      · rw [phrase_concat hfront, ← List.singleton_append, ← List.append_assoc,
          List.getLast?_append_of_ne_nil _ hw]
    intro x hx
    rw [hlast] at hx
    exact hsolid x (List.mem_of_getLast? hx)

/-- What is written so far is nothing, some words and a blank, or some words and a part of one; the
loop writes the words of the rest behind it. The induction carries all three. -/
theorem normalizeLoop_eq (s : List Char) :
    normalizeLoop tables s [] false = phrase ' ' (textWords tables s) ∧
    (∀ ws, Solid ws → ws ≠ [] → normalizeLoop tables s (phrase ' ' ws ++ [' ']) true =
      phrase ' ' (ws ++ textWords tables s)) ∧
    ∀ ws p, Solid ws → p ≠ [] → (∀ c ∈ p, tables.isAlphanumeric c = true) →
      normalizeLoop tables s (phrase ' ' (ws ++ [p.flatMap tables.lowerChar])) false =
        phrase ' ' (ws ++ textWords tables (p ++ s)) := by
  induction s with
  | nil =>
      refine ⟨rfl, ?_, ?_⟩
      · intro ws _ _
        have hempty : textWords tables [] = [] := rfl
        rw [normalizeLoop, List.getLast?_concat, if_pos rfl, List.dropLast_concat, hempty,
          List.append_nil]
      · intro ws p hws hne hp
        have hsolid := solid_append hws (solid_word hne hp)
        rw [List.append_nil, textWords_whole hne hp, normalizeLoop, if_neg]
        intro hlast
        exact absurd (hsolid.phrase_last ' ' hlast) (by decide)
  | cons c s ih =>
      obtain ⟨hstart, hblank, hpart⟩ := ih
      by_cases hc : tables.isAlphanumeric c = true
      · have hone : ∀ x ∈ [c], tables.isAlphanumeric x = true := by simpa using hc
        refine ⟨?_, ?_, ?_⟩
        · rw [normalizeLoop, if_pos hc]
          simpa using hpart [] [c] (by simp [Solid]) (by simp) hone
        · intro ws hws hne
          have hnext := hpart ws [c] hws (by simp) hone
          rw [phrase_concat hne, List.flatMap_singleton] at hnext
          rw [normalizeLoop, if_pos hc, List.append_assoc]
          exact hnext
        · intro ws p hws hne hp
          have hmore : ∀ x ∈ p ++ [c], tables.isAlphanumeric x = true := by
            intro x hx
            exact (List.mem_append.mp hx).elim (hp x) (hone x)
          have hnext := hpart ws (p ++ [c]) hws (by simp) hmore
          rw [List.flatMap_append, List.flatMap_singleton, phrase_concat_append,
            List.append_assoc] at hnext
          rw [normalizeLoop, if_pos hc]
          exact hnext
      · have hcut : ∀ q, textWords tables (q ++ c :: s) =
            textWords tables q ++ textWords tables s := fun q => textWords_cut (by simpa using hc)
        have hskip : textWords tables (c :: s) = textWords tables s := hcut []
        refine ⟨?_, ?_, ?_⟩
        · rw [normalizeLoop, if_neg hc, hskip]
          simpa using hstart
        · intro ws hws hne
          rw [normalizeLoop, if_neg hc, hskip]
          simpa using hblank ws hws hne
        · intro ws p hws hne hp
          have hsolid := solid_append hws (solid_word hne hp)
          have hout := hsolid.phrase_ne (by simp)
          rw [normalizeLoop, if_neg hc, hcut p, textWords_whole hne hp, ← List.append_assoc]
          simpa [hout] using hblank _ hsolid (by simp)

theorem normalizeText_eq (s : String) :
    normalizeText tables s = phrase ' ' (textWords tables s.toList) :=
  (normalizeLoop_eq s.toList).1

/-! ## The article -/

theorem stripArticle_phrase (hws : Solid ws) :
    stripArticle (phrase ' ' ws) = phrase ' ' (dropArticle ws) := by
  have hthe : ∀ s : List Char, "the ".toList <+: s ↔ ∃ rest, "the".toList ++ ' ' :: rest = s :=
    fun s => Iff.rfl
  have hkeep : ∀ s : List Char, ¬ "the ".toList <+: s → stripArticle s = s := by
    intro s hs
    rw [stripArticle, if_neg (by rwa [List.isPrefixOf_iff_prefix])]
  cases ws with
  | nil => rfl
  | cons w ws =>
      have hw : ' ' ∉ w := hws.blank_not_mem w List.mem_cons_self
      cases ws with
      | nil =>
          rw [phrase_singleton, dropArticle, phrase_singleton]
          · refine hkeep w fun h => ?_
            obtain ⟨rest, rfl⟩ := (hthe w).mp h
            simp at hw
          · simp
      | cons v ws =>
          rw [phrase_cons_cons, dropArticle]
          by_cases hfirst : w = "the".toList
          · have hprefix : "the ".toList <+: w ++ ' ' :: phrase ' ' (v :: ws) :=
              (hthe _).mpr ⟨_, by rw [hfirst]⟩
            rw [stripArticle, if_pos (List.isPrefixOf_iff_prefix.mpr hprefix), if_pos hfirst, hfirst]
            rfl
          · rw [if_neg hfirst, phrase_cons_cons]
            refine hkeep _ fun h => hfirst ?_
            obtain ⟨rest, hrest⟩ := (hthe _).mp h
            exact (firstSep_inj (by decide) hw hrest).1.symm

theorem solid_dropArticle (hws : Solid ws) : Solid (dropArticle ws) := by
  unfold dropArticle
  split
  · split
    · exact fun w hw => hws w (List.mem_cons_of_mem _ hw)
    · exact hws
  · exact hws

/-! ## What is grounded -/

inductive Namespace where
  | place
  | org
  | person
  | topic
deriving DecidableEq, Repr

def Namespace.name : Namespace → String
  | place => "place"
  | org => "org"
  | person => "person"
  | topic => "topic"

def Enrichment.proposed (e : Enrichment) : Namespace → List String
  | .place => e.places
  | .org => e.orgs
  | .person => e.people
  | .topic => e.topics

/-- `slug` is the words of a value, which are a run of the words of the title or of the body. -/
def Grounded (tables : CharTables) (title : String) (body : Option String) (value slug : String) :
    Prop :=
  ∃ ws, ws = dropArticle (textWords tables value.toList) ∧ ws ≠ [] ∧
    slug.toList = ['-'].intercalate ws ∧
    (ws <:+: textWords tables title.toList ∨
      ∃ text, body = some text ∧ ws <:+: textWords tables text.toList)

variable {title : String} {body : Option String} {e : Enrichment}

theorem occursIn_haystack (hws : Solid ws) (hne : ws ≠ []) (text : String) :
    occursIn (' ' :: phrase ' ' ws ++ [' ']) (haystack tables text) = true ↔
      ws <:+: textWords tables text.toList := by
  rw [occursIn_iff, haystack, normalizeText_eq]
  exact padded_infix hws.blank_not_mem solid_textWords.blank_not_mem (hws.phrase_ne hne)

/-- Looking in the title and in a body that is not empty is looking for a run of words in either. -/
theorem any_haystack (tables : CharTables) (title : String) (body : Option String)
    (hws : Solid ws) (hne : ws ≠ []) :
    (haystack tables title :: ((body.filter (!·.isEmpty)).map (haystack tables)).toList).any
        (occursIn (' ' :: phrase ' ' ws ++ [' '])) = true ↔
      ws <:+: textWords tables title.toList ∨
        ∃ text, body = some text ∧ ws <:+: textWords tables text.toList := by
  rw [List.any_cons, Bool.or_eq_true, occursIn_haystack hws hne]
  refine or_congr Iff.rfl ?_
  cases body with
  | none => simp
  | some text =>
      by_cases hempty : text = ""
      · subst hempty
        have hwords : textWords tables "".toList = [] := rfl
        refine iff_of_false (by simp) ?_
        rintro ⟨text, htext, hrun⟩
        obtain rfl := Option.some_inj.mp htext
        rw [hwords, List.infix_nil] at hrun
        exact hne hrun
      · have hfilter : (some text).filter (!·.isEmpty) = some text := by
          simp [Option.filter, hempty]
        rw [hfilter]
        simp [← occursIn_haystack hws hne]

theorem map_dash (hws : Solid ws) :
    (phrase ' ' ws).map (fun c => if c = ' ' then '-' else c) = ['-'].intercalate ws := by
  refine (map_phrase fun w hw x hx => if_neg ?_).trans (by rw [if_pos rfl]; rfl)
  rintro rfl
  exact hws.blank_not_mem w hw hx

theorem groundedToken_eq_some {ns value token : String} :
    groundedToken tables ns value (haystack tables title ::
        ((body.filter (!·.isEmpty)).map (haystack tables)).toList) = some token ↔
      ∃ slug, token = ns ++ ":" ++ slug ∧ Grounded tables title body value slug := by
  have hsolid : Solid (dropArticle (textWords tables value.toList)) :=
    solid_dropArticle solid_textWords
  have hneedle : stripArticle (normalizeText tables value) =
      phrase ' ' (dropArticle (textWords tables value.toList)) := by
    rw [normalizeText_eq, stripArticle_phrase solid_textWords]
  unfold groundedToken Grounded
  dsimp only
  rw [hneedle]
  generalize dropArticle (textWords tables value.toList) = ws at hsolid
  by_cases hne : ws = []
  · simp [hne]
  · rw [if_neg (hsolid.phrase_ne hne), map_dash hsolid]
    have hany := any_haystack tables title body hsolid hne
    by_cases hfound : ws <:+: textWords tables title.toList ∨
        ∃ text, body = some text ∧ ws <:+: textWords tables text.toList
    · rw [hany.mpr hfound, Bool.not_true, if_neg Bool.false_ne_true, Option.some_inj]
      constructor
      · rintro rfl
        exact ⟨_, rfl, ws, rfl, hne, String.toList_ofList, hfound⟩
      · rintro ⟨slug, rfl, _, rfl, _, hslug, _⟩
        rw [← hslug, String.ofList_toList]
    · rw [Bool.eq_false_iff.mpr (mt hany.mp hfound), Bool.not_false, if_pos rfl]
      refine iff_of_false (by simp) ?_
      rintro ⟨_, _, _, rfl, _, _, hin⟩
      exact hfound hin

theorem mem_groundEntities {token : String} : token ∈ groundEntities tables title body e ↔
    ∃ (ns : Namespace) (slug : String), token = ns.name ++ ":" ++ slug ∧
      ∃ value ∈ e.proposed ns, Grounded tables title body value slug := by
  have hnamespaced : ∀ p, p ∈ e.namespaced ↔ ∃ ns : Namespace, p = (ns.name, e.proposed ns) := by
    intro p
    constructor
    · intro hp
      simp only [Enrichment.namespaced, List.mem_cons, List.not_mem_nil, or_false] at hp
      rcases hp with rfl | rfl | rfl | rfl
      · exact ⟨.place, rfl⟩
      · exact ⟨.org, rfl⟩
      · exact ⟨.person, rfl⟩
      · exact ⟨.topic, rfl⟩
    · rintro ⟨ns, rfl⟩
      cases ns <;> simp [Enrichment.namespaced, Namespace.name, Enrichment.proposed]
  unfold groundEntities
  simp only [mem_sortDedup, List.mem_flatMap, List.mem_filterMap, groundedToken_eq_some]
  constructor
  · rintro ⟨p, hp, value, hvalue, slug, rfl, hgrounded⟩
    obtain ⟨ns, rfl⟩ := (hnamespaced p).mp hp
    exact ⟨ns, slug, rfl, value, hvalue, hgrounded⟩
  · rintro ⟨ns, slug, rfl, value, hvalue, hgrounded⟩
    exact ⟨_, (hnamespaced _).mpr ⟨ns, rfl⟩, value, hvalue, slug, rfl, hgrounded⟩

/-! ## Tokens -/

theorem Namespace.name_plain (ns : Namespace) : ':' ∉ ns.name.toList ∧ ns.name ≠ "" ∧
    (∀ x ∈ ns.name.toList.head?, isWhitespace x = false) ∧
    ns.name.toList.all Char.isAlphanum = true ∧
    asciiLower ns.name.toList = ns.name.toList := by
  have hhead : (ns.name.toList.head?.all fun x => !isWhitespace x) = true := by
    cases ns <;> decide
  refine ⟨?_, ?_, fun x hx => ?_, ?_, ?_⟩
  · cases ns <;> decide
  · cases ns <;> decide
  · simpa using (Option.all_eq_true _ _).mp hhead x hx
  · cases ns <;> decide
  · cases ns <;> decide

theorem Namespace.name_inj {a b : Namespace} (h : a.name = b.name) : a = b := by
  cases a <;> cases b <;> first | rfl | exact absurd h (by decide)

theorem token_inj {a b : Namespace} {x y : String} (h : a.name ++ ":" ++ x = b.name ++ ":" ++ y) :
    a = b ∧ x = y := by
  have hchars : a.name.toList ++ ':' :: x.toList = b.name.toList ++ ':' :: y.toList := by
    simpa using congrArg String.toList h
  obtain ⟨hname, hslug⟩ := firstSep_inj a.name_plain.1 b.name_plain.1 hchars
  exact ⟨Namespace.name_inj (String.toList_inj.mp hname), String.toList_inj.mp hslug⟩

theorem Grounded.solid {value slug : String} (h : Grounded tables title body value slug) :
    slug.toList ≠ [] ∧ ∀ x ∈ slug.toList.getLast?, isWhitespace x = false := by
  obtain ⟨ws, rfl, hne, hslug, _⟩ := h
  have hsolid : Solid (dropArticle (textWords tables value.toList)) :=
    solid_dropArticle solid_textWords
  rw [hslug]
  refine ⟨?_, hsolid.phrase_last⟩
  exact mt (phrase_eq_nil fun w hw => (hsolid w hw).1).mp hne

theorem canonicalize_token (ns : Namespace) {slug : String} (hne : slug.toList ≠ [])
    (hlast : ∀ x ∈ slug.toList.getLast?, isWhitespace x = false) :
    Identity.canonicalize (ns.name ++ ":" ++ slug) = ns.name ++ ":" ++ slug := by
  obtain ⟨hcolon, hname, hhead, halnum, hlower⟩ := ns.name_plain
  have hchars : (ns.name ++ ":" ++ slug).toList = ns.name.toList ++ ':' :: slug.toList := by simp
  have hlist : ns.name.toList ≠ [] := by simpa using hname
  have htrim : trim (ns.name ++ ":" ++ slug) = ns.name ++ ":" ++ slug := by
    have hcore : Trimmed isWhitespace (ns.name.toList ++ ':' :: slug.toList) := by
      refine ⟨?_, ?_⟩
      · rwa [List.head?_append_of_ne_nil _ hlist]
      · rwa [← List.singleton_append, ← List.append_assoc, List.getLast?_append_of_ne_nil _ hne]
    have hmatches : trimMatches isWhitespace ([] ++ (ns.name.toList ++ ':' :: slug.toList) ++ []) =
        ns.name.toList ++ ':' :: slug.toList :=
      trimMatches_core (by simp) (by simp) (by simp) hcore
    rw [List.nil_append, List.append_nil] at hmatches
    rw [← String.toList_inj, hchars]
    unfold trim
    rw [String.toList_ofList, hchars]
    exact hmatches
  have hsplit : splitNamespace (ns.name ++ ":" ++ slug) = some (ns.name, slug) := by
    have htake : (ns.name.toList ++ ':' :: slug.toList).takeWhile (· ≠ ':') = ns.name.toList := by
      rw [List.takeWhile_append_of_pos (by simpa using fun x hx (h : x = ':') => hcolon (h ▸ hx))]
      simp
    unfold splitNamespace
    rw [hchars, htake]
    simp
  unfold Identity.canonicalize
  rw [htrim]
  dsimp only
  rw [hsplit]
  dsimp only
  rw [if_pos ⟨hname, halnum⟩, hlower, String.ofList_toList]

/-- The gate in terms of words. -/
structure GroundingGate (tables : CharTables) (title : String) (body : Option String)
    (e : Enrichment) (tokens : List String) : Prop where
  grounded : ∀ (ns : Namespace) (slug : String), ns.name ++ ":" ++ slug ∈ tokens ↔
    ∃ value ∈ e.proposed ns, Grounded tables title body value slug
  named : ∀ token ∈ tokens, ∃ (ns : Namespace) (slug : String), token = ns.name ++ ":" ++ slug
  sorted : tokens.Pairwise (· < ·)
  canonical : ∀ token ∈ tokens, Identity.canonicalize token = token

theorem groundEntities_gate (tables : CharTables) (title : String) (body : Option String)
    (e : Enrichment) :
    GroundingGate tables title body e (groundEntities tables title body e) where
  grounded := by
    intro ns slug
    rw [mem_groundEntities]
    constructor
    · rintro ⟨ns', slug', htoken, hgrounded⟩
      obtain ⟨rfl, rfl⟩ := token_inj htoken
      exact hgrounded
    · intro hgrounded
      exact ⟨ns, slug, rfl, hgrounded⟩
  named := by
    intro token htoken
    obtain ⟨ns, slug, rfl, _⟩ := mem_groundEntities.mp htoken
    exact ⟨ns, slug, rfl⟩
  sorted := sortDedup_pairwise _
  canonical := by
    intro token htoken
    obtain ⟨ns, slug, rfl, value, _, hgrounded⟩ := mem_groundEntities.mp htoken
    exact canonicalize_token ns hgrounded.solid.1 hgrounded.solid.2

end Bulletin
