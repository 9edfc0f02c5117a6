import Bulletin.Common.Ascii
import Bulletin.Ingest.Builder
import Mathlib.Data.List.DropRight

/-! # URLs in links and in prose

A structured link and a word of a text go through the same normal form. A word is trimmed at its end
alone, so what opens around a URL stays on its scheme.
-/

namespace Bulletin

open Text

/-! ## The normal form -/

section NormalForm

variable {a b s : List Char} {p : Char → Bool}

theorem splitOnce_append (ha : ∀ c ∈ a, c ≠ ':') : splitOnce "://".toList (a ++ s) =
    (splitOnce "://".toList s).map fun q => (a ++ q.1, q.2) := by
  induction a with
  | nil => simp
  | cons c a ih =>
      have hc : ("://".toList.isPrefixOf (c :: (a ++ s))) = false := by
        rw [Bool.eq_false_iff]
        intro hprefix
        obtain ⟨t, ht⟩ := List.isPrefixOf_iff_prefix.mp hprefix
        exact ha c List.mem_cons_self (List.cons.inj ht).1.symm
      rw [List.cons_append, splitOnce, hc, ih fun x hx => ha x (List.mem_cons_of_mem c hx)]
      cases splitOnce "://".toList s <;> simp

theorem splitOnce_eq_some {rest : List Char} (h : splitOnce "://".toList s = some (a, rest)) :
    s = a ++ ("://".toList ++ rest) := by
  induction s generalizing a with
  | nil => simp [splitOnce] at h
  | cons c s ih =>
      unfold splitOnce at h
      split at h
      · rename_i hprefix
        obtain ⟨t, ht⟩ := List.isPrefixOf_iff_prefix.mp hprefix
        obtain ⟨rfl, rfl⟩ := Prod.mk.inj (Option.some.inj h)
        rw [← ht, List.drop_left]
        rfl
      · obtain ⟨q, hq, heq⟩ := Option.map_eq_some_iff.mp h
        obtain ⟨rfl, rfl⟩ := Prod.mk.inj heq
        rw [ih hq]
        rfl

theorem splitOnce_cut (ha : ∀ c ∈ a, c ≠ ':') :
    splitOnce "://".toList (a ++ ("://".toList ++ s)) = some (a, s) := by
  have hhere : splitOnce "://".toList ("://".toList ++ s) = some ([], s) := by
    have hprefix : ("://".toList.isPrefixOf ("://".toList ++ s)) = true :=
      List.isPrefixOf_iff_prefix.mpr (List.prefix_append _ _)
    rw [show "://".toList ++ s = ':' :: ('/' :: '/' :: s) from by simp] at hprefix ⊢
    rw [splitOnce, if_pos hprefix]
    simp
  rw [splitOnce_append ha, hhere]
  simp

theorem trimEndMatches_append (ha : ∀ c ∈ a.getLast?, p c = false) :
    trimEndMatches p (a ++ b) = a ++ trimEndMatches p b := by
  unfold trimEndMatches
  rw [List.reverse_append, List.dropWhile_append]
  split
  · rename_i hnil
    have hback : a.reverse.dropWhile p = a.reverse := by
      have hlead := @dropWhile_lead p [] a.reverse (by simp) (by simpa using ha)
      simpa using hlead
    rw [hback, List.isEmpty_iff.mp hnil]
    simp
  · simp

theorem trimEndMatches_prefix : trimEndMatches p s <+: s := List.rdropWhile_prefix p s

theorem trimEndMatches_trimEndMatches :
    trimEndMatches p (trimEndMatches p s) = trimEndMatches p s := List.rdropWhile_idempotent p s

def IsWebScheme (scheme : List Char) : Prop := scheme = "http".toList ∨ scheme = "https".toList

def inHost (c : Char) : Bool := c != '/' && c != '?' && c != '#'

def canonicalUrl (scheme host path : List Char) : List Char :=
  scheme ++ ("://".toList ++ (host ++ trimEndMatches (· == '/') path))

def domainOf (host : List Char) : List Char :=
  if "www.".toList.isPrefixOf host then host.drop 4 else host

theorem webScheme_colonless {scheme : List Char} (h : IsWebScheme (asciiLower scheme)) :
    ∀ c ∈ scheme, c ≠ ':' := by
  intro c hc hcolon
  have hin : c.toLower ∈ asciiLower scheme := List.mem_map_of_mem hc
  rw [hcolon] at hin
  rcases h with h | h <;> rw [h] at hin <;> revert hin <;> decide

theorem normalizeUrl_eq_some {raw : List Char} {q : List Char × List Char} :
    normalizeUrl raw = some q ↔ ∃ scheme rest, raw = scheme ++ ("://".toList ++ rest) ∧
      IsWebScheme (asciiLower scheme) ∧ asciiLower (rest.takeWhile inHost) ≠ [] ∧
        q = (canonicalUrl (asciiLower scheme) (asciiLower (rest.takeWhile inHost))
          ((rest.dropWhile inHost).takeWhile (· != '#')),
            domainOf (asciiLower (rest.takeWhile inHost))) := by
  have htrim : ∀ scheme host path : List Char, host ≠ [] → (∀ c ∈ host, c ≠ '/') →
      trimEndMatches (· == '/') (scheme ++ "://".toList ++ host ++ path) =
        canonicalUrl scheme host path := by
    intro scheme host path hne hslash
    rw [trimEndMatches_append]
    · unfold canonicalUrl
      simp only [List.append_assoc]
    · intro c hc
      rw [List.getLast?_append_of_ne_nil _ hne] at hc
      simpa using hslash c (List.mem_of_getLast? hc)
  have hhost : ∀ rest : List Char, ∀ c ∈ asciiLower (rest.takeWhile inHost), c ≠ '/' := by
    intro rest c hc hslash
    obtain ⟨x, hx, rfl⟩ := List.mem_map.mp hc
    have hin := List.mem_takeWhile_imp hx
    rw [eq_of_toLower hslash (by decide)] at hin
    exact absurd hin (by decide)
  constructor
  · intro h
    unfold normalizeUrl at h
    obtain ⟨⟨scheme, rest⟩, hsplit, h⟩ := Option.bind_eq_some_iff.mp h
    dsimp only at h
    split at h
    · cases h
    · rename_i hscheme
      split at h
      · cases h
      · rename_i hne
        refine ⟨scheme, rest, splitOnce_eq_some hsplit, ?_, hne, ?_⟩
        · unfold IsWebScheme
          tauto
        · have hform := htrim (asciiLower scheme) (asciiLower (rest.takeWhile inHost))
            ((rest.dropWhile inHost).takeWhile (· != '#')) hne (hhost rest)
          rw [← hform]
          exact (Option.some.inj h).symm
  · rintro ⟨scheme, rest, rfl, hscheme, hne, rfl⟩
    unfold normalizeUrl
    rw [splitOnce_cut (webScheme_colonless hscheme), Option.bind_some]
    dsimp only
    rw [if_neg, if_neg]
    · rw [← htrim _ _ _ hne (hhost rest)]
      rfl
    · exact hne
    · unfold IsWebScheme at hscheme
      tauto

theorem normalizeUrl_idempotent {raw url domain : List Char}
    (h : normalizeUrl raw = some (url, domain)) : normalizeUrl url = some (url, domain) := by
  obtain ⟨scheme, rest, rfl, hscheme, hne, heq⟩ := normalizeUrl_eq_some.mp h
  obtain ⟨rfl, rfl⟩ := Prod.mk.inj heq
  refine normalizeUrl_eq_some.mpr ⟨asciiLower scheme, asciiLower (rest.takeWhile inHost) ++
    trimEndMatches (· == '/') ((rest.dropWhile inHost).takeWhile (· != '#')), rfl, ?_⟩
  have hlower : ∀ c ∈ asciiLower (rest.takeWhile inHost), inHost c = true := by
    intro c hc
    obtain ⟨x, hx, rfl⟩ := List.mem_map.mp hc
    have hin := List.mem_takeWhile_imp hx
    have hkept : ∀ y : Char, y.toNat < 97 → x ≠ y → x.toLower ≠ y :=
      fun y hy hne h => hne (eq_of_toLower h hy)
    simp only [inHost, Bool.and_eq_true, bne_iff_ne] at hin ⊢
    exact ⟨⟨hkept '/' (by decide) hin.1.1, hkept '?' (by decide) hin.1.2⟩,
      hkept '#' (by decide) hin.2⟩
  have hpath : ∀ c ∈ (trimEndMatches (· == '/')
      ((rest.dropWhile inHost).takeWhile (· != '#'))).head?, inHost c = false := by
    intro c hc
    obtain ⟨front, hfront⟩ := List.head?_eq_some_iff.mp hc
    have hprefix : c :: front <+: rest.dropWhile inHost := by
      rw [← hfront]
      exact trimEndMatches_prefix.trans (List.takeWhile_prefix _)
    obtain ⟨back, hback⟩ := hprefix
    exact head_dropWhile hback.symm
  have hfragment : (trimEndMatches (· == '/')
      ((rest.dropWhile inHost).takeWhile (· != '#'))).takeWhile (· != '#') =
        trimEndMatches (· == '/') ((rest.dropWhile inHost).takeWhile (· != '#')) := by
    refine List.takeWhile_eq_self_iff.mpr fun c hc => ?_
    have hin : c ∈ (rest.dropWhile inHost).takeWhile (· != '#') :=
      trimEndMatches_prefix.subset hc
    exact List.mem_takeWhile_imp (p := (· != '#')) hin
  rw [takeWhile_lead hlower hpath, dropWhile_lead hlower hpath, hfragment, asciiLower_asciiLower,
    asciiLower_asciiLower]
  refine ⟨hscheme, hne, ?_⟩
  unfold canonicalUrl
  rw [trimEndMatches_trimEndMatches]

end NormalForm

/-! ## Candidates -/

def isUrlToken (token : String) : Bool :=
  "url:".toList.isPrefixOf token.toList || "domain:".toList.isPrefixOf token.toList

def urlTokens (tokens : List String) : List String := tokens.filter isUrlToken

/-- The links of an item, and the words of its texts without the marks at their end. -/
def candidates (title : String) (body : Option String) (links : List String) : List (List Char) :=
  links.map String.toList ++ (title :: body.toList).flatMap fun text =>
    (splitWhitespace text.toList).map (trimEndMatches isUrlTrailer)

section Candidates

variable {title token : String} {body : Option String} {links : List String}
  {u v lead trail before after : List Char}

theorem isUrlToken_of_mem (h : token ∈ urlEntities u) : isUrlToken token = true := by
  unfold urlEntities at h
  split at h
  · cases h
  · simp only [List.mem_cons, List.not_mem_nil, or_false] at h
    rcases h with rfl | rfl <;> simp [isUrlToken]

theorem not_isUrlToken_of_cve {prev : Option Char} {skip : Nat} {s : List Char}
    (h : token ∈ cveEntities prev skip s) : isUrlToken token = false := by
  induction s generalizing prev skip with
  | nil => cases h
  | cons c s ih =>
      unfold cveEntities at h
      split at h
      · exact ih h
      · split at h
        · split at h
          · rcases List.mem_cons.mp h with rfl | hrest
            · simp [isUrlToken, List.isPrefixOf]
            · exact ih hrest
          · exact ih h
        · exact ih h

theorem mem_urlTokens : token ∈ urlTokens (deriveEntities title body links) ↔
    ∃ c ∈ candidates title body links, token ∈ urlEntities c := by
  unfold urlTokens deriveEntities candidates
  rw [List.mem_filter, mem_sortDedup]
  simp only [List.mem_append, List.mem_flatMap, List.mem_map]
  constructor
  · rintro ⟨⟨link, hlink, hin⟩ | ⟨text, htext, hcve | ⟨w, hw, hin⟩⟩, hurl⟩
    · exact ⟨_, Or.inl ⟨link, hlink, rfl⟩, hin⟩
    · rw [not_isUrlToken_of_cve hcve] at hurl
      cases hurl
    · exact ⟨_, Or.inr ⟨text, htext, w, hw, rfl⟩, hin⟩
  · rintro ⟨_, ⟨link, hlink, rfl⟩ | ⟨text, htext, w, hw, rfl⟩, hin⟩
    · exact ⟨Or.inl ⟨link, hlink, hin⟩, isUrlToken_of_mem hin⟩
    · exact ⟨Or.inr ⟨text, htext, Or.inr ⟨w, hw, hin⟩⟩, isUrlToken_of_mem hin⟩

/-- The tokens of two items are the same if each candidate of one has its tokens in the other. -/
theorem urlTokens_congr {title' : String} {body' : Option String} {links' : List String} :
    urlTokens (deriveEntities title body links) =
      urlTokens (deriveEntities title' body' links') ↔
        ∀ token, (∃ c ∈ candidates title body links, token ∈ urlEntities c) ↔
          ∃ c ∈ candidates title' body' links', token ∈ urlEntities c := by
  simp only [← mem_urlTokens]
  have hsorted : ∀ title body links,
      (urlTokens (deriveEntities title body links)).Pairwise (· < ·) := by
    intro title body links
    unfold urlTokens deriveEntities sortDedup
    exact (Finset.sortedLT_sort _).pairwise.filter _
  refine ⟨fun h token => by rw [h], fun h => ?_⟩
  exact (hsorted title body links).eq_of_mem_iff (hsorted title' body' links') h

theorem mem_words_between {w : List Char} (hne : v ≠ []) (hv : ∀ c ∈ v, isWhitespace c = false)
    (hbefore : ∀ c ∈ before.getLast?, isWhitespace c = true)
    (hafter : ∀ c ∈ after.head?, isWhitespace c = true) :
    w ∈ splitWhitespace (before ++ v ++ after) ↔
      w = v ∨ w ∈ splitWhitespace (before ++ after) := by
  have hcut : ∀ s : List Char,
      splitWhitespace (before ++ s) = splitWhitespace before ++ splitWhitespace s := by
    intro s
    rcases List.eq_nil_or_concat' before with rfl | ⟨front, c, rfl⟩
    · rfl
    · have hc : isWhitespace c = true := hbefore c (by simp)
      have hfront : words isWhitespace (front ++ c :: s) =
          words isWhitespace front ++ words isWhitespace s := words_cut hc
      have hself : words isWhitespace (front ++ [c]) =
          words isWhitespace front ++ words isWhitespace [] := words_cut hc
      simp only [splitWhitespace_eq, List.append_assoc, List.singleton_append, hfront, hself]
      rfl
  have hword : splitWhitespace (v ++ after) = v :: splitWhitespace after := words_word hne hv hafter
  rw [List.append_assoc, hcut, hcut, hword]
  simp only [List.mem_append, List.mem_cons]
  tauto

def isUrlOpener (c : Char) : Bool := "([\x7b<\"'".toList.contains c

theorem isWhitespace_of_opener {c : Char} (h : isUrlOpener c = true) : isWhitespace c = false := by
  have hmarks : ("([\x7b<\"'".toList.all fun c => !isWhitespace c) = true := by decide +kernel
  simpa using List.all_eq_true.mp hmarks c (List.contains_iff_mem.mp h)

theorem isWhitespace_of_trailer {c : Char} (h : isUrlTrailer c = true) :
    isWhitespace c = false := by
  have hmarks : (".,;:)]\x7d\"\'>!?".toList.all fun c => !isWhitespace c) = true := by
    decide +kernel
  simpa using List.all_eq_true.mp hmarks c (List.contains_iff_mem.mp h)

theorem trim_wrapped (hne : u ≠ []) (hlast : ∀ c ∈ u.getLast?, isUrlTrailer c = false)
    (htrail : ∀ c ∈ trail, isUrlTrailer c = true) :
    trimEndMatches isUrlTrailer (lead ++ u ++ trail) = lead ++ u := by
  refine dropWhile_trail htrail ?_
  rw [List.getLast?_append_of_ne_nil _ hne]
  exact hlast

theorem normalizeUrl_opened (hne : lead ≠ []) (hlead : ∀ c ∈ lead, isUrlOpener c = true) :
    normalizeUrl (lead ++ u) = none := by
  refine Option.eq_none_iff_forall_ne_some.mpr fun q hq => ?_
  obtain ⟨scheme, rest, heq, hscheme, _⟩ := normalizeUrl_eq_some.mp hq
  obtain ⟨c, front, rfl⟩ := List.exists_cons_of_ne_nil hne
  cases scheme with
  | nil => rcases hscheme with h | h <;> simp [asciiLower] at h
  | cons x scheme =>
      obtain ⟨rfl, _⟩ := List.cons.inj heq
      have hletter : c.toLower = 'h' := by
        rcases hscheme with h | h
        · simpa [asciiLower] using congrArg List.head? h
        · simpa [asciiLower] using congrArg List.head? h
      have hmarks : ("([\x7b<\"'".toList.all fun x => x.toLower != 'h') = true := by decide +kernel
      have hin : c ∈ "([\x7b<\"'".toList := List.contains_iff_mem.mp (hlead c List.mem_cons_self)
      have hmark := List.all_eq_true.mp hmarks c hin
      rw [hletter] at hmark
      cases hmark

theorem urlEntities_subset_iff {list : List (List Char)} (hu : normalizeUrl u ≠ none) :
    (∀ token ∈ urlEntities u, ∃ c ∈ list, token ∈ urlEntities c) ↔
      ∃ c ∈ list, normalizeUrl c = normalizeUrl u := by
  obtain ⟨⟨url, domain⟩, hform⟩ := Option.ne_none_iff_exists'.mp hu
  constructor
  · intro h
    obtain ⟨c, hc, hin⟩ := h ("url:" ++ String.ofList url) (by simp [urlEntities, hform])
    refine ⟨c, hc, ?_⟩
    unfold urlEntities at hin
    split at hin
    · cases hin
    · rename_i url' domain' hform'
      simp only [List.mem_cons, List.not_mem_nil, or_false] at hin
      have hsame : url = url' := by
        rcases hin with hin | hin
        · simpa using congrArg String.toList hin
        · have hchars := congrArg String.toList hin
          simp at hchars
      -- a normal form tells its domain
      have hself := normalizeUrl_idempotent hform
      rw [hsame, normalizeUrl_idempotent hform'] at hself
      rw [hform', hform, hsame]
      exact hself
  · rintro ⟨c, hc, hsame⟩ token htoken
    refine ⟨c, hc, ?_⟩
    unfold urlEntities at htoken ⊢
    rwa [hsame]

theorem exists_candidate {p : List Char → Prop} : (∃ c ∈ candidates title body links, p c) ↔
    (∃ c ∈ links.map String.toList, p c) ∨
      (∃ c ∈ (splitWhitespace title.toList).map (trimEndMatches isUrlTrailer), p c) ∨
        ∃ text ∈ body.toList,
          ∃ c ∈ (splitWhitespace text.toList).map (trimEndMatches isUrlTrailer), p c := by
  unfold candidates
  simp only [List.flatMap_cons, List.mem_append, or_and_right, exists_or, List.mem_flatMap]
  refine or_congr_right (or_congr_right ?_)
  constructor
  · rintro ⟨c, ⟨text, htext, hc⟩, hp⟩
    exact ⟨text, htext, c, hc, hp⟩
  · rintro ⟨text, htext, c, hc, hp⟩
    exact ⟨c, ⟨text, htext, hc⟩, hp⟩

/-- A candidate of a text is the trimmed word, or a candidate of what stands around it. -/
theorem exists_trimmed_word {p : List Char → Prop} (hne : u ≠ [])
    (hspace : ∀ c ∈ lead ++ u ++ trail, isWhitespace c = false)
    (hlast : ∀ c ∈ u.getLast?, isUrlTrailer c = false)
    (htrail : ∀ c ∈ trail, isUrlTrailer c = true)
    (hbefore : ∀ c ∈ before.getLast?, isWhitespace c = true)
    (hafter : ∀ c ∈ after.head?, isWhitespace c = true) :
    (∃ c ∈ (splitWhitespace (before ++ (lead ++ u ++ trail) ++ after)).map
        (trimEndMatches isUrlTrailer), p c) ↔
      p (lead ++ u) ∨
        ∃ c ∈ (splitWhitespace (before ++ after)).map (trimEndMatches isUrlTrailer), p c := by
  have hword : lead ++ u ++ trail ≠ [] := by simp [hne]
  simp only [List.mem_map, exists_exists_and_eq_and,
    mem_words_between hword hspace hbefore hafter]
  constructor
  · rintro ⟨w, rfl | hw, hp⟩
    · rw [trim_wrapped hne hlast htrail] at hp
      exact Or.inl hp
    · exact Or.inr ⟨w, hw, hp⟩
  · rintro (hp | ⟨w, hw, hp⟩)
    · refine ⟨_, Or.inl rfl, ?_⟩
      rw [trim_wrapped hne hlast htrail]
      exact hp
    · exact ⟨w, Or.inr hw, hp⟩

theorem added_iff {list : List (List Char)} (hu : normalizeUrl u ≠ none)
    (hlead : ∀ c ∈ lead, isUrlOpener c = true) :
    (∀ token, (token ∈ urlEntities (lead ++ u) ∨ ∃ c ∈ list, token ∈ urlEntities c) ↔
        (token ∈ urlEntities u ∨ ∃ c ∈ list, token ∈ urlEntities c)) ↔
      lead = [] ∨ ∃ c ∈ list, normalizeUrl c = normalizeUrl u := by
  by_cases hopen : lead = []
  · simp [hopen]
  · have hnone : urlEntities (lead ++ u) = [] := by
      unfold urlEntities
      rw [normalizeUrl_opened hopen hlead]
    rw [← urlEntities_subset_iff hu, hnone]
    simp [hopen]

/-- What a wrapped URL in the title of an item or in its body adds is what it adds as a link,
exactly if nothing opens before it or if the item has the same URL elsewhere. -/
theorem wrapped_url_iff (hu : normalizeUrl u ≠ none) (hspace : ∀ c ∈ u, isWhitespace c = false)
    (hlast : ∀ c ∈ u.getLast?, isUrlTrailer c = false)
    (hlead : ∀ c ∈ lead, isUrlOpener c = true) (htrail : ∀ c ∈ trail, isUrlTrailer c = true)
    (hbefore : ∀ c ∈ before.getLast?, isWhitespace c = true)
    (hafter : ∀ c ∈ after.head?, isWhitespace c = true) :
    (urlTokens (deriveEntities (String.ofList (before ++ (lead ++ u ++ trail) ++ after)) body links) =
        urlTokens (deriveEntities (String.ofList (before ++ after)) body
          (String.ofList u :: links)) ↔
      lead = [] ∨ ∃ c ∈ candidates (String.ofList (before ++ after)) body links,
        normalizeUrl c = normalizeUrl u) ∧
    (urlTokens (deriveEntities title
          (some (String.ofList (before ++ (lead ++ u ++ trail) ++ after))) links) =
        urlTokens (deriveEntities title (some (String.ofList (before ++ after)))
          (String.ofList u :: links)) ↔
      lead = [] ∨ ∃ c ∈ candidates title (some (String.ofList (before ++ after))) links,
        normalizeUrl c = normalizeUrl u) ∧
    ∀ raw url domain, normalizeUrl raw = some (url, domain) →
      normalizeUrl url = some (url, domain) := by
  have hne : u ≠ [] := by
    rintro rfl
    exact hu rfl
  have hword : ∀ c ∈ lead ++ u ++ trail, isWhitespace c = false := by
    intro c hc
    rw [List.mem_append, List.mem_append] at hc
    rcases hc with (hc | hc) | hc
    · exact isWhitespace_of_opener (hlead c hc)
    · exact hspace c hc
    · exact isWhitespace_of_trailer (htrail c hc)
  have hswap : ∀ a b c d : Prop, (a ∨ b ∨ c ∨ d) ↔ c ∨ a ∨ b ∨ d := by
    intro a b c d
    tauto
  have hlink : ∀ p : List Char → Prop, (∃ c ∈ (String.ofList u :: links).map String.toList, p c) ↔
      p u ∨ ∃ c ∈ links.map String.toList, p c := by
    intro p
    simp
  have hwords : ∀ p : List Char → Prop, _ := fun p =>
    @exists_trimmed_word u lead trail before after p hne hword hlast htrail hbefore hafter
  refine ⟨?_, ?_, fun _ _ _ => normalizeUrl_idempotent⟩
  · rw [urlTokens_congr, ← added_iff hu hlead]
    refine forall_congr' fun token => iff_congr ?_ ?_
    · rw [exists_candidate, exists_candidate, String.toList_ofList, hwords, String.toList_ofList,
        or_assoc, or_left_comm]
    · rw [exists_candidate, exists_candidate, hlink, or_assoc]
  · rw [urlTokens_congr, ← added_iff hu hlead]
    refine forall_congr' fun token => iff_congr ?_ ?_
    · simp only [exists_candidate, Option.toList_some, List.mem_singleton, exists_eq_left,
        String.toList_ofList, hwords]
      exact hswap _ _ _ _
    · rw [exists_candidate, exists_candidate, hlink, or_assoc]

/-- A bracket before a URL hides it. -/
theorem wrapped_url_missed : ¬ ∀ u lead trail : List Char, normalizeUrl u ≠ none →
    (∀ c ∈ u, isWhitespace c = false) → (∀ c ∈ u.getLast?, isUrlTrailer c = false) →
      (∀ c ∈ u, c ∉ "()[]\x7b\x7d<>\"'".toList) →
      (∀ c ∈ lead, isUrlOpener c = true) → (∀ c ∈ trail, isUrlTrailer c = true) →
        urlTokens (deriveEntities (String.ofList (lead ++ u ++ trail)) none []) =
          urlTokens (deriveEntities "" none [String.ofList u]) := by
  intro h
  have hsame := h "https://a.io/x".toList ['('] ").".toList (by decide +kernel)
    (by simp [isWhitespace]) (by simp [isUrlTrailer]) (by simp) (by simp [isUrlOpener])
    (by simp [isUrlTrailer])
  have hlink : "domain:a.io" ∈
      urlTokens (deriveEntities "" none [String.ofList "https://a.io/x".toList]) :=
    mem_urlTokens.mpr (by decide +kernel)
  rw [← hsame, mem_urlTokens] at hlink
  revert hlink
  decide +kernel

/-- Without a bracket before it a URL in a sentence is the URL of the link. -/
theorem wrapped_url_iff_sentence :
    urlTokens (deriveEntities (String.ofList ("see ".toList ++ ([] ++ "https://a.io/x".toList ++
        ").".toList) ++ " now".toList)) none []) =
      urlTokens (deriveEntities (String.ofList ("see ".toList ++ " now".toList)) none
        [String.ofList "https://a.io/x".toList]) :=
  (@wrapped_url_iff "" none [] "https://a.io/x".toList [] ").".toList "see ".toList " now".toList
    (by decide +kernel) (by simp [isWhitespace]) (by simp [isUrlTrailer]) (by simp)
    (by simp [isUrlTrailer]) (by simp [isWhitespace]) (by simp [isWhitespace])).1.mpr (Or.inl rfl)

end Candidates

end Bulletin
