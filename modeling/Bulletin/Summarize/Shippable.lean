import Bulletin.Common.Marks
import Bulletin.Common.Refang
import Bulletin.Summarize.Budget
import Bulletin.Summarize.HouseVoice
import Bulletin.Summarize.Prose

/-! # The gate after the rewriting

The links of a summary are broken before the gate looks at it. The brackets lengthen its texts,
split its numbers, and do not reach a link that only the joined runs make.
-/

namespace Bulletin

open Text

/-! ## Numbers -/

section Numbers

variable {m : Marked}

theorem tokenizeNumeric_bracketed (hmarks : ∀ p ∈ m, p.2 = true → p.1 = '.' ∨ p.1 = ':') :
    tokenizeNumeric (Marked.bracketed m) = tokenizeNumeric (Marked.severed m) := by
  have hbefore : ∀ front, tokenizeNumeric (front ++ Marked.bracketed m) =
      tokenizeNumeric (front ++ Marked.severed m) := by
    induction m with
    | nil => exact fun _ => rfl
    | cons p m ih =>
        obtain ⟨c, broken⟩ := p
        have hrest := ih fun p hp => hmarks p (List.mem_cons_of_mem _ hp)
        intro front
        rw [Marked.bracketed_cons]
        cases broken with
        | false =>
            have hnext := hrest (front ++ [c])
            rw [List.append_assoc, List.append_assoc] at hnext
            exact hnext
        | true =>
            have hnone : tokenizeNumeric (c :: ']' :: Marked.bracketed m) =
                tokenizeNumeric (Marked.bracketed m) := by
              have hsplit : tokenizeNumeric ([c] ++ ']' :: Marked.bracketed m) =
                  tokenizeNumeric [c] ++ tokenizeNumeric (Marked.bracketed m) :=
                tokenizeNumeric_cut (by decide)
              have hmark : tokenizeNumeric [c] = [] := by
                rcases hmarks (c, true) List.mem_cons_self rfl with hdot | hcolon
                · rw [show c = '.' from hdot]
                  decide
                · rw [show c = ':' from hcolon]
                  decide
              rwa [hmark, List.nil_append] at hsplit
            show tokenizeNumeric (front ++ '[' :: c :: ']' :: Marked.bracketed m) =
              tokenizeNumeric (front ++ ' ' :: Marked.severed m)
            rw [tokenizeNumeric_cut (by decide), tokenizeNumeric_cut (by decide), hnone]
            exact congrArg _ (hrest [])
  exact hbefore []

end Numbers

/-! ## Banned words -/

def sameSigma (c : Char) : Char := if c = 'ς' then 'σ' else c

/-- A text is lowered character by character, up to the form a sigma has at the end of a word. -/
structure UnicodeTables.LowersEach (unicode : UnicodeTables) : Prop where
  lower : ∃ lower : Char → List Char, ∀ s,
    (unicode.toLowercase s).map sameSigma = s.flatMap lower
  sigma : unicode.isAlphanumeric 'ς' = unicode.isAlphanumeric 'σ'

/-- The characters that the rewriting puts around a mark, and marks. -/
def isBracketing (c : Char) : Bool := "[.:]".toList.contains c

section Words

variable {unicode : UnicodeTables} {word s t : List Char} {c : Char} {m : Marked}

theorem isEdge_bracketing (h : isBracketing c = true) : isEdge unicode (some c) = true := by
  have hmarks : ∀ x ∈ "[.:]".toList, x.toNat < 128 ∧ x.isAlphanum = false := by
    intro x hx
    rcases (by simpa using hx : x = '[' ∨ x = '.' ∨ x = ':' ∨ x = ']') with rfl | rfl | rfl | rfl
    all_goals decide
  obtain ⟨hascii, hmark⟩ := hmarks c (by simpa [isBracketing] using h)
  simp [isEdge, unicode.ascii c hascii, hmark]

/-- A word does not reach over a character that is none of its own and no letter or digit. -/
theorem hasWord_cut (hne : word ≠ []) (hc : isBracketing c = true)
    (hword : ∀ x ∈ word, isBracketing x = false) :
    HasWord unicode (s ++ c :: t) word ↔ HasWord unicode s word ∨ HasWord unicode t word := by
  have hedge : isEdge unicode (some c) = true := isEdge_bracketing hc
  have hout : c ∉ word := fun hin => by simp [hword c hin] at hc
  constructor
  · rintro ⟨a, b, heq, hbefore, hbehind⟩
    rcases List.append_eq_append_iff.mp heq with ⟨x, rfl, hx⟩ | ⟨x, rfl, hx⟩
    · cases x with
      | nil =>
          obtain ⟨first, rest, rfl⟩ := List.exists_cons_of_ne_nil hne
          exact absurd ((List.cons.inj hx).1 ▸ List.mem_cons_self) hout
      | cons y x =>
          obtain ⟨rfl, rfl⟩ := List.cons.inj hx
          refine Or.inr ⟨x, b, rfl, ?_, hbehind⟩
          rcases List.eq_nil_or_concat x with rfl | ⟨rest, last, rfl⟩
          · rfl
          · rw [List.concat_eq_append, ← List.cons_append, ← List.append_assoc,
              List.getLast?_concat] at hbefore
            rwa [List.concat_eq_append, List.getLast?_concat]
    · rcases List.append_eq_append_iff.mp hx with ⟨y, rfl, hy⟩ | ⟨y, rfl, hy⟩
      · refine Or.inl ⟨a, y, by simp, hbefore, ?_⟩
        cases y with
        | nil => rfl
        | cons first y =>
            rw [hy] at hbehind
            exact hbehind
      · cases y with
        | nil => exact Or.inl ⟨a, [], by simp, hbefore, rfl⟩
        | cons first y =>
            exact absurd (List.mem_append_right _ ((List.cons.inj hy).1 ▸ List.mem_cons_self)) hout
  · rintro (⟨a, b, rfl, hbefore, hbehind⟩ | ⟨a, b, rfl, hbefore, hbehind⟩)
    · refine ⟨a, b ++ c :: t, by simp, hbefore, ?_⟩
      cases b with
      | nil => exact hedge
      | cons x b => exact hbehind
    · refine ⟨s ++ c :: a, b, by simp, ?_, hbehind⟩
      rcases List.eq_nil_or_concat a with rfl | ⟨rest, x, rfl⟩
      · simpa using hedge
      · rw [List.concat_eq_append, List.getLast?_concat] at hbefore
        rwa [List.concat_eq_append, ← List.cons_append, ← List.append_assoc, List.getLast?_concat]

theorem not_hasWord_nil (hne : word ≠ []) : ¬ HasWord unicode [] word := by
  rintro ⟨a, b, heq, _, _⟩
  have hempty := (List.append_eq_nil_iff.mp heq.symm).2
  exact hne (List.append_eq_nil_iff.mp hempty).1

theorem hasWord_sameSigma (hsigma : unicode.isAlphanumeric 'ς' = unicode.isAlphanumeric 'σ')
    (hword : ∀ x ∈ word, x ≠ 'ς' ∧ x ≠ 'σ') :
    HasWord unicode (s.map sameSigma) word ↔ HasWord unicode s word := by
  have hedge : ∀ o : Option Char, isEdge unicode (o.map sameSigma) = isEdge unicode o := by
    intro o
    cases o with
    | none => rfl
    | some c =>
        by_cases hc : c = 'ς'
        · simp [isEdge, sameSigma, hc, hsigma]
        · simp [isEdge, sameSigma, hc]
  have hfix : word.map sameSigma = word := by
    conv_rhs => rw [← List.map_id word]
    exact List.map_congr_left fun x hx => if_neg (hword x hx).1
  constructor
  · rintro ⟨a, b, heq, hbefore, hbehind⟩
    obtain ⟨a', rest, rfl, rfl, hrest⟩ := List.map_eq_append_iff.mp heq
    obtain ⟨w, b', rfl, hw, rfl⟩ := List.map_eq_append_iff.mp hrest
    obtain rfl : w = word := by
      -- no sigma came from the other form
      have hnone : ∀ x ∈ w, x ≠ 'ς' := by
        rintro x hx rfl
        have hin : sameSigma 'ς' ∈ word := by
          rw [← hw]
          exact List.mem_map_of_mem hx
        exact (hword _ hin).2 rfl
      rw [← hw]
      conv_lhs => rw [← List.map_id w]
      exact List.map_congr_left fun x hx => (if_neg (hnone x hx)).symm
    refine ⟨a', b', rfl, ?_, ?_⟩
    · rwa [List.getLast?_map, hedge] at hbefore
    · rwa [List.head?_map, hedge] at hbehind
  · rintro ⟨a, b, rfl, hbefore, hbehind⟩
    refine ⟨a.map sameSigma, b.map sameSigma, by simp [hfix], ?_, ?_⟩
    · rwa [List.getLast?_map, hedge]
    · rwa [List.head?_map, hedge]

theorem bannedWords_plain : ∀ word ∈ bannedWords, word ≠ [] ∧
    (∀ x ∈ word, isBracketing x = false) ∧ ∀ x ∈ word, x ≠ 'ς' ∧ x ≠ 'σ' := by
  have hcheck : bannedWords.all (fun word => word != [] &&
      word.all fun x => !isBracketing x && x != 'ς' && x != 'σ') = true := by decide +kernel
  intro word hword
  have hplain := List.all_eq_true.mp hcheck word hword
  simp only [Bool.and_eq_true, List.all_eq_true, bne_iff_ne, Bool.not_eq_true'] at hplain
  exact ⟨hplain.1, fun x hx => (hplain.2 x hx).1.1, fun x hx =>
    ⟨(hplain.2 x hx).1.2, (hplain.2 x hx).2⟩⟩

theorem bannedWordIn_bracketed (hlower : unicode.LowersEach)
    (hmarks : ∀ p ∈ m, p.2 = true → p.1 = '.' ∨ p.1 = ':') :
    bannedWordIn unicode (Marked.bracketed m) = none ↔
      bannedWordIn unicode (Marked.plain m) = none := by
  obtain ⟨⟨lower, hlowers⟩, hsigma⟩ := hlower
  have hmark : ∀ c, isBracketing c = true → lower c = [c] := by
    intro c hc
    have hascii : ∀ x ∈ "[.:]".toList, x.toNat < 128 ∧ sameSigma x.toLower = x := by
      simp [sameSigma]
    obtain ⟨hsmall, hsame⟩ := hascii c (by simpa [isBracketing] using hc)
    have hsingle := hlowers [c]
    rw [unicode.ascii_lower [c] (by simpa using hsmall)] at hsingle
    simpa [asciiLower, hsame] using hsingle.symm
  have hexclaim : '!' ∈ Marked.bracketed m ↔ '!' ∈ Marked.plain m := by
    unfold Marked.bracketed Marked.plain
    rw [List.mem_flatMap, List.mem_map]
    refine exists_congr fun p => and_congr_right fun _ => ?_
    split <;> simp [eq_comm]
  have hword : ∀ word ∈ bannedWords, (HasWord unicode ((Marked.bracketed m).flatMap lower) word ↔
      HasWord unicode ((Marked.plain m).flatMap lower) word) := by
    intro word hbanned
    obtain ⟨hne, hfree, _⟩ := bannedWords_plain word hbanned
    have hbefore : ∀ front, HasWord unicode (front ++ (Marked.bracketed m).flatMap lower) word ↔
        HasWord unicode (front ++ (Marked.plain m).flatMap lower) word := by
      clear hexclaim
      induction m with
      | nil => exact fun _ => Iff.rfl
      | cons p m ih =>
          obtain ⟨c, broken⟩ := p
          have hrest := ih fun p hp => hmarks p (List.mem_cons_of_mem _ hp)
          intro front
          rw [Marked.bracketed_cons]
          cases broken with
          | false =>
              have hnext := hrest (front ++ lower c)
              rw [List.append_assoc, List.append_assoc] at hnext
              exact hnext
          | true =>
              have hc : isBracketing c = true := by
                rcases hmarks (c, true) List.mem_cons_self rfl with hdot | hcolon
                · rw [show c = '.' from hdot]
                  decide
                · rw [show c = ':' from hcolon]
                  decide
              have hopen : isBracketing '[' = true := by decide
              have hclose : isBracketing ']' = true := by decide
              have hback := hrest []
              rw [List.nil_append, List.nil_append] at hback
              have hinert : (['[', c, ']'] ++ Marked.bracketed m).flatMap lower =
                  '[' :: ([] ++ c :: ([] ++ ']' :: (Marked.bracketed m).flatMap lower)) := by
                simp [hmark _ hopen, hmark _ hc, hmark _ hclose]
              have hplain : (Marked.plain ((c, true) :: m)).flatMap lower =
                  c :: (Marked.plain m).flatMap lower := by
                simp [Marked.plain, hmark _ hc]
              rw [if_pos rfl, hinert, hplain, hasWord_cut hne hopen hfree,
                hasWord_cut hne hc hfree, hasWord_cut hne hclose hfree,
                hasWord_cut hne hc hfree, hback]
              simp [not_hasWord_nil hne]
    exact hbefore []
  rw [bannedWordIn_eq_none, bannedWordIn_eq_none, hexclaim]
  refine and_congr_right fun _ => forall₂_congr fun word hbanned => not_congr ?_
  have hnosigma := (bannedWords_plain word hbanned).2.2
  rw [← hasWord_sameSigma hsigma hnosigma, hlowers, hword word hbanned, ← hlowers,
    hasWord_sameSigma hsigma hnosigma]

end Words

/-! ## Summaries text by text -/

def TldrRun.mapSurface (f : List Char → List Char) : TldrRun → TldrRun
  | .ref e s => .ref e (String.ofList (f s.toList))
  | .text t => .text (String.ofList (f t.toList))

/-- A summary with its visible texts rewritten one by one. -/
def ClusterSummary.mapProse (f : List Char → List Char) (summary : ClusterSummary) :
    ClusterSummary :=
  ({ summary with
      headline := String.ofList (f summary.headline.toList)
      tldr := summary.tldr.map (TldrRun.mapSurface f) } : ClusterSummary).rebuildTldrText

def ClusterSummary.surfaces (summary : ClusterSummary) : List (List Char) :=
  summary.tldr.map fun run => run.surface.toList

section Prose

variable {unicode : UnicodeTables} {summary : ClusterSummary} {run : TldrRun} {facts : Facts}
  {f : List Char → List Char} {left left' : List Char} {texts : List (List Char)}

structure KeepsEnds (f : List Char → List Char) : Prop where
  nil : f [] = []
  space : f [' '] = [' ']
  head : ∀ s, (f s).head? = s.head?
  last : ∀ s, (f s).getLast? = s.getLast?

theorem keepsEnds_inertText : KeepsEnds (inertText unicode) where
  nil := rfl
  space := by simp [inertText, mapWords, isWhitespace]
  head s := by
    obtain ⟨m, hm⟩ := @exists_views unicode s
    exact hm.ends.1
  last s := by
    obtain ⟨m, hm⟩ := @exists_views unicode s
    exact hm.ends.2.1

theorem keepsEnds_severText : KeepsEnds (severText unicode) where
  nil := rfl
  space := by simp [severText, mapWords, isWhitespace]
  head s := by
    obtain ⟨m, hm⟩ := @exists_views unicode s
    exact hm.ends.2.2.1
  last s := by
    obtain ⟨m, hm⟩ := @exists_views unicode s
    exact hm.ends.2.2.2

theorem flatten_spaced_map (hf : KeepsEnds f) (hlast : left'.getLast? = left.getLast?) :
    (spaced left' (texts.map f)).flatten = (spaced left texts).flatMap f := by
  induction texts generalizing left left' with
  | nil => rfl
  | cons s rest ih =>
      have hjoint : joint left' (f s) = f (joint left s) := by
        rw [joint_congr hlast (hf.head s)]
        unfold joint
        split
        · exact hf.space.symm
        · exact hf.nil.symm
      have hempty : f s = [] ↔ s = [] := by
        rw [← List.head?_eq_none_iff, hf.head, List.head?_eq_none_iff]
      have hnext : (if f s = [] then left' else f s).getLast? =
          (if s = [] then left else s).getLast? := by
        by_cases hs : s = []
        · rw [if_pos (hempty.mpr hs), if_pos hs, hlast]
        · rw [if_neg fun h => hs (hempty.mp h), if_neg hs, hf.last]
      rw [List.map_cons, spaced, spaced, List.flatten_cons, List.flatten_cons, ih hnext,
        List.flatMap_cons, List.flatMap_cons, hjoint]

theorem surface_mapSurface : (run.mapSurface f).surface.toList = f run.surface.toList := by
  cases run <;> exact String.toList_ofList

theorem tldrText_mapProse (hf : KeepsEnds f) : (summary.mapProse f).tldrText.toList =
    (spaced [] summary.surfaces).flatMap f := by
  unfold ClusterSummary.mapProse ClusterSummary.surfaces
  rw [toList_rebuildTldrText, ← flatten_spaced_map hf rfl, List.map_map, List.map_map]
  refine congrArg (fun texts => (spaced [] texts).flatten) ?_
  exact List.map_congr_left fun run _ => surface_mapSurface

theorem headline_mapProse : (summary.mapProse f).headline.toList = f summary.headline.toList :=
  String.toList_ofList

theorem entities_mapProse : (summary.mapProse f).tldr.findSome? (ungroundedEntity facts) =
    summary.tldr.findSome? (ungroundedEntity facts) := by
  show (summary.tldr.map (TldrRun.mapSurface f)).findSome? (ungroundedEntity facts) = _
  rw [List.findSome?_map]
  refine congrArg (fun g => List.findSome? g summary.tldr) (funext fun run => ?_)
  cases run <;> rfl

theorem defangText_spec {s : String} : defangText unicode s =
    if Trimmable unicode s.toList then some (String.ofList (inertText unicode s.toList))
    else none := by
  unfold defangText
  rw [defang_spec]
  split <;> rfl

theorem defangProse_spec : summary.defangProse unicode =
    if ∀ text ∈ summary.prose, Trimmable unicode text.toList then
      some (summary.mapProse (inertText unicode)) else none := by
  have hrun : ∀ run : TldrRun, Trimmable unicode run.surface.toList →
      run.defang unicode = some (run.mapSurface (inertText unicode)) := by
    intro run hrun
    cases run with
    | ref e s => exact congrArg (Option.map (TldrRun.ref e)) (defangText_spec.trans (if_pos hrun))
    | text t => exact congrArg (Option.map TldrRun.text) (defangText_spec.trans (if_pos hrun))
  by_cases hall : ∀ text ∈ summary.prose, Trimmable unicode text.toList
  · rw [if_pos hall]
    obtain ⟨hheadline, hsurfaces⟩ := List.forall_mem_cons.mp hall
    have hruns : summary.tldr.mapM (TldrRun.defang unicode) =
        some (summary.tldr.map (TldrRun.mapSurface (inertText unicode))) := by
      have htrim : ∀ run ∈ summary.tldr, Trimmable unicode run.surface.toList := fun run hrun =>
        hsurfaces _ (List.mem_map_of_mem hrun)
      clear hall hsurfaces
      generalize summary.tldr = runs at htrim ⊢
      induction runs with
      | nil => rfl
      | cons run runs ih =>
          rw [List.mapM_cons, hrun run (htrim run List.mem_cons_self),
            ih fun r hr => htrim r (List.mem_cons_of_mem run hr)]
          rfl
    unfold ClusterSummary.defangProse
    rw [defangText_spec, if_pos hheadline, Option.bind_some, hruns]
    rfl
  · rw [if_neg hall, ← Option.not_isSome_iff_eq_none, isSome_defangProse]
    exact hall

/-! ## The views of what is checked -/

theorem brokenMarks_spaced : ((spaced left texts).map (brokenMarks unicode)).sum =
    (texts.map (brokenMarks unicode)).sum := by
  have hjoint : ∀ l r : List Char, brokenMarks unicode (joint l r) = 0 := by
    intro l r
    have hwords : splitWhitespace (joint l r) = [] := by
      rw [splitWhitespace_eq_nil]
      unfold joint
      split <;> simp [isWhitespace]
    unfold brokenMarks
    rw [hwords]
    rfl
  induction texts generalizing left with
  | nil => rfl
  | cons s rest ih => simp [spaced, hjoint, ih]

theorem exists_views_output : ∃ m, Views m summary.rebuildTldrText.output
    (summary.mapProse (inertText unicode)).output (summary.mapProse (severText unicode)).output
      (brokenMarks unicode summary.headline.toList +
        (summary.surfaces.map (brokenMarks unicode)).sum) := by
  obtain ⟨m, hheadline⟩ := @exists_views unicode summary.headline.toList
  obtain ⟨m', hflat⟩ := @exists_views_flatMap unicode (spaced [] summary.surfaces)
  have hviews := hheadline.append ((views_unmarked (s := [' '])).append hflat)
  refine ⟨m ++ (Marked.unmarked [' '] ++ m'), ?_⟩
  unfold ClusterSummary.output
  rw [headline_mapProse, headline_mapProse, tldrText_mapProse keepsEnds_inertText,
    tldrText_mapProse keepsEnds_severText, toList_rebuildTldrText]
  rwa [brokenMarks_spaced, Nat.zero_add] at hviews

theorem firstLinkableToken_mapProse :
    firstLinkableToken unicode (summary.mapProse (inertText unicode)).output = none ↔
      ∀ stretch ∈ stretches isWhitespace (spaced [] summary.surfaces), 2 ≤ stretch.length →
        isClickable unicode (stretch.flatMap (inertWord unicode)) = false := by
  have hheadline := @firstLinkableToken_inertText unicode summary.headline.toList
  have hflat : ((spaced [] summary.surfaces).flatMap (inertText unicode)).splitOnP isWhitespace =
      (stretches isWhitespace (spaced [] summary.surfaces)).map fun stretch =>
        stretch.flatMap (inertWord unicode) :=
    splitOnP_flatMap fun s => @splitOnP_inertText unicode s
  have hnil : isClickable unicode [] = false := rfl
  rw [firstLinkableToken_eq_none] at hheadline ⊢
  unfold ClusterSummary.output
  rw [headline_mapProse, tldrText_mapProse keepsEnds_inertText]
  have hwords : splitWhitespace (inertText unicode summary.headline.toList ++
      ' ' :: (spaced [] summary.surfaces).flatMap (inertText unicode)) =
        splitWhitespace (inertText unicode summary.headline.toList) ++
          splitWhitespace ((spaced [] summary.surfaces).flatMap (inertText unicode)) :=
    words_cut (by decide)
  rw [hwords, List.forall_mem_append, and_iff_right hheadline, splitWhitespace_eq, words, hflat]
  constructor
  · intro h stretch hstretch _
    by_cases hempty : stretch.flatMap (inertWord unicode) = []
    · rw [hempty]
      exact hnil
    · exact h _ (List.mem_filter.mpr ⟨List.mem_map_of_mem hstretch, by simpa using hempty⟩)
  · intro h word hword
    obtain ⟨stretch, hstretch, rfl⟩ := List.mem_map.mp (List.mem_filter.mp hword).1
    match stretch with
    | [] => exact hnil
    | [part] =>
        rw [List.flatMap_singleton]
        exact isClickable_inertWord
    | first :: second :: parts => exact h _ hstretch (by simp)

end Prose

/-! ## What the rewriting ships -/

section Ships

variable {unicode : UnicodeTables} {summary : ClusterSummary} {facts : Facts} {source : List Char}

theorem faithful_but_links : (faithful unicode summary facts source = .ok () ∨
    ∃ u, faithful unicode summary facts source = .error (.urlInProse u)) ↔
      (summary.headline.length ≤ headlineMax ∧ summary.tldrText.length ≤ tldrMax) ∧
        summary.tldr.findSome? (ungroundedEntity facts) = none ∧
        firstUngroundedNumber unicode summary.output (groundingText facts source) = none ∧
        bannedWordIn unicode summary.output = none := by
  unfold faithful
  split
  · rename_i hlong
    simp only [reduceCtorEq, Except.error.injEq, exists_false, or_false, false_iff]
    omega
  · rename_i hshort
    have hfits : summary.headline.length ≤ headlineMax ∧ summary.tldrText.length ≤ tldrMax := by
      omega
    cases summary.tldr.findSome? (ungroundedEntity facts) with
    | some entity => simp
    | none =>
        cases firstUngroundedNumber unicode summary.output (groundingText facts source) with
        | some tok => simp
        | none =>
            cases bannedWordIn unicode summary.output with
            | some word => simp
            | none =>
                cases firstLinkableToken unicode summary.output with
                | some tok => simp [hfits]
                | none => simp [hfits]

/-- A summary without another objection is accepted after the rewriting, exactly if no text stops
the rewriting, the brackets fit into the budgets, the numbers left of the marks are grounded, and no
parts of several runs make a link once each is rewritten. -/
theorem defang_prose_ships_iff (hlower : unicode.LowersEach)
    (h : faithful unicode summary.rebuildTldrText facts source = .ok () ∨
      ∃ u, faithful unicode summary.rebuildTldrText facts source = .error (.urlInProse u)) :
    (∃ out, summary.rebuildTldrText.defangProse unicode = some out ∧
      faithful unicode out facts source = .ok ()) ↔
      (∀ text ∈ summary.prose, Trimmable unicode text.toList) ∧
      (summary.headline.length + 2 * brokenMarks unicode summary.headline.toList ≤ headlineMax ∧
        summary.rebuildTldrText.tldrText.length +
          2 * (summary.surfaces.map (brokenMarks unicode)).sum ≤ tldrMax) ∧
      (∀ t ∈ tokenizeNumeric (summary.mapProse (severText unicode)).output,
        t ∈ tokenizeNumeric (groundingText facts source)) ∧
      ∀ stretch ∈ stretches isWhitespace (spaced [] summary.surfaces), 2 ≤ stretch.length →
        isClickable unicode (stretch.flatMap (inertWord unicode)) = false := by
  obtain ⟨_, hentities, _, hbanned⟩ := faithful_but_links.mp h
  obtain ⟨m, hm⟩ := @exists_views_output unicode summary
  obtain ⟨mh, hh⟩ := @exists_views unicode summary.headline.toList
  obtain ⟨mt, ht⟩ := @exists_views_flatMap unicode (spaced [] summary.surfaces)
  have hheadline : (summary.mapProse (inertText unicode)).headline.length =
      summary.headline.length + 2 * brokenMarks unicode summary.headline.toList := by
    rw [← String.length_toList, headline_mapProse, hh.length, String.length_toList]
  have hflat : (summary.mapProse (inertText unicode)).tldrText.length =
      summary.rebuildTldrText.tldrText.length +
        2 * (summary.surfaces.map (brokenMarks unicode)).sum := by
    rw [← String.length_toList, tldrText_mapProse keepsEnds_inertText, ht.length,
      brokenMarks_spaced, ← String.length_toList, toList_rebuildTldrText]
    rfl
  have hwords : bannedWordIn unicode (summary.mapProse (inertText unicode)).output = none := by
    rw [← hm.bracketed, bannedWordIn_bracketed hlower hm.marks, hm.plain]
    exact hbanned
  have hentity : (summary.mapProse (inertText unicode)).tldr.findSome? (ungroundedEntity facts) =
      none := by
    rw [entities_mapProse]
    exact hentities
  have hnumbers : firstUngroundedNumber unicode (summary.mapProse (inertText unicode)).output
      (groundingText facts source) = none ↔
        ∀ t ∈ tokenizeNumeric (summary.mapProse (severText unicode)).output,
          t ∈ tokenizeNumeric (groundingText facts source) := by
    rw [firstUngroundedNumber_eq_none, ← hm.bracketed, ← hm.severed,
      tokenizeNumeric_bracketed hm.marks]
  have haccepted : faithful unicode (summary.mapProse (inertText unicode)) facts source = .ok () ↔
      _ := faithful_eq_ok
  rw [hheadline, hflat, and_iff_right hentity, hnumbers, and_iff_right hwords,
    firstLinkableToken_mapProse] at haccepted
  rw [← haccepted]
  have hrewritten : summary.rebuildTldrText.defangProse unicode =
      if ∀ text ∈ summary.prose, Trimmable unicode text.toList then
        some (summary.mapProse (inertText unicode)) else none := defangProse_spec
  rw [hrewritten]
  constructor
  · rintro ⟨out, hout, hok⟩
    split at hout
    · rename_i htrim
      obtain rfl := Option.some.inj hout
      exact ⟨htrim, hok⟩
    · cases hout
  · rintro ⟨htrim, hok⟩
    exact ⟨_, if_pos htrim, hok⟩

end Ships

def splitLink : ClusterSummary := { tldr := [.text "Read acme", .text ".com today"] }

/-- The halves of a link in two runs are no links, so the rewriting leaves them, and the gate still
rejects the flat text. -/
theorem defang_leaves_split_link : ¬ ∀ (unicode : UnicodeTables) (summary : ClusterSummary)
    (facts : Facts) (source : List Char),
    (faithful unicode summary.rebuildTldrText facts source = .ok () ∨
      ∃ u, faithful unicode summary.rebuildTldrText facts source = .error (.urlInProse u)) →
    ∃ out, summary.rebuildTldrText.defangProse unicode = some out ∧
      faithful unicode out facts source = .ok () := by
  intro h
  have hlink : faithful asciiTables splitLink.rebuildTldrText {} [] =
      .error (.urlInProse "acme.com".toList) := by decide +kernel
  have hout : splitLink.rebuildTldrText.defangProse asciiTables =
      some splitLink.rebuildTldrText := by decide +kernel
  obtain ⟨out, hsome, hok⟩ := h asciiTables splitLink {} [] (Or.inr ⟨_, hlink⟩)
  rw [hout] at hsome
  obtain rfl := Option.some.inj hsome
  rw [hlink] at hok
  cases hok

theorem asciiTables_lowersEach : asciiTables.LowersEach where
  lower := ⟨fun c => [sameSigma c.toLower], fun s => by
    show (s.map Char.toLower).map sameSigma = _
    rw [List.map_map, List.map_eq_flatMap]
    rfl⟩
  sigma := by decide

/-- A link in one run is broken and ships. -/
theorem defang_prose_ships_iff_link : ∃ out,
    ({ tldr := [.text "Read acme.com today"] } : ClusterSummary).rebuildTldrText.defangProse
        asciiTables = some out ∧
      faithful asciiTables out {} [] = .ok () := by
  have hlink : faithful asciiTables
      ({ tldr := [.text "Read acme.com today"] } : ClusterSummary).rebuildTldrText {} [] =
        .error (.urlInProse "acme.com".toList) := by decide +kernel
  refine (defang_prose_ships_iff asciiTables_lowersEach (Or.inr ⟨_, hlink⟩)).mpr ?_
  refine ⟨?_, by decide +kernel, ?_, ?_⟩
  · intro text htext
    have htexts : text = "" ∨ text = "Read acme.com today" := by
      simpa [ClusterSummary.prose, TldrRun.surface] using htext
    rcases htexts with rfl | rfl <;> decide +kernel
  · decide +kernel
  · decide +kernel

end Bulletin
