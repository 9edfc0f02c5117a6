import Bulletin.Common.Inert
import Bulletin.Ingest.Event
import Bulletin.Summarize.Model
import Bulletin.Summarize.Numbers

/-! # The faithfulness gate

A summary may leave a fact out and never add one: its entities, its numbers and its words are
checked against the facts mined from a cluster's events and the text the model was given.
-/

namespace Bulletin

open Text

/-! ## Facts -/

/-- What a summary is grounded in. -/
structure Facts where
  entities : List String := []
  numbers : List String := []
  dates : List String := []
deriving DecidableEq, Repr

def isLinkingKey (token : String) : Bool :=
  "url:".toList.isPrefixOf token.toList || "domain:".toList.isPrefixOf token.toList

def Event.texts (e : Event) : List String := e.title :: e.bestText.toList

/-- The numeric tokens of an event. -/
def Event.numerics (e : Event) : List (List Char) :=
  e.texts.flatMap fun text => tokenizeNumeric text.toList

def isDateToken (tok : List Char) : Bool := tok.contains '-' || tok.contains ':'

def extractFacts (events : List Event) : Facts :=
  let mined := events.flatMap Event.numerics
  { entities := sortDedup (events.flatMap fun e => e.entities.filter fun t => !isLinkingKey t)
    numbers := sortDedup ((mined.filter fun tok => !isDateToken tok).map String.ofList)
    dates := sortDedup ((mined.filter isDateToken).map String.ofList) }

/-! ## The source text -/

def newestFirst (events : List Event) : List Event :=
  events.insertionSort fun x y => eventLe y x

def corpusPiece (e : Event) : List Char :=
  (trim e.title).toList ++
    match e.bestText with
    | some b => if trim b ≠ "" then '\n' :: (trim b).toList else []
    | none => []

/-- Append events until the budget is reached; `len` counts what is there. -/
def corpusLoop (maxChars : Nat) : List Event → List Char → Nat → List Char × Nat
  | [], out, len => (out, len)
  | e :: rest, out, len =>
      if maxChars ≤ len then (out, len)
      else
        let (out, len) := if out ≠ [] then (out ++ "\n\n".toList, len + 2) else (out, len)
        corpusLoop maxChars rest (out ++ corpusPiece e) (len + (corpusPiece e).length)

/-- The text the model is given, cut at the budget. -/
def sourceCorpus (events : List Event) (maxChars : Nat) : List Char :=
  let (out, len) := corpusLoop maxChars (newestFirst events) [] 0
  if maxChars < len then out.take maxChars else out

/-! ## The gate -/

inductive GateViolation where
  | ungroundedEntity (entity : String)
  | ungroundedNumber (tok : List Char)
  | bannedWord (word : List Char)
  | urlInProse (tok : List Char)
  | tooLong
  | unfaithfulRelation (problem : String)
deriving DecidableEq, Repr

def headlineMax : Nat := 90

def tldrMax : Nat := 480

def bannedWords : List (List Char) :=
  ["massive".toList, "huge".toList, "game-changing".toList, "game changing".toList,
    "exciting".toList, "revolutionary".toList, "you".toList, "we".toList, "your".toList,
    "our".toList]

section Gate

variable (unicode : UnicodeTables)

/-- The first number of the output that is no number of the grounding. -/
def firstUngroundedNumber (output grounding : List Char) : Option (List Char) :=
  let grounded := (tokenizeNumeric grounding).map unicode.toLowercase
  (tokenizeNumeric output).find? fun tok => !grounded.contains (unicode.toLowercase tok)

def isEdge (c : Option Char) : Bool := c.all fun c => !unicode.isAlphanumeric c

/-- Search for whole words: `skip` characters of the last occurrence are passed over, and `prev`
stands before the text. -/
def containsWordFrom (needle : List Char) : Nat → Option Char → List Char → Bool
  | _, _, [] => false
  | skip + 1, _, c :: s => containsWordFrom needle skip (some c) s
  | 0, prev, c :: s =>
      if needle.isPrefixOf (c :: s) then
        (isEdge unicode prev && isEdge unicode ((c :: s).drop needle.length).head?) ||
          containsWordFrom needle (needle.length - 1) (some c) s
      else containsWordFrom needle 0 (some c) s

def containsWord (haystack needle : List Char) : Bool :=
  containsWordFrom unicode needle 0 none haystack

def bannedWordIn (text : List Char) : Option (List Char) :=
  match bannedWords.find? (containsWord unicode (unicode.toLowercase text)) with
  | some word => some word
  | none => if text.contains '!' then some ['!'] else none

/-- The text the numbers of a summary are looked up in. -/
def groundingText (facts : Facts) (source : List Char) : List Char :=
  (" ".intercalate (facts.numbers ++ facts.dates)).toList ++ ' ' :: source

def ClusterSummary.output (summary : ClusterSummary) : List Char :=
  summary.headline.toList ++ ' ' :: summary.tldrText.toList

def ungroundedEntity (facts : Facts) : TldrRun → Option String
  | .ref entity _ => if facts.entities.contains entity then none else some entity
  | .text _ => none

def faithful (summary : ClusterSummary) (facts : Facts) (source : List Char) :
    Except GateViolation Unit :=
  if headlineMax < summary.headline.length ∨ tldrMax < summary.tldrText.length then
    .error .tooLong
  else
    match summary.tldr.findSome? (ungroundedEntity facts) with
    | some entity => .error (.ungroundedEntity entity)
    | none =>
        match firstUngroundedNumber unicode summary.output (groundingText facts source) with
        | some tok => .error (.ungroundedNumber tok)
        | none =>
            match bannedWordIn unicode summary.output with
            | some word => .error (.bannedWord word)
            | none =>
                match firstLinkableToken unicode summary.output with
                | some tok => .error (.urlInProse tok)
                | none => .ok ()

end Gate

/-! ## What the budget cuts -/

def pushPiece (out : List Char) (e : Event) : List Char :=
  (if out ≠ [] then out ++ "\n\n".toList else out) ++ corpusPiece e

/-- The source text without a budget. -/
def corpusText (events : List Event) : List Char := (newestFirst events).foldl pushPiece []

/-- Some event has the token in its title or its text. -/
def Stated (events : List Event) (tok : List Char) : Prop := ∃ e ∈ events, tok ∈ e.numerics

section Corpus

variable {events : List Event} {maxChars : Nat} {out t : List Char}

theorem foldl_pushPiece_extends : out <+: events.foldl pushPiece out := by
  induction events generalizing out with
  | nil => exact List.prefix_refl out
  | cons e rest ih =>
      refine List.IsPrefix.trans ?_ ih
      unfold pushPiece
      split
      · rw [List.append_assoc]
        exact List.prefix_append _ _
      · exact List.prefix_append _ _

theorem corpusLoop_spec : (corpusLoop maxChars events out out.length).2 =
      (corpusLoop maxChars events out out.length).1.length ∧
    (corpusLoop maxChars events out out.length).1.take maxChars =
      (events.foldl pushPiece out).take maxChars := by
  induction events generalizing out with
  | nil => exact ⟨rfl, rfl⟩
  | cons e rest ih =>
      rw [corpusLoop]
      split
      · rename_i hfull
        have hextends : out <+: (e :: rest).foldl pushPiece out := foldl_pushPiece_extends
        obtain ⟨more, hmore⟩ := hextends
        refine ⟨rfl, ?_⟩
        rw [← hmore, List.take_append_of_le_length hfull]
      · have hpiece := @ih (pushPiece out e)
        have hlen : (pushPiece out e).length =
            (if out ≠ [] then (out ++ "\n\n".toList, out.length + 2) else (out, out.length)).2 +
              (corpusPiece e).length := by
          unfold pushPiece
          split
          · simp
            omega
          · simp
        have hout : pushPiece out e =
            (if out ≠ [] then (out ++ "\n\n".toList, out.length + 2) else (out, out.length)).1 ++
              corpusPiece e := by
          unfold pushPiece
          split <;> rfl
        rw [hlen, hout] at hpiece
        rw [List.foldl_cons, hout]
        exact hpiece

theorem sourceCorpus_eq : sourceCorpus events maxChars = (corpusText events).take maxChars := by
  obtain ⟨hlen, htake⟩ := @corpusLoop_spec (newestFirst events) maxChars []
  unfold sourceCorpus corpusText
  rw [← htake]
  rw [List.length_nil] at hlen ⊢
  dsimp only
  split
  · rfl
  · rename_i hfits
    rw [hlen, not_lt] at hfits
    exact (List.take_of_length_le hfits).symm

theorem tokenizeNumeric_line {a b : List Char} :
    tokenizeNumeric (a ++ '\n' :: b) = tokenizeNumeric a ++ tokenizeNumeric b :=
  tokenizeNumeric_cut (by decide +kernel)

theorem mem_corpusPiece {e : Event} : t ∈ tokenizeNumeric (corpusPiece e) ↔ t ∈ e.numerics := by
  unfold corpusPiece Event.numerics Event.texts
  cases e.bestText with
  | none => simp [tokenizeNumeric_trim]
  | some b =>
      dsimp only
      split
      · simp [tokenizeNumeric_line, tokenizeNumeric_trim]
      · rename_i hblank
        have hnone : tokenizeNumeric b.toList = [] := by
          rw [← tokenizeNumeric_trim, not_not.mp hblank]
          rfl
        simp [tokenizeNumeric_trim, hnone]

theorem stated_cons {e : Event} : Stated (e :: events) t ↔ t ∈ e.numerics ∨ Stated events t := by
  simp [Stated]

theorem mem_foldl_pushPiece : t ∈ tokenizeNumeric (events.foldl pushPiece out) ↔
    t ∈ tokenizeNumeric out ∨ Stated events t := by
  have hpush : ∀ (out : List Char) (e : Event), t ∈ tokenizeNumeric (pushPiece out e) ↔
      t ∈ tokenizeNumeric out ∨ t ∈ e.numerics := by
    intro out e
    rw [← mem_corpusPiece]
    unfold pushPiece
    split
    · have hgap : out ++ "\n\n".toList ++ corpusPiece e =
          out ++ '\n' :: ([] ++ '\n' :: corpusPiece e) := by simp
      have hnil : tokenizeNumeric [] = [] := rfl
      rw [hgap, tokenizeNumeric_line, tokenizeNumeric_line, hnil, List.nil_append, List.mem_append]
    · rename_i hempty
      have hnil : tokenizeNumeric [] = [] := rfl
      simp [not_not.mp hempty, hnil]
  induction events generalizing out with
  | nil => simp [Stated]
  | cons e rest ih =>
      refine Iff.trans ih ?_
      rw [hpush, stated_cons, or_assoc]

theorem mem_corpusText : t ∈ tokenizeNumeric (corpusText events) ↔ Stated events t := by
  have hnil : tokenizeNumeric [] = [] := rfl
  unfold corpusText
  rw [mem_foldl_pushPiece, hnil]
  unfold Stated newestFirst
  simp [List.mem_insertionSort]

/-- What the budget leaves states what the events state, but for a number it cuts. -/
theorem mem_sourceCorpus (h : t ∈ tokenizeNumeric (sourceCorpus events maxChars)) :
    Stated events t ∨ cutToken (corpusText events) maxChars = some t := by
  rw [sourceCorpus_eq] at h
  rw [← mem_corpusText]
  exact mem_tokenizeNumeric_take h

end Corpus

/-! ## What the gate grounds -/

section Grounding

variable {unicode : UnicodeTables} {events : List Event} {source t : List Char}
  {summary : ClusterSummary} {facts : Facts} {maxChars : Nat}

theorem stated_iff_mined : Stated events t ↔ t ∈ events.flatMap Event.numerics := by
  simp [Stated]

theorem tokenizeNumeric_space {a b : List Char} :
    tokenizeNumeric (a ++ ' ' :: b) = tokenizeNumeric a ++ tokenizeNumeric b :=
  tokenizeNumeric_cut (by decide +kernel)

theorem tokenizeNumeric_intercalate {parts : List (List Char)} :
    tokenizeNumeric ([' '].intercalate parts) = parts.flatMap tokenizeNumeric := by
  induction parts with
  | nil => rfl
  | cons a parts ih =>
      cases parts with
      | nil => simp
      | cons b parts =>
          rw [List.intercalate_cons_cons, List.append_assoc, List.singleton_append,
            tokenizeNumeric_space, ih]
          rfl

theorem mem_facts : (∃ x ∈ (extractFacts events).numbers ++ (extractFacts events).dates,
    t ∈ tokenizeNumeric x.toList) ↔ Stated events t := by
  rw [stated_iff_mined]
  have hfacts : ∀ x, x ∈ (extractFacts events).numbers ++ (extractFacts events).dates ↔
      ∃ tok ∈ events.flatMap Event.numerics, String.ofList tok = x := by
    intro x
    simp only [extractFacts, List.mem_append, mem_sortDedup, List.mem_map, List.mem_filter]
    constructor
    · rintro (⟨tok, ⟨hmem, _⟩, rfl⟩ | ⟨tok, ⟨hmem, _⟩, rfl⟩)
      · exact ⟨tok, hmem, rfl⟩
      · exact ⟨tok, hmem, rfl⟩
    · rintro ⟨tok, hmem, rfl⟩
      cases hdate : isDateToken tok with
      | false => exact Or.inl ⟨tok, ⟨hmem, by simp [hdate]⟩, rfl⟩
      | true => exact Or.inr ⟨tok, ⟨hmem, hdate⟩, rfl⟩
  have hself : ∀ tok ∈ events.flatMap Event.numerics, tokenizeNumeric tok = [tok] := by
    intro tok htok
    obtain ⟨e, _, hin⟩ := List.mem_flatMap.mp htok
    obtain ⟨text, _, hin⟩ := List.mem_flatMap.mp hin
    exact tokenizeNumeric_token hin
  constructor
  · intro h
    obtain ⟨x, hx, hin⟩ := h
    obtain ⟨tok, htok, rfl⟩ := (hfacts x).mp hx
    rw [String.toList_ofList, hself tok htok, List.mem_singleton] at hin
    rwa [hin]
  · intro h
    refine ⟨String.ofList t, (hfacts _).mpr ⟨t, h, rfl⟩, ?_⟩
    rw [String.toList_ofList, hself t h]
    exact List.mem_singleton_self t

theorem mem_groundingText : t ∈ tokenizeNumeric (groundingText (extractFacts events) source) ↔
    Stated events t ∨ t ∈ tokenizeNumeric source := by
  rw [← mem_facts, groundingText, tokenizeNumeric_space, String.toList_intercalate, List.mem_append,
    show " ".toList = [' '] from rfl, tokenizeNumeric_intercalate, List.mem_flatMap]
  simp only [List.mem_map, exists_exists_and_eq_and]

end Grounding

end Bulletin
