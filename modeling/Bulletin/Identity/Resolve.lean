import Mathlib.Data.List.Lattice
import Mathlib.Data.List.Sort
import Mathlib.Data.String.Basic
import Mathlib.Order.BooleanAlgebra.Basic
import Mathlib.Order.CompletePartialOrder
import Bulletin.Common.Text
import Bulletin.Core.DisjointSet
import Bulletin.Thread.Model

/-! # Identity resolution

Tokens that an edge holds together are one identity. The edges are walked strongest first, and
none is walked between two tokens that a veto keeps apart.
-/

namespace Bulletin

open DisjointSet

def ConfidenceBand.fromScore {F : Type} [Score F] (score : F) : ConfidenceBand :=
  if Score.ge score (Score.lit (99 / 100)) then .confirmed
  else if Score.ge score (Score.lit (75 / 100)) then .probable
  else .uncertain

namespace Identity

/-! ## Tokens -/

/-- The token a raw text names: its kind in lower case, its value as the source wrote it. -/
def canonicalize (raw : String) : String :=
  let trimmed := trim raw
  match splitNamespace trimmed with
  | some (kind, value) =>
      if kind ≠ "" ∧ kind.toList.all Char.isAlphanum then
        String.ofList (asciiLower kind.toList) ++ ":" ++ value
      else String.ofList (asciiLower trimmed.toList)
  | none => String.ofList (asciiLower trimmed.toList)

/-- Two tokens in one order, whichever is named first. -/
def pair (a b : String) : String × String := if a ≤ b then (a, b) else (b, a)

theorem pair_comm (a b : String) : pair a b = pair b a := by
  unfold pair
  rcases lt_trichotomy a b with h | h | h
  · rw [if_pos h.le, if_neg (not_le.mpr h)]
  · rw [h]
  · rw [if_neg (not_le.mpr h), if_pos h.le]

theorem pair_eq_iff {a b x y : String} :
    pair a b = pair x y ↔ (a = x ∧ b = y) ∨ (a = y ∧ b = x) := by
  constructor
  · intro h
    unfold pair at h
    split at h <;> split at h <;> simp only [Prod.mk.injEq] at h <;> grind
  · intro h
    rcases h with ⟨rfl, rfl⟩ | ⟨rfl, rfl⟩
    · rfl
    · exact pair_comm _ _

/-! ## Edges -/

inductive EdgeSource where
  | exactId
  | normalized
  | lexical
  | embedding
  | feedback
deriving DecidableEq, Repr

structure Edge (F : Type) where
  a : String
  b : String
  confidence : F
  source : EdgeSource

def Edge.Joins {F : Type} (e : Edge F) (x y : String) : Prop := pair e.a e.b = pair x y

section Edges

variable {F : Type} [SelectScore F]

def EdgeSource.defaultConfidence : EdgeSource → F
  | exactId | feedback => Score.lit 1
  | normalized => Score.lit (99 / 100)
  | embedding => Score.lit (85 / 100)
  | lexical => Score.lit (1 / 2)

/-- A measured similarity never passes for an authority. -/
def Edge.ofLexical (a b : String) (similarity : F) : Edge F where
  a := a
  b := b
  confidence := clamp similarity (Score.lit 0) (Score.lit (95 / 100))
  source := .lexical

def Edge.ofSource (a b : String) (source : EdgeSource) : Edge F where
  a := a
  b := b
  confidence := source.defaultConfidence
  source := source

/-! ## Lexical similarity -/

def valueWords (value : String) : List (List Char) :=
  ((value.toList.splitOnP (· ∈ [' ', '-', '_', '/'])).filter (· ≠ [])).dedup

def bigrams (value : String) : List (Char × Char) := value.toList.zip value.toList.tail

def diceBigram (a b : String) : F :=
  let ba := bigrams a
  let bb := bigrams b
  if ba = [] ∨ bb = [] then Score.lit 0
  else
    -- a pair of the first value is used up by the pair of the second that matches it
    Score.lit 2 * Score.lit (bb.bagInter ba).length / Score.lit (ba.length + bb.length)

/-- Shared words over all words, or shared bigrams where both values are one word. -/
def lexicalSimilarity (a b : String) : F :=
  if a = b then Score.lit 1
  else if a = "" ∨ b = "" then Score.lit 0
  else
    let ta := valueWords a
    let tb := valueWords b
    if 1 < ta.length ∨ 1 < tb.length then
      Score.lit (ta.filter (· ∈ tb)).length / Score.lit (ta ++ tb.filter (· ∉ ta)).length
    else diceBigram a b

/-- The edge proposed between two tokens of one kind, unless they are vetoed. -/
def lexicalEdge (vetoes : List (String × String)) (threshold : F) (a b : String) :
    Option (Edge F) :=
  match splitNamespace a, splitNamespace b with
  | some (ka, va), some (kb, vb) =>
      if ka ≠ kb ∨ pair a b ∈ vetoes then none
      else
        let sim : F := lexicalSimilarity va vb
        if Score.ge sim threshold then some (Edge.ofLexical a b sim) else none
  | _, _ => none

def lexicalEdges (vetoes : List (String × String)) (threshold : F) : List String → List (Edge F)
  | [] => []
  | a :: rest =>
      rest.filterMap (lexicalEdge vetoes threshold a) ++ lexicalEdges vetoes threshold rest

/-! ## The walk over the edges -/

def edgeOrder (x y : Edge F) : Ordering :=
  (SelectScore.totalCmp y.confidence x.confidence).then
    ((compare x.a y.a).then (compare x.b y.b))

def eligibleEdges (edges : List (Edge F)) (vetoes : List (String × String)) (theta : F) :
    List (Edge F) :=
  (edges.filter fun e => Score.ge e.confidence theta && pair e.a e.b ∉ vetoes).insertionSort
    fun x y => edgeOrder x y ≠ .gt

theorem mem_eligibleEdges {edges : List (Edge F)} {vetoes : List (String × String)} {theta : F}
    {e : Edge F} : e ∈ eligibleEdges edges vetoes theta ↔
      e ∈ edges ∧ Score.ge e.confidence theta = true ∧ pair e.a e.b ∉ vetoes := by
  simp [eligibleEdges]

end Edges

section Walk

variable {F : Type} {tokens : List String}

/-- The tokens of a resolution, in the order in which they are first touched. -/
def touched (nodes : List String) (edges : List (Edge F)) : List String :=
  (nodes ++ edges.flatMap fun e => [e.a, e.b]).eraseDups

/-- A token that was touched; its place among them is its index. -/
abbrev Node (tokens : List String) := { t : String // t ∈ tokens }

abbrev UnionFind (tokens : List String) := Forest (Node tokens) PUnit

/-- Union by rank; between roots of one rank the one touched first is kept. -/
def unite (uf : UnionFind tokens) (a b : Node tokens) : UnionFind tokens :=
  if tokens.idxOf (uf.find a).1.val ≤ tokens.idxOf (uf.find b).1.val then uf.union a b
  else uf.union b a

/-- The forest, and an endpoint and the confidence of each edge that merged two sets. -/
structure Walk (F : Type) (tokens : List String) where
  uf : UnionFind tokens
  spanning : List (Node tokens × F)

def Walk.start (F : Type) (tokens : List String) : Walk F tokens where
  uf := Forest.init fun _ => PUnit.unit
  spanning := []

/-- One edge of the walk; both its endpoints are touched before it is walked. -/
def Walk.step (w : Walk F tokens) (e : Edge F) : Walk F tokens :=
  if h : e.a ∈ tokens ∧ e.b ∈ tokens then
    let a : Node tokens := ⟨e.a, h.1⟩
    let b : Node tokens := ⟨e.b, h.2⟩
    if w.uf.root a = w.uf.root b then w
    else { uf := unite w.uf a b, spanning := w.spanning ++ [(a, e.confidence)] }
  else w

def Walk.run (tokens : List String) (edges : List (Edge F)) : Walk F tokens :=
  edges.foldl Walk.step (Walk.start F tokens)

theorem endpoints_touched {nodes : List String} {edges : List (Edge F)} {e : Edge F}
    (he : e ∈ edges) : e.a ∈ touched nodes edges ∧ e.b ∈ touched nodes edges := by
  unfold touched
  rw [List.mem_eraseDups, List.mem_eraseDups, List.mem_append, List.mem_append,
    List.mem_flatMap, List.mem_flatMap]
  exact ⟨Or.inr ⟨e, he, by simp⟩, Or.inr ⟨e, he, by simp⟩⟩

theorem unite_same {uf : UnionFind tokens} {a b x y : Node tokens} :
    (unite uf a b).Same x y ↔
      uf.Same x y ∨ (uf.Same x a ∧ uf.Same b y) ∨ (uf.Same x b ∧ uf.Same a y) := by
  unfold unite
  split
  · exact Forest.union_same _ _ _ _ _
  · rw [Forest.union_same]
    exact or_congr_right or_comm

theorem Walk.same_step {w : Walk F tokens} {e : Edge F} {x y : Node tokens}
    (h : w.uf.Same x y) : (w.step e).uf.Same x y := by
  unfold Walk.step
  split
  · dsimp only
    split
    · exact h
    · exact unite_same.mpr (Or.inl h)
  · exact h

theorem Walk.step_joins {w : Walk F tokens} {e : Edge F} (ha : e.a ∈ tokens)
    (hb : e.b ∈ tokens) : (w.step e).uf.Same ⟨e.a, ha⟩ ⟨e.b, hb⟩ := by
  unfold Walk.step
  rw [dif_pos ⟨ha, hb⟩]
  dsimp only
  split
  · rename_i hroot
    exact hroot
  · exact unite_same.mpr (Or.inr (Or.inl ⟨Forest.Same.refl _ _, Forest.Same.refl _ _⟩))

theorem Walk.same_foldl {edges : List (Edge F)} {w : Walk F tokens} {x y : Node tokens}
    (h : w.uf.Same x y) : (edges.foldl Walk.step w).uf.Same x y := by
  induction edges generalizing w with
  | nil => exact h
  | cons e edges ih => exact ih (Walk.same_step h)

theorem Walk.run_joins {edges : List (Edge F)} {e : Edge F} (he : e ∈ edges)
    (ha : e.a ∈ tokens) (hb : e.b ∈ tokens) :
    (Walk.run tokens edges).uf.Same ⟨e.a, ha⟩ ⟨e.b, hb⟩ := by
  obtain ⟨before, after, rfl⟩ := List.mem_iff_append.mp he
  unfold Walk.run
  rw [List.foldl_append, List.foldl_cons]
  exact Walk.same_foldl (Walk.step_joins ha hb)

end Walk

/-! ## Components -/

section Components

variable {F : Type} [SelectScore F] {tokens : List String}

/-- The tokens under a root, smallest first. -/
def Walk.members (w : Walk F tokens) (root : Node tokens) : List String :=
  ((tokens.attach.filter fun t => w.uf.root t = root).map (·.val)).insertionSort (· ≤ ·)

/-- The member that stood for a component before, else the smallest. -/
def Walk.chosen (w : Walk F tokens) (prior : List String) (root : Node tokens) : String :=
  ((w.members root).find? (· ∈ prior)).getD ((w.members root).headD root.val)

def Walk.bottleneck (w : Walk F tokens) (root : Node tokens) : Option F :=
  (w.spanning.filter fun entry => w.uf.root entry.1 = root).foldl (fun weakest entry =>
    some (weakest.elim entry.2 fun x => if Score.lt entry.2 x then entry.2 else x)) none

def Walk.componentBand (w : Walk F tokens) (root : Node tokens) : ConfidenceBand :=
  (w.bottleneck root).elim .confirmed ConfidenceBand.fromScore

def Walk.resolution (w : Walk F tokens) (prior : List String) : Resolution where
  rep := tokens.attach.foldl (fun rep t => rep.insert t.val (w.chosen prior (w.uf.root t))) ∅
  band := tokens.attach.foldl (fun band t =>
    band.insert (w.chosen prior (w.uf.root t)) (w.componentBand (w.uf.root t))) ∅

/-- Components over the edges of confidence `theta` and more that no veto forbids. -/
def resolve (nodes : List String) (edges : List (Edge F)) (vetoes : List (String × String))
    (theta : F) (prior : List String) : Resolution :=
  let walked := eligibleEdges edges vetoes theta
  (Walk.run (touched nodes walked) walked).resolution prior

theorem Walk.representative {w : Walk F tokens} {prior : List String} (x : Node tokens) :
    (w.resolution prior).representative x.val = w.chosen prior (w.uf.root x) := by
  have hrep : ∀ ts : List (Node tokens), x ∈ ts →
      (ts.foldl (fun rep t => rep.insert t.val (w.chosen prior (w.uf.root t)))
        (∅ : Std.ExtTreeMap String String compare))[x.val]? =
          some (w.chosen prior (w.uf.root x)) := by
    intro ts hx
    induction ts using List.reverseRecOn with
    | nil => simp at hx
    | append_singleton ts t ih =>
        rw [List.foldl_append, List.foldl_cons, List.foldl_nil, Std.ExtTreeMap.getElem?_insert]
        by_cases ht : t = x
        · subst ht
          simp
        · have hval : t.val ≠ x.val := fun h => ht (Subtype.ext h)
          have hts : x ∈ ts := by
            have hmem := List.mem_append.mp hx
            simpa [Ne.symm ht] using hmem
          simpa [hval] using ih hts
  unfold Resolution.representative Walk.resolution
  rw [Std.ExtTreeMap.getD_eq_getD_getElem?, hrep tokens.attach (List.mem_attach _ _)]
  rfl

/-- An edge that is strong enough and not vetoed puts its endpoints in one component. -/
theorem resolve_joins {nodes : List String} {edges : List (Edge F)}
    {vetoes : List (String × String)} {theta : F} {prior : List String} {e : Edge F}
    (he : e ∈ edges) (hstrong : Score.ge e.confidence theta = true)
    (hfree : pair e.a e.b ∉ vetoes) :
    (resolve nodes edges vetoes theta prior).representative e.a =
      (resolve nodes edges vetoes theta prior).representative e.b := by
  have hwalked : e ∈ eligibleEdges edges vetoes theta :=
    mem_eligibleEdges.mpr ⟨he, hstrong, hfree⟩
  have hends : e.a ∈ touched nodes (eligibleEdges edges vetoes theta) ∧
      e.b ∈ touched nodes (eligibleEdges edges vetoes theta) := endpoints_touched hwalked
  have hsame := Walk.run_joins hwalked hends.1 hends.2
  unfold resolve
  dsimp only
  calc _ = _ := Walk.representative ⟨e.a, hends.1⟩
    _ = _ := congrArg _ hsame
    _ = _ := (Walk.representative ⟨e.b, hends.2⟩).symm

end Components

end Identity

end Bulletin
