import Mathlib.Data.List.Basic

/-! # Texts put into markup

A document is written from fixed pieces and from holes filled with other texts. A reader goes
over it once: it is between tags, in a tag, in a quoted value or in a comment, and keeps the
elements that are open. A filling that is safe where its hole stands is read as text or as a
value and never as markup, so the tags of the document are those of its fixed pieces.
-/

namespace Markup

/-! ## Reading a document -/

inductive Mode where
  | text
  /-- In a tag's name; the characters so far, the last one first. -/
  | name (seen : List Char)
  /-- After a tag's name. -/
  | inside (tag : List Char)
  /-- In a quoted value. -/
  | value (tag : List Char)
  /-- In a comment, after as many dashes. -/
  | comment (dashes : Nat)
deriving DecidableEq, Repr

structure Reader where
  mode : Mode := .text
  /-- The open elements, the innermost first. -/
  stack : List (List Char) := []
deriving DecidableEq, Repr

/-- What a character is read as. -/
inductive Kind where
  | text
  | value
  | markup
deriving DecidableEq, Repr

def isVoid (tag : List Char) : Bool :=
  tag = ['m', 'e', 't', 'a'] || tag = ['b', 'r'] || tag = ['h', 'r'] || tag = ['i', 'm', 'g'] ||
    tag = ['!', 'D', 'O', 'C', 'T', 'Y', 'P', 'E']

/-- The open elements after a tag; an end tag closes the innermost element. -/
def close (stack : List (List Char)) (tag : List Char) : Option (List (List Char)) :=
  match tag with
  | '/' :: tag =>
      match stack with
      | top :: rest => if top = tag then some rest else none
      | [] => none
  | _ => some (if isVoid tag then stack else tag :: stack)

/-- The reader over one character; `none` for what it does not understand. -/
def step (r : Reader) (c : Char) : Option Reader :=
  match r.mode with
  | .text => some { r with mode := if c = '<' then .name [] else .text }
  | .name seen =>
      if c = '>' then (close r.stack seen.reverse).map fun stack => ⟨.text, stack⟩
      else if c = ' ' then some { r with mode := .inside seen.reverse }
      else if c :: seen = ['-', '-', '!'] then some { r with mode := .comment 0 }
      else if c.isAlphanum || c = '/' || c = '!' || c = '-' then
        some { r with mode := .name (c :: seen) }
      else none
  | .inside tag =>
      if c = '>' then (close r.stack tag).map fun stack => ⟨.text, stack⟩
      else if c = '"' then some { r with mode := .value tag }
      else if c = '\'' || c = '<' then none
      else some r
  | .value tag => some { r with mode := if c = '"' then .inside tag else .value tag }
  | .comment dashes =>
      some { r with
        mode := if c = '>' ∧ 2 ≤ dashes then .text
          else .comment (if c = '-' then dashes + 1 else 0) }

def read (r : Reader) : List Char → Option Reader
  | [] => some r
  | c :: s => (step r c).bind fun r => read r s

def Mode.kind : Mode → Char → Kind
  | text, c => if c = '<' then .markup else .text
  | value _, c => if c = '"' then .markup else .value
  | _, _ => .markup

def marked (k : Kind) (r : Reader) : List Char → List Char
  | [] => []
  | c :: s =>
      match step r c with
      | none => []
      | some r' => if r.mode.kind c = k then c :: marked k r' s else marked k r' s

def Reader.onto (r : Reader) (stack : List (List Char)) : Reader :=
  { r with stack := r.stack ++ stack }

section Read

variable {k : Kind} {r r' : Reader} {s t : List Char} {stack : List (List Char)}

theorem read_append : read r (s ++ t) = (read r s).bind fun r => read r t := by
  induction s generalizing r with
  | nil => rfl
  | cons c s ih =>
      simp only [List.cons_append, read, Option.bind_assoc]
      exact congrArg _ (funext fun _ => ih)

theorem marked_append (h : read r s = some r') :
    marked k r (s ++ t) = marked k r s ++ marked k r' t := by
  induction s generalizing r with
  | nil =>
      cases h
      rfl
  | cons c s ih =>
      rw [read] at h
      cases hstep : step r c with
      | none =>
          rw [hstep] at h
          cases h
      | some r₁ =>
          rw [hstep, Option.bind_some] at h
          simp only [List.cons_append, marked, hstep, ih h]
          split <;> rfl

theorem close_append {tag : List Char} {rest : List (List Char)}
    (h : close stack tag = some rest) (more : List (List Char)) :
    close (stack ++ more) tag = some (rest ++ more) := by
  unfold close at h ⊢
  split
  · rename_i inner
    cases stack with
    | nil => cases h
    | cons top below =>
        simp only [List.cons_append] at h ⊢
        split at h
        · rename_i heq
          rw [if_pos heq, Option.some.inj h]
        · cases h
  · rename_i hopen
    split at h
    · rename_i inner
      exact absurd rfl (hopen inner)
    · cases h
      split <;> rfl

theorem step_onto {c : Char} (h : step r c = some r') (more : List (List Char)) :
    step (r.onto more) c = some (r'.onto more) := by
  obtain ⟨mode, stack⟩ := r
  unfold step at h ⊢
  cases mode with
  | text =>
      cases h
      rfl
  | name seen =>
      simp only [Reader.onto] at h ⊢
      split at h
      · rename_i hend
        obtain ⟨rest, hrest, rfl⟩ := Option.map_eq_some_iff.mp h
        rw [if_pos hend, close_append hrest]
        rfl
      · rename_i hend
        rw [if_neg hend]
        split at h
        · rename_i hspace
          cases h
          rw [if_pos hspace]
        · rename_i hspace
          rw [if_neg hspace]
          split at h
          · rename_i hcomment
            cases h
            rw [if_pos hcomment]
          · rename_i hcomment
            rw [if_neg hcomment]
            split at h
            · rename_i hname
              cases h
              rw [if_pos hname]
            · cases h
  | inside tag =>
      simp only [Reader.onto] at h ⊢
      split at h
      · rename_i hend
        obtain ⟨rest, hrest, rfl⟩ := Option.map_eq_some_iff.mp h
        rw [if_pos hend, close_append hrest]
        rfl
      · rename_i hend
        rw [if_neg hend]
        split at h
        · rename_i hquote
          cases h
          rw [if_pos hquote]
        · rename_i hquote
          rw [if_neg hquote]
          split at h
          · cases h
          · rename_i hbad
            cases h
            rw [if_neg hbad]
  | value tag =>
      cases h
      rfl
  | comment dashes =>
      cases h
      rfl

theorem read_onto (h : read r s = some r') (more : List (List Char)) :
    read (r.onto more) s = some (r'.onto more) := by
  induction s generalizing r with
  | nil =>
      cases h
      rfl
  | cons c s ih =>
      obtain ⟨r₁, hstep, hrest⟩ := Option.bind_eq_some_iff.mp h
      rw [read, step_onto hstep more, Option.bind_some]
      exact ih hrest

/-! ## Safe texts -/

theorem read_text (hs : '<' ∉ s) : read ⟨.text, stack⟩ s = some ⟨.text, stack⟩ ∧
    marked k ⟨.text, stack⟩ s = if k = .text then s else [] := by
  induction s with
  | nil => exact ⟨rfl, by split <;> rfl⟩
  | cons c s ih =>
      have hc : c ≠ '<' := fun heq => hs (heq ▸ List.mem_cons_self)
      obtain ⟨hread, hmarked⟩ := ih fun h => hs (List.mem_cons_of_mem c h)
      have hstep : step ⟨.text, stack⟩ c = some ⟨.text, stack⟩ := by simp [step, hc]
      constructor
      · rw [read, hstep, Option.bind_some, hread]
      · simp only [marked, hstep, Mode.kind, if_neg hc, hmarked]
        cases k <;> rfl

theorem read_value {tag : List Char} (hs : '"' ∉ s) :
    read ⟨.value tag, stack⟩ s = some ⟨.value tag, stack⟩ ∧
      marked k ⟨.value tag, stack⟩ s = if k = .value then s else [] := by
  induction s with
  | nil => exact ⟨rfl, by split <;> rfl⟩
  | cons c s ih =>
      have hc : c ≠ '"' := fun heq => hs (heq ▸ List.mem_cons_self)
      obtain ⟨hread, hmarked⟩ := ih fun h => hs (List.mem_cons_of_mem c h)
      have hstep : step ⟨.value tag, stack⟩ c = some ⟨.value tag, stack⟩ := by simp [step, hc]
      constructor
      · rw [read, hstep, Option.bind_some, hread]
      · simp only [marked, hstep, Mode.kind, if_neg hc, hmarked]
        cases k <;> rfl

end Read

/-! ## Pieces of a document -/

/-- A fixed piece, or a filled hole and what its filling is to be read as. -/
inductive Piece where
  | raw (s : List Char)
  | hole (k : Kind) (s : List Char)
deriving DecidableEq, Repr

def Piece.emit : Piece → List Char
  | raw s => s
  | hole _ s => s

def Piece.blank : Piece → Piece
  | raw s => raw s
  | hole k _ => hole k []

def Piece.Safe : Piece → Prop
  | raw _ => True
  | hole .text s => '<' ∉ s
  | hole .value s => '"' ∉ s
  | hole .markup s => s = []

theorem Piece.safe_blank (p : Piece) : p.blank.Safe := by
  cases p with
  | raw s => exact trivial
  | hole k s => cases k <;> simp [blank, Safe]

def Mode.admits : Mode → Kind → Bool
  | text, .text => true
  | value _, .value => true
  | _, _ => false

def emit (ps : List Piece) : List Char := ps.flatMap Piece.emit

/-- The reader over the fixed pieces; `none` also if a hole is not where it belongs. -/
def walk (r : Reader) : List Piece → Option Reader
  | [] => some r
  | .raw s :: ps => (read r s).bind fun r => walk r ps
  | .hole k _ :: ps => if r.mode.admits k then walk r ps else none

/-- The characters of a kind, in the fixed pieces and the fillings. -/
def parts (k : Kind) (r : Reader) : List Piece → List Char
  | [] => []
  | .raw s :: ps =>
      marked k r s ++ match read r s with
        | some r => parts k r ps
        | none => []
  | .hole k' s :: ps => (if k = k' then s else []) ++ parts k r ps

section Pieces

variable {k : Kind} {r r' : Reader} {ps qs : List Piece} {stack : List (List Char)}

theorem read_hole {s : List Char} (hadmits : r.mode.admits k = true) (hsafe : (Piece.hole k s).Safe)
    (j : Kind) : read r s = some r ∧ marked j r s = if j = k then s else [] := by
  obtain ⟨mode, stack⟩ := r
  cases k with
  | markup => cases mode <;> cases hadmits
  | text =>
      cases mode with
      | text => exact read_text hsafe
      | name | inside | value | comment => cases hadmits
  | value =>
      cases mode with
      | value tag => exact read_value hsafe
      | name | inside | text | comment => cases hadmits

theorem walk_emit (hsafe : ∀ p ∈ ps, p.Safe) (h : walk r ps = some r') :
    read r (emit ps) = some r' ∧ ∀ j, marked j r (emit ps) = parts j r ps := by
  induction ps generalizing r with
  | nil => exact ⟨h, fun _ => rfl⟩
  | cons p ps ih =>
      have hrest : ∀ q ∈ ps, q.Safe := fun q hq => hsafe q (List.mem_cons_of_mem p hq)
      cases p with
      | raw s =>
          obtain ⟨r₁, hread, hwalk⟩ := Option.bind_eq_some_iff.mp h
          obtain ⟨hend, hparts⟩ := ih hrest hwalk
          change read r (s ++ emit ps) = some r' ∧ ∀ j, marked j r (s ++ emit ps) = _
          constructor
          · rw [read_append, hread, Option.bind_some, hend]
          · intro j
            rw [marked_append hread, hparts]
            simp only [parts, hread]
      | hole k s =>
          rw [walk] at h
          split at h
          · rename_i hadmits
            have hhole := read_hole hadmits (hsafe _ List.mem_cons_self)
            obtain ⟨hend, hparts⟩ := ih hrest h
            change read r (s ++ emit ps) = some r' ∧ ∀ j, marked j r (s ++ emit ps) = _
            constructor
            · rw [read_append, (hhole .text).1, Option.bind_some, hend]
            · intro j
              rw [marked_append (hhole j).1, hparts, (hhole j).2]
              rfl
          · cases h

theorem walk_append : walk r (ps ++ qs) = (walk r ps).bind fun r => walk r qs := by
  induction ps generalizing r with
  | nil => rfl
  | cons p ps ih =>
      cases p with
      | raw s =>
          simp only [List.cons_append, walk, Option.bind_assoc]
          exact congrArg _ (funext fun _ => ih)
      | hole k s =>
          simp only [List.cons_append, walk]
          split
          · exact ih
          · rfl

theorem walk_blank : walk r (ps.map Piece.blank) = walk r ps := by
  induction ps generalizing r with
  | nil => rfl
  | cons p ps ih =>
      cases p with
      | raw s =>
          simp only [List.map_cons, Piece.blank, walk]
          exact congrArg _ (funext fun _ => ih)
      | hole k s => simp only [List.map_cons, Piece.blank, walk, ih]

theorem parts_markup_blank (hsafe : ∀ p ∈ ps, p.Safe) :
    parts .markup r (ps.map Piece.blank) = parts .markup r ps := by
  induction ps generalizing r with
  | nil => rfl
  | cons p ps ih =>
      have hrest : ∀ q ∈ ps, q.Safe := fun q hq => hsafe q (List.mem_cons_of_mem p hq)
      cases p with
      | raw s =>
          simp only [List.map_cons, Piece.blank, parts]
          cases read r s with
          | none => rfl
          | some r₁ => simp only [ih hrest]
      | hole k s =>
          have hempty : (if Kind.markup = k then s else []) = [] := by
            cases k with
            | markup => exact hsafe _ List.mem_cons_self
            | text | value => rfl
          simp only [List.map_cons, Piece.blank, parts, ih hrest, hempty]
          split <;> rfl

theorem walk_onto (h : walk r ps = some r') (more : List (List Char)) :
    walk (r.onto more) ps = some (r'.onto more) := by
  induction ps generalizing r with
  | nil =>
      cases h
      rfl
  | cons p ps ih =>
      cases p with
      | raw s =>
          obtain ⟨r₁, hread, hwalk⟩ := Option.bind_eq_some_iff.mp h
          rw [walk, read_onto hread more, Option.bind_some]
          exact ih hwalk
      | hole k s =>
          simp only [walk] at h ⊢
          split at h
          · rename_i hadmits
            have hmode : (r.onto more).mode.admits k = true := hadmits
            rw [if_pos hmode]
            exact ih h
          · cases h

/-! ## Pieces between tags -/

/-- From between tags to between tags, from these open elements to those. -/
def Reads (ps : List Piece) (before after : List (List Char)) : Prop :=
  walk ⟨.text, before⟩ ps = some ⟨.text, after⟩

instance {before after : List (List Char)} : Decidable (Reads ps before after) :=
  inferInstanceAs (Decidable (walk ⟨.text, before⟩ ps = some ⟨.text, after⟩))

theorem Reads.nil : Reads [] stack stack := rfl

theorem Reads.append {before middle after : List (List Char)} (hps : Reads ps before middle)
    (hqs : Reads qs middle after) : Reads (ps ++ qs) before after := by
  rw [Reads, walk_append, show walk ⟨.text, before⟩ ps = _ from hps, Option.bind_some]
  exact hqs

theorem Reads.anywhere (h : Reads ps [] []) : Reads ps stack stack := walk_onto h stack

theorem reads_flatMap {α : Type*} {f : α → List Piece} {l : List α}
    (h : ∀ a ∈ l, Reads (f a) [] []) : Reads (l.flatMap f) [] [] := by
  induction l with
  | nil => exact Reads.nil
  | cons a l ih =>
      rw [List.flatMap_cons]
      exact (h a List.mem_cons_self).append (ih fun b hb => h b (List.mem_cons_of_mem a hb))

end Pieces

end Markup
