import Bulletin.Common.Inert
import Bulletin.Digest.Runs
import Bulletin.Summarize.Gate

/-! # Phrases a model writes

A label, a delta and a lead go through one check: a phrase within its bound, in the house voice and
without an address. The first two fall back on a name from the entities and on a count.
-/

namespace Bulletin

open Text

section Gate

variable (unicode : UnicodeTables)

def cleanPhrase (maxChars : Nat) (s : String) : Option String :=
  if s = "" ∨ maxChars < s.length then none
  else if (bannedWordIn unicode s.toList).isSome ∨ (firstLinkableToken unicode s.toList).isSome then
    none
  else some s

def labelMax : Nat := 48

def deltaMax : Nat := 48

def deltaMaxWords : Nat := 6

def cleanLabel (raw : String) : Option String := cleanPhrase unicode labelMax (trim raw)

def isEndMark (c : Char) : Bool := ".!?,;".toList.contains c

def cleanDelta (raw : String) : Option String :=
  let s := trim (String.ofList (trimEndMatches isEndMark (trim raw).toList))
  if deltaMaxWords < (splitWhitespace s.toList).length then none else cleanPhrase unicode deltaMax s

structure Presentable (maxChars : Nat) (s : String) : Prop where
  nonempty : s ≠ ""
  short : s.length ≤ maxChars
  voice : bannedWordIn unicode s.toList = none
  inert : firstLinkableToken unicode s.toList = none

end Gate

section Checked

variable {unicode : UnicodeTables} {maxChars : Nat} {s raw out : String}

theorem cleanPhrase_eq_some :
    cleanPhrase unicode maxChars s = some out ↔ out = s ∧ Presentable unicode maxChars s := by
  unfold cleanPhrase
  constructor
  · intro h
    split at h
    · cases h
    · rename_i hbounds
      split at h
      · cases h
      · rename_i hwords
        obtain ⟨hne, hshort⟩ := not_or.mp hbounds
        obtain ⟨hvoice, hinert⟩ := not_or.mp hwords
        cases h
        exact ⟨rfl, hne, Nat.not_lt.mp hshort, Option.not_isSome_iff_eq_none.mp hvoice,
          Option.not_isSome_iff_eq_none.mp hinert⟩
  · intro h
    obtain ⟨rfl, hout⟩ := h
    simp [hout.nonempty, Nat.not_lt.mpr hout.short, hout.voice, hout.inert]

theorem cleanLabel_spec (h : cleanLabel unicode raw = some out) :
    Presentable unicode labelMax out := by
  obtain ⟨rfl, hout⟩ := cleanPhrase_eq_some.mp h
  exact hout

theorem cleanDelta_spec (h : cleanDelta unicode raw = some out) :
    Presentable unicode deltaMax out ∧ (splitWhitespace out.toList).length ≤ deltaMaxWords := by
  unfold cleanDelta at h
  dsimp only at h
  split at h
  · cases h
  · rename_i hwords
    obtain ⟨rfl, hout⟩ := cleanPhrase_eq_some.mp h
    exact ⟨hout, Nat.not_lt.mp hwords⟩

theorem defang_of_inert {s : List Char} (h : firstLinkableToken unicode s = none) :
    defang unicode s = some s := by
  unfold firstLinkableToken at h
  unfold defang
  rw [if_neg]
  simpa using h

end Checked

/-! ## What stands in for a phrase -/

/-- A repository or a CVE names a thread better than a user or an address. -/
def entityPriority (token : String) : Nat :=
  match (namespaceOf token).map fun p => String.ofList p.1 with
  | some "repo" => 0
  | some "cve" => 1
  | some "user" => 2
  | some "domain" => 3
  | some "url" => 4
  | _ => 5

def entityDisplay (token : String) : String :=
  ((namespaceOf token).map fun p => String.ofList p.2).getD token

/-- The name of a thread from its entities: the first of them, and how many more there are. -/
def autoLabel (entities : List String) : String :=
  match entities.insertionSort fun a b =>
    entityPriority a < entityPriority b ∨ entityPriority a = entityPriority b ∧ a ≤ b with
  | [] => ""
  | [head] => entityDisplay head
  | head :: rest => entityDisplay head ++ " +" ++ toString rest.length

def autoDelta (newStoryCount : Nat) : Option String :=
  match newStoryCount with
  | 0 => none
  | 1 => some "1 update"
  | n => some (toString n ++ " updates")

example : autoLabel ["user:dlewis", "repo:acme/auth", "cve:CVE-2026-1"] = "acme/auth +2" := by
  decide +kernel

end Bulletin
