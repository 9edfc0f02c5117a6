import Bulletin.Core.Text

/-! # Searches that pass over what they matched

A text is searched from left to right, and after a match the search goes on some positions further.
It finds what a look at every position finds if there is nothing to find at those it passes over.
-/

namespace Scan

variable {α β : Type*}

/-- Look at a position, with the element before it: what is found there, and how many of the next
positions are passed over. -/
def scan (probe : Option α → List α → Option β × Nat) : Nat → Option α → List α → List β
  | _, _, [] => []
  | skip + 1, _, c :: s => scan probe skip (some c) s
  | 0, prev, c :: s =>
      (probe prev (c :: s)).1.toList ++ scan probe (probe prev (c :: s)).2 (some c) s

/-- What is found at all positions. -/
def everyHit (hit : Option α → List α → Option β) : Option α → List α → List β
  | _, [] => []
  | prev, c :: s => (hit prev (c :: s)).toList ++ everyHit hit (some c) s

section Search

variable {probe : Option α → List α → Option β × Nat} {hit : Option α → List α → Option β}
  {prev : Option α} {c : α} {s x y : List α} {skip : Nat} {b : β}

theorem getLast?_cons_or : ((c :: x).getLast?).or prev = x.getLast?.or (some c) := by
  cases x with
  | nil => rfl
  | cons a x => simp [List.getLast?_cons]

theorem scan_pass : scan probe x.length prev (x ++ y) = scan probe 0 (x.getLast?.or prev) y := by
  induction x generalizing prev with
  | nil => simp
  | cons c x ih => rw [getLast?_cons_or, List.length_cons, List.cons_append, scan, ih]

theorem scan_quiet (h : ∀ a t, x = a ++ t → t ≠ [] → ∀ prev, probe prev (t ++ y) = (none, 0)) :
    scan probe 0 prev (x ++ y) = scan probe 0 (x.getLast?.or prev) y := by
  induction x generalizing prev with
  | nil => simp
  | cons c x ih =>
      have hhere : probe prev (c :: (x ++ y)) = (none, 0) :=
        h [] (c :: x) rfl (List.cons_ne_nil c x) prev
      rw [getLast?_cons_or, List.cons_append, scan, hhere, ← ih]
      · rfl
      · intro a t hx
        exact h (c :: a) t (by rw [hx]; rfl)

theorem mem_everyHit : b ∈ everyHit hit prev s ↔
    ∃ a c t, s = a ++ c :: t ∧ hit (a.getLast?.or prev) (c :: t) = some b := by
  induction s generalizing prev with
  | nil => simp [everyHit]
  | cons c s ih =>
      rw [everyHit, List.mem_append, ih, Option.mem_toList]
      constructor
      · rintro (hhere | ⟨a, d, t, rfl, hlater⟩)
        · exact ⟨[], c, s, rfl, by simpa using hhere⟩
        · exact ⟨c :: a, d, t, rfl, by rw [getLast?_cons_or]; exact hlater⟩
      · rintro ⟨a, d, t, heq, hfound⟩
        cases a with
        | nil =>
            obtain ⟨rfl, rfl⟩ := List.cons.inj heq
            exact Or.inl (by simpa using hfound)
        | cons x a =>
            obtain ⟨rfl, rfl⟩ := List.cons.inj heq
            rw [getLast?_cons_or] at hfound
            exact Or.inr ⟨a, d, t, rfl, hfound⟩

def Quiet (hit : Option α → List α → Option β) (skip : Nat) (prev : Option α) (s : List α) : Prop :=
  ∀ a c t, s = a ++ c :: t → a.length < skip → hit (a.getLast?.or prev) (c :: t) = none

/-- The positions after a match that the search passes over have nothing to find. -/
def PassesNothing (probe : Option α → List α → Option β × Nat) : Prop :=
  ∀ prev c s, Quiet (fun prev s => (probe prev s).1) (probe prev (c :: s)).2 (some c) s

theorem Quiet.tail (h : Quiet hit (skip + 1) prev (c :: s)) :
    hit prev (c :: s) = none ∧ Quiet hit skip (some c) s := by
  refine ⟨by simpa using h [] c s rfl (Nat.succ_pos skip), fun a d t hs hshort => ?_⟩
  have hlater := h (c :: a) d t (by rw [hs]; rfl) (Nat.succ_lt_succ hshort)
  rwa [getLast?_cons_or] at hlater

theorem scan_eq_everyHit (hpass : PassesNothing probe)
    (hquiet : Quiet (fun prev s => (probe prev s).1) skip prev s) :
    scan probe skip prev s = everyHit (fun prev s => (probe prev s).1) prev s := by
  induction s generalizing skip prev with
  | nil => cases skip <;> rfl
  | cons c s ih =>
      cases skip with
      | zero => rw [scan, everyHit, ih (hpass prev c s)]
      | succ skip =>
          obtain ⟨hhere, hrest⟩ := hquiet.tail
          rw [scan, everyHit, ih hrest, hhere]
          rfl

theorem quiet_zero : Quiet hit 0 prev s := fun _ _ _ _ h => absurd h (Nat.not_lt_zero _)

end Search

end Scan

namespace Text

/-! ## The first occurrence of a text -/

/-- The byte offset of the first occurrence. -/
def find (pat : List Char) : List Char → Option Nat
  | [] => if pat = [] then some 0 else none
  | c :: s =>
      if pat.isPrefixOf (c :: s) then some 0 else (find pat s).map (c.utf8Size + ·)

section Find

variable {pat s : List Char} {pos : Nat}

theorem find_eq_some (h : find pat s = some pos) : ∃ x y, s = x ++ (pat ++ y) ∧ byteLen x = pos ∧
    ∀ a t, x = a ++ t → t ≠ [] → ¬ pat <+: t ++ (pat ++ y) := by
  induction s generalizing pos with
  | nil =>
      unfold find at h
      split at h
      · rename_i hnil
        obtain rfl : 0 = pos := Option.some.inj h
        refine ⟨[], [], by simp [hnil], rfl, fun a t hx hne => ?_⟩
        exact absurd (List.append_eq_nil_iff.mp hx.symm).2 hne
      · cases h
  | cons c s ih =>
      unfold find at h
      split at h
      · rename_i hhere
        obtain rfl : 0 = pos := Option.some.inj h
        obtain ⟨y, hy⟩ := List.isPrefixOf_iff_prefix.mp hhere
        refine ⟨[], y, hy.symm, rfl, fun a t hx hne => ?_⟩
        exact absurd (List.append_eq_nil_iff.mp hx.symm).2 hne
      · rename_i hhere
        obtain ⟨n, hn, rfl⟩ := Option.map_eq_some_iff.mp h
        obtain ⟨x, y, rfl, hlen, hfirst⟩ := ih hn
        refine ⟨c :: x, y, rfl, by simp [byteLen, ← hlen], fun a t hx hne => ?_⟩
        cases a with
        | nil =>
            rw [List.nil_append] at hx
            rw [← hx, ← List.isPrefixOf_iff_prefix]
            exact hhere
        | cons d a =>
            obtain ⟨rfl, htail⟩ := List.cons.inj hx
            exact hfirst a t htail hne

theorem find_eq_none (h : find pat s = none) : ∀ a t, s = a ++ t → ¬ pat <+: t := by
  induction s with
  | nil =>
      unfold find at h
      split at h
      · cases h
      · rename_i hne
        intro a t hs hpre
        rw [(List.append_eq_nil_iff.mp hs.symm).2] at hpre
        exact hne (List.prefix_nil.mp hpre)
  | cons c s ih =>
      unfold find at h
      split at h
      · cases h
      · rename_i hhere
        intro a t hs
        cases a with
        | nil =>
            rw [List.nil_append] at hs
            rw [← hs, ← List.isPrefixOf_iff_prefix]
            exact hhere
        | cons d a =>
            exact ih (Option.map_eq_none_iff.mp h) a t (List.cons.inj hs).2

end Find

end Text
