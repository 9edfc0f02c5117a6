import Mathlib.Algebra.BigOperators.Group.Finset.Basic
import Mathlib.Algebra.Order.Field.Basic
import Mathlib.Data.Finset.Lattice.Fold
import Mathlib.Data.List.MinMax
import Mathlib.Data.Prod.Lex

/-! # Lookups under an identification

Holders carry tokens, an id and a value. A query finds the holder that has the most of its tokens,
counted by value; without value the smallest id is found. An identification names one token for
each class of them, and leaves the lookups alone where the tokens it moves carry nothing.
-/

namespace Lookup

/-! ## Sums over identified tokens -/

section Sums

variable {α M : Type} [DecidableEq α] [AddCancelCommMonoid M] {rep : α → α} {w : α → M}

theorem sum_image_of_moved
    (hmoved : ∀ x, rep x ≠ x → w x = 0 ∧ w (rep x) = 0) (q : Finset α) :
    ∑ e ∈ q.image rep, w e = ∑ e ∈ q, w e := by
  induction q using Finset.induction with
  | empty => simp
  | insert a q ha ih =>
      rw [Finset.image_insert]
      by_cases hfix : rep a = a
      · rw [hfix, Finset.sum_insert ha]
        by_cases hin : a ∈ q.image rep
        · obtain ⟨b, hb, hrep⟩ := Finset.mem_image.mp hin
          -- the other token of the query that stands for this one has moved
          have hne : rep b ≠ b := by
            intro hself
            exact ha (hrep ▸ hself.symm ▸ hb)
          have hzero : w a = 0 := hrep ▸ (hmoved b hne).2
          rw [Finset.insert_eq_of_mem hin, ih, hzero, zero_add]
        · rw [Finset.sum_insert hin, ih]
      · obtain ⟨hown, htarget⟩ := hmoved a hfix
        rw [Finset.sum_insert_zero htarget, Finset.sum_insert_zero hown, ih]

theorem sum_image_iff (hrep : ∀ x, rep (rep x) = rep x) :
    (∀ q : Finset α, ∑ e ∈ q.image rep, w e = ∑ e ∈ q, w e) ↔
      ∀ x, rep x ≠ x → w x = 0 ∧ w (rep x) = 0 := by
  constructor
  · intro h x hne
    have hsingle : w (rep x) = w x := by simpa using h {x}
    have hboth : w (rep x) = w x + w (rep x) := by
      have hpair := h {x, rep x}
      rwa [Finset.image_insert, Finset.image_singleton, hrep, Finset.insert_eq_of_mem (by simp),
        Finset.sum_singleton, Finset.sum_pair hne.symm] at hpair
    have hzero : w x = 0 := by simpa using hboth
    exact ⟨hzero, hsingle.trans hzero⟩
  · exact sum_image_of_moved

end Sums

/-! ## Holders -/

structure Catalog (α ι H K : Type) where
  holders : List H
  id : H → ι
  value : H → K
  tokens : H → List α

namespace Catalog

variable {α ι H K : Type} [DecidableEq α] [LinearOrder ι] [Field K] [LinearOrder K]
  (C : Catalog α ι H K) (q : Finset α)

/-- How many of the holder's tokens are in the query. -/
def overlap (h : H) : ℕ := (C.tokens h).countP (· ∈ q)

def hits : List H := C.holders.filter (0 < C.overlap q ·)

/-- More tokens by value first, then more value, then the smaller id. -/
def key (h : H) : Kᵒᵈ ×ₗ Kᵒᵈ ×ₗ ι :=
  toLex (OrderDual.toDual (C.overlap q h * C.value h),
    toLex (OrderDual.toDual (C.value h), C.id h))

def Finds (i : ι) : Prop :=
  ∃ h ∈ C.hits q, C.id h = i ∧ ∀ h' ∈ C.hits q, C.key q h ≤ C.key q h'

def oldest : WithTop ι := ((C.hits q).map C.id).minimum

variable {C q} {q' : Finset α} {i : ι} {h h' : H}

omit [LinearOrder ι] [Field K] [LinearOrder K] in
theorem mem_hits : h ∈ C.hits q ↔ h ∈ C.holders ∧ ∃ e ∈ C.tokens h, e ∈ q := by
  simp [hits, overlap, List.countP_pos_iff]

omit [Field K] [LinearOrder K] in
theorem oldest_eq_coe : C.oldest q = i ↔
    (∃ h ∈ C.hits q, C.id h = i) ∧ ∀ h ∈ C.hits q, i ≤ C.id h := by
  unfold oldest
  rw [List.minimum_eq_coe_iff, List.mem_map, List.forall_mem_map]

omit [Field K] [LinearOrder K] in
theorem le_oldest {bound : WithTop ι} :
    bound ≤ C.oldest q ↔ ∀ h ∈ C.hits q, bound ≤ C.id h := by
  constructor
  · intro hle h hh
    exact hle.trans (List.minimum_le_of_mem' (List.mem_map_of_mem hh))
  · intro hall
    refine List.le_minimum_of_forall_le ?_
    intro i hi
    obtain ⟨h, hh, rfl⟩ := List.mem_map.mp hi
    exact hall h hh

omit [Field K] [LinearOrder K] in
theorem oldest_eq_inf : C.oldest q = q.inf fun e => C.oldest {e} := by
  refine eq_of_forall_le_iff ?_
  intro bound
  rw [le_oldest, Finset.le_inf_iff]
  simp only [le_oldest, mem_hits, Finset.mem_singleton]
  grind

theorem key_le_iff : C.key q h ≤ C.key q h' ↔
    C.overlap q h' * C.value h' < C.overlap q h * C.value h ∨
      C.overlap q h * C.value h = C.overlap q h' * C.value h' ∧
        (C.value h' < C.value h ∨ C.value h = C.value h' ∧ C.id h ≤ C.id h') := by
  unfold key
  rw [Prod.Lex.toLex_le_toLex, Prod.Lex.toLex_le_toLex]
  simp only [OrderDual.toDual_lt_toDual, OrderDual.toDual_inj]

theorem finds_iff_head {sorted : List H} (hperm : sorted.Perm (C.hits q))
    (hsorted : sorted.Pairwise fun h h' => C.key q h ≤ C.key q h') :
    C.Finds q i ↔ sorted.head?.map C.id = some i := by
  unfold Finds
  simp only [← hperm.mem_iff]
  cases sorted with
  | nil => simp
  | cons first rest =>
      have hfirst : ∀ h ∈ first :: rest, C.key q first ≤ C.key q h := by
        intro h hh
        rcases List.mem_cons.mp hh with rfl | hh
        · exact le_refl _
        · exact (List.pairwise_cons.mp hsorted).1 h hh
      simp only [List.head?_cons, Option.map_some, Option.some.injEq]
      constructor
      · rintro ⟨h, hh, rfl, hle⟩
        have heq := le_antisymm (hfirst h hh) (hle first List.mem_cons_self)
        exact congrArg (fun key => (ofLex (ofLex key).2).2) heq
      · rintro rfl
        exact ⟨first, List.mem_cons_self, rfl, hfirst⟩

theorem finds_iff_oldest (hzero : ∀ h ∈ C.hits q, C.value h = 0) :
    C.Finds q i ↔ C.oldest q = i := by
  have hkey : ∀ h ∈ C.hits q, ∀ h' ∈ C.hits q, C.key q h ≤ C.key q h' ↔ C.id h ≤ C.id h' := by
    intro h hh h' hh'
    rw [key_le_iff, hzero h hh, hzero h' hh']
    simp
  rw [oldest_eq_coe]
  constructor
  · rintro ⟨h, hh, rfl, hfirst⟩
    exact ⟨⟨h, hh, rfl⟩, fun h' hh' => (hkey h hh h' hh').mp (hfirst h' hh')⟩
  · rintro ⟨⟨h, hh, rfl⟩, hleast⟩
    exact ⟨h, hh, rfl, fun h' hh' => (hkey h hh h' hh').mpr (hleast h' hh')⟩

variable [IsStrictOrderedRing K]

/-- A query finds what another finds where they overlap the holders of value alike, and have
the same oldest holder. -/
theorem Finds.congr (hvalue : ∀ h ∈ C.holders, 0 ≤ C.value h)
    (hsame : ∀ h ∈ C.holders, 0 < C.value h → C.overlap q h = C.overlap q' h)
    (holdest : C.oldest q = C.oldest q') (hfinds : C.Finds q i) : C.Finds q' i := by
  have hmem : ∀ {r : Finset α} {h : H}, h ∈ C.hits r ↔ h ∈ C.holders ∧ 0 < C.overlap r h := by
    intro r h
    simp [hits]
  obtain ⟨h, hh, hid, hfirst⟩ := hfinds
  obtain ⟨hin, hover⟩ := hmem.mp hh
  rcases (hvalue h hin).lt_or_eq with hpos | hzero
  · -- a holder of value keeps its overlap, and what overlaps without value comes after it
    refine ⟨h, hmem.mpr ⟨hin, hsame h hin hpos ▸ hover⟩, hid, ?_⟩
    intro g hg
    obtain ⟨hgin, hgover⟩ := hmem.mp hg
    rcases (hvalue g hgin).lt_or_eq with hgpos | hgzero
    · have hkept := hsame g hgin hgpos
      have hle := hfirst g (hmem.mpr ⟨hgin, hkept ▸ hgover⟩)
      rw [key_le_iff] at hle ⊢
      rwa [← hkept, ← hsame h hin hpos]
    · rw [key_le_iff, ← hgzero, mul_zero, ← hsame h hin hpos]
      have hcast : (0 : K) < C.overlap q h := by exact_mod_cast hover
      exact Or.inl (mul_pos hcast hpos)
  · have hnone : ∀ g ∈ C.hits q, C.value g = 0 := by
      intro g hg
      obtain ⟨hgin, hgover⟩ := hmem.mp hg
      rcases (hvalue g hgin).lt_or_eq with hgpos | hgzero
      · have hle := hfirst g hg
        have hcast : (0 : K) < C.overlap q g := by exact_mod_cast hgover
        have hscore := mul_pos hcast hgpos
        rw [key_le_iff, ← hzero, mul_zero] at hle
        rcases hle with hlt | ⟨heq, _⟩
        · exact absurd hlt (not_lt_of_gt hscore)
        · exact absurd heq hscore.ne
      · exact hgzero.symm
    have hnone' : ∀ g ∈ C.hits q', C.value g = 0 := by
      intro g hg
      obtain ⟨hgin, hgover⟩ := hmem.mp hg
      by_contra hne
      have hgpos := lt_of_le_of_ne (hvalue g hgin) (Ne.symm hne)
      exact hne (hnone g (hmem.mpr ⟨hgin, hsame g hgin hgpos ▸ hgover⟩))
    rw [finds_iff_oldest hnone', ← holdest, ← finds_iff_oldest hnone]
    exact ⟨h, hh, hid, hfirst⟩

/-! ## Identified queries -/

section Identified

variable {rep : α → α}

/-- No holder with a moved token, or with what it moved to, has value. -/
def Idle (C : Catalog α ι H K) (x y : α) : Prop :=
  ∀ h ∈ C.holders, x ∈ C.tokens h ∨ y ∈ C.tokens h → C.value h = 0

omit [LinearOrder ι] [IsStrictOrderedRing K] in
theorem overlap_image (hidle : ∀ x, rep x ≠ x → C.Idle x (rep x)) (hin : h ∈ C.holders)
    (hpos : 0 < C.value h) : C.overlap (q.image rep) h = C.overlap q h := by
  unfold overlap
  refine List.countP_congr ?_
  intro e he
  simp only [decide_eq_true_eq, Finset.mem_image]
  constructor
  · rintro ⟨x, hx, rfl⟩
    by_cases hfix : rep x = x
    · rwa [hfix]
    · exact absurd (hidle x hfix h hin (Or.inr he)) hpos.ne'
  · intro hq
    by_cases hfix : rep e = e
    · exact ⟨e, hq, hfix⟩
    · exact absurd (hidle e hfix h hin (Or.inl he)) hpos.ne'

omit [Field K] [LinearOrder K] [IsStrictOrderedRing K] in
theorem oldest_image (holdest : ∀ x, rep x ≠ x → C.oldest {rep x} = C.oldest {x}) :
    C.oldest (q.image rep) = C.oldest q := by
  have hall : ∀ x, C.oldest {rep x} = C.oldest {x} := by
    intro x
    by_cases hfix : rep x = x
    · rw [hfix]
    · exact holdest x hfix
  rw [oldest_eq_inf, oldest_eq_inf, Finset.inf_image]
  exact Finset.inf_congr rfl fun x _ => hall x

/-- Sums and lookups do not see an identification just when the tokens it moves, and those it
moves them to, are on no holder of value and have the same oldest holder. -/
theorem identified_iff {w : α → K} (hrep : ∀ x, rep (rep x) = rep x)
    (hvalue : ∀ h ∈ C.holders, 0 ≤ C.value h)
    (hweight : ∀ e, w e = 0 ↔ ∀ h ∈ C.holders, e ∈ C.tokens h → C.value h = 0) :
    (∀ q : Finset α, ∑ e ∈ q.image rep, w e = ∑ e ∈ q, w e ∧
        ∀ i, C.Finds (q.image rep) i ↔ C.Finds q i) ↔
      ∀ x, rep x ≠ x → C.Idle x (rep x) ∧ C.oldest {rep x} = C.oldest {x} := by
  have hidle : ∀ x, C.Idle x (rep x) ↔ w x = 0 ∧ w (rep x) = 0 := by
    intro x
    rw [hweight, hweight]
    unfold Idle
    grind
  constructor
  · intro hall x hne
    have hzero := (sum_image_iff hrep).mp (fun q => (hall q).1) x hne
    have hidleX := (hidle x).mpr hzero
    refine ⟨hidleX, ?_⟩
    have hfinds := (hall {x}).2
    rw [Finset.image_singleton] at hfinds
    have hnone : ∀ y, y = x ∨ y = rep x → ∀ h ∈ C.hits {y}, C.value h = 0 := by
      intro y hy h hh
      obtain ⟨hin, e, he, hey⟩ := mem_hits.mp hh
      obtain rfl := Finset.mem_singleton.mp hey
      rcases hy with rfl | rfl
      · exact hidleX h hin (Or.inl he)
      · exact hidleX h hin (Or.inr he)
    have hsame : ∀ i : ι, C.oldest {rep x} = i ↔ C.oldest {x} = i := by
      intro i
      rw [← finds_iff_oldest (hnone _ (Or.inr rfl)), ← finds_iff_oldest (hnone _ (Or.inl rfl))]
      exact hfinds i
    cases hmin : C.oldest {rep x} with
    | coe i => exact ((hsame i).mp hmin).symm
    | top =>
        cases hmin' : C.oldest {x} with
        | coe i => exact hmin ▸ (hsame i).mpr hmin'
        | top => rfl
  · intro hmoved q
    have hidleAll : ∀ x, rep x ≠ x → C.Idle x (rep x) := fun x hne => (hmoved x hne).1
    have hover : ∀ h ∈ C.holders, 0 < C.value h →
        C.overlap (q.image rep) h = C.overlap q h := fun h hin hpos =>
      overlap_image hidleAll hin hpos
    have holdest := @oldest_image α ι H K _ _ C q rep fun x hne => (hmoved x hne).2
    refine ⟨sum_image_of_moved (fun x hne => (hidle x).mp (hidleAll x hne)) q, ?_⟩
    intro i
    exact ⟨Finds.congr hvalue hover holdest,
      Finds.congr hvalue (fun h hin hpos => (hover h hin hpos).symm) holdest.symm⟩

end Identified

end Catalog

end Lookup
