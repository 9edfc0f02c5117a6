import Bulletin.Core.Lookup
import Bulletin.Thread.Pass

/-! # The thread of a story

A fire assigns a story the thread that shares the most of its entities, counted by affinity. Over
the tables a pass leaves this is a lookup by the tokens of the threads.
-/

namespace Bulletin

open Lookup

section Assign

variable {F : Type} [SelectScore F]

omit [SelectScore F] in
/-- How many of the thread's entities are among these. -/
def StoredThread.overlap (t : StoredThread F) (entities : List String) : Nat :=
  t.entities.countP (· ∈ entities)

/-- More overlap by affinity first, then more affinity, then the older id. -/
def assignOrder (entities : List String) (x y : Uuid × StoredThread F) : Ordering :=
  let score (e : Uuid × StoredThread F) : F := Score.lit (e.2.overlap entities) * e.2.affinity
  (SelectScore.totalCmp (score y) (score x)).then
    ((SelectScore.totalCmp y.2.affinity x.2.affinity).then (compare x.1 y.1))

def minOverlap : Int := 1

/-- The best of the subscriber's threads that share entities with a story. -/
def assignThread (s : ThreadStore F) (sub : Uuid) (entities : List String) (minOverlap : Int) :
    Option Uuid :=
  if entities = [] then none
  else
    let cand := (s.assignable sub).filter fun e =>
      e.2.entities.any (· ∈ entities) ∧ minOverlap ≤ e.2.overlap entities
    (cand.insertionSort fun x y => assignOrder entities x y ≠ .gt).head?.map (·.1)

end Assign

/-! ## Assignment as a lookup -/

section Lookup

variable {s : ThreadStore ℚ} {sub : Uuid} {entities : List String}

def ThreadStore.catalog (s : ThreadStore ℚ) (sub : Uuid) :
    Catalog String Uuid (Uuid × StoredThread ℚ) ℚ where
  holders := s.assignable sub
  id := (·.1)
  value := (·.2.affinity)
  tokens := (·.2.entities)

theorem catalog_overlap {e : Uuid × StoredThread ℚ} :
    (s.catalog sub).overlap entities.toFinset e = e.2.overlap entities := by
  simp [Catalog.overlap, ThreadStore.catalog, StoredThread.overlap]

theorem assignOrder_ne_gt {x y : Uuid × StoredThread ℚ} :
    assignOrder entities x y ≠ .gt ↔
      (s.catalog sub).key entities.toFinset x ≤ (s.catalog sub).key entities.toFinset y := by
  have hlit : ∀ n : Nat, (Score.lit n : ℚ) = n := by
    intro n
    simp [Score.lit]
  have hid : compare x.1 y.1 ≠ .gt ↔ x.1 ≤ y.1 := by rw [ne_eq, compare_gt_iff_gt, not_lt]
  rw [Catalog.key_le_iff, catalog_overlap, catalog_overlap]
  unfold assignOrder
  dsimp only
  rw [hlit, hlit]
  show (compare (y.2.overlap entities * y.2.affinity) (x.2.overlap entities * x.2.affinity)).then
    ((compare y.2.affinity x.2.affinity).then _) ≠ .gt ↔
      y.2.overlap entities * y.2.affinity < x.2.overlap entities * x.2.affinity ∨
        x.2.overlap entities * x.2.affinity = y.2.overlap entities * y.2.affinity ∧
          (y.2.affinity < x.2.affinity ∨ x.2.affinity = y.2.affinity ∧ x.1 ≤ y.1)
  generalize (y.2.overlap entities * y.2.affinity : ℚ) = b
  generalize (x.2.overlap entities * x.2.affinity : ℚ) = a
  rcases lt_trichotomy b a with h | h | h
  · rw [compare_lt_iff_lt.mpr h]
    simp [Ordering.then, h]
  · rw [compare_eq_iff_eq.mpr h]
    rcases lt_trichotomy y.2.affinity x.2.affinity with haff | haff | haff
    · rw [compare_lt_iff_lt.mpr haff]
      simp [Ordering.then, h, haff]
    · rw [compare_eq_iff_eq.mpr haff]
      simp [Ordering.then, h, haff, hid]
    · rw [compare_gt_iff_gt.mpr haff]
      simp [Ordering.then, h, not_lt_of_gt haff, ne_of_lt haff]
  · rw [compare_gt_iff_gt.mpr h]
    simp [Ordering.then, not_lt_of_gt h, ne_of_lt h]

theorem assignThread_eq_some {i : Uuid} : assignThread s sub entities minOverlap = some i ↔
    (s.catalog sub).Finds entities.toFinset i := by
  have hcand : ((s.assignable sub).filter fun e =>
      decide (e.2.entities.any (· ∈ entities) ∧ minOverlap ≤ e.2.overlap entities)) =
        (s.catalog sub).hits entities.toFinset := by
    refine List.filter_congr ?_
    intro e _
    have hpos : 0 < e.2.overlap entities ↔ e.2.entities.any (· ∈ entities) = true := by
      simp [StoredThread.overlap, List.countP_pos_iff]
    rw [catalog_overlap, decide_eq_decide, ← hpos]
    unfold minOverlap
    omega
  by_cases hnil : entities = []
  · subst hnil
    simp [assignThread, Catalog.Finds, Catalog.mem_hits]
  · have hperm := List.perm_insertionSort (fun x y => assignOrder entities x y ≠ .gt)
      ((s.catalog sub).hits entities.toFinset)
    have htotal : Std.Total fun x y : Uuid × StoredThread ℚ => assignOrder entities x y ≠ .gt :=
      ⟨fun x y => by
        simp only [@assignOrder_ne_gt s sub]
        exact le_total _ _⟩
    have htrans : IsTrans (Uuid × StoredThread ℚ) fun x y => assignOrder entities x y ≠ .gt :=
      ⟨fun x y z hxy hyz => by
        rw [@assignOrder_ne_gt s sub] at hxy hyz ⊢
        exact le_trans hxy hyz⟩
    have hsorted := List.pairwise_insertionSort (fun x y => assignOrder entities x y ≠ .gt)
      ((s.catalog sub).hits entities.toFinset)
    rw [Catalog.finds_iff_head hperm (hsorted.imp fun h => assignOrder_ne_gt.mp h)]
    unfold assignThread
    rw [if_neg hnil]
    dsimp only
    rw [hcand]
    rfl

theorem assignThread_eq_iff {entities' : List String} :
    assignThread s sub entities minOverlap = assignThread s sub entities' minOverlap ↔
      ∀ i, (s.catalog sub).Finds entities.toFinset i ↔
        (s.catalog sub).Finds entities'.toFinset i := by
  simp only [← assignThread_eq_some]
  exact Option.ext_iff

end Lookup

end Bulletin
