import Mathlib.Algebra.BigOperators.Group.List.Basic
import Mathlib.Data.List.Sort
import Mathlib.Data.Prod.Lex
import Mathlib.Order.Nat
import Mathlib.Order.Fin.Basic
import Std.Data.ExtTreeMap

/-! # Collecting a list into an ordered map

One pass over a list folds every item into the map entry of its key. What the
entry holds at the end is the fold over the items with that key, in their order.
-/

namespace Buckets

instance lawfulEqOrdLex {α β : Type*} [Ord α] [Ord β] [Std.LawfulEqOrd α] [Std.LawfulEqOrd β] :
    Std.LawfulEqOrd (α ×ₗ β) where
  compare_self := by
    intro x
    simp [Prod.Lex.compare_def, compareLex, compareOn]
  eq_of_compare := by
    intro x y h
    simp only [Prod.Lex.compare_def, compareLex_eq_eq, compareOn,
      Std.LawfulEqCmp.compare_eq_iff_eq] at h
    exact Prod.ext h.1 h.2

variable {ι κ β : Type} {cmp : κ → κ → Ordering} [Std.TransCmp cmp]

/-- Fold each item into the entry of its key; `add` gets the entry so far, if any. -/
def collect (key : ι → κ) (add : Option β → ι → β) (xs : List ι)
    (m : Std.ExtTreeMap κ β cmp) : Std.ExtTreeMap κ β cmp :=
  xs.foldl (fun m x => m.alter (key x) fun entry => some (add entry x)) m

def gather (add : Option β → ι → β) (xs : List ι) (entry : Option β) : Option β :=
  xs.foldl (fun entry x => some (add entry x)) entry

@[simp] theorem gather_nil (add : Option β → ι → β) (entry : Option β) :
    gather add [] entry = entry := rfl

@[simp] theorem gather_cons (add : Option β → ι → β) (x : ι) (xs : List ι) (entry : Option β) :
    gather add (x :: xs) entry = gather add xs (some (add entry x)) := rfl

theorem gather_map {ι' : Type} (add : Option β → ι' → β) (value : ι → ι') (xs : List ι)
    (entry : Option β) :
    gather (fun entry x => add entry (value x)) xs entry = gather add (xs.map value) entry := by
  unfold gather
  rw [List.foldl_map]

theorem gather_isSome (add : Option β → ι → β) (xs : List ι) (entry : Option β) :
    (gather add xs entry).isSome ↔ xs ≠ [] ∨ entry.isSome := by
  induction xs generalizing entry with
  | nil => simp
  | cons x xs ih => simp [ih]

theorem gather_push (value : ι → β) (xs : List ι) (entry : Option (List β)) :
    (gather (fun entry x => entry.getD [] ++ [value x]) xs entry).getD [] =
      entry.getD [] ++ xs.map value := by
  induction xs generalizing entry with
  | nil => simp
  | cons x xs ih => simp [ih]

theorem gather_overwrite (value : ι → β) (xs : List ι) :
    gather (fun _ x => value x) xs none = xs.getLast?.map value := by
  have h : ∀ entry, gather (fun _ x => value x) xs entry = (xs.getLast?.map value).or entry := by
    induction xs with
    | nil => simp
    | cons x xs ih =>
        intro entry
        rw [gather_cons, ih]
        cases xs with
        | nil => simp
        | cons y ys => simp [List.getLast?_cons]
  simpa using h none

/-- The last value of some lists in a row is the last of the last list that has one. -/
theorem getLast?_flatMap {f : ι → List β} {xs : List ι} {y : β}
    (h : (xs.flatMap f).getLast? = some y) :
    ∃ pre x post, xs = pre ++ x :: post ∧ (f x).getLast? = some y ∧ ∀ z ∈ post, f z = [] := by
  induction xs with
  | nil => cases h
  | cons x xs ih =>
      rw [List.flatMap_cons, List.getLast?_append] at h
      cases hrest : (xs.flatMap f).getLast? with
      | some y' =>
          rw [hrest, Option.some_or] at h
          obtain rfl := Option.some.inj h
          obtain ⟨pre, x', post, rfl, hx', hpost⟩ := ih hrest
          exact ⟨x :: pre, x', post, rfl, hx', hpost⟩
      | none =>
          rw [hrest, Option.none_or] at h
          refine ⟨[], x, xs, rfl, h, ?_⟩
          exact List.flatMap_eq_nil_iff.mp (List.getLast?_eq_none_iff.mp hrest)

def alterAll (key : ι → κ) (change : ι → Option β → Option β) (xs : List ι)
    (m : Std.ExtTreeMap κ β cmp) : Std.ExtTreeMap κ β cmp :=
  xs.foldl (fun m x => m.alter (key x) (change x)) m

variable [Std.LawfulEqCmp cmp] [DecidableEq κ]

theorem alterAll_getElem? (key : ι → κ) (change : ι → Option β → Option β) (xs : List ι)
    (m : Std.ExtTreeMap κ β cmp) (k : κ) :
    (alterAll key change xs m)[k]? =
      (xs.filter fun x => key x = k).foldl (fun entry x => change x entry) m[k]? := by
  induction xs generalizing m with
  | nil => rfl
  | cons x xs ih =>
      show (alterAll key change xs (m.alter (key x) (change x)))[k]? = _
      rw [ih, Std.ExtTreeMap.getElem?_alter]
      by_cases hk : key x = k
      · subst hk
        simp
      · have hne : cmp (key x) k ≠ .eq := fun h => hk (Std.LawfulEqCmp.eq_of_compare h)
        simp [hk, hne]

theorem collect_getElem? (key : ι → κ) (add : Option β → ι → β) (xs : List ι)
    (m : Std.ExtTreeMap κ β cmp) (k : κ) :
    (collect key add xs m)[k]? = gather add (xs.filter fun x => key x = k) m[k]? :=
  alterAll_getElem? key (fun x entry => some (add entry x)) xs m k

theorem collect_empty (key : ι → κ) (add : Option β → ι → β) (xs : List ι) (k : κ) (d : β) :
    (collect key add xs (∅ : Std.ExtTreeMap κ β cmp))[k]? =
      if xs.filter (fun x => key x = k) = [] then none
      else some ((gather add (xs.filter fun x => key x = k) none).getD d) := by
  have hsome := gather_isSome add (xs.filter fun x => key x = k) none
  rw [collect_getElem?, Std.ExtTreeMap.getElem?_empty]
  generalize gather add (xs.filter fun x => key x = k) none = entry at hsome ⊢
  cases entry with
  | none => rw [if_pos (by simpa using hsome)]
  | some found => rw [if_neg (by simpa using hsome), Option.getD_some]

theorem collect_push (key : ι → κ) (value : ι → β) (xs : List ι) (k : κ) :
    (collect key (fun entry x => entry.getD [] ++ [value x]) xs
        (∅ : Std.ExtTreeMap κ (List β) cmp))[k]? =
      if (xs.filter fun x => key x = k).map value = [] then none
      else some ((xs.filter fun x => key x = k).map value) := by
  rw [collect_empty _ _ _ _ [], gather_push]
  simp

theorem alterAll_untouched {key : ι → κ} {change : ι → Option β → Option β} {xs : List ι}
    {m : Std.ExtTreeMap κ β cmp} {k : κ} (h : ∀ x ∈ xs, key x ≠ k) :
    (alterAll key change xs m)[k]? = m[k]? := by
  rw [alterAll_getElem?, List.filter_eq_nil_iff.mpr fun x hx => by simpa using h x hx]
  rfl

theorem alterAll_of_mem {key : ι → κ} {change : ι → Option β → Option β} {xs : List ι}
    {m : Std.ExtTreeMap κ β cmp} {x : ι} (hnodup : (xs.map key).Nodup) (hx : x ∈ xs) :
    (alterAll key change xs m)[key x]? = change x m[key x]? := by
  obtain ⟨before, after, rfl⟩ := List.append_of_mem hx
  rw [List.map_append, List.map_cons, List.nodup_append] at hnodup
  obtain ⟨_, hafter, hbefore⟩ := hnodup
  have hpre : (before.filter fun y => key y = key x) = [] := by
    refine List.filter_eq_nil_iff.mpr ?_
    intro y hy
    simpa using hbefore (key y) (List.mem_map_of_mem hy) (key x) List.mem_cons_self
  have hpost : (after.filter fun y => key y = key x) = [] := by
    refine List.filter_eq_nil_iff.mpr ?_
    intro y hy heq
    exact (List.nodup_cons.mp hafter).1 (List.mem_map.mpr ⟨y, hy, of_decide_eq_true heq⟩)
  rw [alterAll_getElem?, List.filter_append, hpre, List.filter_cons_of_pos (by simp), hpost]
  rfl

theorem mem_collect (key : ι → κ) (add : Option β → ι → β) (xs : List ι)
    (m : Std.ExtTreeMap κ β cmp) (k : κ) :
    k ∈ collect key add xs m ↔ (∃ x ∈ xs, key x = k) ∨ k ∈ m := by
  rw [← Std.ExtTreeMap.isSome_getElem?_iff_mem, ← Std.ExtTreeMap.isSome_getElem?_iff_mem,
    collect_getElem?, gather_isSome]
  simp

/-- Adding each item's value under its key leaves the sum of the values under each key. -/
theorem getD_foldl_add {M : Type} [AddCommMonoid M] (key : ι → κ) (value : ι → M) (xs : List ι)
    (m : Std.ExtTreeMap κ M cmp) (k : κ) :
    (xs.foldl (fun m x => m.insert (key x) (m.getD (key x) 0 + value x)) m).getD k 0 =
      m.getD k 0 + ((xs.filter fun x => key x = k).map value).sum := by
  induction xs generalizing m with
  | nil => simp
  | cons x xs ih =>
      rw [List.foldl_cons, ih, Std.ExtTreeMap.getD_insert]
      by_cases hk : key x = k
      · subst hk
        simp [add_assoc]
      · simp [hk]

/-! ## Maps with one key set -/

omit [DecidableEq κ] [Std.LawfulEqCmp cmp] in
/-- Two lists in the order of the comparison are equal when they have the same elements. -/
theorem eq_of_ordered {l l' : List κ} (h : l.Pairwise fun a b => cmp a b = .lt)
    (h' : l'.Pairwise fun a b => cmp a b = .lt) (hmem : ∀ k, k ∈ l ↔ k ∈ l') : l = l' := by
  have hasymm : Std.Asymm fun a b : κ => cmp a b = .lt :=
    ⟨fun _ _ hab => Std.OrientedCmp.not_lt_of_lt hab⟩
  exact h.eq_of_mem_iff h' hmem

omit [DecidableEq κ] in
theorem keys_eq_of_mem_iff {γ : Type} {t : Std.ExtTreeMap κ β cmp} {t' : Std.ExtTreeMap κ γ cmp}
    (h : ∀ k, k ∈ t ↔ k ∈ t') : t.keys = t'.keys := by
  refine eq_of_ordered Std.ExtTreeMap.ordered_keys Std.ExtTreeMap.ordered_keys ?_
  intro k
  rw [Std.ExtTreeMap.mem_keys, Std.ExtTreeMap.mem_keys, h]

omit [DecidableEq κ] in
theorem toList_eq_map_keys (t : Std.ExtTreeMap κ β cmp) (d : β) :
    t.toList = t.keys.map fun k => (k, (t[k]?).getD d) := by
  rw [← Std.ExtTreeMap.map_fst_toList_eq_keys, List.map_map]
  refine (List.map_id _).symm.trans (List.map_congr_left ?_)
  intro entry hentry
  have hget := Std.ExtTreeMap.mem_toList_iff_getElem?_eq_some.mp hentry
  simp [hget]

end Buckets
