import Mathlib.Data.Fintype.Card
import Mathlib.Data.Finset.Lattice.Fold
import Mathlib.Data.Setoid.Basic

/-! # Disjoint-set forests with a payload at each root

Parent pointers, union by rank and path halving over a finite node type. A root
carries the join of the payloads of its class. Rank growth along non-root
parent pointers is a field of the structure, so a cyclic forest cannot be built
and every loop below ends within the number of nodes. Clients reason about
`root` and `Same` only; the pointers themselves never leave this file.
-/

namespace DisjointSet

/-- Rank strictly grows along every parent pointer that is not a self loop. -/
structure Forest (α β : Type*) where
  parent : α → α
  rank : α → Nat
  payload : α → β
  rank_lt : ∀ x, parent x ≠ x → rank x < rank (parent x)

namespace Forest

variable {α β : Type*}

def init (payload : α → β) : Forest α β where
  parent := id
  rank := fun _ => 0
  payload := payload
  rank_lt := fun _ h => (h rfl).elim

theorem rank_le_parent (f : Forest α β) (x : α) : f.rank x ≤ f.rank (f.parent x) := by
  by_cases h : f.parent x = x
  · rw [h]
  · exact Nat.le_of_lt (f.rank_lt x h)

private theorem rank_lt_grandparent (f : Forest α β) (x : α) (h : ¬ f.parent x = x) :
    f.rank x < f.rank (f.parent (f.parent x)) :=
  Nat.lt_of_lt_of_le (f.rank_lt x h) (f.rank_le_parent _)

theorem rank_le_iterate (f : Forest α β) (x : α) (k : Nat) :
    f.rank x ≤ f.rank (f.parent^[k] x) := by
  induction k with
  | zero => exact le_refl _
  | succ k ih =>
      rw [Function.iterate_succ_apply']
      exact le_trans ih (f.rank_le_parent _)

theorem acyclic (f : Forest α β) {x : α} {k : Nat} (hk : 0 < k) (h : f.parent^[k] x = x) :
    f.parent x = x := by
  by_contra hne
  obtain ⟨k, rfl⟩ := Nat.exists_eq_succ_of_ne_zero (Nat.ne_of_gt hk)
  rw [Function.iterate_succ_apply] at h
  have hup := f.rank_le_iterate (f.parent x) k
  rw [h] at hup
  exact absurd (f.rank_lt x hne) (Nat.not_lt_of_le hup)

/-! ## Roots -/

section Roots

variable [Fintype α]

/-- The node reached after as many parent steps as there are nodes. -/
def root (f : Forest α β) (x : α) : α := f.parent^[Fintype.card α] x

def Same (f : Forest α β) (x y : α) : Prop := f.root x = f.root y

instance [DecidableEq α] (f : Forest α β) (x y : α) : Decidable (f.Same x y) :=
  inferInstanceAs (Decidable (f.root x = f.root y))

def classes (f : Forest α β) : Setoid α := Setoid.ker f.root

theorem classes_iff {f : Forest α β} {x y : α} : f.classes x y ↔ f.Same x y := Iff.rfl

/-- Nodes of larger rank: the steps a parent chain from `x` can still take. -/
private def above (f : Forest α β) (x : α) : Finset α :=
  Finset.univ.filter fun y => f.rank x < f.rank y

private theorem above_parent_ssubset (f : Forest α β) (x : α) (h : f.parent x ≠ x) :
    f.above (f.parent x) ⊂ f.above x := by
  have hlt := f.rank_lt x h
  refine Finset.ssubset_iff_of_subset ?_ |>.mpr ⟨f.parent x, ?_, ?_⟩
  · intro y hy
    simp only [above, Finset.mem_filter, Finset.mem_univ, true_and] at hy ⊢
    omega
  · simpa [above] using hlt
  · simp [above]

private theorem above_card_lt (f : Forest α β) (x : α) : (f.above x).card < Fintype.card α := by
  refine Finset.card_lt_univ_of_notMem (x := x) ?_
  simp [above]

private theorem iterate_isRoot (f : Forest α β) (k : Nat) (x : α) (hk : (f.above x).card ≤ k) :
    f.parent (f.parent^[k] x) = f.parent^[k] x := by
  induction k generalizing x with
  | zero =>
      by_contra h
      have hlt := Finset.card_lt_card (f.above_parent_ssubset x h)
      omega
  | succ k ih =>
      rw [Function.iterate_succ_apply]
      by_cases h : f.parent x = x
      · rw [h]
        have hfix : f.parent^[k] x = x := Function.iterate_fixed h k
        rw [hfix, h]
      · have hlt := Finset.card_lt_card (f.above_parent_ssubset x h)
        exact ih (f.parent x) (by omega)

theorem parent_root (f : Forest α β) (x : α) : f.parent (f.root x) = f.root x :=
  f.iterate_isRoot _ x (Nat.le_of_lt (f.above_card_lt x))

theorem root_of_isRoot (f : Forest α β) {x : α} (h : f.parent x = x) : f.root x = x :=
  Function.iterate_fixed h _

theorem root_parent (f : Forest α β) (x : α) : f.root (f.parent x) = f.root x := by
  have h : f.parent^[Fintype.card α] (f.parent x) = f.parent (f.parent^[Fintype.card α] x) :=
    (Function.Commute.iterate_self f.parent _ x)
  exact h.trans (f.parent_root x)

@[simp] theorem root_root (f : Forest α β) (x : α) : f.root (f.root x) = f.root x :=
  f.root_of_isRoot (f.parent_root x)

theorem isRoot_iff (f : Forest α β) {x : α} : f.parent x = x ↔ f.root x = x := by
  constructor
  · exact f.root_of_isRoot
  · intro h
    have hp := f.parent_root x
    rwa [h] at hp

/-- A map that fixes every root and ignores parent steps is the root map. This is
how each operation below is related to the roots before it. -/
theorem root_eq_of_invariant (f : Forest α β) (g : α → α)
    (hfix : ∀ x, f.parent x = x → g x = x) (hstep : ∀ x, g (f.parent x) = g x) :
    f.root = g := by
  funext x
  have hiter : ∀ k, g (f.parent^[k] x) = g x := by
    intro k
    induction k with
    | zero => rfl
    | succ k ih => rw [Function.iterate_succ_apply', hstep, ih]
  calc f.root x = g (f.root x) := (hfix _ (f.parent_root x)).symm
    _ = g x := hiter _

theorem Same.refl (f : Forest α β) (x : α) : f.Same x x := rfl

theorem Same.symm {f : Forest α β} {x y : α} (h : f.Same x y) : f.Same y x := Eq.symm h

theorem Same.trans {f : Forest α β} {x y z : α} (h₁ : f.Same x y) (h₂ : f.Same y z) :
    f.Same x z := Eq.trans h₁ h₂

theorem init_root (payload : α → β) (x : α) : (init payload).root x = x :=
  root_of_isRoot _ rfl

end Roots

/-! ## Find, with path halving -/

section Find

variable [DecidableEq α]

def redirect (f : Forest α β) (x p : α) (h : f.rank x < f.rank p) : Forest α β where
  parent := Function.update f.parent x p
  rank := f.rank
  payload := f.payload
  rank_lt := by
    intro z hz
    by_cases hzx : z = x
    · subst z
      simpa using h
    · simp only [Function.update_of_ne hzx] at hz ⊢
      exact f.rank_lt z hz

/-- The halving loop: `parent[x] = parent[parent[x]]; x = parent[x]` until `x` is a root. -/
def findLoop : Nat → Forest α β → α → α × Forest α β
  | 0, f, x => (x, f)
  | fuel + 1, f, x =>
      if h : f.parent x = x then (x, f)
      else
        findLoop fuel (f.redirect x (f.parent (f.parent x)) (f.rank_lt_grandparent x h))
          (f.parent (f.parent x))

variable [Fintype α]

/-- The root of `x`, and the forest its search leaves behind. -/
def find (f : Forest α β) (x : α) : α × Forest α β := findLoop (Fintype.card α) f x

theorem redirect_root (f : Forest α β) (x p : α) (h : f.rank x < f.rank p)
    (hp : f.root p = f.root x) : (f.redirect x p h).root = f.root := by
  refine root_eq_of_invariant _ f.root ?_ ?_
  · intro z hz
    by_cases hzx : z = x
    · subst z
      have hpx : p = x := by simpa [redirect] using hz
      rw [hpx] at h
      exact (Nat.lt_irrefl _ h).elim
    · have hz' : f.parent z = z := by simpa [redirect, hzx] using hz
      exact f.root_of_isRoot hz'
  · intro z
    by_cases hzx : z = x
    · subst z
      simpa [redirect] using hp
    · simpa [redirect, hzx] using f.root_parent z

private theorem redirect_above (f : Forest α β) (x p : α) (h : f.rank x < f.rank p) (z : α) :
    (f.redirect x p h).above z = f.above z := rfl

/-- What one search does: the classes, ranks and payloads stay, and with enough
fuel the node returned is the root. -/
theorem findLoop_spec (fuel : Nat) (f : Forest α β) (x : α) :
    (findLoop fuel f x).2.root = f.root ∧ (findLoop fuel f x).2.rank = f.rank ∧
      (findLoop fuel f x).2.payload = f.payload ∧
      ((f.above x).card ≤ fuel → (findLoop fuel f x).1 = f.root x) := by
  induction fuel generalizing f x with
  | zero =>
      refine ⟨rfl, rfl, rfl, ?_⟩
      intro hk
      exact (f.root_of_isRoot (f.iterate_isRoot 0 x hk)).symm
  | succ fuel ih =>
      by_cases h : f.parent x = x
      · simp only [findLoop, dif_pos h]
        refine ⟨trivial, trivial, trivial, ?_⟩
        intro _
        exact (f.root_of_isRoot h).symm
      · simp only [findLoop, dif_neg h]
        have hgp : f.root (f.parent (f.parent x)) = f.root x := by
          rw [f.root_parent, f.root_parent]
        have hroot := f.redirect_root x _ (f.rank_lt_grandparent x h) hgp
        obtain ⟨h1, h2, h3, h4⟩ :=
          ih (f.redirect x (f.parent (f.parent x)) (f.rank_lt_grandparent x h))
            (f.parent (f.parent x))
        refine ⟨h1.trans hroot, h2, h3, ?_⟩
        intro hk
        have hup : (f.above (f.parent (f.parent x))).card < (f.above x).card := by
          refine Finset.card_lt_card (lt_of_le_of_lt ?_ (f.above_parent_ssubset x h))
          by_cases h' : f.parent (f.parent x) = f.parent x
          · rw [h']
          · exact (f.above_parent_ssubset _ h').subset
        rw [h4 (by rw [redirect_above]; omega), hroot, hgp]

theorem find_fst (f : Forest α β) (x : α) : (f.find x).1 = f.root x :=
  (findLoop_spec _ f x).2.2.2 (Nat.le_of_lt (f.above_card_lt x))

@[simp] theorem find_root (f : Forest α β) (x : α) : (f.find x).2.root = f.root :=
  (findLoop_spec _ f x).1

@[simp] theorem find_rank (f : Forest α β) (x : α) : (f.find x).2.rank = f.rank :=
  (findLoop_spec _ f x).2.1

@[simp] theorem find_payload (f : Forest α β) (x : α) : (f.find x).2.payload = f.payload :=
  (findLoop_spec _ f x).2.2.1

end Find

/-! ## Union by rank -/

section Union

variable [DecidableEq α] [Fintype α] [SemilatticeSup β] [OrderBot β]

/-- Hang the root `child` under the root `onto`: the rank of `onto` grows on a tie,
and the payload of `child` moves up. -/
def attach (f : Forest α β) (child onto : α) (honto : f.parent onto = onto)
    (hne : child ≠ onto) (hrank : f.rank child ≤ f.rank onto) : Forest α β where
  parent := Function.update f.parent child onto
  rank := if f.rank onto = f.rank child then Function.update f.rank onto (f.rank onto + 1)
    else f.rank
  payload := Function.update (Function.update f.payload onto (f.payload onto ⊔ f.payload child))
    child ⊥
  rank_lt := by
    intro z hz
    by_cases hzc : z = child
    · subst z
      rw [Function.update_self]
      split
      · rename_i heq
        rw [Function.update_of_ne hne, Function.update_self]
        omega
      · rename_i hneq
        omega
    · rw [Function.update_of_ne hzc] at hz ⊢
      have hlt := f.rank_lt z hz
      have hzo : z ≠ onto := fun h => hz (h ▸ honto)
      split
      · rw [Function.update_of_ne hzo]
        by_cases hpo : f.parent z = onto
        · rw [hpo, Function.update_self]
          rw [hpo] at hlt
          omega
        · rwa [Function.update_of_ne hpo]
      · exact hlt

/-- Join the classes of `x` and `y`; nothing happens when they are one class already. -/
def union (f : Forest α β) (x y : α) : Forest α β :=
  let p := f.find x
  let q := p.2.find y
  have hq : q.2.parent q.1 = q.1 := by
    rw [isRoot_iff, find_root, find_fst, root_root]
  have hp : q.2.parent p.1 = p.1 := by
    rw [isRoot_iff, find_root, find_root, find_fst, root_root]
  if h : p.1 = q.1 then q.2
  else if hr : q.2.rank p.1 < q.2.rank q.1 then q.2.attach p.1 q.1 hq h (Nat.le_of_lt hr)
  else q.2.attach q.1 p.1 hp (Ne.symm h) (Nat.le_of_not_lt hr)

theorem attach_root (f : Forest α β) {child onto : α} (honto : f.parent onto = onto)
    (hne : child ≠ onto) (hrank : f.rank child ≤ f.rank onto) (hchild : f.parent child = child)
    (z : α) : (f.attach child onto honto hne hrank).root z =
      if f.root z = child then onto else f.root z := by
  have hg := root_eq_of_invariant (f.attach child onto honto hne hrank)
    (fun z => if f.root z = child then onto else f.root z) ?_ ?_
  · exact congrFun hg z
  · intro w hw
    by_cases hwc : w = child
    · subst w
      have : onto = child := by simpa [attach] using hw
      exact (hne this.symm).elim
    · have hw' : f.parent w = w := by simpa [attach, hwc] using hw
      rw [f.root_of_isRoot hw', if_neg hwc]
  · intro w
    by_cases hwc : w = child
    · subst w
      simp only [attach, Function.update_self]
      rw [f.root_of_isRoot honto, f.root_of_isRoot hchild, if_neg (Ne.symm hne), if_pos rfl]
    · simp only [attach, Function.update_of_ne hwc, f.root_parent]

theorem union_root (f : Forest α β) (x y : α) :
    ∃ keep drop, ((keep = f.root x ∧ drop = f.root y) ∨ (keep = f.root y ∧ drop = f.root x)) ∧
      ∀ z, (f.union x y).root z = if f.root z = drop then keep else f.root z := by
  have hpx : (f.find x).1 = f.root x := f.find_fst x
  have hqy : ((f.find x).2.find y).1 = f.root y := by rw [find_fst, find_root]
  have hrq : ((f.find x).2.find y).2.root = f.root := by rw [find_root, find_root]
  unfold union
  dsimp only
  split
  · rename_i h
    refine ⟨f.root x, f.root y, Or.inl ⟨rfl, rfl⟩, ?_⟩
    intro z
    rw [hrq]
    rw [hpx, hqy] at h
    split
    · rename_i hz
      rw [hz, h]
    · rfl
  · split
    · refine ⟨f.root y, f.root x, Or.inr ⟨rfl, rfl⟩, ?_⟩
      intro z
      rw [attach_root, hrq, hpx, hqy]
      rw [isRoot_iff, hrq, hpx, root_root]
    · refine ⟨f.root x, f.root y, Or.inl ⟨rfl, rfl⟩, ?_⟩
      intro z
      rw [attach_root, hrq, hpx, hqy]
      rw [isRoot_iff, hrq, hqy, root_root]

theorem union_same (f : Forest α β) (x y a b : α) :
    (f.union x y).Same a b ↔
      f.Same a b ∨ (f.Same a x ∧ f.Same y b) ∨ (f.Same a y ∧ f.Same x b) := by
  obtain ⟨keep, drop, hk, hroot⟩ := f.union_root x y
  unfold Same
  rw [hroot, hroot]
  rcases hk with ⟨rfl, rfl⟩ | ⟨rfl, rfl⟩ <;> grind

/-! ## Payloads -/

/-- The payload at each root is the join of `load` over its class. -/
def Carries (f : Forest α β) (load : α → β) : Prop :=
  ∀ x, f.payload (f.root x) = (Finset.univ.filter fun y => f.root y = f.root x).sup load

theorem init_carries (load : α → β) : (init load).Carries load := by
  intro x
  have hfilter :
      (Finset.univ.filter fun y => (init load).root y = (init load).root x) = {x} := by
    ext y
    simp [init_root]
  rw [hfilter, Finset.sup_singleton, init_root]
  rfl

theorem find_carries {f : Forest α β} {load : α → β} (h : f.Carries load) (x : α) :
    (f.find x).2.Carries load := by
  intro z
  simpa only [find_payload, find_root] using h z

/-- After a root is hung under another one, each class is one from before or both of theirs. -/
private theorem attach_class (f : Forest α β) {child onto : α} (honto : f.parent onto = onto)
    (hne : child ≠ onto) (hrank : f.rank child ≤ f.rank onto) (hchild : f.parent child = child)
    (z : α) :
    ((f.attach child onto honto hne hrank).root z = onto ∧
        (Finset.univ.filter fun y => (f.attach child onto honto hne hrank).root y = onto) =
          (Finset.univ.filter fun y => f.root y = onto) ∪
            Finset.univ.filter fun y => f.root y = child) ∨
      (f.root z ≠ child ∧ f.root z ≠ onto ∧
        (f.attach child onto honto hne hrank).root z = f.root z ∧
        (Finset.univ.filter fun y => (f.attach child onto honto hne hrank).root y = f.root z) =
          Finset.univ.filter fun y => f.root y = f.root z) := by
  have hroot := f.attach_root honto hne hrank hchild
  simp only [hroot]
  by_cases hz : f.root z = child ∨ f.root z = onto
  · left
    refine ⟨?_, ?_⟩
    · rcases hz with hz | hz
      · rw [if_pos hz]
      · rw [if_neg (by rw [hz]; exact Ne.symm hne), hz]
    · ext y
      simp only [Finset.mem_filter, Finset.mem_univ, true_and, Finset.mem_union]
      grind
  · right
    have hzc : f.root z ≠ child := fun e => hz (Or.inl e)
    have hzo : f.root z ≠ onto := fun e => hz (Or.inr e)
    refine ⟨hzc, hzo, if_neg hzc, ?_⟩
    ext y
    simp only [Finset.mem_filter, Finset.mem_univ, true_and]
    grind

private theorem attach_carries {f : Forest α β} {load : α → β} (h : f.Carries load)
    {child onto : α} (honto : f.parent onto = onto) (hne : child ≠ onto)
    (hrank : f.rank child ≤ f.rank onto) (hchild : f.parent child = child) :
    (f.attach child onto honto hne hrank).Carries load := by
  intro z
  have hro : f.root onto = onto := f.root_of_isRoot honto
  have hrc : f.root child = child := f.root_of_isRoot hchild
  rcases f.attach_class honto hne hrank hchild z with ⟨hr, hclass⟩ | ⟨hzc, hzo, hr, hclass⟩
  · have hload := h onto
    have hload' := h child
    rw [hro] at hload
    rw [hrc] at hload'
    rw [hr, hclass, Finset.sup_union, ← hload, ← hload']
    simp [attach, Ne.symm hne]
  · rw [hr, hclass, ← h z]
    simp [attach, hzc, hzo]

theorem union_carries {f : Forest α β} {load : α → β} (h : f.Carries load) (x y : α) :
    (f.union x y).Carries load := by
  have hq : ((f.find x).2.find y).2.Carries load := find_carries (find_carries h x) y
  unfold union
  dsimp only
  split
  · exact hq
  · split
    · refine attach_carries hq _ _ _ ?_
      rw [isRoot_iff, find_root, find_root, find_fst, root_root]
    · refine attach_carries hq _ _ _ ?_
      rw [isRoot_iff, find_root, find_fst, root_root]

/-! ## Rank and size -/

def Sized (f : Forest α β) : Prop :=
  ∀ x, 2 ^ f.rank (f.root x) ≤ (Finset.univ.filter fun y => f.root y = f.root x).card

omit [SemilatticeSup β] [OrderBot β] in
theorem init_sized (load : α → β) : (init load).Sized := by
  intro x
  have hmem : x ∈ Finset.univ.filter fun y => (init load).root y = (init load).root x := by simp
  simpa [init] using Finset.card_pos.mpr ⟨x, hmem⟩

omit [SemilatticeSup β] [OrderBot β] in
theorem find_sized {f : Forest α β} (h : f.Sized) (x : α) : (f.find x).2.Sized := by
  intro z
  simpa only [find_rank, find_root] using h z

private theorem attach_sized {f : Forest α β} (h : f.Sized) {child onto : α}
    (honto : f.parent onto = onto) (hne : child ≠ onto) (hrank : f.rank child ≤ f.rank onto)
    (hchild : f.parent child = child) : (f.attach child onto honto hne hrank).Sized := by
  intro z
  rcases f.attach_class honto hne hrank hchild z with ⟨hr, hclass⟩ | ⟨hzc, hzo, hr, hclass⟩
  · have hdisjoint : Disjoint (Finset.univ.filter fun y => f.root y = onto)
        (Finset.univ.filter fun y => f.root y = child) := by
      rw [Finset.disjoint_filter]
      intro y _ hy hy'
      exact hne (hy'.symm.trans hy)
    have hbig := h onto
    have hsmall := h child
    rw [f.root_of_isRoot honto] at hbig
    rw [f.root_of_isRoot hchild] at hsmall
    rw [hr, hclass, Finset.card_union_of_disjoint hdisjoint]
    simp only [attach]
    split
    · rename_i htie
      rw [← htie] at hsmall
      rw [Function.update_self, pow_succ]
      omega
    · omega
  · rw [hr, hclass]
    have hkept : (f.attach child onto honto hne hrank).rank (f.root z) = f.rank (f.root z) := by
      simp only [attach]
      split
      · exact Function.update_of_ne hzo _ _
      · rfl
    rw [hkept]
    exact h z

theorem union_sized {f : Forest α β} (h : f.Sized) (x y : α) : (f.union x y).Sized := by
  have hq : ((f.find x).2.find y).2.Sized := find_sized (find_sized h x) y
  unfold union
  dsimp only
  split
  · exact hq
  · split
    · refine attach_sized hq _ _ _ ?_
      rw [isRoot_iff, find_root, find_root, find_fst, root_root]
    · refine attach_sized hq _ _ _ ?_
      rw [isRoot_iff, find_root, find_fst, root_root]

omit [SemilatticeSup β] [OrderBot β] in
theorem Sized.two_pow_rank_le {f : Forest α β} (h : f.Sized) (x : α) :
    2 ^ f.rank x ≤ Fintype.card α := by
  calc 2 ^ f.rank x ≤ 2 ^ f.rank (f.root x) :=
        Nat.pow_le_pow_right (by omega) (f.rank_le_iterate x _)
    _ ≤ (Finset.univ.filter fun y => f.root y = f.root x).card := h x
    _ ≤ Fintype.card α := Finset.card_le_univ _

end Union

end Forest

end DisjointSet
