import Mathlib.Data.Set.Card
import Bulletin.Link.Components

/-! # The vectors of the forest

The forest as the linker keeps it: three vectors, ranks of one byte, and a search that rewrites
parents while it loops. A run of calls stays within the forests of `DisjointSet`, whatever the
calls are, so what is known of those holds of the vectors.
-/

namespace Bulletin

open DisjointSet GuardedMerge

variable {n : Nat}

/-! ## The vectors -/

structure UnionFindVecs (n : Nat) where
  parent : Fin n → Fin n
  rank : Fin n → UInt8
  delivered : Fin n → Finset Uuid

namespace UnionFindVecs

def new (delivered : Fin n → Finset Uuid) : UnionFindVecs n := ⟨id, fun _ => 0, delivered⟩

/-- The halving loop; `none` if it has not ended after so many rounds. -/
def findLoop : Nat → UnionFindVecs n → Fin n → Option (Fin n × UnionFindVecs n)
  | 0, _, _ => none
  | rounds + 1, s, x =>
      if s.parent x = x then some (x, s)
      else
        let s' := { s with parent := Function.update s.parent x (s.parent (s.parent x)) }
        findLoop rounds s' (s'.parent x)

def find (s : UnionFindVecs n) (x : Fin n) : Option (Fin n × UnionFindVecs n) :=
  findLoop (n + 1) s x

/-- Point the root `ry` at the root `rx`; `none` if a rank overflows. -/
def attach (s : UnionFindVecs n) (rx ry : Fin n) : Option (UnionFindVecs n) :=
  let parent := Function.update s.parent ry rx
  let rank :=
    if s.rank rx = s.rank ry then
      if s.rank rx = 255 then none else some (Function.update s.rank rx (s.rank rx + 1))
    else some s.rank
  let absorbed := s.delivered ry
  let taken := Function.update s.delivered ry ∅
  rank.map fun rank => ⟨parent, rank, Function.update taken rx (taken rx ∪ absorbed)⟩

def union (s : UnionFindVecs n) (x y : Fin n) : Option (UnionFindVecs n) :=
  (s.find x).bind fun p =>
    (p.2.find y).bind fun q =>
      if p.1 = q.1 then some q.2
      else if q.2.rank p.1 < q.2.rank q.1 then q.2.attach q.1 p.1
      else q.2.attach p.1 q.1

def mergesDistinctDelivered (s : UnionFindVecs n) (a b : Fin n) :
    Option (Bool × UnionFindVecs n) :=
  (s.find a).bind fun p =>
    (p.2.find b).map fun q =>
      if p.1 = q.1 then (false, q.2)
      else
        let da := q.2.delivered p.1
        let db := q.2.delivered q.1
        (da ≠ ∅ ∧ db ≠ ∅ ∧ Disjoint da db, q.2)

/-! ## The forest in the vectors -/

structure Represents (s : UnionFindVecs n) (f : UnionFind n) : Prop where
  parent : s.parent = f.parent
  rank : ∀ x, (s.rank x).toNat = f.rank x
  delivered : s.delivered = f.payload

theorem new_represents (delivered : Fin n → Finset Uuid) :
    (new delivered).Represents (Forest.init delivered) :=
  ⟨rfl, fun _ => rfl, rfl⟩

variable {s : UnionFindVecs n} {f : UnionFind n}

/-- Each round climbs to a larger rank, so one round more than the ranks left is enough. -/
theorem Represents.findLoop (h : s.Represents f) {bound rounds : Nat} {x : Fin n}
    (hbound : ∀ y, f.rank y ≤ bound) (hrounds : bound ≤ f.rank x + rounds) :
    ∃ s', findLoop (rounds + 1) s x = some ((Forest.findLoop rounds f x).1, s') ∧
      s'.Represents (Forest.findLoop rounds f x).2 := by
  induction rounds generalizing s f x with
  | zero =>
      have hroot : f.parent x = x := by
        by_contra hne
        have hlt := f.rank_lt x hne
        have hparent := hbound (f.parent x)
        omega
      refine ⟨s, ?_, h⟩
      rw [UnionFindVecs.findLoop, if_pos (by rw [h.parent, hroot])]
      rfl
  | succ rounds ih =>
      by_cases hroot : f.parent x = x
      · refine ⟨s, ?_, ?_⟩
        · rw [UnionFindVecs.findLoop, if_pos (by rw [h.parent, hroot]), Forest.findLoop,
            dif_pos hroot]
        · rw [Forest.findLoop, dif_pos hroot]
          exact h
      · have hlt := f.rank_lt x hroot
        have hle := f.rank_le_parent (f.parent x)
        have hup : f.rank x < f.rank (f.parent (f.parent x)) := Nat.lt_of_lt_of_le hlt hle
        have hredirect : Represents
            ⟨Function.update f.parent x (f.parent (f.parent x)), s.rank, s.delivered⟩
            (f.redirect x (f.parent (f.parent x)) hup) := ⟨rfl, h.rank, h.delivered⟩
        have hclose : bound ≤ f.rank (f.parent (f.parent x)) + rounds := by omega
        rw [UnionFindVecs.findLoop, if_neg (by rwa [h.parent]), Forest.findLoop, dif_neg hroot]
        dsimp only
        rw [Function.update_self, h.parent]
        exact ih hredirect hbound hclose

theorem rank_le_card (hsized : f.Sized) (x : Fin n) : f.rank x ≤ n := by
  have hpow := hsized.two_pow_rank_le x
  have hlt : f.rank x < 2 ^ f.rank x := Nat.lt_two_pow_self
  rw [Fintype.card_fin] at hpow
  omega

theorem Represents.find (h : s.Represents f) (hsized : f.Sized) (x : Fin n) :
    ∃ s', s.find x = some ((f.find x).1, s') ∧ s'.Represents (f.find x).2 := by
  rw [Forest.find, Fintype.card_fin]
  exact h.findLoop (rank_le_card hsized) (Nat.le_add_left n _)

theorem rank_eq_iff (h : s.Represents f) (x y : Fin n) :
    s.rank x = s.rank y ↔ f.rank x = f.rank y := by
  rw [← h.rank, ← h.rank, UInt8.toNat_inj]

theorem rank_lt_iff (h : s.Represents f) (x y : Fin n) :
    s.rank x < s.rank y ↔ f.rank x < f.rank y := by
  rw [← h.rank, ← h.rank, UInt8.lt_iff_toNat_lt]

theorem rank_lt_64 (hn : n < 2 ^ 64) (hsized : f.Sized) (x : Fin n) : f.rank x < 64 := by
  have hpow := hsized.two_pow_rank_le x
  rw [Fintype.card_fin] at hpow
  exact (Nat.pow_lt_pow_iff_right (by omega)).mp (lt_of_le_of_lt hpow hn)

theorem Represents.attach (hn : n < 2 ^ 64) (h : s.Represents f) (hsized : f.Sized)
    {child onto : Fin n} (honto : f.parent onto = onto) (hne : child ≠ onto)
    (hrank : f.rank child ≤ f.rank onto) :
    ∃ s', s.attach onto child = some s' ∧ s'.Represents (f.attach child onto honto hne hrank) := by
  have hdelivered : Function.update (Function.update s.delivered child ∅) onto
      (Function.update s.delivered child ∅ onto ∪ s.delivered child) =
      (f.attach child onto honto hne hrank).payload := by
    rw [Function.update_of_ne hne.symm, h.delivered, Function.update_comm hne]
    rfl
  have hparent : Function.update s.parent child onto =
      (f.attach child onto honto hne hrank).parent := by
    rw [h.parent]
    rfl
  by_cases htie : f.rank onto = f.rank child
  · have hsmall : (s.rank onto).toNat < 64 := by
      rw [h.rank]
      exact rank_lt_64 hn hsized onto
    have hfits : s.rank onto ≠ 255 := by
      intro hfull
      rw [hfull] at hsmall
      exact absurd hsmall (by decide)
    refine ⟨_, by
      rw [UnionFindVecs.attach, if_pos ((rank_eq_iff h _ _).mpr htie), if_neg hfits]
      rfl, hparent, ?_, hdelivered⟩
    intro x
    simp only [Forest.attach, if_pos htie]
    by_cases hx : x = onto
    · subst x
      rw [Function.update_self, Function.update_self, UInt8.toNat_add, h.rank]
      have hone : (1 : UInt8).toNat = 1 := rfl
      rw [h.rank] at hsmall
      omega
    · rw [Function.update_of_ne hx, Function.update_of_ne hx, h.rank]
  · refine ⟨_, by
      rw [UnionFindVecs.attach, if_neg (mt (rank_eq_iff h _ _).mp htie)]
      rfl, hparent, ?_, hdelivered⟩
    intro x
    simp only [Forest.attach, if_neg htie]
    exact h.rank x

/-- A union of the vectors is the union of the forest, and no rank overflows in it. -/
theorem Represents.union (hn : n < 2 ^ 64) (h : s.Represents f) (hsized : f.Sized) (x y : Fin n) :
    ∃ s', s.union x y = some s' ∧ s'.Represents (f.union x y) := by
  obtain ⟨s₁, hs₁, h₁⟩ := h.find hsized x
  have hsized₁ : (f.find x).2.Sized := Forest.find_sized hsized x
  obtain ⟨s₂, hs₂, h₂⟩ := h₁.find hsized₁ y
  have hsized₂ : ((f.find x).2.find y).2.Sized := Forest.find_sized hsized₁ y
  rw [UnionFindVecs.union, hs₁, Option.bind_some, hs₂, Option.bind_some]
  unfold Forest.union
  dsimp only
  split
  · exact ⟨s₂, rfl, h₂⟩
  · split
    · rename_i hlt
      rw [dif_pos ((rank_lt_iff h₂ _ _).mp hlt)]
      exact h₂.attach hn hsized₂ _ _ _
    · rename_i hlt
      rw [dif_neg (mt (rank_lt_iff h₂ _ _).mpr hlt)]
      exact h₂.attach hn hsized₂ _ _ _

theorem Represents.mergesDistinctDelivered (h : s.Represents f) (hsized : f.Sized) (a b : Fin n) :
    ∃ s', s.mergesDistinctDelivered a b = some ((Bulletin.mergesDistinctDelivered f a b).1, s') ∧
      s'.Represents (Bulletin.mergesDistinctDelivered f a b).2 := by
  obtain ⟨s₁, hs₁, h₁⟩ := h.find hsized a
  obtain ⟨s₂, hs₂, h₂⟩ := h₁.find (Forest.find_sized hsized a) b
  refine ⟨s₂, ?_, ?_⟩
  · rw [UnionFindVecs.mergesDistinctDelivered, hs₁, Option.bind_some, hs₂, Option.map_some]
    unfold Bulletin.mergesDistinctDelivered
    rw [h₂.delivered]
    dsimp only
    split <;> rfl
  · rwa [mergesDistinctDelivered_snd]

/-! ## Runs -/

inductive Call (n : Nat) where
  | find (x : Fin n)
  | union (x y : Fin n)
  | mergesDistinctDelivered (a b : Fin n)

def call (s : UnionFindVecs n) : Call n → Option (UnionFindVecs n)
  | .find x => (s.find x).map (·.2)
  | .union x y => s.union x y
  | .mergesDistinctDelivered a b => (s.mergesDistinctDelivered a b).map (·.2)

/-- The vectors after some calls, if all of them return. -/
def run (s : UnionFindVecs n) : List (Call n) → Option (UnionFindVecs n)
  | [] => some s
  | c :: cs => (s.call c).bind (·.run cs)

def unions : List (Call n) → List (Fin n × Fin n) :=
  List.filterMap fun c => match c with
    | .union x y => some (x, y)
    | .find _ | .mergesDistinctDelivered _ _ => none

/-- The vectors hold a forest whose classes are made by these pairs. -/
structure Tracks (s : UnionFindVecs n) (load : Fin n → Finset Uuid) (pairs : List (Fin n × Fin n))
    (f : UnionFind n) : Prop where
  represents : s.Represents f
  classes : f.classes = joinAll pairs ⊥
  carries : f.Carries load
  sized : f.Sized

theorem new_tracks (load : Fin n → Finset Uuid) :
    (new load).Tracks load [] (Forest.init load) where
  represents := new_represents load
  classes := by
    ext x y
    rw [Forest.classes_iff, Forest.Same, Forest.init_root, Forest.init_root]
    rfl
  carries := Forest.init_carries load
  sized := Forest.init_sized load

variable {load : Fin n → Finset Uuid} {pairs : List (Fin n × Fin n)}

theorem Tracks.of_find (h : s.Tracks load pairs f) {s' : UnionFindVecs n} {x : Fin n}
    (hrep : s'.Represents (f.find x).2) : s'.Tracks load pairs (f.find x).2 where
  represents := hrep
  classes := by
    rw [Forest.classes, Forest.find_root]
    exact h.classes
  carries := Forest.find_carries h.carries x
  sized := Forest.find_sized h.sized x

theorem Tracks.call (hn : n < 2 ^ 64) (h : s.Tracks load pairs f) (c : Call n) :
    ∃ s' f', s.call c = some s' ∧ s'.Tracks load (pairs ++ unions [c]) f' := by
  cases c with
  | find x =>
      obtain ⟨s', hs', hrep⟩ := h.represents.find h.sized x
      refine ⟨s', (f.find x).2, ?_, ?_⟩
      · rw [UnionFindVecs.call, hs', Option.map_some]
      · rw [show unions [Call.find x] = [] from rfl, List.append_nil]
        exact h.of_find hrep
  | union x y =>
      obtain ⟨s', hs', hrep⟩ := h.represents.union hn h.sized x y
      refine ⟨s', f.union x y, hs', hrep, ?_, Forest.union_carries h.carries x y,
        Forest.union_sized h.sized x y⟩
      rw [classes_union, h.classes]
      exact (joinAll_concat pairs x y ⊥).symm
  | mergesDistinctDelivered a b =>
      obtain ⟨s', hs', hrep⟩ := h.represents.mergesDistinctDelivered h.sized a b
      rw [mergesDistinctDelivered_snd] at hrep
      refine ⟨s', ((f.find a).2.find b).2, ?_, ?_⟩
      · rw [UnionFindVecs.call, hs', Option.map_some]
      · rw [show unions [Call.mergesDistinctDelivered a b] = [] from rfl, List.append_nil]
        obtain ⟨s₁, _, h₁⟩ := h.represents.find h.sized a
        exact (h.of_find h₁).of_find hrep

theorem Tracks.run (hn : n < 2 ^ 64) (h : s.Tracks load pairs f) (cs : List (Call n)) :
    ∃ s' f', s.run cs = some s' ∧ s'.Tracks load (pairs ++ unions cs) f' := by
  induction cs generalizing s f pairs with
  | nil => exact ⟨s, f, rfl, by rwa [show unions ([] : List (Call n)) = [] from rfl,
      List.append_nil]⟩
  | cons c cs ih =>
      obtain ⟨s₁, f₁, hs₁, h₁⟩ := h.call hn c
      obtain ⟨s', f', hs', h'⟩ := ih h₁
      refine ⟨s', f', ?_, ?_⟩
      · rw [UnionFindVecs.run, hs₁, Option.bind_some, hs']
      · rwa [List.append_assoc, unions, ← List.filterMap_append] at h'

def rootOf (s : UnionFindVecs n) (x : Fin n) : Option (Fin n) := (s.find x).map (·.1)

/-- The vectors are a forest over the classes of `linked`: a search ends at the root of a class,
which holds all that was delivered in it. -/
structure Correct (s : UnionFindVecs n) (load : Fin n → Finset Uuid)
    (linked : Fin n → Fin n → Prop) : Prop where
  acyclic : ∀ x k, 0 < k → s.parent^[k] x = x → s.parent x = x
  find : ∀ x, ∃ r, s.rootOf x = some r ∧ s.parent r = r
  same : ∀ x y, s.rootOf x = s.rootOf y ↔ linked x y
  delivered : ∀ x r, s.rootOf x = some r →
    ∀ story, story ∈ s.delivered r ↔ ∃ y, linked x y ∧ story ∈ load y
  size : ∀ x r, s.rootOf x = some r → 2 ^ (s.rank r).toNat ≤ Set.ncard {y | linked x y}
  rank : ∀ x, (s.rank x).toNat < 64

theorem Tracks.correct (hn : n < 2 ^ 64) (h : s.Tracks load pairs f) :
    s.Correct load (Relation.EqvGen fun a b => (a, b) ∈ pairs) := by
  have hrep := h.represents
  have hroot : ∀ x, s.rootOf x = some (f.root x) := by
    intro x
    obtain ⟨s', hs', _⟩ := hrep.find h.sized x
    rw [rootOf, hs', f.find_fst, Option.map_some]
  have hlinked : ∀ x y, Relation.EqvGen (fun a b => (a, b) ∈ pairs) x y ↔ f.root x = f.root y := by
    intro x y
    rw [← joinAll_bot_iff, ← h.classes]
    exact Forest.classes_iff
  refine ⟨?_, ?_, ?_, ?_, ?_, ?_⟩
  · intro x k hk hcycle
    rw [hrep.parent] at hcycle ⊢
    exact f.acyclic hk hcycle
  · intro x
    refine ⟨f.root x, hroot x, ?_⟩
    rw [hrep.parent]
    exact f.parent_root x
  · intro x y
    rw [hroot, hroot, Option.some_inj, hlinked]
  · intro x r hr story
    obtain rfl : f.root x = r := Option.some_inj.mp ((hroot x).symm.trans hr)
    rw [hrep.delivered, h.carries x]
    simp only [Finset.mem_sup, Finset.mem_filter, Finset.mem_univ, true_and, hlinked]
    simp only [eq_comm]
  · intro x r hr
    obtain rfl : f.root x = r := Option.some_inj.mp ((hroot x).symm.trans hr)
    have hclass : {y | Relation.EqvGen (fun a b => (a, b) ∈ pairs) x y} =
        ((Finset.univ.filter fun y => f.root y = f.root x : Finset (Fin n)) : Set (Fin n)) := by
      ext y
      simp [hlinked, eq_comm]
    rw [hrep.rank, hclass, Set.ncard_coe_finset]
    exact h.sized x
  · intro x
    rw [hrep.rank]
    exact rank_lt_64 hn h.sized x

/-- Any calls on fewer than `2 ^ 64` nodes return, and leave a forest over the connected components
of the unions among them. -/
theorem calls_correct (hn : n < 2 ^ 64) (load : Fin n → Finset Uuid) (cs : List (Call n)) :
    ∃ s, (new load).run cs = some s ∧
      s.Correct load (Relation.EqvGen fun a b => (a, b) ∈ unions cs) := by
  obtain ⟨s, f, hrun, h⟩ := (new_tracks load).run hn cs
  exact ⟨s, hrun, h.correct hn⟩

theorem calls_correct_three : ∃ s, (new fun i : Fin 3 => {i.val}).run
    [.union 0 1, .find 1, .mergesDistinctDelivered 1 2, .union 2 1] = some s ∧
      s.Correct (fun i => {i.val}) (Relation.EqvGen fun a b => (a, b) ∈ unions
        [.union 0 1, .find 1, .mergesDistinctDelivered 1 2, .union 2 1]) :=
  calls_correct (by decide) _ _

end UnionFindVecs

end Bulletin
