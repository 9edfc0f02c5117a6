import Bulletin.Core.Matched
import Bulletin.Link.Recompute

/-! # Other ids for new stories

A dry run links what the real run links and mints ids of its own. Ids sort in the order in which
they are made, so the stories of the two runs match one by one, but for the names of the new ones.
-/

namespace Bulletin

open List Matched Relator

/-- Ids made one after the other, later than every story of the table. -/
structure MintsLater (mint : Nat → Uuid) (table : StoryTable) : Prop where
  increasing : StrictMono mint
  later : ∀ s ∈ table, ∀ k, s < mint k

/-- The names of one story in two runs: the one the table has, or the id minted for it. -/
inductive SameStory (table : StoryTable) (mint mint' : Nat → Uuid) : Uuid → Uuid → Prop
  | held {s : Uuid} (h : s ∈ table) : SameStory table mint mint' s s
  | minted (k : Nat) : SameStory table mint mint' (mint k) (mint' k)

def LinkedStory.Renamed (R : Uuid → Uuid → Prop) (x y : LinkedStory) : Prop :=
  ∃ id, R x.id id ∧ y = { x with id := id }

section Minting

variable {table : StoryTable} {mint mint' : Nat → Uuid}

theorem MintsLater.unused (h : MintsLater mint table) (k : Nat) : mint k ∉ table :=
  fun hmem => lt_irrefl _ (h.later _ hmem k)

theorem mintsLater_mintFrom {base : Nat} (h : ∀ s ∈ table.keys, s < base) :
    MintsLater (mintFrom base) table where
  increasing := fun _ _ hlt => Nat.add_lt_add_left hlt base
  later := fun s hs k => (h s (Std.ExtTreeMap.mem_keys.mpr hs)).trans_le (Nat.le_add_right base k)

theorem sameStory_orderKept (h : MintsLater mint table) (h' : MintsLater mint' table) :
    OrderKept (SameStory table mint mint') := by
  refine ⟨fun {a a' b b'} ha hb => ?_⟩
  cases ha with
  | held ha =>
      cases hb with
      | held hb => rfl
      | minted k => exact iff_of_true (h.later _ ha k).le (h'.later _ ha k).le
  | minted j =>
      cases hb with
      | held hb => exact iff_of_false (h.later _ hb j).not_ge (h'.later _ hb j).not_ge
      | minted k => rw [h.increasing.le_iff_le, h'.increasing.le_iff_le]

/-- The claims of both runs choose the same prior ids, and mint at the same components. The ids
claimed so far agree on the stories of the table, and only those are wanted. -/
theorem claimSurvivors_matched (h : MintsLater mint table) (h' : MintsLater mint' table)
    {wants : List (List Uuid)} (hheld : ∀ w ∈ wants, ∀ s ∈ w, s ∈ table) {minted : Nat}
    {claimed claimed' : Finset Uuid} (hclaimed : ∀ s ∈ table, s ∈ claimed ↔ s ∈ claimed') :
    Forall₂ (SameStory table mint mint') (claimSurvivors mint minted claimed wants).1
      (claimSurvivors mint' minted claimed' wants).1 := by
  induction wants generalizing minted claimed claimed' with
  | nil => exact .nil
  | cons w rest ih =>
      have hrest : ∀ w ∈ rest, ∀ s ∈ w, s ∈ table := fun v hv => hheld v (List.mem_cons_of_mem w hv)
      have hsame : w.find? (fun s => s ∉ claimed) = w.find? (fun s => s ∉ claimed') := by
        rw [← List.head?_filter, ← List.head?_filter]
        refine congrArg List.head? (List.filter_congr fun s hs => ?_)
        rw [decide_eq_decide, hclaimed s (hheld w List.mem_cons_self s hs)]
      unfold claimSurvivors
      rw [← hsame]
      cases hfind : w.find? (fun s => s ∉ claimed) with
      | some s =>
          have hs := hheld w List.mem_cons_self s (List.mem_of_find?_eq_some hfind)
          refine .cons (.held hs) (ih hrest fun x hx => ?_)
          rw [Finset.mem_insert, Finset.mem_insert, hclaimed x hx]
      | none =>
          refine .cons (.minted minted) (ih hrest fun x hx => ?_)
          rw [Finset.mem_insert, Finset.mem_insert, hclaimed x hx]
          have hne : x ≠ mint minted := (h.later x hx minted).ne
          have hne' : x ≠ mint' minted := (h'.later x hx minted).ne
          simp [hne, hne']

theorem storyOrder_matched {R : Uuid → Uuid → Prop} (hR : OrderKept R) :
    (LinkedStory.Renamed R ⇒ LinkedStory.Renamed R ⇒ Iff) (fun x y => storyOrder x y ≠ .gt)
      (fun x y => storyOrder x y ≠ .gt) := by
  rintro x _ ⟨id, hx, rfl⟩ y _ ⟨id', hy, rfl⟩
  unfold storyOrder
  dsimp only
  rw [hR.compare_eq hx hy]

end Minting

/-! ## The runs of one recompute -/

namespace Recompute

variable {F : Type} [Score F] {r : Recompute F} {table : StoryTable} {mint : Nat → Uuid}

omit [Score F] in
/-- The recompute as a dry run makes it. -/
def minting (r : Recompute F) (mint : Nat → Uuid) : Recompute F := { r with mint := mint }

theorem Reads.wanted_held (h : r.Reads table) : ∀ w ∈ r.wanted, ∀ s ∈ w, s ∈ table := by
  intro w hw s hs
  obtain ⟨ms, _, rfl⟩ := List.mem_map.mp hw
  obtain ⟨i, _, hi⟩ := mem_componentPriorIds.mp hs
  obtain ⟨p, hp, _, rfl⟩ := priorStory_mem hi
  obtain ⟨row, hrow, _⟩ := mem_loadPriorMembers.mp (h.prior.mem_iff.mp hp)
  rw [← Std.ExtTreeMap.isSome_getElem?_iff_mem, hrow]
  rfl

theorem stories_matched (h : r.Reads table) (hmint : MintsLater r.mint table)
    (hdry : MintsLater mint table) :
    Forall₂ (LinkedStory.Renamed (SameStory table r.mint mint)) r.assignment.stories
      (r.minting mint).assignment.stories := by
  have hclaims : Forall₂ (SameStory table r.mint mint) (survivors r.clusters r.components r.prior r.mint)
      (survivors r.clusters r.components r.prior mint) :=
    claimSurvivors_matched hmint hdry h.wanted_held fun s _ => Iff.rfl
  have hpairs := rel_zip (List.forall₂_same.mpr fun ms _ => rfl :
    Forall₂ Eq (orderedComponents r.clusters r.components)
      (orderedComponents r.clusters r.components)) hclaims
  refine rel_insertionSort (storyOrder_matched (sameStory_orderKept hmint hdry)) ?_
  refine rel_map (fun x y hxy => ?_) hpairs
  obtain ⟨ms, s⟩ := x
  obtain ⟨ms', s'⟩ := y
  obtain ⟨rfl, hs⟩ := hxy
  exact ⟨s', hs, rfl⟩

end Recompute

end Bulletin
