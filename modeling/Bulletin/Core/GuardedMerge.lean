import Mathlib.Data.Setoid.Basic
import Mathlib.Data.Set.Lattice
import Mathlib.Logic.Relation
import Mathlib.Data.List.Perm.Basic
import Mathlib.Order.CompletePartialOrder

/-! # Merging a partition under a label guard

Nodes carry sets of labels. A class of a partition carries the labels of its
members, and a guarded merge refuses to join two classes that carry labels but
share none. The results are about whole lists of guarded merges: which labels
can end in one class, when a second pass over the same list ends in the same
partition, and when the order of the list does not matter.
-/

namespace GuardedMerge

variable {α L : Type*}

/-! ## Joining two classes -/

/-- The partition with the classes of `a` and `b` made one. -/
def join (r : Setoid α) (a b : α) : Setoid α where
  r := fun x y => r x y ∨ (r x a ∧ r b y) ∨ (r x b ∧ r a y)
  iseqv := by
    refine ⟨fun x => Or.inl (r.refl x), ?_, ?_⟩
    · intro x y h
      rcases h with h | ⟨h1, h2⟩ | ⟨h1, h2⟩
      · exact Or.inl (r.symm h)
      · exact Or.inr (Or.inr ⟨r.symm h2, r.symm h1⟩)
      · exact Or.inr (Or.inl ⟨r.symm h2, r.symm h1⟩)
    · intro x y z hxy hyz
      have t := @Setoid.trans' α r
      have s := @Setoid.symm' α r
      rcases hxy with h | ⟨h1, h2⟩ | ⟨h1, h2⟩ <;> rcases hyz with k | ⟨k1, k2⟩ | ⟨k1, k2⟩
      · exact Or.inl (t h k)
      · exact Or.inr (Or.inl ⟨t h k1, k2⟩)
      · exact Or.inr (Or.inr ⟨t h k1, k2⟩)
      · exact Or.inr (Or.inl ⟨h1, t h2 k⟩)
      · exact Or.inr (Or.inl ⟨h1, k2⟩)
      · exact Or.inl (t h1 k2)
      · exact Or.inr (Or.inr ⟨h1, t h2 k⟩)
      · exact Or.inl (t h1 k2)
      · exact Or.inr (Or.inr ⟨h1, k2⟩)

theorem join_iff {r : Setoid α} {a b x y : α} :
    join r a b x y ↔ r x y ∨ (r x a ∧ r b y) ∨ (r x b ∧ r a y) := Iff.rfl

theorem le_join (r : Setoid α) (a b : α) : r ≤ join r a b := fun _ _ h => Or.inl h

theorem join_joins (r : Setoid α) (a b : α) : join r a b a b :=
  Or.inr (Or.inl ⟨r.refl a, r.refl b⟩)

theorem join_le_iff {r s : Setoid α} {a b : α} : join r a b ≤ s ↔ r ≤ s ∧ s a b := by
  constructor
  · intro h
    exact ⟨le_trans (le_join r a b) h, h (join_joins r a b)⟩
  · rintro ⟨hle, hab⟩ x y (h | ⟨h1, h2⟩ | ⟨h1, h2⟩)
    · exact hle h
    · exact s.trans (s.trans (hle h1) hab) (hle h2)
    · exact s.trans (s.trans (hle h1) (s.symm hab)) (hle h2)

theorem join_comm (r : Setoid α) (a b : α) : join r a b = join r b a :=
  le_antisymm (join_le_iff.mpr ⟨le_join r b a, (join r b a).symm (join_joins r b a)⟩)
    (join_le_iff.mpr ⟨le_join r a b, (join r a b).symm (join_joins r a b)⟩)

def joinAll (es : List (α × α)) (r : Setoid α) : Setoid α :=
  es.foldl (fun r e => join r e.1 e.2) r

@[simp] theorem joinAll_nil (r : Setoid α) : joinAll [] r = r := rfl

@[simp] theorem joinAll_cons (e : α × α) (es : List (α × α)) (r : Setoid α) :
    joinAll (e :: es) r = joinAll es (join r e.1 e.2) := rfl

theorem joinAll_le_iff {es : List (α × α)} {r s : Setoid α} :
    joinAll es r ≤ s ↔ r ≤ s ∧ ∀ e ∈ es, s e.1 e.2 := by
  induction es generalizing r with
  | nil => simp
  | cons e es ih =>
      simp only [joinAll_cons, ih, join_le_iff, List.forall_mem_cons]
      tauto

theorem le_joinAll (es : List (α × α)) (r : Setoid α) : r ≤ joinAll es r :=
  (joinAll_le_iff.mp (le_refl _)).1

theorem joinAll_joins {es : List (α × α)} {e : α × α} (he : e ∈ es) (r : Setoid α) :
    joinAll es r e.1 e.2 :=
  (joinAll_le_iff.mp (le_refl _)).2 e he

/-- Unguarded joins are a closure: only which pairs are in the list matters. -/
theorem joinAll_congr {es es' : List (α × α)} {r : Setoid α} (h : ∀ e, e ∈ es ↔ e ∈ es') :
    joinAll es r = joinAll es' r := by
  refine le_antisymm (joinAll_le_iff.mpr ⟨le_joinAll es' r, ?_⟩)
    (joinAll_le_iff.mpr ⟨le_joinAll es r, ?_⟩)
  · intro e he
    exact joinAll_joins ((h e).mp he) r
  · intro e he
    exact joinAll_joins ((h e).mpr he) r

/-- The partition joined along a list from nothing is the connectedness of its pairs. -/
theorem joinAll_bot_iff {es : List (α × α)} {x y : α} :
    joinAll es ⊥ x y ↔ Relation.EqvGen (fun a b => (a, b) ∈ es) x y := by
  constructor
  · intro h
    have hle : joinAll es ⊥ ≤ Relation.EqvGen.setoid fun a b => (a, b) ∈ es :=
      joinAll_le_iff.mpr ⟨bot_le, fun e he => .rel e.1 e.2 he⟩
    exact hle h
  · intro h
    induction h with
    | rel a b hab => exact joinAll_joins hab ⊥
    | refl a => exact (joinAll es ⊥).refl a
    | symm a b _ ih => exact (joinAll es ⊥).symm ih
    | trans a b c _ _ ih ih' => exact (joinAll es ⊥).trans ih ih'

theorem joinAll_concat (es : List (α × α)) (a b : α) (r : Setoid α) :
    joinAll (es ++ [(a, b)]) r = join (joinAll es r) a b := by
  simp [joinAll, List.foldl_append]

/-! ## The guard -/

def carried (lab : α → Set L) (r : Setoid α) (x : α) : Set L := {l | ∃ y, r y x ∧ l ∈ lab y}

def Blocked (lab : α → Set L) (r : Setoid α) (a b : α) : Prop :=
  (carried lab r a).Nonempty ∧ (carried lab r b).Nonempty ∧
    Disjoint (carried lab r a) (carried lab r b)

open Classical in
/-- Join the two classes unless the guard blocks it. -/
noncomputable def guardedJoin (lab : α → Set L) (r : Setoid α) (a b : α) : Setoid α :=
  if Blocked lab r a b then r else join r a b

noncomputable def guardedMerge (lab : α → Set L) (es : List (α × α)) (r : Setoid α) : Setoid α :=
  es.foldl (fun r e => guardedJoin lab r e.1 e.2) r

theorem guardedJoin_of_blocked {lab : α → Set L} {r : Setoid α} {a b : α}
    (h : Blocked lab r a b) : guardedJoin lab r a b = r := if_pos h

theorem guardedJoin_of_not_blocked {lab : α → Set L} {r : Setoid α} {a b : α}
    (h : ¬ Blocked lab r a b) : guardedJoin lab r a b = join r a b := if_neg h

@[simp] theorem guardedMerge_nil (lab : α → Set L) (r : Setoid α) :
    guardedMerge lab [] r = r := rfl

@[simp] theorem guardedMerge_cons (lab : α → Set L) (e : α × α) (es : List (α × α))
    (r : Setoid α) :
    guardedMerge lab (e :: es) r = guardedMerge lab es (guardedJoin lab r e.1 e.2) := rfl

theorem le_guardedJoin (lab : α → Set L) (r : Setoid α) (a b : α) :
    r ≤ guardedJoin lab r a b := by
  unfold guardedJoin
  split
  · exact le_refl r
  · exact le_join r a b

theorem le_guardedMerge (lab : α → Set L) (es : List (α × α)) (r : Setoid α) :
    r ≤ guardedMerge lab es r := by
  induction es generalizing r with
  | nil => exact le_refl r
  | cons e es ih => exact le_trans (le_guardedJoin lab r e.1 e.2) (ih _)

/-- A partition that holds the start and every pair the merge ended up relating
holds the whole merge. -/
theorem guardedMerge_le_of {lab : α → Set L} {es : List (α × α)} {r s : Setoid α} (hr : r ≤ s)
    (hes : ∀ e ∈ es, guardedMerge lab es r e.1 e.2 → s e.1 e.2) :
    guardedMerge lab es r ≤ s := by
  induction es generalizing r with
  | nil => exact hr
  | cons e es ih =>
      rw [guardedMerge_cons]
      refine ih ?_ (fun f hf => hes f (List.mem_cons_of_mem e hf))
      by_cases hb : Blocked lab r e.1 e.2
      · rwa [guardedJoin_of_blocked hb]
      · rw [guardedJoin_of_not_blocked hb]
        refine join_le_iff.mpr ⟨hr, hes e List.mem_cons_self ?_⟩
        rw [guardedMerge_cons, guardedJoin_of_not_blocked hb]
        exact le_guardedMerge lab es _ (join_joins r e.1 e.2)

theorem guardedMerge_touches {lab : α → Set L} {es es' : List (α × α)} {x y : α}
    (hxy : guardedMerge lab es (joinAll es' ⊥) x y) (hne : x ≠ y) :
    ∃ e, (e ∈ es' ∨ e ∈ es) ∧ (e.1 = x ∨ e.2 = x) ∧ e.1 ≠ e.2 ∧
      guardedMerge lab es (joinAll es' ⊥) e.1 e.2 := by
  have hle : joinAll es' ⊥ ≤ guardedMerge lab es (joinAll es' ⊥) := le_guardedMerge lab es _
  let touched : α → Prop := fun z => ∃ e, (e ∈ es' ∨ e ∈ es) ∧ (e.1 = z ∨ e.2 = z) ∧ e.1 ≠ e.2 ∧
    guardedMerge lab es (joinAll es' ⊥) e.1 e.2
  -- the nodes that pairs touch, and each other node by itself, hold every pair of the merge
  let s : Setoid α :=
    { r := fun u v => u = v ∨ (touched u ∧ touched v)
      iseqv := by
        refine ⟨fun u => Or.inl rfl, ?_, ?_⟩
        · intro u v h
          exact h.imp Eq.symm And.symm
        · intro u v w huv hvw
          rcases huv with rfl | ⟨hu, _⟩
          · exact hvw
          · rcases hvw with rfl | ⟨_, hw⟩
            · exact Or.inr ⟨hu, ‹_›⟩
            · exact Or.inr ⟨hu, hw⟩ }
  have hpair : ∀ e, (e ∈ es' ∨ e ∈ es) → guardedMerge lab es (joinAll es' ⊥) e.1 e.2 →
      s e.1 e.2 := by
    intro e he hrel
    by_cases heq : e.1 = e.2
    · exact Or.inl heq
    · exact Or.inr ⟨⟨e, he, Or.inl rfl, heq, hrel⟩, ⟨e, he, Or.inr rfl, heq, hrel⟩⟩
  have hbase : joinAll es' ⊥ ≤ s := by
    refine joinAll_le_iff.mpr ⟨bot_le, ?_⟩
    intro e he
    exact hpair e (Or.inl he) (hle (joinAll_joins he ⊥))
  have hall : guardedMerge lab es (joinAll es' ⊥) ≤ s :=
    guardedMerge_le_of hbase fun e he => hpair e (Or.inr he)
  rcases hall hxy with heq | ⟨htouched, _⟩
  · exact absurd heq hne
  · exact htouched

/-- A merge stays below a partition when the guard blocks every pair that crosses it. -/
theorem guardedMerge_le_of_blocked {lab : α → Set L} {es : List (α × α)} {r top : Setoid α}
    (hr : r ≤ top)
    (hblocked : ∀ s : Setoid α, s ≤ top → ∀ e ∈ es, ¬ top e.1 e.2 → Blocked lab s e.1 e.2) :
    guardedMerge lab es r ≤ top := by
  induction es generalizing r with
  | nil => exact hr
  | cons e es ih =>
      rw [guardedMerge_cons]
      refine ih ?_ (fun s hs f hf => hblocked s hs f (List.mem_cons_of_mem e hf))
      by_cases hb : Blocked lab r e.1 e.2
      · rwa [guardedJoin_of_blocked hb]
      · rw [guardedJoin_of_not_blocked hb]
        refine join_le_iff.mpr ⟨hr, ?_⟩
        by_contra hne
        exact hb (hblocked r hr e List.mem_cons_self hne)

/-- A pair that no partition between the start and the end of the merge blocks
is joined, whatever its place in the list. -/
theorem guardedMerge_joins {lab : α → Set L} {es : List (α × α)} {r top : Setoid α}
    {e : α × α} (he : e ∈ es) (htop : guardedMerge lab es r ≤ top)
    (hfree : ∀ s : Setoid α, s ≤ top → ¬ Blocked lab s e.1 e.2) :
    guardedMerge lab es r e.1 e.2 := by
  induction es generalizing r with
  | nil => exact absurd he List.not_mem_nil
  | cons f es ih =>
      rw [guardedMerge_cons] at htop ⊢
      rcases List.mem_cons.mp he with rfl | hmem
      · have hr : r ≤ top := le_trans (le_guardedJoin lab r e.1 e.2)
          (le_trans (le_guardedMerge lab es _) htop)
        refine le_guardedMerge lab es _ ?_
        rw [guardedJoin_of_not_blocked (hfree r hr)]
        exact join_joins r e.1 e.2
      · exact ih hmem htop

/-! ## Which labels end in one class -/

/-- Two labels meet in a partition when some class of it carries both. -/
def Meets (lab : α → Set L) (r : Setoid α) (P Q : L) : Prop :=
  ∃ a b, r a b ∧ P ∈ lab a ∧ Q ∈ lab b

/-- The labels of each class of `r` are linked by meetings of `base`. -/
def Chained (lab : α → Set L) (base r : Setoid α) : Prop :=
  ∀ x y P Q, r x y → P ∈ lab x → Q ∈ lab y → Relation.ReflTransGen (Meets lab base) P Q

theorem Chained.self (lab : α → Set L) (r : Setoid α) : Chained lab r r := by
  intro x y P Q hxy hP hQ
  exact Relation.ReflTransGen.single ⟨x, y, hxy, hP, hQ⟩

/-- One guarded join keeps the labels of each class chained: a join of two
labelled classes shares a label, and the chain runs through it. -/
theorem Chained.guardedJoin {lab : α → Set L} {base r : Setoid α} (h : Chained lab base r)
    (a b : α) : Chained lab base (guardedJoin lab r a b) := by
  by_cases hb : Blocked lab r a b
  · rwa [guardedJoin_of_blocked hb]
  · rw [guardedJoin_of_not_blocked hb]
    have through : ∀ u v, ¬ Blocked lab r u v → ∀ x y P Q, r x u → r v y → P ∈ lab x →
        Q ∈ lab y → Relation.ReflTransGen (Meets lab base) P Q := by
      intro u v huv x y P Q hxu hvy hP hQ
      have hPu : P ∈ carried lab r u := ⟨x, hxu, hP⟩
      have hQv : Q ∈ carried lab r v := ⟨y, r.symm hvy, hQ⟩
      have hshare : ¬ Disjoint (carried lab r u) (carried lab r v) :=
        fun hd => huv ⟨⟨P, hPu⟩, ⟨Q, hQv⟩, hd⟩
      obtain ⟨D, ⟨w, hwu, hDw⟩, ⟨z, hzv, hDz⟩⟩ := Set.not_disjoint_iff.mp hshare
      have hPD := h x w P D (r.trans hxu (r.symm hwu)) hP hDw
      have hDQ := h z y D Q (r.trans hzv hvy) hDz hQ
      exact hPD.trans hDQ
    intro x y P Q hxy hP hQ
    rcases join_iff.mp hxy with hr | ⟨hxa, hby⟩ | ⟨hxb, hay⟩
    · exact h x y P Q hr hP hQ
    · exact through a b hb x y P Q hxa hby hP hQ
    · refine through b a ?_ x y P Q hxb hay hP hQ
      rintro ⟨hnb, hna, hd⟩
      exact hb ⟨hna, hnb, hd.symm⟩

theorem Chained.guardedMerge {lab : α → Set L} {base r : Setoid α} (h : Chained lab base r)
    (es : List (α × α)) : Chained lab base (guardedMerge lab es r) := by
  induction es generalizing r with
  | nil => exact h
  | cons e es ih => exact ih (h.guardedJoin e.1 e.2)

/-! ## A second pass over the same list -/

/-- `lab` labels the classes of `r`: alike inside a class, apart between classes. -/
structure LabelsClasses (lab : α → Set L) (r : Setoid α) : Prop where
  alike : ∀ {x y}, r x y → lab x = lab y
  apart : ∀ {x y}, ¬ r x y → Disjoint (lab x) (lab y)

theorem LabelsClasses.carried_eq {lab : α → Set L} {r s : Setoid α} (h : LabelsClasses lab r)
    (hs : s ≤ r) (x : α) : carried lab s x = lab x := by
  ext l
  constructor
  · rintro ⟨y, hy, hl⟩
    rwa [← h.alike (hs hy)]
  · intro hl
    exact ⟨x, s.refl x, hl⟩

/-- Below the labelled partition the guard blocks exactly the pairs that cross
it with labels on both sides. -/
theorem LabelsClasses.blocked_iff {lab : α → Set L} {r s : Setoid α} (h : LabelsClasses lab r)
    (hs : s ≤ r) {a b : α} :
    Blocked lab s a b ↔ ¬ r a b ∧ (lab a).Nonempty ∧ (lab b).Nonempty := by
  unfold Blocked
  rw [h.carried_eq hs, h.carried_eq hs]
  constructor
  · rintro ⟨ha, hb, hd⟩
    refine ⟨?_, ha, hb⟩
    intro hab
    obtain ⟨l, hl⟩ := ha
    exact Set.disjoint_left.mp hd hl (h.alike hab ▸ hl)
  · rintro ⟨hab, ha, hb⟩
    exact ⟨ha, hb, h.apart hab⟩

/-- Relabel the classes a guarded merge ended in and run the same list again:
the partition is the same exactly when every pair that crosses it has labels on
both sides. -/
theorem guardedMerge_again_iff {lab lab' : α → Set L} {es : List (α × α)} {base : Setoid α}
    (h : LabelsClasses lab' (guardedMerge lab es base)) :
    guardedMerge lab' es base = guardedMerge lab es base ↔
      ∀ e ∈ es, ¬ guardedMerge lab es base e.1 e.2 →
        (lab' e.1).Nonempty ∧ (lab' e.2).Nonempty := by
  have hbase := le_guardedMerge lab es base
  constructor
  · intro heq e he hcross
    by_contra hempty
    refine hcross ?_
    rw [← heq]
    refine guardedMerge_joins he (le_of_eq heq) ?_
    intro s hs hb
    exact hempty ((h.blocked_iff hs).mp hb).2
  · intro hcross
    have hle : guardedMerge lab' es base ≤ guardedMerge lab es base := by
      refine guardedMerge_le_of_blocked hbase ?_
      intro s hs e he hne
      exact (h.blocked_iff hs).mpr ⟨hne, hcross e he hne⟩
    refine le_antisymm hle (guardedMerge_le_of (le_guardedMerge lab' es base) ?_)
    intro e he hrel
    refine guardedMerge_joins he hle ?_
    intro s hs hb
    exact ((h.blocked_iff hs).mp hb).1 hrel

/-! ## The order of the list -/

theorem Blocked.symm {lab : α → Set L} {r : Setoid α} {a b : α} (h : Blocked lab r a b) :
    Blocked lab r b a := ⟨h.2.1, h.1, h.2.2.symm⟩

theorem guardedJoin_comm (lab : α → Set L) (r : Setoid α) (a b : α) :
    guardedJoin lab r a b = guardedJoin lab r b a := by
  by_cases h : Blocked lab r a b
  · rw [guardedJoin_of_blocked h, guardedJoin_of_blocked h.symm]
  · have h' : ¬ Blocked lab r b a := fun hb => h hb.symm
    rw [guardedJoin_of_not_blocked h, guardedJoin_of_not_blocked h', join_comm]

theorem guardedMerge_map_swap {ι : Type*} (lab : α → Set L) {f g : ι → α × α} (l : List ι)
    (r : Setoid α) (h : ∀ i, g i = f i ∨ g i = (f i).swap) :
    guardedMerge lab (l.map f) r = guardedMerge lab (l.map g) r := by
  induction l generalizing r with
  | nil => rfl
  | cons i rest ih =>
      rw [List.map_cons, List.map_cons, guardedMerge_cons, guardedMerge_cons, ih]
      rcases h i with heq | heq
      · rw [heq]
      · rw [heq, Prod.fst_swap, Prod.snd_swap, guardedJoin_comm]

theorem joinAll_map_swap {ι : Type*} {f g : ι → α × α} (l : List ι) (r : Setoid α)
    (h : ∀ i, g i = f i ∨ g i = (f i).swap) : joinAll (l.map f) r = joinAll (l.map g) r := by
  induction l generalizing r with
  | nil => rfl
  | cons i rest ih =>
      rw [List.map_cons, List.map_cons, joinAll_cons, joinAll_cons, ih]
      rcases h i with heq | heq
      · rw [heq]
      · rw [heq, Prod.fst_swap, Prod.snd_swap, join_comm]

/-! ## Renamed nodes -/

section Renamed

variable {β : Type*} (σ : β ≃ α)

theorem carried_comap (lab : α → Set L) (r : Setoid α) (b : β) :
    carried (lab ∘ σ) (r.comap σ) b = carried lab r (σ b) := by
  ext l
  constructor
  · rintro ⟨y, hy, hl⟩
    exact ⟨σ y, hy, hl⟩
  · rintro ⟨y, hy, hl⟩
    refine ⟨σ.symm y, ?_, ?_⟩
    · show r (σ (σ.symm y)) (σ b)
      rwa [σ.apply_symm_apply]
    · show l ∈ lab (σ (σ.symm y))
      rwa [σ.apply_symm_apply]

theorem guardedJoin_comap (lab : α → Set L) (r : Setoid α) (a b : β) :
    guardedJoin (lab ∘ σ) (r.comap σ) a b = (guardedJoin lab r (σ a) (σ b)).comap σ := by
  have hiff : Blocked (lab ∘ σ) (r.comap σ) a b ↔ Blocked lab r (σ a) (σ b) := by
    unfold Blocked
    rw [carried_comap, carried_comap]
  by_cases h : Blocked lab r (σ a) (σ b)
  · rw [guardedJoin_of_blocked h, guardedJoin_of_blocked (hiff.mpr h)]
  · rw [guardedJoin_of_not_blocked h, guardedJoin_of_not_blocked (mt hiff.mp h)]
    rfl

theorem guardedMerge_comap (lab : α → Set L) (es : List (β × β)) (r : Setoid α) :
    guardedMerge (lab ∘ σ) es (r.comap σ) =
      (guardedMerge lab (es.map (Prod.map σ σ)) r).comap σ := by
  induction es generalizing r with
  | nil => rfl
  | cons e es ih =>
      rw [guardedMerge_cons, guardedJoin_comap, ih]
      rfl

theorem joinAll_comap (es : List (β × β)) (r : Setoid α) :
    joinAll es (r.comap σ) = (joinAll (es.map (Prod.map σ σ)) r).comap σ := by
  induction es generalizing r with
  | nil => rfl
  | cons e es ih => exact ih (join r (σ e.1) (σ e.2))

end Renamed

/-! ## Two orders of one list -/

/-- Two partitions relate the members of `K` to the same nodes, all of them in `K`. -/
structure AgreeOn (K : α → Prop) (r s : Setoid α) : Prop where
  rel : ∀ {x y}, K x → (r x y ↔ s x y)
  closed : ∀ {x y}, K x → r x y → K y

theorem AgreeOn.symm {K : α → Prop} {r s : Setoid α} (h : AgreeOn K r s) : AgreeOn K s r :=
  ⟨fun hx => (h.rel hx).symm, fun hx hs => h.closed hx ((h.rel hx).mpr hs)⟩

theorem AgreeOn.trans {K : α → Prop} {r s t : Setoid α} (h : AgreeOn K r s)
    (k : AgreeOn K s t) : AgreeOn K r t :=
  ⟨fun hx => (h.rel hx).trans (k.rel hx), h.closed⟩

theorem AgreeOn.carried_eq {K : α → Prop} {r s : Setoid α} (h : AgreeOn K r s)
    (lab : α → Set L) {x : α} (hx : K x) : carried lab r x = carried lab s x := by
  ext l
  constructor
  · rintro ⟨y, hy, hl⟩
    exact ⟨y, s.symm ((h.rel hx).mp (r.symm hy)), hl⟩
  · rintro ⟨y, hy, hl⟩
    exact ⟨y, r.symm ((h.rel hx).mpr (s.symm hy)), hl⟩

theorem AgreeOn.join {K : α → Prop} {r s : Setoid α} (h : AgreeOn K r s) {a b : α}
    (ha : K a) (hb : K b) : AgreeOn K (join r a b) (join s a b) where
  rel := by
    intro x y hx
    rw [join_iff, join_iff, h.rel hx, h.rel hx, h.rel hx, h.rel ha, h.rel hb]
  closed := by
    intro x y hx hxy
    rcases join_iff.mp hxy with hr | ⟨_, hby⟩ | ⟨_, hay⟩
    · exact h.closed hx hr
    · exact h.closed hb hby
    · exact h.closed ha hay

theorem AgreeOn.guardedJoin {K : α → Prop} {r s : Setoid α} (h : AgreeOn K r s)
    (lab : α → Set L) {a b : α} (ha : K a) (hb : K b) :
    AgreeOn K (guardedJoin lab r a b) (guardedJoin lab s a b) := by
  have hiff : Blocked lab r a b ↔ Blocked lab s a b := by
    unfold Blocked
    rw [h.carried_eq lab ha, h.carried_eq lab hb]
  by_cases hbl : Blocked lab r a b
  · rwa [guardedJoin_of_blocked hbl, guardedJoin_of_blocked (hiff.mp hbl)]
  · rw [guardedJoin_of_not_blocked hbl, guardedJoin_of_not_blocked (mt hiff.mpr hbl)]
    exact h.join ha hb

theorem AgreeOn.guardedJoin_outside {K : α → Prop} {r s : Setoid α} (h : AgreeOn K r s)
    (lab : α → Set L) {a b : α} (ha : ¬ K a) (hb : ¬ K b) :
    AgreeOn K (GuardedMerge.guardedJoin lab r a b) s := by
  have hout : ∀ {x}, K x → ∀ y, (GuardedMerge.join r a b x y ↔ r x y) := by
    intro x hx y
    have hxa : ¬ r x a := fun hr => ha (h.closed hx hr)
    have hxb : ¬ r x b := fun hr => hb (h.closed hx hr)
    simp [join_iff, hxa, hxb]
  by_cases hbl : Blocked lab r a b
  · rwa [guardedJoin_of_blocked hbl]
  · rw [guardedJoin_of_not_blocked hbl]
    exact ⟨fun hx => (hout hx _).trans (h.rel hx), fun hx hj => h.closed hx ((hout hx _).mp hj)⟩

theorem AgreeOn.guardedMerge_filter {K : α → Prop} [DecidablePred K] {r s : Setoid α}
    (h : AgreeOn K r s) (lab : α → Set L) {es : List (α × α)}
    (hes : ∀ e ∈ es, K e.1 ↔ K e.2) :
    AgreeOn K (guardedMerge lab es r) (guardedMerge lab (es.filter fun e => K e.1) s) := by
  induction es generalizing r s with
  | nil => exact h
  | cons e es ih =>
      have hrest : ∀ f ∈ es, K f.1 ↔ K f.2 := fun f hf => hes f (List.mem_cons_of_mem e hf)
      have he := hes e List.mem_cons_self
      by_cases hK : K e.1
      · rw [List.filter_cons_of_pos (by simpa using hK), guardedMerge_cons, guardedMerge_cons]
        exact ih (h.guardedJoin lab hK (he.mp hK)) hrest
      · rw [List.filter_cons_of_neg (by simpa using hK), guardedMerge_cons]
        exact ih (h.guardedJoin_outside lab hK (mt he.mpr hK)) hrest

theorem AgreeOn.guardedMerge_joinAll {K : α → Prop} {r s : Setoid α} (h : AgreeOn K r s)
    {lab : α → Set L} (hone : ∀ {x y P Q}, K x → K y → P ∈ lab x → Q ∈ lab y → P = Q)
    {es : List (α × α)} (hes : ∀ e ∈ es, K e.1 ∧ K e.2) :
    AgreeOn K (guardedMerge lab es r) (joinAll es s) := by
  induction es generalizing r s with
  | nil => exact h
  | cons e es ih =>
      obtain ⟨ha, hb⟩ := hes e List.mem_cons_self
      rw [guardedMerge_cons, joinAll_cons, guardedJoin_of_not_blocked]
      · exact ih (h.join ha hb) (fun f hf => hes f (List.mem_cons_of_mem e hf))
      · rintro ⟨⟨P, x, hx, hP⟩, ⟨Q, y, hy, hQ⟩, hd⟩
        have hPQ := hone (h.closed ha (r.symm hx)) (h.closed hb (r.symm hy)) hP hQ
        subst hPQ
        exact Set.disjoint_left.mp hd ⟨x, hx, hP⟩ ⟨y, hy, hQ⟩

open Classical in
/-- Two orders of one list of pairs merge to one partition when, in each class of
the graph of all pairs, either a single label occurs or the two orders agree. -/
theorem guardedMerge_order {lab : α → Set L} {es es' : List (α × α)} {base top : Setoid α}
    (hmem : ∀ e, e ∈ es ↔ e ∈ es') (hbase : base ≤ top) (hes : ∀ e ∈ es, top e.1 e.2)
    (hclass : ∀ x, (∀ y z P Q, top x y → top x z → P ∈ lab y → Q ∈ lab z → P = Q) ∨
      (es.filter fun e => top x e.1) = es'.filter fun e => top x e.1) :
    guardedMerge lab es base = guardedMerge lab es' base := by
  ext x y
  have hself : AgreeOn (top x) base base :=
    ⟨fun _ => Iff.rfl, fun hK hr => top.trans hK (hbase hr)⟩
  have hcross : ∀ {l : List (α × α)}, (∀ e ∈ l, top e.1 e.2) →
      ∀ e ∈ l, top x e.1 ↔ top x e.2 := by
    intro l hl e he
    exact ⟨fun hx => top.trans hx (hl e he), fun hx => top.trans hx (top.symm (hl e he))⟩
  have hes' : ∀ e ∈ es', top e.1 e.2 := fun e he => hes e ((hmem e).mpr he)
  have h := hself.guardedMerge_filter lab (hcross hes)
  have h' := hself.guardedMerge_filter lab (hcross hes')
  rcases hclass x with hone | heq
  · have inside : ∀ {l : List (α × α)}, (∀ e ∈ l, top e.1 e.2) →
        ∀ e ∈ l.filter (fun e => top x e.1), top x e.1 ∧ top x e.2 := by
      intro l hl e he
      obtain ⟨hin, hx⟩ := List.mem_filter.mp he
      have hx' : top x e.1 := by simpa using hx
      exact ⟨hx', (hcross hl e hin).mp hx'⟩
    have one : ∀ {u v P Q}, top x u → top x v → P ∈ lab u → Q ∈ lab v → P = Q :=
      fun hu hv hP hQ => hone _ _ _ _ hu hv hP hQ
    have j := h.trans (hself.guardedMerge_joinAll one (inside hes))
    have j' := h'.trans (hself.guardedMerge_joinAll one (inside hes'))
    have hfilter : ∀ e, e ∈ es.filter (fun e => top x e.1) ↔
        e ∈ es'.filter fun e => top x e.1 := by
      intro e
      rw [List.mem_filter, List.mem_filter, hmem e]
    rw [joinAll_congr hfilter] at j
    exact (j.trans j'.symm).rel (top.refl x)
  · rw [heq] at h
    exact (h.trans h'.symm).rel (top.refl x)

end GuardedMerge
