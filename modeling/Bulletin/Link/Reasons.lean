import Mathlib.Data.List.Pairwise
import Bulletin.Link.Equivariance
import Bulletin.Link.Placement

/-! # Why a cluster is in its story

Edges are scored before the guarded passes decide which of them count. A member cites its best edge
inside its own story, so the reason it gives is one that holds there.
-/

namespace Bulletin

open GuardedMerge

variable {n : Nat} {F : Type}

/-! ## The roots -/

section Roots

variable {components : Components n} {r : Setoid (Fin n)}

theorem foldl_roots {entries : List (Fin n × Members n)} {root : Fin n → Nat} {i : Fin n} {k : Nat}
    (hkey : ∀ entry ∈ entries, i ∈ entry.2.toList → entry.1.val = k)
    (hroot : root i = k ∨ ∃ entry ∈ entries, i ∈ entry.2.toList) :
    entries.foldl (fun root entry => entry.2.toList.foldl
      (fun root i => Function.update root i entry.1.val) root) root i = k := by
  have hfile : ∀ (is : List (Fin n)) (v : Nat) (root : Fin n → Nat),
      is.foldl (fun root i => Function.update root i v) root i = if i ∈ is then v else root i := by
    intro is v
    induction is with
    | nil => simp
    | cons j rest ih =>
        intro root
        rw [List.foldl_cons, ih]
        by_cases hj : i = j
        · subst hj
          simp
        · simp [hj]
  induction entries generalizing root with
  | nil =>
      rcases hroot with hroot | ⟨entry, hentry, _⟩
      · exact hroot
      · cases hentry
  | cons entry rest ih =>
      refine ih (fun e he => hkey e (List.mem_cons_of_mem _ he)) ?_
      dsimp only
      rw [hfile]
      by_cases hi : i ∈ entry.2.toList
      · rw [if_pos hi]
        exact Or.inl (hkey entry List.mem_cons_self hi)
      · rw [if_neg hi]
        rcases hroot with hroot | ⟨e, he, hie⟩
        · exact Or.inl hroot
        · rcases List.mem_cons.mp he with rfl | he
          · exact absurd hie hi
          · exact Or.inr ⟨e, he, hie⟩

theorem Components.Partitions.entry_unique (h : components.Partitions)
    {entry entry' : Fin n × Members n} {i : Fin n} (hentry : entry ∈ components.toList)
    (hentry' : entry' ∈ components.toList) (hi : i ∈ entry.2.toList) (hi' : i ∈ entry'.2.toList) :
    entry = entry' := by
  have hdisjoint := (List.nodup_flatMap.mp (h.nodup_iff.mpr (List.nodup_finRange n))).2
  have hsymm : Std.Symm (Function.onFun List.Disjoint fun entry : Fin n × Members n =>
      entry.2.toList) := ⟨fun _ _ hxy => hxy.symm⟩
  by_contra hne
  exact hdisjoint.forall hentry hentry' hne hi hi'

theorem componentRoots_eq_iff (hsplits : components.Splits r) {i j : Fin n} :
    componentRoots components i = componentRoots components j ↔ r i j := by
  have hroot : ∀ i, ∃ entry ∈ components.toList, i ∈ entry.2.toList ∧
      componentRoots components i = entry.1.val := by
    intro i
    obtain ⟨entry, hentry, hi⟩ := List.mem_flatMap.mp
      (hsplits.partitions.mem_iff.mpr (List.mem_finRange i))
    refine ⟨entry, hentry, hi, foldl_roots ?_ (Or.inr ⟨entry, hentry, hi⟩)⟩
    intro other hother hin
    rw [hsplits.partitions.entry_unique hother hentry hin hi]
  obtain ⟨entry, hentry, hi, hir⟩ := hroot i
  obtain ⟨other, hother, hj, hjr⟩ := hroot j
  rw [hir, hjr]
  constructor
  · intro h
    have hget := Std.ExtTreeMap.mem_toList_iff_getElem?_eq_some.mp hentry
    rw [Fin.ext h, Std.ExtTreeMap.mem_toList_iff_getElem?_eq_some.mp hother] at hget
    rw [Option.some.inj hget] at hj
    exact (hsplits.same entry hentry i hi j).mp hj
  · intro h
    have hin := (hsplits.same entry hentry i hi j).mpr h
    rw [hsplits.partitions.entry_unique hentry hother hin hj]

end Roots

/-! ## The best edge of each cluster -/

def Edge.Touches (e : Edge n F) (i : Fin n) : Prop := e.a = i ∨ e.b = i

instance (e : Edge n F) (i : Fin n) : Decidable (e.Touches i) :=
  inferInstanceAs (Decidable (e.a = i ∨ e.b = i))

/-- What edges are compared by: strength, then score. -/
def Edge.rank (e : Edge n F) : Bool ×ₗ F := toLex (e.strong, e.score)

section Best

variable [LinearOrder F] [ExactScore F]

theorem beats_iff {s : Bool} {sc : F} {e : Edge n F} :
    beats (some (s, sc)) e = true ↔ toLex (s, sc) < e.rank := by
  unfold beats Edge.rank
  rw [Prod.Lex.toLex_lt_toLex]
  cases e.strong <;> cases s <;> simp [Score.gt_iff]

/-- The state knows the best of some edges for an index, the first where several are. -/
structure KnowsBest (es : List (Edge n F)) (i : Fin n) (st : BestEdges n F) : Prop where
  none : (∀ e ∈ es, ¬ e.Touches i) → st.best i = none ∧ st.reason i = none
  some : (∃ e ∈ es, e.Touches i) → ∃ e ∈ es, e.Touches i ∧ st.best i = some (e.strong, e.score) ∧
    st.reason i = some e.reason ∧ ∀ f ∈ es, f.Touches i → f.rank ≤ e.rank

theorem offer_other {st : BestEdges n F} {e : Edge n F} {i j : Fin n} (hij : i ≠ j) :
    (st.offer e j).best i = st.best i ∧ (st.offer e j).reason i = st.reason i := by
  unfold BestEdges.offer
  split
  · exact ⟨Function.update_of_ne hij _ _, Function.update_of_ne hij _ _⟩
  · exact ⟨rfl, rfl⟩

theorem offer_beaten {st : BestEdges n F} {e : Edge n F} {i : Fin n}
    (h : beats (st.best i) e = false) : st.offer e i = st := by
  unfold BestEdges.offer
  rw [if_neg (by simp [h])]

theorem offer_beats {st : BestEdges n F} {e : Edge n F} {i : Fin n}
    (h : beats (st.best i) e = true) :
    (st.offer e i).best i = some (e.strong, e.score) ∧ (st.offer e i).reason i = some e.reason := by
  unfold BestEdges.offer
  rw [if_pos h]
  exact ⟨Function.update_self _ _ _, Function.update_self _ _ _⟩

def offerBoth (st : BestEdges n F) (e : Edge n F) : BestEdges n F := (st.offer e e.a).offer e e.b

theorem offerBoth_keeps {st : BestEdges n F} {e : Edge n F} {i : Fin n}
    (h : e.Touches i → beats (st.best i) e = false) :
    (offerBoth st e).best i = st.best i ∧ (offerBoth st e).reason i = st.reason i := by
  have hoffer : ∀ (st : BestEdges n F) (j : Fin n), (j = i → beats (st.best i) e = false) →
      (st.offer e j).best i = st.best i ∧ (st.offer e j).reason i = st.reason i := by
    intro st j hj
    by_cases hij : i = j
    · subst hij
      rw [offer_beaten (hj rfl)]
      exact ⟨rfl, rfl⟩
    · exact offer_other hij
  obtain ⟨hbest, hreason⟩ := hoffer st e.a fun ha => h (Or.inl ha)
  obtain ⟨hbest', hreason'⟩ := hoffer (st.offer e e.a) e.b fun hb => hbest ▸ h (Or.inr hb)
  exact ⟨hbest'.trans hbest, hreason'.trans hreason⟩

theorem offerBoth_takes {st : BestEdges n F} {e : Edge n F} {i : Fin n} (htouch : e.Touches i)
    (h : beats (st.best i) e = true) :
    (offerBoth st e).best i = some (e.strong, e.score) ∧
      (offerBoth st e).reason i = some e.reason := by
  unfold offerBoth
  by_cases ha : e.a = i
  · obtain ⟨hbest, hreason⟩ := offer_beats (ha ▸ h : beats (st.best e.a) e = true)
    rw [ha] at hbest hreason ⊢
    by_cases hb : e.b = i
    · -- offered once more it does not beat itself
      have hself : beats ((st.offer e i).best i) e = false := by
        rw [hbest, Bool.eq_false_iff, ne_eq, beats_iff]
        exact lt_irrefl _
      rw [hb, offer_beaten hself]
      exact ⟨hbest, hreason⟩
    · obtain ⟨hbest', hreason'⟩ := @offer_other n F _ _ (st.offer e i) e i e.b (Ne.symm hb)
      exact ⟨hbest'.trans hbest, hreason'.trans hreason⟩
  · obtain rfl : e.b = i := htouch.resolve_left ha
    refine offer_beats ?_
    rw [(offer_other (Ne.symm ha)).1]
    exact h

theorem KnowsBest.snoc {es : List (Edge n F)} {i : Fin n} {st : BestEdges n F}
    (h : KnowsBest es i st) (e : Edge n F) : KnowsBest (es ++ [e]) i (offerBoth st e) where
  none := by
    intro hno
    obtain ⟨hbest, hreason⟩ := h.none fun f hf => hno f (List.mem_append_left _ hf)
    have hkeep : e.Touches i → beats (st.best i) e = false :=
      fun htouch => absurd htouch (hno e (by simp))
    obtain ⟨hbest', hreason'⟩ := offerBoth_keeps hkeep
    exact ⟨hbest'.trans hbest, hreason'.trans hreason⟩
  some := by
    intro hex
    by_cases hold : ∃ f ∈ es, f.Touches i
    · obtain ⟨g, hg, hgtouch, hbest, hreason, hall⟩ := h.some hold
      by_cases htake : e.Touches i ∧ g.rank < e.rank
      · obtain ⟨htouch, hlt⟩ := htake
        obtain ⟨hbest', hreason'⟩ := offerBoth_takes htouch
          (by rw [hbest]; exact beats_iff.mpr hlt : beats (st.best i) e = true)
        refine ⟨e, by simp, htouch, hbest', hreason', ?_⟩
        intro f hf hftouch
        rcases List.mem_append.mp hf with hf | hf
        · exact (hall f hf hftouch).trans hlt.le
        · rw [List.mem_singleton.mp hf]
      · have hkeep : e.Touches i → beats (st.best i) e = false := by
          intro htouch
          rw [hbest, Bool.eq_false_iff, ne_eq, beats_iff]
          exact fun hlt => htake ⟨htouch, hlt⟩
        obtain ⟨hbest', hreason'⟩ := offerBoth_keeps hkeep
        refine ⟨g, List.mem_append_left _ hg, hgtouch, hbest'.trans hbest,
          hreason'.trans hreason, ?_⟩
        intro f hf hftouch
        rcases List.mem_append.mp hf with hf | hf
        · exact hall f hf hftouch
        · obtain rfl := List.mem_singleton.mp hf
          exact not_lt.mp fun hlt => htake ⟨hftouch, hlt⟩
    · have hnone : ∀ f ∈ es, ¬ f.Touches i := fun f hf htouch => hold ⟨f, hf, htouch⟩
      obtain ⟨f, hf, hftouch⟩ := hex
      have hfe : f = e := by
        rcases List.mem_append.mp hf with hf | hf
        · exact absurd hftouch (hnone f hf)
        · exact List.mem_singleton.mp hf
      subst hfe
      obtain ⟨hbest, hreason⟩ := offerBoth_takes hftouch
        (by rw [(h.none hnone).1]; rfl : beats (st.best i) f = true)
      refine ⟨f, by simp, hftouch, hbest, hreason, ?_⟩
      intro g hg hgtouch
      rcases List.mem_append.mp hg with hg | hg
      · exact absurd hgtouch (hnone g hg)
      · rw [List.mem_singleton.mp hg]

theorem knowsBest_foldl (es : List (Edge n F)) (i : Fin n) :
    KnowsBest es i (es.foldl offerBoth ⟨fun _ => none, fun _ => none⟩) := by
  induction es using List.reverseRecOn with
  | nil => exact ⟨fun _ => ⟨rfl, rfl⟩, by simp⟩
  | append_singleton es e ih =>
      rw [List.foldl_append]
      exact ih.snoc e

variable {edges : List (Edge n F)} {components : Components n} {r : Setoid (Fin n)} {i : Fin n}

theorem memberReasons_eq_none (hsplits : components.Splits r)
    (h : ∀ e ∈ edges, e.Touches i → ¬ r e.a e.b) : memberReasons edges components i = none := by
  have hbest := knowsBest_foldl
    (edges.filter fun e => componentRoots components e.a = componentRoots components e.b) i
  refine (hbest.none ?_).2
  intro e he htouch
  obtain ⟨hmem, hroot⟩ := List.mem_filter.mp he
  exact h e hmem htouch ((componentRoots_eq_iff hsplits).mp (of_decide_eq_true hroot))

theorem memberReasons_eq_some (hsplits : components.Splits r)
    (h : ∃ e ∈ edges, e.Touches i ∧ r e.a e.b) :
    ∃ e ∈ edges, e.Touches i ∧ r e.a e.b ∧ memberReasons edges components i = some e.reason ∧
      ∀ f ∈ edges, f.Touches i → r f.a f.b → f.rank ≤ e.rank := by
  have hmem : ∀ e, (e ∈ edges.filter fun e =>
      componentRoots components e.a = componentRoots components e.b) ↔ e ∈ edges ∧ r e.a e.b := by
    intro e
    rw [List.mem_filter, decide_eq_true_eq, componentRoots_eq_iff hsplits]
  have hbest := knowsBest_foldl
    (edges.filter fun e => componentRoots components e.a = componentRoots components e.b) i
  obtain ⟨e, he, htouch, hin⟩ := h
  obtain ⟨g, hg, hgtouch, _, hreason, hall⟩ := hbest.some ⟨e, (hmem e).mpr ⟨he, hin⟩, htouch⟩
  obtain ⟨hgmem, hgin⟩ := (hmem g).mp hg
  refine ⟨g, hgmem, hgtouch, hgin, hreason, ?_⟩
  intro f hf hftouch hfin
  exact hall f ((hmem f).mpr ⟨hf, hfin⟩) hftouch

end Best

/-! ## Where an edge comes from -/

section Sources

variable [Score F] {clusters : Fin n → LinkCluster}

theorem id_of_indexOf {id : Uuid} {i : Fin n} (h : indexOf clusters id = some i) :
    (clusters i).id = id := by
  unfold indexOf at h
  simpa using List.find?_some h

theorem mem_of_mem_forceEdge {a b : Fin n} {es : List (Edge n F)} {e : Edge n F}
    (h : e ∈ forceEdge a b es) : e ∈ es ∨ e = mustEdge a b := by
  induction es with
  | nil => exact Or.inr (List.mem_singleton.mp h)
  | cons x rest ih =>
      by_cases hx : x.ends = (a, b)
      · rw [forceEdge_cons_hit hx] at h
        rcases List.mem_cons.mp h with h | h
        · exact Or.inr h
        · exact Or.inl (List.mem_cons_of_mem _ h)
      · rw [forceEdge_cons_miss hx] at h
        rcases List.mem_cons.mp h with rfl | h
        · exact Or.inl List.mem_cons_self
        · exact (ih h).imp_left (List.mem_cons_of_mem _)

theorem mem_of_mem_applyMust {es : List (Edge n F)} {pair : Uuid ×ₗ Uuid} {e : Edge n F}
    (h : e ∈ applyMust clusters es pair) : e ∈ es ∨ ∃ i j, i ≠ j ∧
      toLex ((clusters i).id, (clusters j).id) = pair ∧ e = mustEdge (min i j) (max i j) := by
  unfold applyMust at h
  cases hi : indexOf clusters (ofLex pair).1 with
  | none =>
      rw [hi] at h
      exact Or.inl h
  | some i =>
      cases hj : indexOf clusters (ofLex pair).2 with
      | none =>
          rw [hi, hj] at h
          exact Or.inl h
      | some j =>
          simp only [hi, hj] at h
          by_cases hij : i = j
          · rw [if_pos hij] at h
            exact Or.inl h
          · rw [if_neg hij] at h
            refine (mem_of_mem_forceEdge h).imp_right fun he => ⟨i, j, hij, ?_, he⟩
            rw [id_of_indexOf hi, id_of_indexOf hj]
            rfl

/-- An edge of a run was scored, or forced between two clusters of a must-link pair. -/
theorem linkEdges_source {tuning : LinkTuning F} {e : Edge n F}
    (h : e ∈ linkEdges clusters tuning) : (e ∈ scoreEdges clusters tuning.entityWeights ∧
        pairId clusters e ∉ tuning.constraints.cannotLink) ∨
      ∃ i j, i ≠ j ∧ toLex ((clusters i).id, (clusters j).id) ∈ tuning.constraints.mustLink ∧
        e = mustEdge (min i j) (max i j) := by
  have hfold : ∀ (pairs : List (Uuid ×ₗ Uuid)) (es : List (Edge n F)),
      e ∈ pairs.foldl (applyMust clusters) es → e ∈ es ∨ ∃ i j, i ≠ j ∧
        toLex ((clusters i).id, (clusters j).id) ∈ pairs ∧ e = mustEdge (min i j) (max i j) := by
    intro pairs
    induction pairs with
    | nil => exact fun _ he => Or.inl he
    | cons pair rest ih =>
        intro es he
        rcases ih _ he with he | ⟨i, j, hij, hpair, heq⟩
        · rcases mem_of_mem_applyMust he with he | ⟨i, j, hij, hpair, heq⟩
          · exact Or.inl he
          · exact Or.inr ⟨i, j, hij, hpair ▸ List.mem_cons_self, heq⟩
        · exact Or.inr ⟨i, j, hij, List.mem_cons_of_mem _ hpair, heq⟩
  rcases hfold _ _ h with he | ⟨i, j, hij, hpair, heq⟩
  · obtain ⟨hscored, hfree⟩ := List.mem_filter.mp he
    exact Or.inl ⟨hscored, by simpa using hfree⟩
  · exact Or.inr ⟨i, j, hij, Std.ExtTreeSet.mem_toList.mp hpair, heq⟩

theorem not_twice_of_nodup {i : Fin n} (h : (clusters i).entities.Nodup) (e : String) :
    ¬ [i, i].Sublist (carriers clusters e) := by
  intro hsub
  have hcount := hsub.count_le i
  rw [count_carriers_eq] at hcount
  have hone := List.nodup_iff_count_le_one.mp (h.filter fun e => (linkStrength e).isSome) e
  simp at hcount
  omega

/-- The keys an accumulated pair names are all such that `S` holds of them. -/
def PairAcc.KeysIn (S : String → Prop) (p : PairAcc F) : Prop :=
  (∀ key, p.strongKey = some key → S key) ∧ ∀ w key, p.bestWeak = some (w, key) → S key

theorem PairAcc.KeysIn.add {S : String → Prop} {p : PairAcc F} (h : p.KeysIn S) {e : String}
    (he : S e) (w : F) : (p.add e w).KeysIn S := by
  constructor
  · intro key hkey
    unfold PairAcc.add at hkey
    dsimp only at hkey
    split at hkey
    · rcases Option.or_eq_some_iff.mp hkey with hkey | ⟨_, hkey⟩
      · exact h.1 key hkey
      · exact Option.some.inj hkey ▸ he
    · exact h.1 key hkey
  · intro w' key hkey
    unfold PairAcc.add at hkey
    dsimp only at hkey
    split at hkey
    · exact h.2 w' key hkey
    · split at hkey
      · cases hkey
        exact he
      · rename_i bw best hbest
        split at hkey
        · cases hkey
          exact he
        · cases hkey
          exact h.2 _ _ hbest

theorem keysIn_gather {S : String → Prop} {xs : List (String × F)} {entry : Option (PairAcc F)}
    {p : PairAcc F} (hxs : ∀ x ∈ xs, S x.1) (hentry : (entry.getD .empty).KeysIn S)
    (h : Buckets.gather (fun entry x => (entry.getD .empty).add x.1 x.2) xs entry = some p) :
    p.KeysIn S := by
  induction xs generalizing entry with
  | nil =>
      rw [Buckets.gather_nil] at h
      rw [h] at hentry
      exact hentry
  | cons x rest ih =>
      rw [Buckets.gather_cons] at h
      refine ih (fun y hy => hxs y (List.mem_cons_of_mem _ hy)) ?_ h
      exact hentry.add (hxs x List.mem_cons_self) x.2

theorem scored_reason {entityWeights : EntityWeights F} {e : Edge n F}
    (h : e ∈ scoreEdges clusters entityWeights) :
    ∃ key, e.reason = "shared " ++ key ∧ ∃ q ∈ pairsOf (carriers clusters key),
      pairKey q.1 q.2 = pairKey e.a e.b := by
  obtain ⟨_, hgrade⟩ := (mem_scoreEdges clusters entityWeights).mp h
  obtain ⟨p, hp, hgrade⟩ := Option.bind_eq_some_iff.mp hgrade
  rw [pairAccs_getElem?] at hp
  have hkeys : p.KeysIn fun key => ∃ q ∈ pairsOf (carriers clusters key),
      pairKey q.1 q.2 = pairKey e.a e.b := by
    refine keysIn_gather ?_ ⟨by simp [PairAcc.empty], by simp [PairAcc.empty]⟩ hp
    intro x hx
    obtain ⟨key, _, hx⟩ := List.mem_flatMap.mp hx
    obtain ⟨hcount, rfl⟩ := List.mem_replicate.mp hx
    obtain ⟨q, hq, hpair⟩ := List.countP_pos_iff.mp (Nat.pos_of_ne_zero hcount)
    exact ⟨q, hq, of_decide_eq_true hpair⟩
  unfold gradePair at hgrade
  cases hstrong : p.strongKey with
  | some key =>
      simp only [hstrong, Option.some.injEq, Prod.mk.injEq] at hgrade
      exact ⟨key, hgrade.2.2.symm, hkeys.1 key hstrong⟩
  | none =>
      simp only [hstrong, Option.ite_none_left_eq_some, Option.map_eq_some_iff, Prod.mk.injEq]
        at hgrade
      obtain ⟨_, _, best, hbest, _, _, hreason⟩ := hgrade
      exact ⟨best.2, hreason.symm, hkeys.2 best.1 best.2 hbest⟩

end Sources

/-! ## Truthful reasons -/

section Truthful

variable [Score F] (clusters : Fin n → LinkCluster) (tuning : LinkTuning F) (story : LinkedStory)

structure EdgeInside (e : Edge n F) : Prop where
  mem : e ∈ linkEdges clusters tuning
  left : (clusters e.a).id ∈ story.members
  right : (clusters e.b).id ∈ story.members

/-- The reason names what the cluster has in common with another one of the story. -/
inductive NamesSibling (i : Fin n) : String → Prop where
  | shared {j : Fin n} {entity : String} : (clusters j).id ∈ story.members →
      (clusters j).id ≠ (clusters i).id → (linkStrength entity).isSome →
      entity ∈ (clusters i).entities → entity ∈ (clusters j).entities →
      NamesSibling i ("shared " ++ entity)
  | mustLink {j : Fin n} : (clusters j).id ∈ story.members → (clusters j).id ≠ (clusters i).id →
      (toLex ((clusters i).id, (clusters j).id) ∈ tuning.constraints.mustLink ∨
        toLex ((clusters j).id, (clusters i).id) ∈ tuning.constraints.mustLink) →
      NamesSibling i "must-link (feedback)"

/-- The member cites the edge, and none of its edges inside the story is better. -/
structure Cites [LE F] (i : Fin n) (reason : Option String) (e : Edge n F) : Prop where
  inside : EdgeInside clusters tuning story e
  touches : e.Touches i
  reason : reason = some e.reason
  strong : (∃ f, EdgeInside clusters tuning story f ∧ f.Touches i ∧ f.strong = true) →
    e.strong = true
  highest : (∀ f, EdgeInside clusters tuning story f → f.Touches i → f.strong = false) →
    ∀ f, EdgeInside clusters tuning story f → f.Touches i → f.score ≤ e.score

/-- What the reasons of a story's members say. -/
structure TruthfulReasons [LE F] : Prop where
  fused : 2 ≤ story.clusters.length → ∀ ref ∈ story.clusters, ∃ i, (clusters i).id = ref.clusterId ∧
    (∃ e, Cites clusters tuning story i ref.linkReason e) ∧
      ((clusters i).entities.Nodup →
        ∃ text, ref.linkReason = some text ∧ NamesSibling clusters tuning story i text)
  single : story.clusters.length = 1 → ∀ ref ∈ story.clusters, ∃ i,
    (clusters i).id = ref.clusterId ∧
    ((clusters i).entities.Nodup → ref.linkReason = none)

end Truthful

section Linked

variable [Score F] {clusters : Fin n → LinkCluster} {prior : List PriorMember}
  {tuning : LinkTuning F}

omit [Score F] in
theorem NamesSibling.exists_sibling {story : LinkedStory} {i : Fin n} {text : String}
    (h : NamesSibling clusters tuning story i text) :
    ∃ j, (clusters j).id ∈ story.members ∧ (clusters j).id ≠ (clusters i).id := by
  cases h with
  | shared hj hne => exact ⟨_, hj, hne⟩
  | mustLink hj hne => exact ⟨_, hj, hne⟩

theorem exists_edge_of_linked {i j : Fin n}
    (hij : linked clusters (linkEdges clusters tuning) prior i j) (hne : i ≠ j) :
    ∃ e ∈ linkEdges clusters tuning, e.Touches i ∧
      linked clusters (linkEdges clusters tuning) prior e.a e.b := by
  rw [linked_eq] at hij ⊢
  obtain ⟨p, hp, htouch, _, hrel⟩ := guardedMerge_touches hij hne
  rcases hp with hp | hp
  · obtain ⟨e, he, rfl⟩ := List.mem_map.mp hp
    exact ⟨e, (List.mem_filter.mp he).1, htouch, hrel⟩
  · obtain ⟨e, he, rfl⟩ := List.mem_map.mp hp
    exact ⟨e, (mem_weakEdges.mp he).1, htouch, hrel⟩

theorem EdgeInside.exists_other {story : LinkedStory} {e : Edge n F}
    (h : EdgeInside clusters tuning story e) {i : Fin n} (htouch : e.Touches i) :
    ∃ j, pairKey e.a e.b = pairKey i j ∧ (clusters j).id ∈ story.members := by
  rcases htouch with rfl | rfl
  · exact ⟨e.b, rfl, h.right⟩
  · exact ⟨e.a, pairKey_comm _ _, h.left⟩

/-- The reason of an edge inside a story holds for each end that repeats no entity. -/
theorem namesSibling_of_edge (hids : Function.Injective fun i => (clusters i).id)
    {story : LinkedStory} {e : Edge n F} (h : EdgeInside clusters tuning story e) {i : Fin n}
    (htouch : e.Touches i) (hnodup : (clusters i).entities.Nodup) :
    NamesSibling clusters tuning story i e.reason := by
  obtain ⟨j, hends, hj⟩ := h.exists_other htouch
  rcases linkEdges_source h.mem with ⟨hscored, _⟩ | ⟨k, l, hkl, hpair, rfl⟩
  · obtain ⟨key, hreason, q, hq, hkey⟩ := scored_reason hscored
    have hsub := mem_pairsOf.mp hq
    have hcarry : i ∈ carriers clusters key ∧ j ∈ carriers clusters key ∧ j ≠ i := by
      rcases pairKey_eq_iff.mp (hkey.trans hends) with ⟨hi, hj⟩ | ⟨hj, hi⟩
      · rw [hi, hj] at hsub
        refine ⟨hsub.subset (by simp), hsub.subset (by simp), ?_⟩
        rintro rfl
        exact not_twice_of_nodup hnodup key hsub
      · rw [hi, hj] at hsub
        refine ⟨hsub.subset (by simp), hsub.subset (by simp), ?_⟩
        rintro rfl
        exact not_twice_of_nodup hnodup key hsub
    obtain ⟨hi, hj', hne⟩ := hcarry
    obtain ⟨hentity, hlinks⟩ := (mem_carriers_iff clusters).mp hi
    rw [hreason]
    exact .shared hj (hids.ne hne) hlinks hentity ((mem_carriers_iff clusters).mp hj').1
  · have hkey : pairKey k l = pairKey i j := by
      rw [← hends]
      exact (pairKey_eq_iff.mpr (by
        rcases le_total k l with hle | hle
        · exact Or.inl ⟨min_eq_left hle, max_eq_right hle⟩
        · exact Or.inr ⟨min_eq_right hle, max_eq_left hle⟩)).symm
    rcases pairKey_eq_iff.mp hkey with ⟨rfl, rfl⟩ | ⟨rfl, rfl⟩
    · exact .mustLink hj (hids.ne hkl.symm) (Or.inl hpair)
    · exact .mustLink hj (hids.ne hkl) (Or.inr hpair)

/-- The members of a story in a run are a component, and each gives its best edge there. -/
theorem story_component (hids : Function.Injective fun i => (clusters i).id) {mint : Nat → Uuid}
    {story : LinkedStory} (hstory : story ∈ (linkWith clusters prior tuning mint).stories) :
    ∃ ms : Members n, ms.toList.Nodup ∧ story.clusters.length = ms.toList.length ∧
      (∀ i, (clusters i).id ∈ story.members ↔ i ∈ ms.toList) ∧
      (∀ i ∈ ms.toList, ∀ j, j ∈ ms.toList ↔
        linked clusters (linkEdges clusters tuning) prior i j) ∧
      ∀ ref ∈ story.clusters, ∃ i ∈ ms.toList, (clusters i).id = ref.clusterId ∧
        ref.linkReason = memberReasons (linkEdges clusters tuning)
          (linkComponents clusters prior tuning) i := by
  obtain ⟨k, ms, s, hms, _, rfl⟩ := mem_stories.mp hstory
  obtain ⟨entry, hentry, rfl⟩ := mem_orderedComponents.mp (List.mem_of_getElem? hms)
  have hsplits := components_splits clusters (linkEdges clusters tuning) prior
  have hnodup : entry.2.toList.Nodup :=
    (List.nodup_flatMap.mp (hsplits.partitions.nodup_iff.mpr (List.nodup_finRange _))).1 entry hentry
  refine ⟨entry.2, hnodup, ?_, ?_, hsplits.same entry hentry, ?_⟩
  · simp [linkedStory]
  · intro i
    rw [mem_members]
    constructor
    · intro h
      obtain ⟨j, hj, hid⟩ := h
      exact hids hid ▸ hj
    · intro h
      exact ⟨i, h, rfl⟩
  · intro ref href
    obtain ⟨i, hi, rfl⟩ := List.mem_map.mp ((List.mem_insertionSort _).mp href)
    exact ⟨i, hi, rfl, rfl⟩

end Linked

/-- Every member of a story with several clusters cites its best edge inside the story, and a member
that repeats no entity gives a reason it shares with another one, or none where it is alone. -/
theorem link_reasons_truthful [LinearOrder F] [ExactScore F] (clusters : Fin n → LinkCluster)
    (hids : Function.Injective fun i => (clusters i).id) (prior : List PriorMember)
    (tuning : LinkTuning F) (mint : Nat → Uuid) {story : LinkedStory}
    (hstory : story ∈ (linkWith clusters prior tuning mint).stories) :
    TruthfulReasons clusters tuning story := by
  obtain ⟨ms, hnodup, hlength, hmember, hcomponent, hreasons⟩ := story_component hids hstory
  have hsplits := components_splits clusters (linkEdges clusters tuning) prior
  -- the edges inside the story are those inside the component
  have hinside : ∀ {i : Fin n}, i ∈ ms.toList → ∀ {e : Edge n F}, e.Touches i →
      (EdgeInside clusters tuning story e ↔ e ∈ linkEdges clusters tuning ∧
        linked clusters (linkEdges clusters tuning) prior e.a e.b) := by
    intro i hi e htouch
    constructor
    · intro h
      exact ⟨h.mem, (hcomponent e.a ((hmember _).mp h.left) e.b).mp ((hmember _).mp h.right)⟩
    · intro h
      obtain ⟨hmem, hrel⟩ := h
      rcases htouch with rfl | rfl
      · exact ⟨hmem, (hmember _).mpr hi, (hmember _).mpr ((hcomponent _ hi _).mpr hrel)⟩
      · exact ⟨hmem, (hmember _).mpr ((hcomponent _ hi _).mpr (Setoid.symm' _ hrel)),
          (hmember _).mpr hi⟩
  constructor
  · intro htwo ref href
    obtain ⟨i, hi, hid, hgiven⟩ := hreasons ref href
    obtain ⟨j, hj, hji⟩ : ∃ j ∈ ms.toList, j ≠ i := by
      by_contra hall
      have hsub : ms.toList ⊆ [i] := by
        intro j hj
        rw [List.mem_singleton]
        by_contra hne
        exact hall ⟨j, hj, hne⟩
      have hle := (hnodup.subperm hsub).length_le
      rw [List.length_singleton] at hle
      omega
    obtain ⟨f, hf, hftouch, hfrel⟩ :=
      exists_edge_of_linked ((hcomponent i hi j).mp hj) (Ne.symm hji)
    obtain ⟨e, he, htouch, hrel, hreason, hbest⟩ :=
      memberReasons_eq_some hsplits ⟨f, hf, hftouch, hfrel⟩
    have hein := (hinside hi htouch).mpr ⟨he, hrel⟩
    refine ⟨i, hid, ⟨e, hein, htouch, hgiven.trans hreason, ?_, ?_⟩, ?_⟩
    · rintro ⟨g, hg, hgtouch, hgstrong⟩
      obtain ⟨hgmem, hgrel⟩ := (hinside hi hgtouch).mp hg
      have hrank := hbest g hgmem hgtouch hgrel
      unfold Edge.rank at hrank
      rw [Prod.Lex.toLex_le_toLex, hgstrong] at hrank
      rcases hrank with hlt | ⟨heq, _⟩
      · exact absurd hlt (by cases e.strong <;> simp)
      · exact heq.symm
    · intro hweak g hg hgtouch
      obtain ⟨hgmem, hgrel⟩ := (hinside hi hgtouch).mp hg
      have hrank := hbest g hgmem hgtouch hgrel
      unfold Edge.rank at hrank
      rw [Prod.Lex.toLex_le_toLex, hweak g hg hgtouch, hweak e hein htouch] at hrank
      simpa using hrank
    · intro hentities
      exact ⟨e.reason, hgiven.trans hreason, namesSibling_of_edge hids hein htouch hentities⟩
  · intro hone ref href
    obtain ⟨i, hi, hid, hgiven⟩ := hreasons ref href
    refine ⟨i, hid, fun hentities => hgiven.trans (memberReasons_eq_none hsplits ?_)⟩
    intro e he htouch hrel
    -- an edge inside the component would name another member
    have hein := (hinside hi htouch).mpr ⟨he, hrel⟩
    obtain ⟨j, hj, hne⟩ := (namesSibling_of_edge hids hein htouch hentities).exists_sibling
    have hsingle : ∀ j, (clusters j).id ∈ story.members → (clusters j).id = (clusters i).id := by
      intro j hj
      obtain ⟨k, hk⟩ := List.length_eq_one_iff.mp (hlength ▸ hone)
      have hjk : j = k := List.mem_singleton.mp (hk ▸ (hmember j).mp hj)
      have hik : i = k := List.mem_singleton.mp (hk ▸ hi)
      rw [hjk, hik]
    exact hne (hsingle j hj)

theorem link_reasons_truthful_fused :
    TruthfulReasons fusedClusters ({} : LinkTuning ℚ) fusedStory := by
  have hstory : fusedStory ∈ (linkWith fusedClusters fusedPrior ({} : LinkTuning ℚ)
      fun k => 100 + k).stories := by decide +kernel
  exact link_reasons_truthful fusedClusters (by decide) fusedPrior {} (fun k => 100 + k) hstory

def repeatedClusters : Fin 1 → LinkCluster := ![feedCluster 1 ["cve:a", "cve:a"] 0]

/-- Alone in its story, it cites the entity it shares with itself. -/
theorem repeated_entity_cited : (Function.Injective fun i => (repeatedClusters i).id) ∧
    ¬ ∀ story ∈ (linkWith repeatedClusters [] ({} : LinkTuning ℚ) fun k => 100 + k).stories,
      story.clusters.length = 1 → ∀ ref ∈ story.clusters, ref.linkReason = none :=
  ⟨by decide, by decide +kernel⟩

end Bulletin
