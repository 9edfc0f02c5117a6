import Bulletin.Core.SpanningForest
import Bulletin.Identity.Resolve

/-! # What the resolver computes

The components of a resolution are the tokens that paths of eligible edges join, whatever the
order of nodes and edges. A component stands under its smallest member, those of before first, and
is as sure as the best of its weakest links.
-/

namespace Bulletin

namespace Identity

open DisjointSet GuardedMerge SpanningForest

/-! ## The specification -/

/-- Tokens that a path joins, of edges that no veto forbids and of confidences in `P`. -/
def identified (edges : List (Edge ℚ)) (vetoes : List (String × String)) (P : ℚ → Prop) :
    Setoid String :=
  Relation.EqvGen.setoid fun x y =>
    ∃ e ∈ edges, P e.confidence ∧ pair e.a e.b ∉ vetoes ∧ e.a = x ∧ e.b = y

/-- The smallest member that stood for a component before, or else the smallest. -/
structure StandsFor (prior : List String) (members : Set String) (r : String) : Prop where
  before : (∃ m ∈ members, m ∈ prior) → IsLeast {m | m ∈ members ∧ m ∈ prior} r
  fresh : (∀ m ∈ members, m ∉ prior) → IsLeast members r

/-- What a resolution of edges is. -/
structure Resolves (edges : List (Edge ℚ)) (vetoes : List (String × String)) (theta : ℚ)
    (prior : List String) (r : Resolution) : Prop where
  same : ∀ x y, r.representative x = r.representative y ↔ identified edges vetoes (theta ≤ ·) x y
  stands : ∀ x, StandsFor prior {y | identified edges vetoes (theta ≤ ·) x y} (r.representative x)
  alone : ∀ x, (∀ y, identified edges vetoes (theta ≤ ·) x y → x = y) → r.bandOf x = .confirmed
  /-- A larger component is as sure as the largest confidence whose edges still connect it. -/
  bottleneck : ∀ x y, identified edges vetoes (theta ≤ ·) x y → x ≠ y →
    ∃ w, IsGreatest {w | ∀ z, identified edges vetoes (theta ≤ ·) x z →
        identified edges vetoes (fun c => theta ≤ c ∧ w ≤ c) x z} w ∧
      r.bandOf x = ConfidenceBand.fromScore w

/-! ## The order of the walk -/

def Edge.sortKey (e : Edge ℚ) : ℚᵒᵈ ×ₗ String ×ₗ String :=
  toLex (OrderDual.toDual e.confidence, toLex (e.a, e.b))

theorem edgeOrder_ne_gt {x y : Edge ℚ} : edgeOrder x y ≠ .gt ↔ x.sortKey ≤ y.sortKey := by
  unfold edgeOrder Edge.sortKey
  rw [Prod.Lex.toLex_le_toLex, Prod.Lex.toLex_le_toLex]
  show (compare y.confidence x.confidence).then _ ≠ .gt ↔ _
  rcases lt_trichotomy y.confidence x.confidence with h | h | h
  · rw [compare_lt_iff_lt.mpr h]
    simp [Ordering.then, h]
  · rw [compare_eq_iff_eq.mpr h]
    rcases lt_trichotomy x.a y.a with ha | ha | ha
    · rw [compare_lt_iff_lt.mpr ha]
      simp [Ordering.then, h, ha]
    · have hb : compare x.b y.b ≠ .gt ↔ x.b ≤ y.b := by rw [ne_eq, compare_gt_iff_gt, not_lt]
      rw [compare_eq_iff_eq.mpr ha]
      simp [Ordering.then, h, ha, hb]
    · rw [compare_gt_iff_gt.mpr ha]
      simp [Ordering.then, h, not_lt_of_gt ha, ne_of_gt ha]
  · rw [compare_gt_iff_gt.mpr h]
    simp [Ordering.then, not_lt_of_gt h, ne_of_lt h]

instance : Std.Total fun x y : Edge ℚ => edgeOrder x y ≠ .gt where
  total := by
    intro x y
    simp only [edgeOrder_ne_gt]
    exact le_total _ _

instance : IsTrans (Edge ℚ) fun x y => edgeOrder x y ≠ .gt where
  trans := by
    intro x y z hxy hyz
    rw [edgeOrder_ne_gt] at hxy hyz ⊢
    exact le_trans hxy hyz

theorem eligibleEdges_sorted {edges : List (Edge ℚ)} {vetoes : List (String × String)} {theta : ℚ} :
    (eligibleEdges edges vetoes theta).Pairwise fun x y => y.confidence ≤ x.confidence := by
  have hsorted : (eligibleEdges edges vetoes theta).Pairwise fun x y => edgeOrder x y ≠ .gt :=
    List.pairwise_insertionSort _ _
  refine hsorted.imp ?_
  intro x y h
  have hkey := edgeOrder_ne_gt.mp h
  unfold Edge.sortKey at hkey
  rw [Prod.Lex.toLex_le_toLex] at hkey
  rcases hkey with hlt | ⟨heq, _⟩
  · exact le_of_lt hlt
  · exact le_of_eq (OrderDual.toDual_inj.mp heq).symm

/-! ## The walk as a spanning forest -/

section Walk

variable {tokens : List String} {w : Walk ℚ tokens} {e : Edge ℚ}

def Edge.link (e : Edge ℚ) : Link String ℚ := ⟨e.a, e.b, e.confidence⟩

/-- The components of a walk; a token that was not touched is alone. -/
def Walk.together {F : Type} (w : Walk F tokens) : Setoid String where
  r := fun x y => x = y ∨ ∃ (hx : x ∈ tokens) (hy : y ∈ tokens), w.uf.Same ⟨x, hx⟩ ⟨y, hy⟩
  iseqv := by
    refine ⟨fun x => Or.inl rfl, ?_, ?_⟩
    · intro x y h
      rcases h with rfl | ⟨hx, hy, hsame⟩
      · exact Or.inl rfl
      · exact Or.inr ⟨hy, hx, hsame.symm⟩
    · intro x y z hxy hyz
      rcases hxy with rfl | ⟨hx, hy, hsame⟩
      · exact hyz
      · rcases hyz with rfl | ⟨_, hz, hsame'⟩
        · exact Or.inr ⟨hx, hy, hsame⟩
        · exact Or.inr ⟨hx, hz, hsame.trans hsame'⟩

theorem Walk.together_iff {x y : String} (hx : x ∈ tokens) (hy : y ∈ tokens) :
    w.together x y ↔ w.uf.Same ⟨x, hx⟩ ⟨y, hy⟩ := by
  constructor
  · intro h
    rcases h with rfl | ⟨_, _, hsame⟩
    · exact Forest.Same.refl _ _
    · exact hsame
  · intro h
    exact Or.inr ⟨hx, hy, h⟩

theorem Walk.mem_iff {x y : String} (h : w.together x y) : x ∈ tokens ↔ y ∈ tokens := by
  rcases h with rfl | ⟨hx, hy, _⟩
  · exact Iff.rfl
  · exact iff_of_true hx hy

def Walk.taken (w : Walk ℚ tokens) : List (String × ℚ) := w.spanning.map fun s => (s.1.val, s.2)

theorem Walk.step_together (ha : e.a ∈ tokens) (hb : e.b ∈ tokens) (h : w.together e.a e.b) :
    w.step e = w := by
  unfold Walk.step
  rw [dif_pos ⟨ha, hb⟩]
  exact if_pos ((Walk.together_iff ha hb).mp h)

theorem Walk.step_apart (ha : e.a ∈ tokens) (hb : e.b ∈ tokens) (h : ¬ w.together e.a e.b) :
    (w.step e).together = join w.together e.a e.b ∧
      (w.step e).taken = w.taken ++ [(e.a, e.confidence)] := by
  have hstep : w.step e = ⟨unite w.uf ⟨e.a, ha⟩ ⟨e.b, hb⟩,
      w.spanning ++ [(⟨e.a, ha⟩, e.confidence)]⟩ := by
    unfold Walk.step
    rw [dif_pos ⟨ha, hb⟩]
    exact if_neg (mt (Walk.together_iff ha hb).mpr h)
  rw [hstep]
  constructor
  · ext x y
    by_cases htouched : x ∈ tokens ∧ y ∈ tokens
    · obtain ⟨hx, hy⟩ := htouched
      rw [Walk.together_iff hx hy, join_iff, Walk.together_iff hx hy, Walk.together_iff hx ha,
        Walk.together_iff hb hy, Walk.together_iff hx hb, Walk.together_iff ha hy]
      exact unite_same
    · constructor
      · intro hxy
        rcases hxy with rfl | ⟨hx, hy, _⟩
        · exact Setoid.refl' _ x
        · exact absurd ⟨hx, hy⟩ htouched
      · intro hxy
        rcases join_iff.mp hxy with hold | ⟨hxa, hby⟩ | ⟨hxb, hay⟩
        · rcases hold with rfl | ⟨hx, hy, _⟩
          · exact Setoid.refl' _ x
          · exact absurd ⟨hx, hy⟩ htouched
        · exact absurd ⟨(Walk.mem_iff hxa).mpr ha, (Walk.mem_iff hby).mp hb⟩ htouched
        · exact absurd ⟨(Walk.mem_iff hxb).mpr hb, (Walk.mem_iff hay).mp ha⟩ htouched
  · simp [Walk.taken]

theorem Walk.start_together : (Walk.start ℚ tokens).together = ⊥ := by
  ext x y
  constructor
  · intro h
    rcases h with rfl | ⟨hx, hy, hsame⟩
    · rfl
    · have hroot : (⟨x, hx⟩ : Node tokens) = ⟨y, hy⟩ := by
        simpa [Walk.start, Forest.Same, Forest.init_root] using hsame
      exact congrArg Subtype.val hroot
  · intro h
    exact Or.inl h

theorem Walk.run_walked {edges : List (Edge ℚ)}
    (htouched : ∀ e ∈ edges, e.a ∈ tokens ∧ e.b ∈ tokens)
    (hsorted : edges.Pairwise fun x y => y.confidence ≤ x.confidence) :
    Walked (edges.map Edge.link)
      (Walk.run tokens edges).together (Walk.run tokens edges).taken := by
  induction edges using List.reverseRecOn with
  | nil =>
      have htogether : (Walk.run tokens []).together = ⊥ := Walk.start_together
      rw [htogether]
      exact Walked.nil
  | append_singleton edges e ih =>
      obtain ⟨hbefore, _, hweak⟩ := List.pairwise_append.mp hsorted
      have hrun : Walk.run tokens (edges ++ [e]) = (Walk.run tokens edges).step e := by
        unfold Walk.run
        rw [List.foldl_append]
        rfl
      have hwalked := ih (fun f hf => htouched f (List.mem_append_left _ hf)) hbefore
      obtain ⟨ha, hb⟩ := htouched e (List.mem_append_right _ List.mem_cons_self)
      have hweak' : ∀ k ∈ edges.map Edge.link, e.link.weight ≤ k.weight := by
        intro k hk
        obtain ⟨f, hf, rfl⟩ := List.mem_map.mp hk
        exact hweak f hf e List.mem_cons_self
      rw [hrun, List.map_append]
      by_cases h : (Walk.run tokens edges).together e.a e.b
      · rw [Walk.step_together ha hb h]
        exact hwalked.skip hweak' h
      · obtain ⟨htogether, htaken⟩ := Walk.step_apart ha hb h
        rw [htogether, htaken]
        exact hwalked.take hweak' h

end Walk

/-! ## Representatives -/

theorem isLeast_find? {l : List String} {p : String → Bool} {r : String}
    (hsorted : l.Pairwise (· ≤ ·)) (hfind : l.find? p = some r) :
    IsLeast {m | m ∈ l ∧ p m = true} r := by
  obtain ⟨hr, as, bs, rfl, has⟩ := List.find?_eq_some_iff_append.mp hfind
  refine ⟨⟨List.mem_append_right _ List.mem_cons_self, hr⟩, ?_⟩
  rintro m ⟨hm, hpm⟩
  rcases List.mem_append.mp hm with hbefore | hafter
  · have hnot := has m hbefore
    rw [hpm] at hnot
    cases hnot
  · rcases List.mem_cons.mp hafter with rfl | hlater
    · exact le_rfl
    · exact (List.pairwise_cons.mp (List.pairwise_append.mp hsorted).2.1).1 m hlater

section Components

variable {tokens : List String} {w : Walk ℚ tokens} {prior : List String}

theorem Walk.mem_members {root : Node tokens} {m : String} :
    m ∈ w.members root ↔ ∃ h : m ∈ tokens, w.uf.root ⟨m, h⟩ = root := by
  simp [Walk.members]

theorem Walk.mem_members_root (x : Node tokens) {m : String} :
    m ∈ w.members (w.uf.root x) ↔ w.together x.val m := by
  rw [Walk.mem_members]
  constructor
  · rintro ⟨hm, hroot⟩
    exact (Walk.together_iff x.2 hm).mpr hroot.symm
  · intro h
    have hm := (Walk.mem_iff h).mp x.2
    exact ⟨hm, ((Walk.together_iff x.2 hm).mp h).symm⟩

/-- A component is represented by its smallest member, one of before if there is any. -/
theorem Walk.chosen_standsFor (x : Node tokens) :
    StandsFor prior {y | w.together x.val y} (w.chosen prior (w.uf.root x)) := by
  have hsorted : (w.members (w.uf.root x)).Pairwise (· ≤ ·) := List.pairwise_insertionSort _ _
  have hmem : ∀ m, m ∈ w.members (w.uf.root x) ↔ w.together x.val m :=
    fun m => Walk.mem_members_root x
  unfold Walk.chosen
  generalize w.members (w.uf.root x) = members at hsorted hmem
  cases hfind : members.find? (· ∈ prior) with
  | some r =>
      have hleast := isLeast_find? hsorted hfind
      refine ⟨fun _ => ?_, ?_⟩
      · simpa [hmem] using hleast
      · intro hnone
        obtain ⟨hr, hprior⟩ := hleast.1
        exact absurd (of_decide_eq_true hprior) (hnone r ((hmem r).mp hr))
  | none =>
      have hnone := List.find?_eq_none.mp hfind
      refine ⟨?_, fun _ => ?_⟩
      · rintro ⟨m, hm, hprior⟩
        exact absurd (decide_eq_true hprior) (hnone m ((hmem m).mpr hm))
      · cases members with
        | nil => exact absurd ((hmem x.val).mpr (Setoid.refl' _ _)) List.not_mem_nil
        | cons first rest =>
            refine ⟨(hmem first).mp List.mem_cons_self, ?_⟩
            intro m hm
            rcases List.mem_cons.mp ((hmem m).mpr hm) with rfl | hin
            · exact le_rfl
            · exact (List.pairwise_cons.mp hsorted).1 m hin

theorem StandsFor.mem {members : Set String} {r : String} (h : StandsFor prior members r) :
    r ∈ members := by
  by_cases hprior : ∃ m ∈ members, m ∈ prior
  · exact (h.before hprior).1.1
  · exact (h.fresh fun m hm hin => hprior ⟨m, hm, hin⟩).1

theorem StandsFor.unique {members : Set String} {r r' : String} (h : StandsFor prior members r)
    (h' : StandsFor prior members r') : r = r' := by
  by_cases hprior : ∃ m ∈ members, m ∈ prior
  · exact (h.before hprior).unique (h'.before hprior)
  · have hfresh : ∀ m ∈ members, m ∉ prior := fun m hm hin => hprior ⟨m, hm, hin⟩
    exact (h.fresh hfresh).unique (h'.fresh hfresh)

/-! ## Bands -/

theorem Walk.bottleneck_eq_min? (root : Node tokens) :
    w.bottleneck root = ((w.spanning.filter fun s => w.uf.root s.1 = root).map (·.2)).min? := by
  have hsome : ∀ (l : List (Node tokens × ℚ)) (c : ℚ), l.foldl (fun weakest entry =>
      some (weakest.elim entry.2 fun x => if Score.lt entry.2 x then entry.2 else x)) (some c) =
        some ((l.map (·.2)).foldl min c) := by
    intro l
    induction l with
    | nil => simp
    | cons s l ih =>
        intro c
        have hmin : (if Score.lt s.2 c = true then s.2 else c) = min c s.2 := by
          simp only [Score.lt_iff]
          split
          · rename_i hlt
            exact (min_eq_right hlt.le).symm
          · rename_i hle
            exact (min_eq_left (not_lt.mp hle)).symm
        simp only [List.foldl_cons, List.map_cons, Option.elim_some, hmin, ih]
  unfold Walk.bottleneck
  cases w.spanning.filter fun s => w.uf.root s.1 = root with
  | nil => rfl
  | cons s l =>
      rw [List.foldl_cons, Option.elim_none, hsome, List.map_cons, List.min?_cons']

theorem Walk.mem_weights {x : Node tokens} {c : ℚ} :
    c ∈ (w.spanning.filter fun s => w.uf.root s.1 = w.uf.root x).map (·.2) ↔
      ∃ s ∈ w.taken, w.together s.1 x.val ∧ s.2 = c := by
  unfold Walk.taken
  simp only [List.mem_map, List.mem_filter, decide_eq_true_eq]
  constructor
  · rintro ⟨s, ⟨hin, hroot⟩, rfl⟩
    exact ⟨_, ⟨s, hin, rfl⟩, (Walk.together_iff s.1.2 x.2).mpr hroot, rfl⟩
  · rintro ⟨_, ⟨s, hin, rfl⟩, hsame, rfl⟩
    exact ⟨s, ⟨hin, (Walk.together_iff s.1.2 x.2).mp hsame⟩, rfl⟩

theorem Walk.componentBand_alone {x : Node tokens}
    (h : ∀ s ∈ w.taken, ¬ w.together s.1 x.val) :
    w.componentBand (w.uf.root x) = .confirmed := by
  have hnil : (w.spanning.filter fun s => w.uf.root s.1 = w.uf.root x).map (·.2) = [] := by
    rw [List.eq_nil_iff_forall_not_mem]
    intro c hc
    obtain ⟨s, hs, hsame, _⟩ := Walk.mem_weights.mp hc
    exact h s hs hsame
  unfold Walk.componentBand
  rw [Walk.bottleneck_eq_min?, hnil]
  rfl

theorem Walk.componentBand_least {x : Node tokens} {s : String × ℚ} (hs : s ∈ w.taken)
    (hsame : w.together s.1 x.val) :
    ∃ s ∈ w.taken, w.together s.1 x.val ∧ (∀ r ∈ w.taken, w.together r.1 x.val → s.2 ≤ r.2) ∧
      w.componentBand (w.uf.root x) = ConfidenceBand.fromScore s.2 := by
  have hin := Walk.mem_weights.mpr ⟨s, hs, hsame, rfl⟩
  obtain ⟨c, hc⟩ := Option.isSome_iff_exists.mp (List.isSome_min?_iff.mpr (List.ne_nil_of_mem hin))
  obtain ⟨hmem, hleast⟩ := List.min?_eq_some_iff.mp hc
  obtain ⟨r, hr, hrsame, rfl⟩ := Walk.mem_weights.mp hmem
  refine ⟨r, hr, hrsame, fun q hq hqsame => hleast _ (Walk.mem_weights.mpr ⟨q, hq, hqsame, rfl⟩), ?_⟩
  unfold Walk.componentBand
  rw [Walk.bottleneck_eq_min?, hc]
  rfl

/-! ## The maps of a resolution -/

theorem getElem?_foldl_insert {ι β : Type} {k : ι → String} {v : ι → β} {xs : List ι} {x : ι}
    (hx : x ∈ xs) (hagree : ∀ y ∈ xs, k y = k x → v y = v x) :
    (xs.foldl (fun m y => m.insert (k y) (v y))
      (∅ : Std.ExtTreeMap String β compare))[k x]? = some (v x) := by
  induction xs using List.reverseRecOn with
  | nil => cases hx
  | append_singleton xs y ih =>
      rw [List.foldl_append, List.foldl_cons, List.foldl_nil, Std.ExtTreeMap.getElem?_insert]
      by_cases hy : k y = k x
      · rw [if_pos (compare_eq_iff_eq.mpr hy),
          hagree y (List.mem_append_right _ List.mem_cons_self) hy]
      · rw [if_neg fun h => hy (compare_eq_iff_eq.mp h)]
        refine ih ?_ fun z hz => hagree z (List.mem_append_left _ hz)
        rcases List.mem_append.mp hx with hin | hlast
        · exact hin
        · exact absurd (congrArg k (List.mem_singleton.mp hlast).symm) hy

theorem getElem?_foldl_insert_none {ι β : Type} {k : ι → String} {v : ι → β} {xs : List ι}
    {t : String} (h : ∀ y ∈ xs, k y ≠ t) :
    (xs.foldl (fun m y => m.insert (k y) (v y))
      (∅ : Std.ExtTreeMap String β compare))[t]? = none := by
  induction xs using List.reverseRecOn with
  | nil => simp
  | append_singleton xs y ih =>
      have hy := h y (List.mem_append_right _ List.mem_cons_self)
      rw [List.foldl_append, List.foldl_cons, List.foldl_nil, Std.ExtTreeMap.getElem?_insert,
        if_neg fun hcmp => hy (compare_eq_iff_eq.mp hcmp)]
      exact ih fun z hz => h z (List.mem_append_left _ hz)

theorem Walk.rep_touched (x : Node tokens) :
    (w.resolution prior).rep[x.val]? = some (w.chosen prior (w.uf.root x)) :=
  getElem?_foldl_insert (k := Subtype.val) (List.mem_attach _ x) fun y _ hy => by
    rw [Subtype.ext hy]

theorem Walk.rep_untouched {k : String} (hk : k ∉ tokens) :
    (w.resolution prior).rep[k]? = none :=
  getElem?_foldl_insert_none fun y _ hy => hk (hy ▸ y.2)

theorem Walk.representative_untouched {k : String} (hk : k ∉ tokens) :
    (w.resolution prior).representative k = k := by
  unfold Resolution.representative
  rw [Std.ExtTreeMap.getD_eq_getD_getElem?, Walk.rep_untouched hk]
  rfl

theorem Walk.representative_standsFor (x : String) :
    StandsFor prior {y | w.together x y} ((w.resolution prior).representative x) := by
  by_cases hx : x ∈ tokens
  · rw [Walk.representative ⟨x, hx⟩]
    exact Walk.chosen_standsFor ⟨x, hx⟩
  · have hsingle : {y | w.together x y} = {x} := by
      ext y
      constructor
      · intro h
        rcases h with rfl | ⟨hx', _, _⟩
        · rfl
        · exact absurd hx' hx
      · rintro rfl
        exact Or.inl rfl
    rw [Walk.representative_untouched hx, hsingle]
    refine ⟨?_, fun _ => isLeast_singleton⟩
    rintro ⟨m, rfl, hprior⟩
    exact ⟨⟨rfl, hprior⟩, fun m hm => le_of_eq hm.1.symm⟩

theorem Walk.representative_iff {x y : String} :
    (w.resolution prior).representative x = (w.resolution prior).representative y ↔
      w.together x y := by
  have hx := (@Walk.representative_standsFor tokens w prior x).mem
  have hy := (@Walk.representative_standsFor tokens w prior y)
  constructor
  · intro h
    rw [h] at hx
    exact Setoid.trans' _ hx (Setoid.symm' _ hy.mem)
  · intro h
    have hclass : {z | w.together x z} = {z | w.together y z} := by
      ext z
      exact ⟨fun hz => Setoid.trans' _ (Setoid.symm' _ h) hz, fun hz => Setoid.trans' _ h hz⟩
    have hstands := @Walk.representative_standsFor tokens w prior x
    rw [hclass] at hstands
    exact hstands.unique hy

theorem Walk.band_touched (x : Node tokens) :
    (w.resolution prior).band[(w.resolution prior).representative x.val]? =
      some (w.componentBand (w.uf.root x)) := by
  rw [Walk.representative x]
  refine getElem?_foldl_insert (k := fun t : Node tokens => w.chosen prior (w.uf.root t))
    (List.mem_attach _ x) ?_
  intro y _ hy
  rw [← Walk.representative x, ← Walk.representative y] at hy
  have hsame := (Walk.together_iff y.2 x.2).mp (Walk.representative_iff.mp hy)
  exact congrArg w.componentBand hsame

theorem Walk.band_none {k : String}
    (hk : k ∈ tokens → (w.resolution prior).representative k ≠ k) :
    (w.resolution prior).band[k]? = none := by
  refine getElem?_foldl_insert_none ?_
  rintro y _ rfl
  rw [← Walk.representative y] at hk
  have hmem := (@Walk.representative_standsFor tokens w prior y.val).mem
  refine hk ((Walk.mem_iff hmem).mp y.2) ?_
  exact Walk.representative_iff.mpr (Setoid.symm' _ hmem)

end Components

/-! ## The resolver -/

section Resolver

variable {nodes : List String} {edges : List (Edge ℚ)} {vetoes : List (String × String)} {theta : ℚ}
  {prior : List String}

def resolverWalk (nodes : List String) (edges : List (Edge ℚ)) (vetoes : List (String × String))
    (theta : ℚ) : Walk ℚ (touched nodes (eligibleEdges edges vetoes theta)) :=
  Walk.run _ (eligibleEdges edges vetoes theta)

theorem resolve_eq : resolve nodes edges vetoes theta prior =
    (resolverWalk nodes edges vetoes theta).resolution prior := rfl

theorem connected_eligible (P : ℚ → Prop) :
    connected ((eligibleEdges edges vetoes theta).map Edge.link) P =
      identified edges vetoes fun c => theta ≤ c ∧ P c := by
  refine congrArg Relation.EqvGen.setoid ?_
  funext x y
  simp only [List.mem_map, mem_eligibleEdges, Score.ge_iff, eq_iff_iff]
  constructor
  · rintro ⟨_, ⟨e, ⟨he, hstrong, hfree⟩, rfl⟩, hP, rfl, rfl⟩
    exact ⟨e, he, ⟨hstrong, hP⟩, hfree, rfl, rfl⟩
  · rintro ⟨e, he, ⟨hstrong, hP⟩, hfree, rfl, rfl⟩
    exact ⟨e.link, ⟨e, ⟨he, hstrong, hfree⟩, rfl⟩, hP, rfl, rfl⟩

theorem resolver_walked :
    Walked ((eligibleEdges edges vetoes theta).map Edge.link)
      (resolverWalk nodes edges vetoes theta).together (resolverWalk nodes edges vetoes theta).taken :=
  Walk.run_walked (fun _ he => endpoints_touched he) eligibleEdges_sorted

theorem resolver_together : (resolverWalk nodes edges vetoes theta).together =
    identified edges vetoes (theta ≤ ·) := by
  rw [resolver_walked.joined, connected_eligible]
  simp only [and_true]

theorem resolver_band {x : String}
    (hx : x ∈ touched nodes (eligibleEdges edges vetoes theta)) :
    (resolve nodes edges vetoes theta prior).bandOf x =
      (resolverWalk nodes edges vetoes theta).componentBand
        ((resolverWalk nodes edges vetoes theta).uf.root ⟨x, hx⟩) := by
  unfold Resolution.bandOf
  rw [resolve_eq, Std.ExtTreeMap.getD_eq_getD_getElem?, Walk.band_touched ⟨x, hx⟩]
  rfl

theorem resolver_band_untouched {x : String}
    (hx : x ∉ touched nodes (eligibleEdges edges vetoes theta)) :
    (resolve nodes edges vetoes theta prior).bandOf x = .confirmed := by
  unfold Resolution.bandOf
  rw [resolve_eq, Walk.representative_untouched hx, Std.ExtTreeMap.getD_eq_getD_getElem?,
    Walk.band_none fun h => absurd h hx]
  rfl

theorem resolver_resolves :
    Resolves edges vetoes theta prior (resolve nodes edges vetoes theta prior) := by
  have hwalked := @resolver_walked nodes edges vetoes theta
  have htogether := @resolver_together nodes edges vetoes theta
  refine { same := ?_, stands := ?_, alone := ?_, bottleneck := ?_ }
  · intro x y
    rw [resolve_eq, Walk.representative_iff, htogether]
  · intro x
    rw [resolve_eq, ← htogether]
    exact Walk.representative_standsFor x
  · intro x halone
    rw [← htogether] at halone
    by_cases hx : x ∈ touched nodes (eligibleEdges edges vetoes theta)
    · rw [resolver_band hx]
      refine Walk.componentBand_alone ?_
      intro s hs hsame
      obtain ⟨y, hxy, hne⟩ := hwalked.not_alone hs hsame
      exact hne (halone y hxy)
    · exact resolver_band_untouched hx
  · intro x y hxy hne
    rw [← htogether] at hxy
    have hx : x ∈ touched nodes (eligibleEdges edges vetoes theta) := by
      rcases hxy with rfl | ⟨hx, _, _⟩
      · exact absurd rfl hne
      · exact hx
    have hentry : ∃ s ∈ (resolverWalk nodes edges vetoes theta).taken,
        (resolverWalk nodes edges vetoes theta).together s.1 x := by
      by_contra hnone
      exact hne (hwalked.alone (fun s hs hsame => hnone ⟨s, hs, hsame⟩) hxy)
    obtain ⟨s, hs, hsame⟩ := hentry
    obtain ⟨r, hr, hrsame, hleast, hband⟩ := @Walk.componentBand_least _ _ ⟨x, hx⟩ s hs hsame
    refine ⟨r.2, ?_, (resolver_band hx).trans hband⟩
    have hgreatest := hwalked.isGreatest hr hrsame hleast
    have hconnects : ∀ w, (∀ z, (resolverWalk nodes edges vetoes theta).together x z →
        connected ((eligibleEdges edges vetoes theta).map Edge.link) (w ≤ ·) x z) ↔
          ∀ z, identified edges vetoes (theta ≤ ·) x z →
            identified edges vetoes (fun c => theta ≤ c ∧ w ≤ c) x z := by
      intro w
      rw [connected_eligible, htogether]
    exact ⟨(hconnects _).mp hgreatest.1, fun w hw => hgreatest.2 ((hconnects w).mpr hw)⟩

/-! ## What the order does not change -/

theorem resolve_representative_idem (x : String) :
    (resolve nodes edges vetoes theta prior).representative
        ((resolve nodes edges vetoes theta prior).representative x) =
      (resolve nodes edges vetoes theta prior).representative x := by
  rw [resolve_eq, Walk.representative_iff]
  exact Setoid.symm' _ (Walk.representative_standsFor x).mem

theorem Resolves.unique {r r' : Resolution} (h : Resolves edges vetoes theta prior r)
    (h' : Resolves edges vetoes theta prior r') (x : String) :
    r.representative x = r'.representative x ∧ r.bandOf x = r'.bandOf x := by
  refine ⟨(h.stands x).unique (h'.stands x), ?_⟩
  by_cases halone : ∀ y, identified edges vetoes (theta ≤ ·) x y → x = y
  · rw [h.alone x halone, h'.alone x halone]
  · push Not at halone
    obtain ⟨y, hxy, hne⟩ := halone
    obtain ⟨w, hw, hband⟩ := h.bottleneck x y hxy hne
    obtain ⟨w', hw', hband'⟩ := h'.bottleneck x y hxy hne
    rw [hband, hband', hw.unique hw']

theorem identified_congr {edges' : List (Edge ℚ)} (h : edges'.Perm edges) :
    identified edges' vetoes = identified edges vetoes := by
  funext P
  refine congrArg Relation.EqvGen.setoid ?_
  funext x y
  simp only [h.mem_iff]

theorem Resolves.congr {edges' : List (Edge ℚ)} {r : Resolution} (hperm : edges'.Perm edges)
    (h : Resolves edges' vetoes theta prior r) : Resolves edges vetoes theta prior r where
  same := fun x y => by rw [← identified_congr hperm, h.same]
  stands := fun x => by rw [← identified_congr hperm]; exact h.stands x
  alone := fun x => by rw [← identified_congr hperm]; exact h.alone x
  bottleneck := fun x y => by rw [← identified_congr hperm]; exact h.bottleneck x y

theorem mem_touched {x : String} : x ∈ touched nodes edges ↔
    x ∈ nodes ∨ ∃ e ∈ edges, x = e.a ∨ x = e.b := by
  unfold touched
  rw [List.mem_eraseDups, List.mem_append, List.mem_flatMap]
  simp

theorem resolve_rep_getElem? {k : String} :
    (resolve nodes edges vetoes theta prior).rep[k]? =
      if k ∈ touched nodes (eligibleEdges edges vetoes theta) then
        some ((resolve nodes edges vetoes theta prior).representative k)
      else none := by
  rw [resolve_eq]
  split
  · rename_i hk
    rw [Walk.rep_touched ⟨k, hk⟩, Walk.representative ⟨k, hk⟩]
  · rename_i hk
    exact Walk.rep_untouched hk

theorem resolve_band_getElem? {k : String} :
    (resolve nodes edges vetoes theta prior).band[k]? =
      if k ∈ touched nodes (eligibleEdges edges vetoes theta) ∧
          (resolve nodes edges vetoes theta prior).representative k = k then
        some ((resolve nodes edges vetoes theta prior).bandOf k)
      else none := by
  split
  · rename_i h
    obtain ⟨hk, hrep⟩ := h
    rw [resolver_band hk, resolve_eq, ← @Walk.band_touched _ _ prior ⟨k, hk⟩]
    rw [resolve_eq] at hrep
    rw [hrep]
  · rename_i h
    rw [resolve_eq]
    exact Walk.band_none fun hk hrep => h ⟨hk, hrep⟩

theorem resolve_perm {nodes' : List String} {edges' : List (Edge ℚ)} (hnodes : nodes'.Perm nodes)
    (hedges : edges'.Perm edges) :
    resolve nodes' edges' vetoes theta prior = resolve nodes edges vetoes theta prior := by
  have hsame := (@resolver_resolves nodes' edges' vetoes theta prior).congr hedges |>.unique
    (@resolver_resolves nodes edges vetoes theta prior)
  have htouched : ∀ k, k ∈ touched nodes' (eligibleEdges edges' vetoes theta) ↔
      k ∈ touched nodes (eligibleEdges edges vetoes theta) := by
    intro k
    simp only [mem_touched, mem_eligibleEdges, hnodes.mem_iff, hedges.mem_iff]
  have hrep : (resolve nodes' edges' vetoes theta prior).rep =
      (resolve nodes edges vetoes theta prior).rep := by
    refine Std.ExtTreeMap.ext_getElem? ?_
    intro k
    rw [resolve_rep_getElem?, resolve_rep_getElem?, (hsame k).1]
    simp only [htouched]
  have hband : (resolve nodes' edges' vetoes theta prior).band =
      (resolve nodes edges vetoes theta prior).band := by
    refine Std.ExtTreeMap.ext_getElem? ?_
    intro k
    rw [resolve_band_getElem?, resolve_band_getElem?, (hsame k).1, (hsame k).2]
    simp only [htouched]
  calc resolve nodes' edges' vetoes theta prior
      = ⟨(resolve nodes' edges' vetoes theta prior).rep,
          (resolve nodes' edges' vetoes theta prior).band⟩ := rfl
    _ = resolve nodes edges vetoes theta prior := by rw [hrep, hband]

theorem identified_anti {vetoes' : List (String × String)} {theta' : ℚ} (htheta : theta ≤ theta')
    (hvetoes : vetoes ⊆ vetoes') :
    identified edges vetoes' (theta' ≤ ·) ≤ identified edges vetoes (theta ≤ ·) := by
  refine Setoid.eqvGen_mono ?_
  rintro x y ⟨e, he, hstrong, hfree, ha, hb⟩
  exact ⟨e, he, le_trans htheta hstrong, fun h => hfree (hvetoes h), ha, hb⟩

/-- The resolver does what it is for, whatever the order, and only splits components when it is
given less to go by. -/
theorem resolve_meets_spec (nodes : List String) (edges : List (Edge ℚ))
    (vetoes : List (String × String)) (theta : ℚ) (prior : List String) :
    Resolves edges vetoes theta prior (resolve nodes edges vetoes theta prior) ∧
      (∀ nodes' edges', nodes'.Perm nodes → edges'.Perm edges →
        resolve nodes' edges' vetoes theta prior = resolve nodes edges vetoes theta prior) ∧
      ∀ theta' vetoes', theta ≤ theta' → vetoes ⊆ vetoes' → ∀ x y,
        (resolve nodes edges vetoes' theta' prior).representative x =
            (resolve nodes edges vetoes' theta' prior).representative y →
          (resolve nodes edges vetoes theta prior).representative x =
            (resolve nodes edges vetoes theta prior).representative y := by
  refine ⟨resolver_resolves, fun _ _ hnodes hedges => resolve_perm hnodes hedges, ?_⟩
  intro theta' vetoes' htheta hvetoes x y h
  rw [resolver_resolves.same] at h ⊢
  exact identified_anti htheta hvetoes h

end Resolver

end Identity

end Bulletin
