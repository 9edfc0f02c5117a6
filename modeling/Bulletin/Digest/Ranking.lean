import Mathlib.Data.Prod.Lex
import Mathlib.Order.Nat
import Bulletin.Core.Greedy
import Bulletin.Digest.Select

/-! # Ranking and slots

The candidates past the gates are ranked, and slots are given greedily under five caps. What does
not get a slot changes nothing for what does, so the selected list depends on neither the order of
the candidates nor those left out, and a lower ceiling cuts it off.
-/

namespace Bulletin

/-- Scores as exact numbers, with any arithmetic. -/
class ExactSelect (F : Type) [LinearOrder F] extends SelectScore F where
  partialCmp_eq : ∀ x y : F, partialCmp x y = some (compare x y)
  totalCmp_eq : ∀ x y : F, totalCmp x y = compare x y

instance : ExactSelect ℚ where
  partialCmp_eq := fun _ _ => rfl
  totalCmp_eq := fun _ _ => rfl

/-! ## Ranks -/

section Ranks

variable {F : Type} [LinearOrder F]

/-- Higher priority first, then the more recent, then by id. -/
def rankKey (priority : F) (lastEventTime : DateTime) (id : Uuid) : Fᵒᵈ ×ₗ DateTimeᵒᵈ ×ₗ Uuid :=
  toLex (OrderDual.toDual priority, toLex (OrderDual.toDual lastEventTime, id))

def Gated.rankKey (g : Gated F) : Fᵒᵈ ×ₗ DateTimeᵒᵈ ×ₗ Uuid :=
  Bulletin.rankKey g.priority g.lastEventTime g.id

def Decision.rankKey (d : Decision F) : Fᵒᵈ ×ₗ DateTimeᵒᵈ ×ₗ Uuid :=
  Bulletin.rankKey d.priority d.lastEventTime d.id

omit [LinearOrder F] in
theorem Gated.id_of_rankKey {x y : Gated F} (h : x.rankKey = y.rankKey) : x.id = y.id :=
  congrArg (fun k => (ofLex (ofLex k).2).2) h

variable [ExactSelect F]

theorem rankOrder_ne_gt {x y : Gated F} : rankOrder x y ≠ .gt ↔ x.rankKey ≤ y.rankKey := by
  unfold rankOrder Gated.rankKey rankKey
  rw [Prod.Lex.toLex_le_toLex, Prod.Lex.toLex_le_toLex, ExactSelect.totalCmp_eq]
  rcases lt_trichotomy y.priority x.priority with h | h | h
  · rw [compare_lt_iff_lt.mpr h]
    simp [Ordering.then, h]
  · rw [compare_eq_iff_eq.mpr h]
    rcases lt_trichotomy y.lastEventTime x.lastEventTime with ht | ht | ht
    · rw [compare_lt_iff_lt.mpr ht]
      simp [Ordering.then, h, ht]
    · have hid : compare x.id y.id ≠ .gt ↔ x.id ≤ y.id := by
        rw [ne_eq, compare_gt_iff_gt, not_lt]
      rw [compare_eq_iff_eq.mpr ht]
      simp [Ordering.then, h, ht, hid]
    · rw [compare_gt_iff_gt.mpr ht]
      simp [Ordering.then, h, not_lt_of_gt ht, ne_of_lt ht]
  · rw [compare_gt_iff_gt.mpr h]
    simp [Ordering.then, not_lt_of_gt h, ne_of_lt h]

instance : Std.Total fun x y : Gated F => rankOrder x y ≠ .gt where
  total := by
    intro x y
    simp only [rankOrder_ne_gt]
    exact le_total _ _

instance : IsTrans (Gated F) fun x y => rankOrder x y ≠ .gt where
  trans := by
    intro x y z hxy hyz
    rw [rankOrder_ne_gt] at hxy hyz ⊢
    exact le_trans hxy hyz

end Ranks

/-! ## The ranked list -/

section Ranked

variable {F : Type} [SelectScore F]

instance (cfg : ScoringConfig F) (displayFloor : DateTime) :
    DecidablePred (Passes cfg displayFloor) :=
  fun _ => inferInstanceAs (Decidable (_ ∧ _))

/-- The candidates past the gates, in the order in which slots are given. -/
def rankedOf (cs : List (Candidate F)) (cfg : ScoringConfig F) (now displayFloor : DateTime) :
    List (Gated F) :=
  ((cs.filter fun c => Passes cfg displayFloor c).map (gatedOf · cfg now)).insertionSort
    fun x y => rankOrder x y ≠ .gt

theorem gate_of_not_passes {cfg : ScoringConfig F} {now displayFloor : DateTime} {c : Candidate F}
    (h : ¬ Passes cfg displayFloor c) :
    ∃ cause, gate cfg now displayFloor c = .inl (dropDecision c cfg cause) := by
  by_cases hstale : c.lastEventTime < displayFloor
  · exact ⟨_, gate_stale.mpr hstale⟩
  · refine ⟨_, gate_below.mpr ⟨hstale, ?_⟩⟩
    by_contra hfloor
    exact h ⟨hstale, by simpa using hfloor⟩

theorem filterMap_gate (cs : List (Candidate F)) (cfg : ScoringConfig F)
    (now displayFloor : DateTime) :
    (cs.map (gate cfg now displayFloor)).filterMap Sum.getRight? =
      (cs.filter fun c => Passes cfg displayFloor c).map (gatedOf · cfg now) := by
  induction cs with
  | nil => rfl
  | cons c cs ih =>
      by_cases h : Passes cfg displayFloor c
      · simp [gate_of_passes h, h, ih]
      · obtain ⟨cause, hgate⟩ := @gate_of_not_passes F _ cfg now displayFloor c h
        have hdropped : (gate cfg now displayFloor c).getRight? = none := by rw [hgate]; rfl
        simp [hdropped, h, ih]

variable {cs : List (Candidate F)} {cfg : ScoringConfig F} {maxItems : Nat}
  {now displayFloor : DateTime}

theorem mem_rankedOf {g : Gated F} : g ∈ rankedOf cs cfg now displayFloor ↔
    ∃ c ∈ cs, Passes cfg displayFloor c ∧ gatedOf c cfg now = g := by
  simp [rankedOf, and_assoc]

theorem rankedOf_ids (hids : (cs.map (·.id)).Nodup) :
    ((rankedOf cs cfg now displayFloor).map (·.id)).Nodup := by
  have hperm := (List.perm_insertionSort (fun x y : Gated F => rankOrder x y ≠ .gt)
    ((cs.filter fun c => Passes cfg displayFloor c).map (gatedOf · cfg now))).map (·.id)
  refine hperm.nodup_iff.mpr ?_
  rw [List.map_map]
  exact hids.sublist (List.filter_sublist.map _)

/-! ## Slots -/

def slotFits (cfg : ScoringConfig F) (maxItems : Nat) (st : CapState) (g : Gated F) : Bool :=
  st.fits cfg maxItems g

/-- Whether the caps of a candidate leave room, the ceiling apart. -/
def capsFit (cfg : ScoringConfig F) (st : CapState) (g : Gated F) : Bool :=
  st.fits cfg (st.position + 1) g

def slotted (cfg : ScoringConfig F) (maxItems : Nat) (gs : List (Gated F)) : List (Gated F) :=
  Greedy.taken (slotFits cfg maxItems) CapState.take {} gs

omit [SelectScore F] in
theorem capPass_selected (st : CapState) (rank : Nat) (gs : List (Gated F)) :
    (capPass cfg maxItems st rank gs).filter (·.isSelected) =
      ((Greedy.taken (slotFits cfg maxItems) CapState.take st gs).zipIdx st.position).map
        fun p => p.1.intoDecision (.selected p.2) := by
  induction gs generalizing st rank with
  | nil => rfl
  | cons g gs ih =>
      unfold capPass
      by_cases hfits : st.fits cfg maxItems g = true
      · have htaken := @Greedy.taken_cons_of_fits _ _ (slotFits cfg maxItems) CapState.take st g gs
          hfits
        rw [if_pos hfits, List.filter_cons_of_pos rfl, ih, htaken]
        rfl
      · have htaken := @Greedy.taken_cons_of_not _ _ (slotFits cfg maxItems) CapState.take st g gs
          hfits
        rw [if_neg hfits, List.filter_cons_of_neg (by simp [Decision.isSelected,
          Gated.intoDecision]), ih, htaken]

/-- What is selected, with positions and formats. -/
def selection (cs : List (Candidate F)) (cfg : ScoringConfig F) (maxItems : Nat)
    (now displayFloor : DateTime) : List (Decision F) :=
  (select cs cfg maxItems now displayFloor).filter (·.isSelected)

/-- The selected decisions are those of the candidates with a slot, numbered in their order. -/
theorem selection_eq : selection cs cfg maxItems now displayFloor =
    ((slotted cfg maxItems (rankedOf cs cfg now displayFloor)).zipIdx).map
      fun p => p.1.intoDecision (.selected p.2) := by
  unfold selection
  rw [select_selected, filterMap_gate]
  exact capPass_selected _ _ _

theorem mem_selection_id {id : Uuid} :
    (∃ d ∈ selection cs cfg maxItems now displayFloor, d.id = id) ↔
    ∃ g ∈ slotted cfg maxItems (rankedOf cs cfg now displayFloor), g.id = id := by
  have hids : (selection cs cfg maxItems now displayFloor).map (·.id) =
      (slotted cfg maxItems (rankedOf cs cfg now displayFloor)).map (·.id) := by
    have hfst := List.zipIdx_map_fst 0 (slotted cfg maxItems (rankedOf cs cfg now displayFloor))
    rw [selection_eq, List.map_map]
    conv_rhs => rw [← hfst, List.map_map]
    rfl
  have hmem := congrArg (id ∈ ·) hids
  simpa using hmem

end Ranked

/-! ## Changes that do not concern the selection -/

section Stability

variable {F : Type} [LinearOrder F] [ExactSelect F] {cs : List (Candidate F)}
  {cfg : ScoringConfig F} {maxItems : Nat} {now displayFloor : DateTime}

theorem rankedOf_sorted : (rankedOf cs cfg now displayFloor).Pairwise
    fun x y => x.rankKey ≤ y.rankKey := by
  have hsorted : (rankedOf cs cfg now displayFloor).Pairwise fun x y => rankOrder x y ≠ .gt :=
    List.pairwise_insertionSort _ _
  exact hsorted.imp rankOrder_ne_gt.mp

theorem rankedOf_strict (hids : (cs.map (·.id)).Nodup) :
    (rankedOf cs cfg now displayFloor).Pairwise fun x y => x.rankKey < y.rankKey := by
  have hapart : (rankedOf cs cfg now displayFloor).Pairwise fun x y => x.id ≠ y.id :=
    List.pairwise_map.mp (rankedOf_ids hids)
  refine (rankedOf_sorted.and hapart).imp ?_
  intro x y h
  exact lt_of_le_of_ne h.1 fun heq => h.2 (Gated.id_of_rankKey heq)

omit [ExactSelect F] in
theorem eq_of_rank_sorted {gs gs' : List (Gated F)}
    (h : gs.Pairwise fun x y => x.rankKey < y.rankKey)
    (h' : gs'.Pairwise fun x y => x.rankKey < y.rankKey) (hmem : ∀ g, g ∈ gs ↔ g ∈ gs') :
    gs = gs' := by
  have hasymm : Std.Asymm fun x y : Gated F => x.rankKey < y.rankKey :=
    ⟨fun _ _ => lt_asymm⟩
  exact h.eq_of_mem_iff h' hmem

theorem rankedOf_perm {cs' : List (Candidate F)} (hids : (cs.map (·.id)).Nodup)
    (hperm : cs'.Perm cs) :
    rankedOf cs' cfg now displayFloor = rankedOf cs cfg now displayFloor := by
  have hids' : (cs'.map (·.id)).Nodup := (hperm.map _).nodup_iff.mpr hids
  refine eq_of_rank_sorted (rankedOf_strict hids') (rankedOf_strict hids) ?_
  intro g
  simp only [mem_rankedOf, hperm.mem_iff]

theorem rankedOf_without (hids : (cs.map (·.id)).Nodup) (id : Uuid) :
    rankedOf (cs.filter (·.id ≠ id)) cfg now displayFloor =
      (rankedOf cs cfg now displayFloor).filter (·.id ≠ id) := by
  have hids' : ((cs.filter (·.id ≠ id)).map (·.id)).Nodup :=
    hids.sublist (List.filter_sublist.map _)
  refine eq_of_rank_sorted (rankedOf_strict hids') ((rankedOf_strict hids).filter _) ?_
  intro g
  rw [List.mem_filter, mem_rankedOf, mem_rankedOf]
  constructor
  · rintro ⟨c, hc, hpasses, rfl⟩
    obtain ⟨hin, hne⟩ := List.mem_filter.mp hc
    exact ⟨⟨c, hin, hpasses, rfl⟩, hne⟩
  · rintro ⟨⟨c, hc, hpasses, rfl⟩, hne⟩
    exact ⟨c, List.mem_filter.mpr ⟨hc, hne⟩, hpasses, rfl⟩

omit [LinearOrder F] [ExactSelect F] in
theorem slotted_without {gs : List (Gated F)} {id : Uuid} (hids : (gs.map (·.id)).Nodup)
    (hout : ∀ g ∈ slotted cfg maxItems gs, g.id ≠ id) :
    slotted cfg maxItems (gs.filter (·.id ≠ id)) = slotted cfg maxItems gs := by
  by_cases hin : ∃ g ∈ gs, g.id = id
  · obtain ⟨g, hg, rfl⟩ := hin
    obtain ⟨above, below, rfl⟩ := List.mem_iff_append.mp hg
    have hrest : (above ++ g :: below).filter (·.id ≠ g.id) = above ++ below := by
      rw [List.map_append, List.map_cons, List.nodup_middle, List.nodup_cons, ← List.map_append]
        at hids
      have hapart : ∀ x ∈ above ++ below, x.id ≠ g.id := by
        intro x hx heq
        exact hids.1 (heq ▸ List.mem_map_of_mem hx)
      rw [List.filter_append, List.filter_cons_of_neg (by simp), ← List.filter_append,
        List.filter_eq_self]
      exact fun x hx => decide_eq_true (hapart x hx)
    have hskip := Greedy.not_fits_of_not_mem fun hmem => hout g hmem rfl
    rw [hrest]
    exact (Greedy.taken_skip hskip).symm
  · have hall : gs.filter (·.id ≠ id) = gs := by
      rw [List.filter_eq_self]
      exact fun g hg => decide_eq_true fun heq => hin ⟨g, hg, heq⟩
    rw [hall]

omit [LinearOrder F] [ExactSelect F] in
theorem slotted_take {gs : List (Gated F)} {m unlimited : Nat} (hlarge : gs.length ≤ unlimited) :
    slotted cfg m gs = (slotted cfg unlimited gs).take m := by
  have hsplit : ∀ k, slotFits cfg k =
      fun st g => capsFit cfg st g && decide (st.position < k) := by
    intro k
    funext st g
    simp [slotFits, capsFit, CapState.fits]
  have hlimit := fun k => @Greedy.taken_limit _ _ (capsFit cfg) CapState.take CapState.position
    (fun _ _ => rfl) k {} gs
  have hlength := (@Greedy.taken_sublist _ _ (capsFit cfg) CapState.take {} gs).length_le
  have hall : (Greedy.taken (capsFit cfg) CapState.take {} gs).take unlimited =
      Greedy.taken (capsFit cfg) CapState.take {} gs :=
    List.take_of_length_le (le_trans hlength hlarge)
  unfold slotted
  rw [hsplit m, hsplit unlimited, hlimit m, hlimit unlimited]
  exact (congrArg (List.take m) hall).symm

/-- Changes that do not concern a selection leave it as it is: another order of the candidates, one
that was not selected, and a higher ceiling for the places below it. -/
theorem selection_stable (cs : List (Candidate F)) (cfg : ScoringConfig F) (maxItems : Nat)
    (now displayFloor : DateTime) (hids : (cs.map (·.id)).Nodup) :
    (∀ cs', cs'.Perm cs → selection cs' cfg maxItems now displayFloor =
        selection cs cfg maxItems now displayFloor) ∧
      (∀ c ∈ cs, (∀ d ∈ selection cs cfg maxItems now displayFloor, d.id ≠ c.id) →
        selection (cs.filter (·.id ≠ c.id)) cfg maxItems now displayFloor =
          selection cs cfg maxItems now displayFloor) ∧
      ∀ m unlimited, cs.length ≤ unlimited → selection cs cfg m now displayFloor =
        (selection cs cfg unlimited now displayFloor).take m := by
  refine ⟨?_, ?_, ?_⟩
  · intro cs' hperm
    rw [selection_eq, selection_eq, rankedOf_perm hids hperm]
  · intro c _ hout
    have hslotted : ∀ g ∈ slotted cfg maxItems (rankedOf cs cfg now displayFloor), g.id ≠ c.id := by
      intro g hg heq
      obtain ⟨d, hd, hid⟩ := mem_selection_id.mpr ⟨g, hg, heq⟩
      exact hout d hd hid
    rw [selection_eq, selection_eq, rankedOf_without hids,
      slotted_without (rankedOf_ids hids) hslotted]
  · intro m unlimited hlarge
    have hlength : (rankedOf cs cfg now displayFloor).length ≤ unlimited := by
      unfold rankedOf
      rw [List.length_insertionSort, List.length_map]
      exact le_trans (List.length_filter_le _ _) hlarge
    have hnumbered : ∀ gs : List (Gated F), (gs.take m).zipIdx = gs.zipIdx.take m := by
      intro gs
      refine List.ext_getElem? ?_
      intro i
      rw [List.getElem?_zipIdx, List.getElem?_take, List.getElem?_take, List.getElem?_zipIdx]
      split <;> rfl
    rw [selection_eq, selection_eq, slotted_take hlength, hnumbered, List.map_take]

end Stability

def rival (id : Uuid) (lastEventTime : DateTime) : Candidate ℚ where
  id := id
  lastEventTime := lastEventTime
  entities := []
  relevance := 0
  eventCount := 1
  sourceDiversity := 1
  contentDepth := .longform
  maxSeverity := none
  hasPrivate := false
  lastShown := none
  threadId := none

def rivals : List (Candidate ℚ) := [rival 1 10, rival 2 20, rival 3 30]

/-- Of three stories one has room: the order of the others and the oldest of them do not matter. -/
theorem selection_stable_rivals :
    selection rivals.reverse (ScoringConfig.default ℚ) 1 40 0 =
        selection rivals (ScoringConfig.default ℚ) 1 40 0 ∧
      selection (rivals.filter (·.id ≠ 1)) (ScoringConfig.default ℚ) 1 40 0 =
        selection rivals (ScoringConfig.default ℚ) 1 40 0 ∧
      selection rivals (ScoringConfig.default ℚ) 1 40 0 =
        (selection rivals (ScoringConfig.default ℚ) 3 40 0).take 1 := by
  have h := selection_stable rivals (ScoringConfig.default ℚ) 1 40 0 (by decide)
  exact ⟨h.1 _ rivals.reverse_perm,
    h.2.1 (rival 1 10) List.mem_cons_self (by decide +kernel), h.2.2 1 3 (by decide)⟩

end Bulletin
