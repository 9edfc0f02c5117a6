import Bulletin.Digest.Ranking

/-! # The contract of selection

Every candidate is decided once. The gates drop what is too old or not relevant enough, slots go by
rank within five caps, and a candidate past the gates without a slot found one of its caps full.
-/

namespace Bulletin

/-! ## Caps -/

section Caps

variable {F : Type}

structure CapsKept (cfg : ScoringConfig F) (maxItems : Nat) (gs : List (Gated F)) : Prop where
  stories : gs.countP (·.format = .story) ≤ cfg.storyCap
  notes : gs.countP (·.format = .note) ≤ cfg.noteCap
  resurfaced : gs.countP (·.resurfaced) ≤ cfg.resurfaceCap
  threads : 0 < cfg.threadCap → ∀ t, gs.countP (·.threadId = some t) ≤ cfg.threadCap
  items : gs.length ≤ maxItems

/-- A cap that applies to the candidate has no slot left. -/
inductive CapFull (cfg : ScoringConfig F) (maxItems : Nat) (gs : List (Gated F)) (g : Gated F) :
    Prop where
  | stories : g.format = .story → cfg.storyCap ≤ gs.countP (·.format = .story) →
      CapFull cfg maxItems gs g
  | notes : g.format = .note → cfg.noteCap ≤ gs.countP (·.format = .note) →
      CapFull cfg maxItems gs g
  | resurfaced : g.resurfaced = true → cfg.resurfaceCap ≤ gs.countP (·.resurfaced) →
      CapFull cfg maxItems gs g
  | thread (t : Uuid) : g.threadId = some t → 0 < cfg.threadCap →
      cfg.threadCap ≤ gs.countP (·.threadId = some t) → CapFull cfg maxItems gs g
  | items : maxItems ≤ gs.length → CapFull cfg maxItems gs g

variable {cfg : ScoringConfig F} {maxItems : Nat} {gs gs' : List (Gated F)} {g : Gated F}

theorem CapsKept.perm (h : CapsKept cfg maxItems gs) (hperm : gs'.Perm gs) :
    CapsKept cfg maxItems gs' where
  stories := by rw [hperm.countP_eq]; exact h.stories
  notes := by rw [hperm.countP_eq]; exact h.notes
  resurfaced := by rw [hperm.countP_eq]; exact h.resurfaced
  threads := fun hcap t => by rw [hperm.countP_eq]; exact h.threads hcap t
  items := by rw [hperm.length_eq]; exact h.items

theorem CapFull.perm (h : CapFull cfg maxItems gs g) (hperm : gs'.Perm gs) :
    CapFull cfg maxItems gs' g := by
  cases h with
  | stories hformat hfull => exact .stories hformat (by rwa [hperm.countP_eq])
  | notes hformat hfull => exact .notes hformat (by rwa [hperm.countP_eq])
  | resurfaced hre hfull => exact .resurfaced hre (by rwa [hperm.countP_eq])
  | thread t ht hcap hfull => exact .thread t ht hcap (by rwa [hperm.countP_eq])
  | items hfull => exact .items (by rwa [hperm.length_eq])

theorem foldl_take_counts (gs : List (Gated F)) :
    (gs.foldl CapState.take {}).stories = gs.countP (·.format = .story) ∧
      (gs.foldl CapState.take {}).notes = gs.countP (·.format = .note) ∧
      (gs.foldl CapState.take {}).resurfaced = gs.countP (·.resurfaced) ∧
      (gs.foldl CapState.take {}).position = gs.length ∧
      ∀ t, (gs.foldl CapState.take {}).threadCounts.getD t 0 = gs.countP (·.threadId = some t) := by
  induction gs using List.reverseRecOn with
  | nil => simp
  | append_singleton gs g ih =>
      obtain ⟨hstories, hnotes, hre, hposition, hthreads⟩ := ih
      rw [List.foldl_append, List.foldl_cons, List.foldl_nil]
      refine ⟨?_, ?_, ?_, ?_, ?_⟩
      · cases hformat : g.format <;> simp [CapState.take, hstories, hformat]
      · cases hformat : g.format <;> simp [CapState.take, hnotes, hformat]
      · cases hg : g.resurfaced <;> simp [CapState.take, hre, hg]
      · simp [CapState.take, hposition]
      · intro t
        cases hthread : g.threadId with
        | none => simp [CapState.take, hthreads, hthread]
        | some t' =>
            by_cases ht : t' = t
            · subst ht
              simp [CapState.take, hthreads, hthread]
            · simp [CapState.take, hthreads, hthread, ht, Std.ExtTreeMap.getD_insert]

theorem CapState.fits_iff {st : CapState} : st.fits cfg maxItems g = true ↔
    (g.format = .story → st.stories < cfg.storyCap) ∧
      (g.format = .note → st.notes < cfg.noteCap) ∧
      (g.resurfaced = true → st.resurfaced < cfg.resurfaceCap) ∧
      (∀ t, g.threadId = some t → 0 < cfg.threadCap → st.threadCounts.getD t 0 < cfg.threadCap) ∧
      st.position < maxItems := by
  unfold CapState.fits
  cases g.format <;> cases g.resurfaced <;> cases g.threadId <;>
    by_cases hcap : 0 < cfg.threadCap <;> simp [hcap, and_assoc]

/-- A candidate fits after some slots unless one of its caps is full. -/
theorem slotFits_iff : slotFits cfg maxItems (gs.foldl CapState.take {}) g = true ↔
    ¬ CapFull cfg maxItems gs g := by
  obtain ⟨hstories, hnotes, hre, hposition, hthreads⟩ := foldl_take_counts gs
  unfold slotFits
  rw [CapState.fits_iff, hstories, hnotes, hre, hposition]
  simp only [hthreads]
  constructor
  · rintro ⟨hstory, hnote, hresurface, hthread, hitems⟩ hfull
    cases hfull with
    | stories hformat hfull => exact absurd (hstory hformat) (not_lt.mpr hfull)
    | notes hformat hfull => exact absurd (hnote hformat) (not_lt.mpr hfull)
    | resurfaced hre hfull => exact absurd (hresurface hre) (not_lt.mpr hfull)
    | thread t ht hcap hfull => exact absurd (hthread t ht hcap) (not_lt.mpr hfull)
    | items hfull => exact absurd hitems (not_lt.mpr hfull)
  · intro hfree
    refine ⟨?_, ?_, ?_, ?_, ?_⟩
    · exact fun hformat => not_le.mp fun hfull => hfree (.stories hformat hfull)
    · exact fun hformat => not_le.mp fun hfull => hfree (.notes hformat hfull)
    · exact fun hre => not_le.mp fun hfull => hfree (.resurfaced hre hfull)
    · exact fun t ht hcap => not_le.mp fun hfull => hfree (.thread t ht hcap hfull)
    · exact not_le.mp fun hfull => hfree (.items hfull)

theorem countP_append_le {p : Gated F → Bool} {cap : Nat} (h : gs.countP p ≤ cap)
    (hfree : p g = true → gs.countP p < cap) : (gs ++ [g]).countP p ≤ cap := by
  rw [List.countP_append, List.countP_singleton]
  split
  · rename_i hp
    exact hfree hp
  · exact h

theorem CapsKept.append (h : CapsKept cfg maxItems gs) (hfree : ¬ CapFull cfg maxItems gs g) :
    CapsKept cfg maxItems (gs ++ [g]) where
  stories := countP_append_le h.stories fun hformat =>
    not_le.mp fun hfull => hfree (.stories (of_decide_eq_true hformat) hfull)
  notes := countP_append_le h.notes fun hformat =>
    not_le.mp fun hfull => hfree (.notes (of_decide_eq_true hformat) hfull)
  resurfaced := countP_append_le h.resurfaced fun hre =>
    not_le.mp fun hfull => hfree (.resurfaced hre hfull)
  threads := fun hcap t => countP_append_le (h.threads hcap t) fun ht =>
    not_le.mp fun hfull => hfree (.thread t (of_decide_eq_true ht) hcap hfull)
  items := by
    rw [List.length_append, List.length_singleton]
    exact not_le.mp fun hfull => hfree (.items hfull)

theorem slotted_capsKept (cfg : ScoringConfig F) (maxItems : Nat) (gs : List (Gated F)) :
    CapsKept cfg maxItems (slotted cfg maxItems gs) := by
  refine Greedy.taken_induction _ _ ?_ fun _ _ h hfits => h.append (slotFits_iff.mp hfits)
  exact ⟨Nat.zero_le _, Nat.zero_le _, Nat.zero_le _, fun _ _ => Nat.zero_le _, Nat.zero_le _⟩

end Caps

/-! ## Decisions -/

section Decisions

variable {F : Type} [SelectScore F] {cs : List (Candidate F)} {cfg : ScoringConfig F}
  {maxItems : Nat} {now displayFloor : DateTime}

omit [SelectScore F] in
theorem capPass_ids (st : CapState) (rank : Nat) (gs : List (Gated F)) :
    (capPass cfg maxItems st rank gs).map (·.id) = gs.map (·.id) := by
  induction gs generalizing st rank with
  | nil => rfl
  | cons g gs ih =>
      unfold capPass
      split
      · exact congrArg (g.id :: ·) (ih _ _)
      · exact congrArg (g.id :: ·) (ih _ _)

theorem filterMap_gate_dropped (cs : List (Candidate F)) :
    ((cs.map (gate cfg now displayFloor)).filterMap Sum.getLeft?).map (·.id) =
      (cs.filter fun c => !decide (Passes cfg displayFloor c)).map (·.id) := by
  rw [List.filterMap_map]
  induction cs with
  | nil => rfl
  | cons c cs ih =>
      by_cases h : Passes cfg displayFloor c
      · have hpassed : (gate cfg now displayFloor c).getLeft? = none := by
          rw [gate_of_passes h]; rfl
        simpa [hpassed, h] using ih
      · obtain ⟨cause, hgate⟩ := @gate_of_not_passes F _ cfg now displayFloor c h
        have hdropped : (gate cfg now displayFloor c).getLeft? =
            some (dropDecision c cfg cause) := by rw [hgate]; rfl
        simpa [hdropped, h, dropDecision] using ih

theorem select_ids : ((select cs cfg maxItems now displayFloor).map (·.id)).Perm
    (cs.map (·.id)) := by
  have hranked : ((rankedOf cs cfg now displayFloor).map (·.id)).Perm
      ((cs.filter fun c => Passes cfg displayFloor c).map (·.id)) := by
    have hperm := (List.perm_insertionSort (fun x y : Gated F => rankOrder x y ≠ .gt)
      ((cs.filter fun c => Passes cfg displayFloor c).map (gatedOf · cfg now))).map (·.id)
    rwa [List.map_map] at hperm
  have hdropped := (List.perm_insertionSort (fun x y : Decision F => x.id ≤ y.id)
    ((cs.map (gate cfg now displayFloor)).filterMap Sum.getLeft?)).map (·.id)
  rw [filterMap_gate_dropped] at hdropped
  unfold select
  dsimp only
  rw [filterMap_gate]
  have hdecided := (List.filter_append_perm (fun d : Decision F => d.isSelected)
    (capPass cfg maxItems {} 0 (rankedOf cs cfg now displayFloor))).map (·.id)
  rw [capPass_ids] at hdecided
  rw [List.map_append]
  refine ((hdecided.trans hranked).append hdropped).trans ?_
  rw [← List.map_append]
  exact (List.filter_append_perm (fun c => decide (Passes cfg displayFloor c)) cs).map (·.id)

end Decisions

/-! ## The contract -/

section Contract

variable {F : Type} [LinearOrder F] [ExactSelect F]

def shownOf (cs : List (Candidate F)) (cfg : ScoringConfig F) (now : DateTime)
    (decisions : List (Decision F)) : List (Gated F) :=
  (cs.map (gatedOf · cfg now)).filter fun g => decisions.any fun d => d.id = g.id ∧ d.isSelected

/-- What selection promises of its decisions. -/
structure Selects (cs : List (Candidate F)) (cfg : ScoringConfig F) (maxItems : Nat)
    (now displayFloor : DateTime) (decisions : List (Decision F)) : Prop where
  once : (decisions.map (·.id)).Perm (cs.map (·.id))
  stale : ∀ c ∈ cs, ∀ d ∈ decisions, d.id = c.id →
    (d.verdict = .dropped .staleForCadence ↔ c.lastEventTime < displayFloor)
  below : ∀ c ∈ cs, ∀ d ∈ decisions, d.id = c.id →
    (d.verdict = .dropped .belowFloor ↔
      ¬ c.lastEventTime < displayFloor ∧ relevance c cfg < cfg.relevanceFloor)
  positions : (decisions.filter (·.isSelected)).map (·.verdict) =
    (List.range (decisions.filter (·.isSelected)).length).map .selected
  ranked : (decisions.filter (·.isSelected)).Pairwise fun x y => x.rankKey < y.rankKey
  caps : CapsKept cfg maxItems (shownOf cs cfg now decisions)
  /-- A candidate over cap found one of its caps full with what is shown above it. -/
  full : ∀ c ∈ cs, ∀ d ∈ decisions, d.id = c.id → ∀ rank, d.verdict = .overCap rank →
    CapFull cfg maxItems ((shownOf cs cfg now decisions).filter fun g =>
      g.rankKey < (gatedOf c cfg now).rankKey) (gatedOf c cfg now)

variable {cs : List (Candidate F)} {cfg : ScoringConfig F} {maxItems : Nat}
  {now displayFloor : DateTime}

theorem lt_iff_lt {x y : F} : Score.lt x y = true ↔ x < y := by
  simp [Score.lt, ExactSelect.partialCmp_eq, compare_lt_iff_lt]

theorem decision_eq_of_id {d d' : Decision F} (hids : (cs.map (·.id)).Nodup)
    (hd : d ∈ select cs cfg maxItems now displayFloor)
    (hd' : d' ∈ select cs cfg maxItems now displayFloor) (h : d.id = d'.id) : d = d' :=
  List.inj_on_of_nodup_map (select_ids.nodup_iff.mpr hids) hd hd' h

theorem dropped_iff {c : Candidate F} {d : Decision F} {cause : DropCause}
    (hids : (cs.map (·.id)).Nodup) (hc : c ∈ cs)
    (hd : d ∈ select cs cfg maxItems now displayFloor) (hid : d.id = c.id) :
    d.verdict = .dropped cause ↔
      gate cfg now displayFloor c = .inl (dropDecision c cfg cause) := by
  constructor
  · intro hverdict
    obtain ⟨c', hc', hgate, rfl⟩ := mem_select_dropped.mp ⟨hd, hverdict⟩
    obtain rfl := List.inj_on_of_nodup_map hids hc' hc hid
    exact hgate
  · intro hgate
    have hdrop : dropDecision c cfg cause ∈ select cs cfg maxItems now displayFloor ∧ _ :=
      mem_select_dropped.mpr ⟨c, hc, hgate, rfl⟩
    obtain rfl := decision_eq_of_id hids hd hdrop.1 hid
    rfl

theorem shownOf_perm (hids : (cs.map (·.id)).Nodup) :
    (shownOf cs cfg now (select cs cfg maxItems now displayFloor)).Perm
      (slotted cfg maxItems (rankedOf cs cfg now displayFloor)) := by
  have hranked := @rankedOf_ids F _ cs cfg now displayFloor hids
  have hslots := (@Greedy.taken_sublist _ _ (slotFits cfg maxItems) CapState.take {}
    (rankedOf cs cfg now displayFloor))
  have hnodup : (shownOf cs cfg now (select cs cfg maxItems now displayFloor)).Nodup := by
    refine List.Nodup.filter _ ?_
    refine List.Nodup.of_map (fun g : Gated F => g.id) ?_
    rwa [List.map_map]
  refine (List.perm_ext_iff_of_nodup hnodup ((List.Nodup.of_map _ hranked).sublist hslots)).mpr ?_
  intro g
  unfold shownOf
  simp only [List.mem_filter, List.mem_map, List.any_eq_true, decide_eq_true_eq]
  constructor
  · rintro ⟨⟨c, hc, rfl⟩, d, hd, hid, hselected⟩
    obtain ⟨g, hg, hgid⟩ := mem_selection_id.mp ⟨d, List.mem_filter.mpr ⟨hd, hselected⟩, hid⟩
    obtain ⟨c', hc', _, rfl⟩ := mem_rankedOf.mp (hslots.subset hg)
    obtain rfl := List.inj_on_of_nodup_map hids hc' hc hgid
    exact hg
  · intro hg
    obtain ⟨c, hc, _, rfl⟩ := mem_rankedOf.mp (hslots.subset hg)
    obtain ⟨d, hd, hid⟩ := mem_selection_id.mpr ⟨_, hg, rfl⟩
    obtain ⟨hin, hselected⟩ := List.mem_filter.mp hd
    exact ⟨⟨c, hc, rfl⟩, d, hin, hid, hselected⟩

omit [ExactSelect F] in
theorem mem_slotted_above {above below : List (Gated F)} {g x : Gated F}
    (hstrict : (above ++ g :: below).Pairwise fun x y => x.rankKey < y.rankKey) :
    x ∈ slotted cfg maxItems (above ++ g :: below) ∧ x.rankKey < g.rankKey ↔
      x ∈ slotted cfg maxItems above := by
  obtain ⟨_, hbelow, hacross⟩ := List.pairwise_append.mp hstrict
  unfold slotted
  rw [Greedy.taken_append, List.mem_append]
  constructor
  · rintro ⟨hin | hafter, hlt⟩
    · exact hin
    · rcases List.mem_cons.mp ((Greedy.taken_sublist _ _).subset hafter) with rfl | hlater
      · exact absurd hlt (lt_irrefl _)
      · exact absurd hlt (lt_asymm ((List.pairwise_cons.mp hbelow).1 x hlater))
  · intro h
    exact ⟨Or.inl h, hacross x ((Greedy.taken_sublist _ _).subset h) g List.mem_cons_self⟩

theorem capFull_of_over {c : Candidate F} {d : Decision F} {rank : Nat}
    (hids : (cs.map (·.id)).Nodup) (hc : c ∈ cs)
    (hd : d ∈ select cs cfg maxItems now displayFloor) (hid : d.id = c.id)
    (hover : d.verdict = .overCap rank) :
    CapFull cfg maxItems ((shownOf cs cfg now (select cs cfg maxItems now displayFloor)).filter
      fun g => g.rankKey < (gatedOf c cfg now).rankKey) (gatedOf c cfg now) := by
  have hpasses : Passes cfg displayFloor c := by
    by_contra hnot
    obtain ⟨cause, hgate⟩ := @gate_of_not_passes F _ cfg now displayFloor c hnot
    have hverdict := (dropped_iff hids hc hd hid).mpr hgate
    rw [hover] at hverdict
    cases hverdict
  have hranked : gatedOf c cfg now ∈ rankedOf cs cfg now displayFloor :=
    mem_rankedOf.mpr ⟨c, hc, hpasses, rfl⟩
  obtain ⟨above, below, hsplit⟩ := List.mem_iff_append.mp hranked
  have hstrict := @rankedOf_strict F _ _ cs cfg now displayFloor hids
  rw [hsplit] at hstrict
  have hout : gatedOf c cfg now ∉ slotted cfg maxItems (above ++ gatedOf c cfg now :: below) := by
    intro hin
    rw [← hsplit] at hin
    obtain ⟨d', hd', hid'⟩ := mem_selection_id.mpr ⟨_, hin, rfl⟩
    obtain ⟨hmem, hselected⟩ := List.mem_filter.mp hd'
    obtain rfl := decision_eq_of_id hids hmem hd (hid'.trans hid.symm)
    unfold Decision.isSelected at hselected
    rw [hover] at hselected
    cases hselected
  have hfull : CapFull cfg maxItems (slotted cfg maxItems above) (gatedOf c cfg now) := by
    by_contra hfree
    exact Greedy.not_fits_of_not_mem hout (slotFits_iff.mpr hfree)
  refine hfull.perm ?_
  have hshown := @shownOf_perm F _ _ cs cfg maxItems now displayFloor hids
  rw [hsplit] at hshown
  have hnodup : (slotted cfg maxItems (above ++ gatedOf c cfg now :: below)).Nodup :=
    (List.Nodup.of_map _ (hsplit ▸ @rankedOf_ids F _ cs cfg now displayFloor hids)).sublist
      (Greedy.taken_sublist _ _)
  have habove : (slotted cfg maxItems above).Nodup :=
    hnodup.sublist (by unfold slotted; rw [Greedy.taken_append]; exact List.sublist_append_left _ _)
  refine (List.perm_ext_iff_of_nodup ((hshown.nodup_iff.mpr hnodup).filter _) habove).mpr ?_
  intro x
  rw [List.mem_filter, decide_eq_true_eq, hshown.mem_iff]
  exact mem_slotted_above hstrict

/-- The contract of selection. -/
theorem select_meets_contract (cs : List (Candidate F)) (cfg : ScoringConfig F) (maxItems : Nat)
    (now displayFloor : DateTime) (hids : (cs.map (·.id)).Nodup) :
    Selects cs cfg maxItems now displayFloor (select cs cfg maxItems now displayFloor) where
  once := select_ids
  stale := fun c hc d hd hid => (dropped_iff hids hc hd hid).trans gate_stale
  below := fun c hc d hd hid => by
    rw [dropped_iff hids hc hd hid, gate_below, lt_iff_lt]
  positions := by
    have hnumbered := @selection_eq F _ cs cfg maxItems now displayFloor
    unfold selection at hnumbered
    rw [hnumbered, List.map_map, List.length_map, List.length_zipIdx, List.range_eq_range',
      ← List.zipIdx_map_snd, List.map_map]
    rfl
  ranked := by
    have hnumbered := @selection_eq F _ cs cfg maxItems now displayFloor
    unfold selection at hnumbered
    rw [hnumbered, List.pairwise_map]
    have hslots : (slotted cfg maxItems (rankedOf cs cfg now displayFloor)).Pairwise
        fun x y => x.rankKey < y.rankKey :=
      (rankedOf_strict hids).sublist (Greedy.taken_sublist _ _)
    rw [← List.zipIdx_map_fst 0 (slotted cfg maxItems (rankedOf cs cfg now displayFloor)),
      List.pairwise_map] at hslots
    exact hslots
  caps := (slotted_capsKept _ _ _).perm (shownOf_perm hids)
  full := fun c hc d hd hid rank hover => capFull_of_over hids hc hd hid hover

end Contract

/-- Three stories for one place. -/
theorem select_meets_contract_rivals :
    Selects rivals (ScoringConfig.default ℚ) 1 40 0
      (select rivals (ScoringConfig.default ℚ) 1 40 0) :=
  select_meets_contract rivals (ScoringConfig.default ℚ) 1 40 0 (by decide)

end Bulletin
