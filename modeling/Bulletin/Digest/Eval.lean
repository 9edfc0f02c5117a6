import Bulletin.Core.DiscountedGain
import Bulletin.Digest.Contract
import Bulletin.Digest.Generate

/-! # Offline evaluation

The metrics of a window of decision logs, with the grades that stories got. Sums and quotients
are exact, and the discount of a position, one over the logarithm in the source, is handed in.
-/

namespace Bulletin

open DiscountedGain

/-! ## Grades -/

inductive Grade where
  | up
  | down
deriving DecidableEq, Repr

def Grade.gain {F : Type} [Semiring F] : Grade → F
  | up => 2
  | down => 0

def ungradedGain {F : Type} [Semiring F] : F := 1

/-- The latest grade of each story. -/
abbrev Grades := Uuid → Option Grade

/-! ## Metrics -/

structure Metrics (F : Type) where
  digests : Nat
  candidates : Nat
  selected : Nat
  overCap : Nat
  droppedBelowFloor : Nat
  droppedStaleForCadence : Nat
  selectedStories : Nat
  selectedNotes : Nat
  emptyDigests : Nat
  capLimitedDigests : Nat
  meanItems : F
  storyShare : F
  graded : Nat
  careMore : Nat
  careLess : Nat
  precision : Option F
  ndcg : Option F
deriving DecidableEq

structure EvalState (F : Type) where
  candidates : Nat := 0
  selected : Nat := 0
  overCap : Nat := 0
  droppedBelowFloor : Nat := 0
  droppedStaleForCadence : Nat := 0
  selectedStories : Nat := 0
  selectedNotes : Nat := 0
  emptyDigests : Nat := 0
  capLimitedDigests : Nat := 0
  careMore : Nat := 0
  careLess : Nat := 0
  ndcgSum : F
  ndcgDigests : Nat := 0
  counted : Finset Uuid := ∅

def Verdict.isSelected : Verdict → Bool
  | selected _ => true
  | _ => false

def Verdict.isOverCap : Verdict → Bool
  | overCap _ => true
  | _ => false

def Verdict.renderKey : Verdict → Nat
  | selected position => position
  | _ => 2 ^ 64 - 1

section Evaluate

variable {S F : Type}

def selectedRecords (decisions : List (DecisionRecord S)) : List (DecisionRecord S) :=
  (decisions.filter (·.verdict.isSelected)).insertionSort fun x y =>
    x.verdict.renderKey ≤ y.verdict.renderKey

def tallyVerdict (st : EvalState F) (d : DecisionRecord S) : EvalState F :=
  match d.verdict with
  | .overCap _ => { st with overCap := st.overCap + 1 }
  | .dropped .belowFloor => { st with droppedBelowFloor := st.droppedBelowFloor + 1 }
  | .dropped .staleForCadence =>
      { st with droppedStaleForCadence := st.droppedStaleForCadence + 1 }
  | .selected _ => st

def tallyFormat (st : EvalState F) (d : DecisionRecord S) : EvalState F :=
  match d.reason.format with
  | .story => { st with selectedStories := st.selectedStories + 1 }
  | .note => { st with selectedNotes := st.selectedNotes + 1 }

def tallyGrade (grades : Grades) (st : EvalState F) (d : DecisionRecord S) : EvalState F :=
  match grades d.storyId with
  | none => st
  | some g =>
      if d.storyId ∈ st.counted then st
      else
        let st := { st with counted := insert d.storyId st.counted }
        match g with
        | .up => { st with careMore := st.careMore + 1 }
        | .down => { st with careLess := st.careLess + 1 }

variable [Field F] [LinearOrder F]

def renderGains (grades : Grades) (sel : List (DecisionRecord S)) : List F :=
  sel.map fun d => (grades d.storyId).elim ungradedGain Grade.gain

/-- The nDCG of a digest, where there is an order to score and a grade to score it by. -/
def digestNdcg (discount : ℕ → F) (grades : Grades) (decisions : List (DecisionRecord S)) :
    Option F :=
  let sel := selectedRecords decisions
  if 2 ≤ sel.length && sel.any (fun d => (grades d.storyId).isSome) then
    ndcg discount (renderGains grades sel)
  else none

def addNdcg (st : EvalState F) : Option F → EvalState F
  | none => st
  | some nd => { st with ndcgSum := st.ndcgSum + nd, ndcgDigests := st.ndcgDigests + 1 }

def evalDigest (discount : ℕ → F) (grades : Grades) (st : EvalState F)
    (decisions : List (DecisionRecord S)) : EvalState F :=
  let st := { st with candidates := st.candidates + decisions.length }
  let sel := selectedRecords decisions
  let st := { st with emptyDigests := st.emptyDigests + if sel.isEmpty then 1 else 0 }
  let st := { st with selected := st.selected + sel.length }
  let st := decisions.foldl tallyVerdict st
  let st := { st with capLimitedDigests :=
    st.capLimitedDigests + if decisions.any (·.verdict.isOverCap) then 1 else 0 }
  let st := sel.foldl tallyFormat st
  let st := addNdcg st (digestNdcg discount grades decisions)
  sel.foldl (tallyGrade grades) st

def ratio (part whole : Nat) : Option F := if 0 < whole then some (part / whole) else none

def EvalState.finish (digests : Nat) (st : EvalState F) : Metrics F where
  digests := digests
  candidates := st.candidates
  selected := st.selected
  overCap := st.overCap
  droppedBelowFloor := st.droppedBelowFloor
  droppedStaleForCadence := st.droppedStaleForCadence
  selectedStories := st.selectedStories
  selectedNotes := st.selectedNotes
  emptyDigests := st.emptyDigests
  capLimitedDigests := st.capLimitedDigests
  meanItems := (ratio st.selected digests).getD 0
  storyShare := (ratio st.selectedStories st.selected).getD 0
  graded := st.careMore + st.careLess
  careMore := st.careMore
  careLess := st.careLess
  precision := ratio st.careMore (st.careMore + st.careLess)
  ndcg := if 0 < st.ndcgDigests then some (st.ndcgSum / st.ndcgDigests) else none

def evaluate (discount : ℕ → F) (digests : List (List (DecisionRecord S))) (grades : Grades) :
    Metrics F :=
  (digests.foldl (evalDigest discount grades) { ndcgSum := 0 }).finish digests.length

end Evaluate

/-! ## What the loops add -/

section Loops

variable {S F : Type} {grades : Grades}

theorem foldl_tallyVerdict (st : EvalState F) (decisions : List (DecisionRecord S)) :
    decisions.foldl tallyVerdict st = { st with
      overCap := st.overCap + decisions.countP (·.verdict.isOverCap)
      droppedBelowFloor := st.droppedBelowFloor +
        decisions.countP (·.verdict = .dropped .belowFloor)
      droppedStaleForCadence := st.droppedStaleForCadence +
        decisions.countP (·.verdict = .dropped .staleForCadence) } := by
  induction decisions generalizing st with
  | nil => rfl
  | cons d decisions ih =>
      rw [List.foldl_cons, ih]
      simp only [List.countP_cons]
      cases hverdict : d.verdict with
      | selected position => simp [tallyVerdict, hverdict, Verdict.isOverCap]
      | overCap rank =>
          simp [tallyVerdict, hverdict, Verdict.isOverCap]
          omega
      | dropped cause =>
          cases cause with
          | staleForCadence =>
              simp [tallyVerdict, hverdict, Verdict.isOverCap]
              omega
          | belowFloor =>
              simp [tallyVerdict, hverdict, Verdict.isOverCap]
              omega

theorem foldl_tallyFormat (st : EvalState F) (sel : List (DecisionRecord S)) :
    sel.foldl tallyFormat st = { st with
      selectedStories := st.selectedStories + sel.countP (·.reason.format = .story)
      selectedNotes := st.selectedNotes + sel.countP (·.reason.format = .note) } := by
  induction sel generalizing st with
  | nil => rfl
  | cons d sel ih =>
      rw [List.foldl_cons, ih]
      simp only [List.countP_cons]
      cases hformat : d.reason.format with
      | story =>
          simp [tallyFormat, hformat]
          omega
      | note =>
          simp [tallyFormat, hformat]
          omega

def gradeCount (grades : Grades) (g : Grade) (ids : Finset Uuid) : Nat :=
  (ids.filter fun id => grades id = some g).card

def gradedIds (grades : Grades) (sel : List (DecisionRecord S)) : Finset Uuid :=
  (sel.map (·.storyId)).toFinset.filter fun id => (grades id).isSome

def EvalState.counting (grades : Grades) (ids : Finset Uuid) (st : EvalState F) : EvalState F :=
  { st with
    careMore := gradeCount grades .up ids
    careLess := gradeCount grades .down ids
    counted := ids }

theorem gradeCount_insert {g : Grade} {ids : Finset Uuid} {id : Uuid} (hid : id ∉ ids) :
    gradeCount grades g (insert id ids) =
      gradeCount grades g ids + if grades id = some g then 1 else 0 := by
  unfold gradeCount
  rw [Finset.filter_insert]
  by_cases hg : grades id = some g
  · have hnew : id ∉ ids.filter fun id => grades id = some g :=
      fun h => hid (Finset.mem_of_mem_filter _ h)
    rw [if_pos hg, if_pos hg, Finset.card_insert_of_notMem hnew]
  · rw [if_neg hg, if_neg hg, Nat.add_zero]

theorem tallyGrade_counting (st : EvalState F) (ids : Finset Uuid) (d : DecisionRecord S) :
    tallyGrade grades (st.counting grades ids) d =
      st.counting grades (ids ∪ gradedIds grades [d]) := by
  cases hgrade : grades d.storyId with
  | none =>
      have hnone : gradedIds grades [d] = ∅ := by simp [gradedIds, Finset.filter_singleton, hgrade]
      rw [hnone, Finset.union_empty]
      simp [tallyGrade, hgrade]
  | some g =>
      have hone : gradedIds grades [d] = {d.storyId} := by
        simp [gradedIds, Finset.filter_singleton, hgrade]
      rw [hone, Finset.union_comm, ← Finset.insert_eq]
      by_cases hin : d.storyId ∈ ids
      · rw [Finset.insert_eq_of_mem hin]
        simp [tallyGrade, hgrade, EvalState.counting, hin]
      · unfold EvalState.counting
        rw [gradeCount_insert hin, gradeCount_insert hin]
        cases g <;> simp [tallyGrade, hgrade, hin]

theorem foldl_tallyGrade (st : EvalState F) (ids : Finset Uuid) (sel : List (DecisionRecord S)) :
    sel.foldl (tallyGrade grades) (st.counting grades ids) =
      st.counting grades (ids ∪ gradedIds grades sel) := by
  induction sel generalizing ids with
  | nil => simp [gradedIds]
  | cons d sel ih =>
      have hsplit : gradedIds grades (d :: sel) = gradedIds grades [d] ∪ gradedIds grades sel := by
        unfold gradedIds
        rw [← Finset.filter_union, List.map_cons, List.toFinset_cons, List.map_singleton,
          List.toFinset_cons, List.toFinset_nil, Finset.insert_eq, Finset.insert_eq,
          Finset.union_empty]
      rw [List.foldl_cons, tallyGrade_counting, ih, hsplit, Finset.union_assoc]

theorem foldl_tallyGrade_of_counted {st : EvalState F}
    (h : st.counting grades st.counted = st) (sel : List (DecisionRecord S)) :
    sel.foldl (tallyGrade grades) st =
      st.counting grades (st.counted ∪ gradedIds grades sel) := by
  rw [← foldl_tallyGrade, h]

end Loops

/-! ## The walk over the digests -/

theorem addNdcg_eq {F : Type} [Field F] (st : EvalState F) (nd : Option F) :
    addNdcg st nd = { st with
      ndcgSum := st.ndcgSum + nd.toList.sum
      ndcgDigests := st.ndcgDigests + nd.toList.length } := by
  cases nd <;> simp [addNdcg]

section Walk

variable {S F : Type} [Field F] [LinearOrder F] {discount : ℕ → F} {grades : Grades}

def shownGraded (grades : Grades) (digests : List (List (DecisionRecord S))) : Finset Uuid :=
  gradedIds grades (digests.flatMap selectedRecords)

def evaluated (discount : ℕ → F) (grades : Grades) (digests : List (List (DecisionRecord S))) :
    EvalState F where
  candidates := (digests.map List.length).sum
  selected := (digests.map fun d => (selectedRecords d).length).sum
  overCap := (digests.map fun d => d.countP (·.verdict.isOverCap)).sum
  droppedBelowFloor := (digests.map fun d => d.countP (·.verdict = .dropped .belowFloor)).sum
  droppedStaleForCadence :=
    (digests.map fun d => d.countP (·.verdict = .dropped .staleForCadence)).sum
  selectedStories :=
    (digests.map fun d => (selectedRecords d).countP (·.reason.format = .story)).sum
  selectedNotes := (digests.map fun d => (selectedRecords d).countP (·.reason.format = .note)).sum
  emptyDigests := digests.countP fun d => (selectedRecords d).isEmpty
  capLimitedDigests := digests.countP fun d => d.any (·.verdict.isOverCap)
  careMore := gradeCount grades .up (shownGraded grades digests)
  careLess := gradeCount grades .down (shownGraded grades digests)
  ndcgSum := (digests.filterMap (digestNdcg discount grades)).sum
  ndcgDigests := (digests.filterMap (digestNdcg discount grades)).length
  counted := shownGraded grades digests

/-- The loops over the verdicts and the formats are done; that over the grades is left. -/
theorem evalDigest_eq (st : EvalState F) (d : List (DecisionRecord S)) :
    evalDigest discount grades st d = (selectedRecords d).foldl (tallyGrade grades) { st with
      candidates := st.candidates + d.length
      selected := st.selected + (selectedRecords d).length
      overCap := st.overCap + d.countP (·.verdict.isOverCap)
      droppedBelowFloor := st.droppedBelowFloor + d.countP (·.verdict = .dropped .belowFloor)
      droppedStaleForCadence :=
        st.droppedStaleForCadence + d.countP (·.verdict = .dropped .staleForCadence)
      selectedStories :=
        st.selectedStories + (selectedRecords d).countP (·.reason.format = .story)
      selectedNotes := st.selectedNotes + (selectedRecords d).countP (·.reason.format = .note)
      emptyDigests := st.emptyDigests + if (selectedRecords d).isEmpty then 1 else 0
      capLimitedDigests :=
        st.capLimitedDigests + if d.any (·.verdict.isOverCap) then 1 else 0
      ndcgSum := st.ndcgSum + (digestNdcg discount grades d).toList.sum
      ndcgDigests := st.ndcgDigests + (digestNdcg discount grades d).toList.length } := by
  simp only [evalDigest, foldl_tallyVerdict, foldl_tallyFormat, addNdcg_eq]

theorem evalDigest_evaluated (digests : List (List (DecisionRecord S)))
    (d : List (DecisionRecord S)) :
    evalDigest discount grades (evaluated discount grades digests) d =
      evaluated discount grades (digests ++ [d]) := by
  have hshown : shownGraded grades (digests ++ [d]) =
      shownGraded grades digests ∪ gradedIds grades (selectedRecords d) := by
    unfold shownGraded gradedIds
    rw [← Finset.filter_union, List.flatMap_append, List.map_append, List.toFinset_append,
      List.flatMap_singleton]
  have hndcg : [d].filterMap (digestNdcg discount grades) =
      (digestNdcg discount grades d).toList := by
    cases h : digestNdcg discount grades d <;> simp [h]
  rw [evalDigest_eq, foldl_tallyGrade_of_counted rfl]
  simp [EvalState.counting, evaluated, hshown, hndcg]

theorem foldl_evalDigest (digests : List (List (DecisionRecord S))) :
    digests.foldl (evalDigest discount grades) { ndcgSum := 0 } =
      evaluated discount grades digests := by
  induction digests using List.reverseRecOn with
  | nil => simp [evaluated, shownGraded, gradedIds, gradeCount]
  | append_singleton digests d ih =>
      rw [List.foldl_append, ih, List.foldl_cons, List.foldl_nil, evalDigest_evaluated]

theorem evaluate_eq (digests : List (List (DecisionRecord S))) :
    evaluate discount digests grades =
      (evaluated discount grades digests).finish digests.length :=
  congrArg _ (foldl_evalDigest digests)

theorem mem_selectedRecords {d : List (DecisionRecord S)} {r : DecisionRecord S} :
    r ∈ selectedRecords d ↔ r ∈ d ∧ r.verdict.isSelected = true := by
  unfold selectedRecords
  rw [List.mem_insertionSort, List.mem_filter]

theorem length_selectedRecords (d : List (DecisionRecord S)) :
    (selectedRecords d).length = d.countP (·.verdict.isSelected) := by
  rw [selectedRecords, List.length_insertionSort, List.countP_eq_length_filter]

theorem length_eq_tallies (d : List (DecisionRecord S)) :
    (selectedRecords d).length + d.countP (·.verdict.isOverCap) +
      d.countP (·.verdict = .dropped .belowFloor) +
      d.countP (·.verdict = .dropped .staleForCadence) = d.length := by
  rw [length_selectedRecords]
  induction d with
  | nil => rfl
  | cons r d ih =>
      simp only [List.countP_cons, List.length_cons]
      rcases hverdict : r.verdict with position | rank | cause
      · simp [Verdict.isSelected, Verdict.isOverCap] at ih ⊢
        omega
      · simp [Verdict.isSelected, Verdict.isOverCap] at ih ⊢
        omega
      · cases cause <;> simp [Verdict.isSelected, Verdict.isOverCap] at ih ⊢ <;> omega

theorem length_eq_formats (sel : List (DecisionRecord S)) :
    sel.countP (·.reason.format = .story) + sel.countP (·.reason.format = .note) = sel.length := by
  induction sel with
  | nil => rfl
  | cons r sel ih =>
      simp only [List.countP_cons, List.length_cons]
      cases hformat : r.reason.format <;> simp <;> omega

theorem gradeCount_add {ids : Finset Uuid} (h : ∀ id ∈ ids, (grades id).isSome = true) :
    gradeCount grades .up ids + gradeCount grades .down ids = ids.card := by
  have hdown : (ids.filter fun id => grades id = some .down) =
      ids.filter fun id => ¬ grades id = some .up := by
    refine Finset.filter_congr fun id hid => ?_
    obtain ⟨g, hg⟩ := Option.isSome_iff_exists.mp (h id hid)
    cases g <;> simp [hg]
  rw [gradeCount, gradeCount, hdown, Finset.card_filter_add_card_filter_not]

theorem mem_shownGraded {digests : List (List (DecisionRecord S))} {id : Uuid} :
    id ∈ shownGraded grades digests ↔
      (∃ d ∈ digests, ∃ r ∈ d, r.verdict.isSelected = true ∧ r.storyId = id) ∧
        (grades id).isSome = true := by
  simp only [shownGraded, gradedIds, Finset.mem_filter, List.mem_toFinset, List.mem_map,
    List.mem_flatMap, mem_selectedRecords]
  constructor
  · rintro ⟨⟨r, ⟨d, hd, hr, hsel⟩, hid⟩, hgrade⟩
    exact ⟨⟨d, hd, r, hr, hsel, hid⟩, hgrade⟩
  · rintro ⟨⟨d, hd, r, hr, hsel, hid⟩, hgrade⟩
    exact ⟨⟨r, ⟨d, hd, hr, hsel⟩, hid⟩, hgrade⟩

/-! ## Orders of the input -/

/-- A decision log has one record for a story and one for a position. -/
structure LogWellFormed (d : List (DecisionRecord S)) : Prop where
  ids : (d.map (·.storyId)).Nodup
  positions : ((d.filter (·.verdict.isSelected)).map (·.verdict.renderKey)).Nodup

/-- The same digests in any order, each with its records in any order. -/
def Rearranged (digests digests' : List (List (DecisionRecord S))) : Prop :=
  ∃ shuffled, List.Forall₂ List.Perm digests shuffled ∧ shuffled.Perm digests'

instance renderKey_total : Std.Total fun x y : DecisionRecord S =>
    x.verdict.renderKey ≤ y.verdict.renderKey where
  total _ _ := Nat.le_total _ _

instance renderKey_trans : IsTrans (DecisionRecord S) fun x y =>
    x.verdict.renderKey ≤ y.verdict.renderKey where
  trans _ _ _ := Nat.le_trans

theorem selectedRecords_perm {d d' : List (DecisionRecord S)} (hd : LogWellFormed d)
    (hperm : d.Perm d') : selectedRecords d = selectedRecords d' := by
  have hanti : ∀ x y, x ∈ selectedRecords d → y ∈ selectedRecords d' →
      x.verdict.renderKey ≤ y.verdict.renderKey → y.verdict.renderKey ≤ x.verdict.renderKey →
      x = y := by
    intro x y hx hy hxy hyx
    obtain ⟨hmem, hsel⟩ := mem_selectedRecords.mp hx
    obtain ⟨hmem', hsel'⟩ := mem_selectedRecords.mp hy
    exact List.inj_on_of_nodup_map hd.positions (List.mem_filter.mpr ⟨hmem, hsel⟩)
      (List.mem_filter.mpr ⟨hperm.mem_iff.mpr hmem', hsel'⟩) (Nat.le_antisymm hxy hyx)
  exact List.Perm.eq_of_pairwise hanti
    (List.pairwise_insertionSort (fun x y : DecisionRecord S =>
      x.verdict.renderKey ≤ y.verdict.renderKey) _)
    (List.pairwise_insertionSort (fun x y : DecisionRecord S =>
      x.verdict.renderKey ≤ y.verdict.renderKey) _)
    ((List.perm_insertionSort _ _).trans ((hperm.filter _).trans
      (List.perm_insertionSort _ _).symm))

theorem map_congr_perm {β : Type} {f : List (DecisionRecord S) → β}
    (hf : ∀ {d d'}, LogWellFormed d → d.Perm d' → f d = f d')
    {digests digests' : List (List (DecisionRecord S))} (hlogs : ∀ d ∈ digests, LogWellFormed d)
    (h : List.Forall₂ List.Perm digests digests') : digests.map f = digests'.map f := by
  induction h with
  | nil => rfl
  | @cons d d' digests digests' hperm _ ih =>
      rw [List.map_cons, List.map_cons, hf (hlogs d List.mem_cons_self) hperm,
        ih fun d hd => hlogs d (List.mem_cons_of_mem _ hd)]

theorem evaluated_congr {digests digests' : List (List (DecisionRecord S))}
    (hlogs : ∀ d ∈ digests, LogWellFormed d) (h : List.Forall₂ List.Perm digests digests') :
    evaluated discount grades digests = evaluated discount grades digests' := by
  have hsel : digests.map selectedRecords = digests'.map selectedRecords :=
    map_congr_perm selectedRecords_perm hlogs h
  have hcount : ∀ p : DecisionRecord S → Bool,
      (digests.map fun d => d.countP p) = digests'.map fun d => d.countP p :=
    fun p => map_congr_perm (fun _ hperm => hperm.countP_eq p) hlogs h
  have hlength : digests.map List.length = digests'.map List.length :=
    map_congr_perm (fun _ hperm => hperm.length_eq) hlogs h
  have hany : ∀ p : DecisionRecord S → Bool,
      (digests.map fun d => d.any p) = digests'.map fun d => d.any p :=
    fun p => map_congr_perm (fun _ hperm => hperm.any_eq) hlogs h
  have hfromSel : ∀ {β : Type} (f : List (DecisionRecord S) → β),
      (digests.map fun d => f (selectedRecords d)) = digests'.map fun d => f (selectedRecords d) :=
    fun f => map_congr_perm (fun hd hperm => congrArg f (selectedRecords_perm hd hperm)) hlogs h
  have hndcg : digests.map (digestNdcg discount grades) =
      digests'.map (digestNdcg discount grades) :=
    map_congr_perm (fun hd hperm => by rw [digestNdcg, selectedRecords_perm hd hperm, digestNdcg])
      hlogs h
  have hcountMap : ∀ (p : List (DecisionRecord S) → Bool), digests.map p = digests'.map p →
      digests.countP p = digests'.countP p := by
    intro p hp
    have hid := congrArg (List.countP id) hp
    rwa [List.countP_map, List.countP_map] at hid
  have hflat : digests.flatMap selectedRecords = digests'.flatMap selectedRecords := by
    rw [List.flatMap_def, List.flatMap_def, hsel]
  have hfilter : digests.filterMap (digestNdcg discount grades) =
      digests'.filterMap (digestNdcg discount grades) := by
    have hid := congrArg (List.filterMap id) hndcg
    rwa [List.filterMap_map, List.filterMap_map] at hid
  unfold evaluated shownGraded
  rw [hflat, hfilter, hlength, hcount, hcount, hcount, hfromSel List.length,
    hfromSel (List.countP fun r => r.reason.format = .story),
    hfromSel (List.countP fun r => r.reason.format = .note),
    hcountMap _ (hfromSel List.isEmpty), hcountMap _ (hany _)]

theorem evaluated_perm {digests digests' : List (List (DecisionRecord S))}
    (h : digests.Perm digests') :
    evaluated discount grades digests = evaluated discount grades digests' := by
  have hshown : shownGraded grades digests = shownGraded grades digests' := by
    ext id
    rw [mem_shownGraded, mem_shownGraded]
    simp only [h.mem_iff]
  have hsum : ∀ f : List (DecisionRecord S) → Nat, (digests.map f).sum = (digests'.map f).sum :=
    fun f => (h.map f).sum_eq
  have hfilter := h.filterMap (digestNdcg discount grades)
  unfold evaluated
  rw [hshown, hfilter.sum_eq, hfilter.length_eq, h.countP_eq, h.countP_eq, hsum, hsum, hsum, hsum,
    hsum, hsum, hsum]

theorem Rearranged.evaluate_eq {digests digests' : List (List (DecisionRecord S))}
    (hlogs : ∀ d ∈ digests, LogWellFormed d) (h : Rearranged digests digests') :
    evaluate discount digests' grades = evaluate discount digests grades := by
  obtain ⟨shuffled, hrecords, hdigests⟩ := h
  rw [Bulletin.evaluate_eq, Bulletin.evaluate_eq, evaluated_congr hlogs hrecords,
    evaluated_perm hdigests, hrecords.length_eq, hdigests.length_eq]

end Walk

/-! ## Logs of selections -/

def dateTimeMin : DateTime := -8334601228800000000

/-- A kept selection under another configuration, with no floor on the age. -/
def replay {F : Type} [SelectScore F] (snapshot : ReplaySnapshot F) (cfg : ScoringConfig F) :
    List (DecisionRecord F) :=
  (select snapshot.candidates cfg snapshot.maxItems snapshot.now dateTimeMin).map fun d =>
    ⟨d.id, d.verdict, reasonOf d []⟩

section Selections

variable {F : Type} [SelectScore F] {cs : List (Candidate F)} {cfg : ScoringConfig F}
  {maxItems : Nat} {now displayFloor : DateTime}

theorem logWellFormed_select (hids : (cs.map (·.id)).Nodup)
    {record : Decision F → DecisionRecord F} (hid : ∀ d, (record d).storyId = d.id)
    (hverdict : ∀ d, (record d).verdict = d.verdict) :
    LogWellFormed ((select cs cfg maxItems now displayFloor).map record) where
  ids := by
    rw [List.map_map]
    have hstories : (fun r : DecisionRecord F => r.storyId) ∘ record = fun d => d.id := funext hid
    rw [hstories]
    exact select_ids.nodup_iff.mpr hids
  positions := by
    have hsame : (fun r : DecisionRecord F => r.verdict.isSelected) ∘ record =
        fun d => d.isSelected := by
      funext d
      rw [Function.comp_apply, hverdict]
      unfold Verdict.isSelected Decision.isSelected
      cases d.verdict <;> rfl
    rw [List.filter_map, hsame, List.map_map]
    have hrange : (((select cs cfg maxItems now displayFloor).filter (·.isSelected)).map
        ((fun r : DecisionRecord F => r.verdict.renderKey) ∘ record)) =
        List.range ((select cs cfg maxItems now displayFloor).filter (·.isSelected)).length := by
      refine List.ext_getElem (by simp) fun k hk _ => ?_
      rw [List.length_map] at hk
      have hposition := select_position (List.getElem?_eq_getElem hk)
      simp [hverdict, hposition, Verdict.renderKey]
    rw [hrange]
    exact List.nodup_range

theorem replay_wellFormed {snapshot : ReplaySnapshot F}
    (hids : (snapshot.candidates.map (·.id)).Nodup) : LogWellFormed (replay snapshot cfg) :=
  logWellFormed_select hids (fun _ => rfl) fun _ => rfl

theorem decisionLog_wellFormed (r : Recompute F) (hids : (cs.map (·.id)).Nodup) :
    LogWellFormed (decisionLog r (select cs cfg maxItems now displayFloor)) :=
  logWellFormed_select hids (fun _ => rfl) fun _ => rfl

end Selections

/-! ## Well-formed metrics -/

section Bounds

variable {S F : Type} [Field F] [LinearOrder F] [IsStrictOrderedRing F] {discount : ℕ → F}
  {grades : Grades}

theorem ratio_bounds {part whole : Nat} (hle : part ≤ whole) {v : F}
    (hv : ratio part whole = some v) : 0 ≤ v ∧ v ≤ 1 := by
  obtain ⟨hpos, hquotient⟩ := Option.ite_none_right_eq_some.mp hv
  have hwhole : (0 : F) < whole := Nat.cast_pos.mpr hpos
  rw [← Option.some.inj hquotient]
  exact ⟨div_nonneg (Nat.cast_nonneg _) hwhole.le,
    (div_le_one hwhole).mpr (Nat.cast_le.mpr hle)⟩

theorem renderGains_nonneg (sel : List (DecisionRecord S)) :
    ∀ x ∈ renderGains (F := F) grades sel, 0 ≤ x := by
  intro x hx
  obtain ⟨r, _, rfl⟩ := List.mem_map.mp hx
  rcases grades r.storyId with _ | g
  · exact zero_le_one
  · cases g with
    | up => exact zero_le_two
    | down => exact le_refl 0

theorem digestNdcg_spec (hpos : ∀ i, 0 < discount i) (hdiscount : StrictAnti discount)
    {d : List (DecisionRecord S)} {v : F} (hv : digestNdcg discount grades d = some v) :
    0 ≤ v ∧ v ≤ 1 ∧
      (v = 1 ↔ (renderGains (F := F) grades (selectedRecords d)).Pairwise (· ≥ ·)) := by
  obtain ⟨_, hndcg⟩ := Option.ite_none_right_eq_some.mp hv
  exact ndcg_spec hpos hdiscount (renderGains_nonneg _) hndcg

theorem mean_ndcg_bounds (hpos : ∀ i, 0 < discount i) (hdiscount : StrictAnti discount)
    {digests : List (List (DecisionRecord S))} {v : F}
    (hv : (evaluate discount digests grades).ndcg = some v) : 0 ≤ v ∧ v ≤ 1 := by
  rw [evaluate_eq] at hv
  obtain ⟨hsome, hquotient⟩ := Option.ite_none_right_eq_some.mp hv
  have hall : ∀ x ∈ digests.filterMap (digestNdcg discount grades), 0 ≤ x ∧ x ≤ 1 := by
    intro x hx
    obtain ⟨d, _, hd⟩ := List.mem_filterMap.mp hx
    obtain ⟨hnonneg, hle, -⟩ := digestNdcg_spec hpos hdiscount hd
    exact ⟨hnonneg, hle⟩
  have hcount : (0 : F) < (digests.filterMap (digestNdcg discount grades)).length :=
    Nat.cast_pos.mpr hsome
  have hsum := List.sum_le_card_nsmul _ (1 : F) fun x hx => (hall x hx).2
  rw [nsmul_eq_mul, mul_one] at hsum
  rw [← Option.some.inj hquotient]
  exact ⟨div_nonneg (List.sum_nonneg fun x hx => (hall x hx).1) hcount.le,
    (div_le_one hcount).mpr hsum⟩

/-- The tallies are those of the records, a story counts once, the rates are rates, and nothing
depends on an order that the logs do not state. -/
theorem evaluate_wellFormed (hpos : ∀ i, 0 < discount i) (hdiscount : StrictAnti discount)
    {digests : List (List (DecisionRecord S))} (hlogs : ∀ d ∈ digests, LogWellFormed d)
    (grades : Grades) :
    let m := evaluate discount digests grades
    (m.candidates = (digests.map List.length).sum ∧
      m.selected + m.overCap + m.droppedBelowFloor + m.droppedStaleForCadence = m.candidates) ∧
    m.selectedStories + m.selectedNotes = m.selected ∧
    (∃ shown : Finset Uuid,
      (∀ id, id ∈ shown ↔
        (∃ d ∈ digests, ∃ r ∈ d, r.verdict.isSelected = true ∧ r.storyId = id) ∧
          (grades id).isSome = true) ∧
      m.graded = shown.card ∧
      m.careMore = (shown.filter fun id => grades id = some .up).card ∧
      m.careLess = (shown.filter fun id => grades id = some .down).card) ∧
    (∀ v, m.precision = some v → 0 ≤ v ∧ v ≤ 1) ∧
    (∀ d ∈ digests, ∀ v, digestNdcg discount grades d = some v → 0 ≤ v ∧ v ≤ 1 ∧
      (v = 1 ↔ (renderGains (F := F) grades (selectedRecords d)).Pairwise (· ≥ ·))) ∧
    (∀ v, m.ndcg = some v → 0 ≤ v ∧ v ≤ 1) ∧
    ∀ digests', Rearranged digests digests' → evaluate discount digests' grades = m := by
  have hgraded : gradeCount grades .up (shownGraded grades digests) +
      gradeCount grades .down (shownGraded grades digests) = (shownGraded grades digests).card :=
    gradeCount_add fun id hid => (mem_shownGraded.mp hid).2
  refine ⟨?_, ?_, ?_, ?_, ?_, ?_, ?_⟩
  · rw [evaluate_eq]
    refine ⟨rfl, ?_⟩
    simp only [EvalState.finish, evaluated, ← List.sum_map_add, length_eq_tallies]
  · rw [evaluate_eq]
    simp only [EvalState.finish, evaluated, ← List.sum_map_add, length_eq_formats]
  · rw [evaluate_eq]
    exact ⟨shownGraded grades digests, fun id => mem_shownGraded, hgraded, rfl, rfl⟩
  · intro v hv
    rw [evaluate_eq] at hv
    exact ratio_bounds (Nat.le_add_right _ _) hv
  · intro d _ v hv
    exact digestNdcg_spec hpos hdiscount hv
  · intro v hv
    exact mean_ndcg_bounds hpos hdiscount hv
  · intro digests' h
    exact h.evaluate_eq hlogs

end Bounds

def halving (i : ℕ) : ℚ := 1 / (i + 1)

def recordOf (id : Uuid) (verdict : Verdict) : DecisionRecord ℚ :=
  ⟨id, verdict, ⟨0, [], .story, "", 0⟩⟩

/-- A story is shown twice; the first digest has it below one of a lower grade. -/
def twoDigests : List (List (DecisionRecord ℚ)) :=
  [[recordOf 1 (.selected 1), recordOf 2 (.selected 0), recordOf 3 (.overCap 2)],
    [recordOf 1 (.selected 0), recordOf 4 (.dropped .belowFloor)]]

def twoGrades (id : Uuid) : Option Grade :=
  if id = 1 then some .up else if id = 2 then some .down else none

/-- The log of a fire that links nothing, and the log of its replay with room for less. -/
def replayedDigests : List (List (DecisionRecord ℚ)) :=
  [decisionLog (.onTable ∅ 7 [] {} 100) (select rivals (ScoringConfig.default ℚ) 3 40 0),
    replay ⟨40, 1, rivals⟩ (ScoringConfig.default ℚ)]

/-- The two digests in the other order, one story counted once, and an order that costs half; and
the logs of a selection and of its replay. -/
theorem evaluate_wellFormed_twoDigests :
    (evaluate halving replayedDigests twoGrades).selected +
        (evaluate halving replayedDigests twoGrades).overCap +
        (evaluate halving replayedDigests twoGrades).droppedBelowFloor +
        (evaluate halving replayedDigests twoGrades).droppedStaleForCadence = 6 ∧
    (evaluate halving twoDigests.reverse twoGrades = evaluate halving twoDigests twoGrades) ∧
      (evaluate halving twoDigests twoGrades).graded = 2 ∧
      digestNdcg halving twoGrades (twoDigests.getD 0 []) = some (1 / 2) := by
  have hlogs : ∀ d ∈ twoDigests, LogWellFormed d := by
    intro d hd
    rcases List.mem_cons.mp hd with rfl | hd
    · exact ⟨by decide, by decide⟩
    · obtain rfl := List.mem_singleton.mp hd
      exact ⟨by decide, by decide⟩
  have hpos : ∀ i, 0 < halving i := fun i => by
    unfold halving
    positivity
  have hdiscount : StrictAnti halving := fun i j hij => by
    have hlt : (i : ℚ) + 1 < j + 1 := by exact_mod_cast Nat.succ_lt_succ hij
    exact one_div_lt_one_div_of_lt (by positivity) hlt
  have hreplayed : ∀ d ∈ replayedDigests, LogWellFormed d := by
    intro d hd
    rcases List.mem_cons.mp hd with rfl | hd
    · exact decisionLog_wellFormed _ (by decide)
    · obtain rfl := List.mem_singleton.mp hd
      exact replay_wellFormed (by decide)
  have htallies := (evaluate_wellFormed hpos hdiscount hreplayed twoGrades).1
  have hmetrics := evaluate_wellFormed hpos hdiscount hlogs twoGrades
  have hrearranged : Rearranged twoDigests twoDigests.reverse :=
    ⟨twoDigests, List.forall₂_same.mpr fun _ _ => List.Perm.refl _, (List.reverse_perm _).symm⟩
  refine ⟨?_, hmetrics.2.2.2.2.2.2 _ hrearranged, by decide +kernel, by decide +kernel⟩
  rw [htallies.2, htallies.1]
  decide +kernel

end Bulletin
