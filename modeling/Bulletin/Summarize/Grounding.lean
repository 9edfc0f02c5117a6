import Bulletin.Summarize.Client

/-! # What a summary is grounded in

A model that is asked before the summarizer adds to the facts mined from the events: what kind of
event it is, how far it has come, and who did what to whom. What it answers is checked against
closed lists and the entities of the facts before it is taken over, and checked facts stay so when
the facts of the members of a story are put together.
-/

namespace Bulletin

open Text

/-! ## Facts -/

/-- The source's stance. -/
inductive Certainty where
  | asserted
  | tentative
deriving DecidableEq, Repr

structure Relation where
  subject : String := ""
  predicate : String := ""
  object : String := ""
deriving DecidableEq, Repr

/-- The mined facts with what the passes before the summarizer have added. -/
structure GroundedFacts extends Facts where
  relations : List Relation := []
  eventType : Option String := none
  state : Option String := none
  certainty : Certainty := .asserted
deriving DecidableEq, Repr

def eventTypes : List String :=
  ["incident", "release", "advisory", "announcement", "discussion", "change", "other"]

def states : List String :=
  ["detected", "investigating", "resolved", "proposed", "in_progress", "merged", "published",
    "closed", "none"]

/-- What the comprehension pass answers; a field it leaves out is neutral. -/
structure Comprehension where
  analysis : String := ""
  certainty : Certainty := .asserted
  eventType : String := ""
  state : String := ""
deriving DecidableEq, Repr

def applyComprehension (facts : GroundedFacts) (c : Comprehension) : GroundedFacts :=
  { facts with
    certainty := c.certainty
    eventType :=
      if eventTypes.contains c.eventType ∧ c.eventType ≠ "other" then some c.eventType
      else facts.eventType
    state := if states.contains c.state ∧ c.state ≠ "none" then some c.state else facts.state }

structure RelationsOutput where
  analysis : String := ""
  relations : List Relation := []
deriving DecidableEq, Repr

def Relation.trimmed (r : Relation) : Relation := ⟨trim r.subject, trim r.predicate, trim r.object⟩

/-- Take a proposed relation over, if its parts are there, its subject is an entity and it is not
there already. -/
def keepRelation (entities : List String) (kept : List Relation) (r : Relation) : List Relation :=
  let rel := r.trimmed
  if rel.subject = "" ∨ rel.predicate = "" ∨ rel.object = "" then kept
  else if !entities.contains rel.subject then kept
  else if kept.contains rel then kept
  else kept ++ [rel]

def applyRelations (facts : GroundedFacts) (out : RelationsOutput) : GroundedFacts :=
  { facts with relations := out.relations.foldl (keepRelation facts.entities) [] }

def pushRelation (relations : List Relation) (r : Relation) : List Relation :=
  if relations.contains r then relations else relations ++ [r]

/-- Put the facts of one more member to those of the members before it. -/
def fuseMember (fused m : GroundedFacts) : GroundedFacts where
  entities := fused.entities ++ m.entities
  numbers := fused.numbers ++ m.numbers
  dates := fused.dates ++ m.dates
  relations := m.relations.foldl pushRelation fused.relations
  eventType := if fused.eventType = none then m.eventType else fused.eventType
  state := if fused.state = none then m.state else fused.state
  certainty := if m.certainty = .tentative then .tentative else fused.certainty

/-- The facts of a story, from those of its members, newest first. -/
def fuseFacts (members : List GroundedFacts) : GroundedFacts :=
  let fused := members.foldl fuseMember {}
  { fused with
    entities := sortDedup fused.entities
    numbers := sortDedup fused.numbers
    dates := sortDedup fused.dates }

/-! ## What holds of them -/

/-- Every part of the relation is there, without blanks around it. -/
structure Relation.Complete (r : Relation) : Prop where
  trimmed : r.trimmed = r
  subject : r.subject ≠ ""
  predicate : r.predicate ≠ ""
  object : r.object ≠ ""

/-- What the model has added stays within what it may say of these entities. -/
structure GroundedFacts.Anchored (facts : GroundedFacts) : Prop where
  complete : ∀ r ∈ facts.relations, r.Complete
  subject : ∀ r ∈ facts.relations, r.subject ∈ facts.entities
  once : facts.relations.Nodup
  eventType : ∀ t ∈ facts.eventType, t ∈ eventTypes ∧ t ≠ "other"
  state : ∀ t ∈ facts.state, t ∈ states ∧ t ≠ "none"

section Steps

variable {facts fused m : GroundedFacts} {members : List GroundedFacts} {entities : List String}
  {kept proposed relations : List Relation} {r raw : Relation}

theorem trim_idem (s : String) : trim (trim s) = trim s := by
  have htoList : ∀ s : String, (trim s).toList = trimMatches isWhitespace s.toList := by
    simp [trim, trimMatches]
  rw [← String.toList_inj, htoList, htoList, trimMatches_idem]

theorem Relation.trimmed_idem (r : Relation) : r.trimmed.trimmed = r.trimmed := by
  simp [trimmed, trim_idem]

theorem anchored_mined (mined : Facts) : ({ mined with } : GroundedFacts).Anchored :=
  ⟨nofun, nofun, List.nodup_nil, nofun, nofun⟩

theorem GroundedFacts.Anchored.applyComprehension (h : facts.Anchored) (c : Comprehension) :
    (applyComprehension facts c).Anchored := by
  refine ⟨h.complete, h.subject, h.once, ?_, ?_⟩
  · intro t ht
    unfold Bulletin.applyComprehension at ht
    dsimp only at ht
    split at ht
    · rename_i hlisted
      obtain rfl := Option.some.inj ht
      exact ⟨by simpa using hlisted.1, hlisted.2⟩
    · exact h.eventType t ht
  · intro t ht
    unfold Bulletin.applyComprehension at ht
    dsimp only at ht
    split at ht
    · rename_i hlisted
      obtain rfl := Option.some.inj ht
      exact ⟨by simpa using hlisted.1, hlisted.2⟩
    · exact h.state t ht

theorem mem_keepRelation : r ∈ keepRelation entities kept raw ↔
    r ∈ kept ∨ (r = raw.trimmed ∧ r.Complete ∧ r.subject ∈ entities) := by
  have hnone : (r = raw.trimmed → ¬ (r.Complete ∧ r.subject ∈ entities)) →
      (r ∈ kept ↔ r ∈ kept ∨ (r = raw.trimmed ∧ r.Complete ∧ r.subject ∈ entities)) := by
    intro hnot
    constructor
    · exact Or.inl
    · rintro (hin | ⟨heq, hok⟩)
      · exact hin
      · exact absurd hok (hnot heq)
  unfold keepRelation
  dsimp only
  split
  · rename_i hblank
    refine hnone ?_
    rintro rfl ⟨hcomplete, _⟩
    rcases hblank with h | h | h
    · exact hcomplete.subject h
    · exact hcomplete.predicate h
    · exact hcomplete.object h
  · rename_i hparts
    push Not at hparts
    split
    · rename_i hforeign
      refine hnone ?_
      rintro rfl ⟨_, hin⟩
      simp [hin] at hforeign
    · rename_i hsubject
      have hok : raw.trimmed.Complete ∧ raw.trimmed.subject ∈ entities :=
        ⟨⟨raw.trimmed_idem, hparts.1, hparts.2.1, hparts.2.2⟩, by simpa using hsubject⟩
      split
      · rename_i hthere
        have hin : raw.trimmed ∈ kept := by simpa using hthere
        constructor
        · exact Or.inl
        · rintro (hin' | ⟨rfl, _⟩)
          · exact hin'
          · exact hin
      · rw [List.mem_append, List.mem_singleton]
        refine or_congr_right ⟨?_, And.left⟩
        rintro rfl
        exact ⟨rfl, hok⟩

theorem nodup_keepRelation (h : kept.Nodup) : (keepRelation entities kept raw).Nodup := by
  unfold keepRelation
  dsimp only
  split
  · exact h
  · split
    · exact h
    · split
      · exact h
      · rename_i hnew
        rw [← List.concat_eq_append]
        exact h.concat (by simpa using hnew)

/-- The relations taken over are the proposed ones that are complete and have an entity for their
subject, each once. -/
theorem foldl_keepRelation (h : kept.Nodup) :
    (proposed.foldl (keepRelation entities) kept).Nodup ∧
      ∀ r, r ∈ proposed.foldl (keepRelation entities) kept ↔
        r ∈ kept ∨ ∃ raw ∈ proposed, r = raw.trimmed ∧ r.Complete ∧ r.subject ∈ entities := by
  induction proposed generalizing kept with
  | nil => exact ⟨h, by simp⟩
  | cons raw proposed ih =>
      obtain ⟨hnodup, hmem⟩ := ih (nodup_keepRelation h)
      refine ⟨hnodup, ?_⟩
      intro r
      rw [List.foldl_cons, hmem, mem_keepRelation]
      simp only [List.mem_cons, exists_eq_or_imp, or_assoc]

theorem mem_applyRelations {out : RelationsOutput} : r ∈ (applyRelations facts out).relations ↔
    ∃ raw ∈ out.relations, r = raw.trimmed ∧ r.Complete ∧ r.subject ∈ facts.entities := by
  unfold applyRelations
  dsimp only
  rw [(foldl_keepRelation List.nodup_nil).2]
  simp

theorem GroundedFacts.Anchored.applyRelations (h : facts.Anchored) (out : RelationsOutput) :
    (applyRelations facts out).Anchored where
  complete _ hr := (mem_applyRelations.mp hr).choose_spec.2.2.1
  subject _ hr := (mem_applyRelations.mp hr).choose_spec.2.2.2
  once := (foldl_keepRelation List.nodup_nil).1
  eventType := h.eventType
  state := h.state

/-! ## The facts of a story -/

theorem foldl_pushRelation (h : relations.Nodup) : (proposed.foldl pushRelation relations).Nodup ∧
    ∀ r, r ∈ proposed.foldl pushRelation relations ↔ r ∈ relations ∨ r ∈ proposed := by
  induction proposed generalizing relations with
  | nil => exact ⟨h, by simp⟩
  | cons x proposed ih =>
      have hpush : (pushRelation relations x).Nodup ∧
          ∀ r, r ∈ pushRelation relations x ↔ r ∈ relations ∨ r = x := by
        unfold pushRelation
        split
        · rename_i hthere
          have hin : x ∈ relations := by simpa using hthere
          refine ⟨h, fun r => ⟨Or.inl, ?_⟩⟩
          rintro (hr | rfl)
          · exact hr
          · exact hin
        · rename_i hnew
          refine ⟨?_, by simp⟩
          rw [← List.concat_eq_append]
          exact h.concat (by simpa using hnew)
      obtain ⟨hnodup, hmem⟩ := ih hpush.1
      refine ⟨hnodup, ?_⟩
      intro r
      rw [List.foldl_cons, hmem, hpush.2, List.mem_cons, or_assoc]

/-- The facts of some members put to those of the members before them. -/
structure Fused (fused : GroundedFacts) (members : List GroundedFacts) (all : GroundedFacts) :
    Prop where
  entities : all.entities = fused.entities ++ members.flatMap (·.entities)
  numbers : all.numbers = fused.numbers ++ members.flatMap (·.numbers)
  dates : all.dates = fused.dates ++ members.flatMap (·.dates)
  once : all.relations.Nodup
  relations : ∀ r, r ∈ all.relations ↔ r ∈ fused.relations ∨ ∃ m ∈ members, r ∈ m.relations
  eventType : all.eventType = fused.eventType.or (members.findSome? (·.eventType))
  state : all.state = fused.state.or (members.findSome? (·.state))
  certainty : all.certainty = .tentative ↔
    fused.certainty = .tentative ∨ ∃ m ∈ members, m.certainty = .tentative

theorem foldl_fuseMember (h : fused.relations.Nodup) :
    Fused fused members (members.foldl fuseMember fused) := by
  induction members generalizing fused with
  | nil =>
      exact ⟨by simp, by simp, by simp, h, by simp, by simp, by simp, by simp⟩
  | cons m members ih =>
      have hpush : (fuseMember fused m).relations.Nodup ∧
          ∀ r, r ∈ (fuseMember fused m).relations ↔ r ∈ fused.relations ∨ r ∈ m.relations :=
        foldl_pushRelation h
      have hrest := ih hpush.1
      rw [List.foldl_cons]
      refine ⟨?_, ?_, ?_, hrest.once, ?_, ?_, ?_, ?_⟩
      · rw [hrest.entities]
        simp [fuseMember]
      · rw [hrest.numbers]
        simp [fuseMember]
      · rw [hrest.dates]
        simp [fuseMember]
      · intro r
        rw [hrest.relations, hpush.2]
        simp only [List.mem_cons, exists_eq_or_imp, or_assoc]
      · rw [hrest.eventType]
        cases hfused : fused.eventType <;> cases hm : m.eventType <;> simp [fuseMember, hfused, hm]
      · rw [hrest.state]
        cases hfused : fused.state <;> cases hm : m.state <;> simp [fuseMember, hfused, hm]
      · rw [hrest.certainty]
        cases hm : m.certainty <;> simp [fuseMember, hm]

theorem fuseFacts_spec : Fused {} members (members.foldl fuseMember {}) :=
  foldl_fuseMember List.nodup_nil

theorem toFacts_fuseFacts :
    (fuseFacts members).toFacts = synthesizeFacts (members.map (·.toFacts)) := by
  unfold fuseFacts synthesizeFacts
  simp [fuseFacts_spec.entities, fuseFacts_spec.numbers, fuseFacts_spec.dates, List.flatMap_map]

theorem anchored_fuseFacts (h : ∀ m ∈ members, m.Anchored) : (fuseFacts members).Anchored := by
  have hrelation : ∀ r ∈ (fuseFacts members).relations, ∃ m ∈ members, r ∈ m.relations := by
    intro r hr
    rcases (fuseFacts_spec.relations r).mp hr with hin | hin
    · cases hin
    · exact hin
  refine ⟨?_, ?_, fuseFacts_spec.once, ?_, ?_⟩
  · intro r hr
    obtain ⟨m, hm, hin⟩ := hrelation r hr
    exact (h m hm).complete r hin
  · intro r hr
    obtain ⟨m, hm, hin⟩ := hrelation r hr
    have hentities : (fuseFacts members).entities = sortDedup (members.flatMap (·.entities)) := by
      refine (congrArg Facts.entities toFacts_fuseFacts).trans ?_
      simp [synthesizeFacts, List.flatMap_map]
    rw [hentities, mem_sortDedup]
    exact List.mem_flatMap.mpr ⟨m, hm, (h m hm).subject r hin⟩
  · intro t ht
    have hfound : members.findSome? (·.eventType) = some t := by
      simpa [fuseFacts, fuseFacts_spec.eventType] using ht
    obtain ⟨m, hm, hmember⟩ := List.exists_of_findSome?_eq_some hfound
    exact (h m hm).eventType t hmember
  · intro t ht
    have hfound : members.findSome? (·.state) = some t := by
      simpa [fuseFacts, fuseFacts_spec.state] using ht
    obtain ⟨m, hm, hmember⟩ := List.exists_of_findSome?_eq_some hfound
    exact (h m hm).state t hmember

end Steps

end Bulletin
