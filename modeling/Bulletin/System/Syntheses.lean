import Bulletin.System.Db

/-! # Stories, their members and their syntheses

The cluster sweep moves the summaries of the members, a recompute moves the members, and
the story sweep writes the fused text, story by story: it loads its queue in one
transaction, reads the members of a story in another, and records in a third.
-/

namespace Bulletin

structure SynthesisSweep where
  subscriber : Uuid := 0
  /-- What is left of its queue. -/
  due : List DueStory := []
  /-- The members of the first of them, once they are read, and the time of the read. -/
  reading : Option (List MemberSummary × DateTime) := none
deriving DecidableEq

structure Syntheses where
  now : DateTime := 1
  cluster : ClusterTable := ∅
  story : StoryTable := ∅
  sweep : Nat → SynthesisSweep := fun _ => {}

inductive SynthesisAction (F : Type) where
  | wait (duration : Nat)
  /-- A build inserts or updates a cluster. -/
  | build (id : Uuid) (row : ClusterRow)
  /-- A cluster sweep records what came of a cluster. -/
  | summarize (id : Uuid) (write : SweepWrite)
  /-- A recompute whose write began at `started`. -/
  | recompute (r : Recompute F) (started : DateTime)
  | markDelivered (sub : Uuid) (stories : List Uuid)
  | loadQueue (sweep : Nat) (sub : Uuid) (queue : List DueStory)
  | readMembers (sweep : Nat)
  /-- The transaction that records what came of the story, begun at `started`. -/
  | record (sweep : Nat) (started : DateTime) (outcome : SummaryOutcome)
  /-- The sweep passes the story over: its touch failed. -/
  | passOver (sweep : Nat)
  /-- The sweep ends in an error, at its deadline, or with its process. -/
  | abort (sweep : Nat)

/-- The row of a cluster after a build, which leaves the summary alone. -/
def upsertClusterRow (row : ClusterRow) : Option ClusterRow → ClusterRow
  | none => { row with summary := {}, summaryHash := none }
  | some old =>
      { old with title := row.title, link := row.link, lastEventTime := row.lastEventTime }

def SweepWrite.applyRow (write : SweepWrite) (row : ClusterRow) : ClusterRow :=
  match write with
  | store summary hash => { row with summary := summary, summaryHash := some hash }
  | touch | skip | fail _ _ _ => row

namespace Syntheses

def withSweep (s : Syntheses) (sweep : Nat) (w : SynthesisSweep) : Syntheses :=
  { s with sweep := Function.update s.sweep sweep w }

def clusterAfter {F : Type} (s : Syntheses) : SynthesisAction F → ClusterTable
  | .build id row => s.cluster.alter id fun old => some (upsertClusterRow row old)
  | .summarize id write => s.cluster.modify id write.applyRow
  | _ => s.cluster

/-- The step an action makes, if it can. -/
def next {F : Type} [Score F] (sha256 : List UInt8 → List UInt8) (currentModel : String)
    (s : Syntheses) (act : SynthesisAction F) : Option Syntheses :=
  match act with
  | .wait duration => some { s with now := s.now + duration }
  | .build _ _ | .summarize _ _ => some { s with cluster := s.clusterAfter act }
  | .recompute r started =>
      if started ≤ s.now then some { s with story := r.persist started s.story } else none
  | .markDelivered sub stories =>
      some { s with story := markStoriesDelivered s.now sub stories s.story }
  | .loadQueue sweep sub queue =>
      if (s.sweep sweep).due = [] ∧ (queue.map (·.id)).Nodup ∧
          ∀ d ∈ queue, d ∈ storiesNeedingSummary s.story sub currentModel then
        some (s.withSweep sweep { subscriber := sub, due := queue })
      else none
  | .readMembers sweep =>
      match (s.sweep sweep).due, (s.sweep sweep).reading with
      | d :: _, none =>
          let w := s.sweep sweep
          let members := loadMemberSummaries s.cluster w.subscriber d.clusterIds
          some (s.withSweep sweep { w with reading := some (members, s.now) })
      | _, _ => none
  | .record sweep started outcome =>
      match (s.sweep sweep).due, (s.sweep sweep).reading with
      | d :: rest, some (members, readAt) =>
          if readAt ≤ started ∧ started ≤ s.now then
            some { s.withSweep sweep { s.sweep sweep with due := rest, reading := none } with
              story := recordStory currentModel started d.id
                (attemptStory sha256 currentModel members outcome d) s.story }
          else none
      | _, _ => none
  | .passOver sweep =>
      match (s.sweep sweep).due with
      | [] => none
      | _ :: rest =>
          some (s.withSweep sweep { s.sweep sweep with due := rest, reading := none })
  | .abort sweep => some (s.withSweep sweep {})

end Syntheses

section Steps

variable {F : Type} [Score F] (sha256 : List UInt8 → List UInt8) (currentModel : String)

/-- One step. A recompute links the stories it has read. -/
def SynthesisStep (s : Syntheses) (act : SynthesisAction F) (s' : Syntheses) : Prop :=
  (∀ r started, act = .recompute r started → r.Reads s.story) ∧
    Syntheses.next sha256 currentModel s act = some s'

abbrev SynthesisRuns (ts : List (Run.Transition Syntheses (SynthesisAction F))) (s : Syntheses) :
    Prop :=
  Run.Runs (SynthesisStep sha256 currentModel) {} ts s

/-! ## What one step can do -/

inductive StoryWrite (s : Syntheses) : SynthesisAction F → StoryTable → Prop
  | recompute (r : Recompute F) (started : DateTime) (hreads : r.Reads s.story) :
      StoryWrite s (.recompute r started) (r.persist started s.story)
  | markDelivered (sub : Uuid) (stories : List Uuid) : StoryWrite s (.markDelivered sub stories)
      (markStoriesDelivered s.now sub stories s.story)
  | record (sweep : Nat) (started : DateTime) (outcome : SummaryOutcome) (d : DueStory)
      (rest : List DueStory) (members : List MemberSummary) (readAt : DateTime)
      (hdue : (s.sweep sweep).due = d :: rest)
      (hreading : (s.sweep sweep).reading = some (members, readAt)) :
      StoryWrite s (.record sweep started outcome) (recordStory currentModel started d.id
        (attemptStory sha256 currentModel members outcome d) s.story)
  | other (act : SynthesisAction F) (hrecompute : ∀ r started, act ≠ .recompute r started)
      (hrecord : ∀ sweep started outcome, act ≠ .record sweep started outcome) :
      StoryWrite s act s.story

variable {sha256 currentModel} {s s' : Syntheses} {act : SynthesisAction F} {id : Uuid}

theorem SynthesisStep.cluster (h : SynthesisStep sha256 currentModel s act s') :
    s'.cluster = s.clusterAfter act := by
  have hnext := h.2
  unfold Syntheses.next at hnext
  cases act with
  | recompute r started | loadQueue sweep sub queue =>
      obtain ⟨_, heq⟩ := Option.ite_none_right_eq_some.mp hnext
      obtain rfl := Option.some.inj heq
      rfl
  | readMembers sweep =>
      dsimp only at hnext
      split at hnext
      · obtain rfl := Option.some.inj hnext
        rfl
      · cases hnext
  | passOver sweep =>
      dsimp only at hnext
      split at hnext
      · cases hnext
      · obtain rfl := Option.some.inj hnext
        rfl
  | record sweep started outcome =>
      dsimp only at hnext
      split at hnext
      · obtain ⟨_, heq⟩ := Option.ite_none_right_eq_some.mp hnext
        obtain rfl := Option.some.inj heq
        rfl
      · cases hnext
  | _ =>
      obtain rfl := Option.some.inj hnext
      rfl

theorem SynthesisStep.storyWrite (h : SynthesisStep sha256 currentModel s act s') :
    StoryWrite sha256 currentModel s act s'.story := by
  obtain ⟨hreads, hnext⟩ := h
  unfold Syntheses.next at hnext
  cases act with
  | recompute r started =>
      obtain ⟨_, heq⟩ := Option.ite_none_right_eq_some.mp hnext
      obtain rfl := Option.some.inj heq
      exact .recompute r started (hreads r started rfl)
  | markDelivered sub ids =>
      obtain rfl := Option.some.inj hnext
      exact .markDelivered sub ids
  | record sweep started outcome =>
      dsimp only at hnext
      split at hnext
      · next d rest members readAt hdue hreading =>
          obtain ⟨_, heq⟩ := Option.ite_none_right_eq_some.mp hnext
          obtain rfl := Option.some.inj heq
          exact .record sweep started outcome d rest members readAt hdue hreading
      · cases hnext
  | loadQueue sweep sub queue =>
      obtain ⟨_, heq⟩ := Option.ite_none_right_eq_some.mp hnext
      obtain rfl := Option.some.inj heq
      exact .other _ nofun nofun
  | readMembers sweep =>
      dsimp only at hnext
      split at hnext
      · obtain rfl := Option.some.inj hnext
        exact .other _ nofun nofun
      · cases hnext
  | passOver sweep =>
      dsimp only at hnext
      split at hnext
      · cases hnext
      · obtain rfl := Option.some.inj hnext
        exact .other _ nofun nofun
  | wait _ | build _ _ | summarize _ _ | abort _ =>
      obtain rfl := Option.some.inj hnext
      exact .other _ nofun nofun

theorem SynthesisStep.apart (h : SynthesisStep sha256 currentModel s act s')
    (hapart : ∀ sub, StoriesApart s.story sub) (sub : Uuid) : StoriesApart s'.story sub := by
  have hwrite := h.storyWrite
  generalize s'.story = table at hwrite ⊢
  cases hwrite with
  | recompute r started hreads => exact Recompute.persist_apart hreads hapart started sub
  | markDelivered owner ids => exact (sameStories_mark _ _ _ _).apart (hapart sub)
  | record _ _ _ _ _ _ _ _ _ => exact sameStories_record.apart (hapart sub)
  | other _ _ _ => exact hapart sub

theorem SynthesisRuns.apart {ts : List (Run.Transition Syntheses (SynthesisAction F))}
    (h : SynthesisRuns sha256 currentModel ts s) (sub : Uuid) : StoriesApart s.story sub :=
  Run.Runs.state_invariant h (fun s => ∀ sub, StoriesApart s.story sub) storiesApart_empty
    (fun _ _ hstep => hstep.apart) sub

/-! ## Executable runs -/

omit [Score F] in
/-- A step of a script; recomputes and queues are read where they stand. -/
inductive SynthesisCue (F : Type) where
  | recompute (sub : Uuid) (candidates : List LinkCluster) (base : Nat) (started : DateTime)
  | loadQueue (sweep : Nat) (sub : Uuid)
  | other (act : SynthesisAction F)

/-- The action of an entry where it stands, and the state after it. -/
def Syntheses.play (sha256 : List UInt8 → List UInt8) (currentModel : String) (s : Syntheses)
    (cue : SynthesisCue F) : Option (SynthesisAction F × Syntheses) :=
  match cue with
  | .recompute sub candidates base started =>
      if (candidates.map (·.id)).Nodup ∧ ∀ k ∈ s.story.keys, k < base then
        let act : SynthesisAction F :=
          .recompute (.onTable s.story sub candidates {} base) started
        (s.next sha256 currentModel act).map fun s' => (act, s')
      else none
  | .loadQueue sweep sub =>
      let act : SynthesisAction F :=
        .loadQueue sweep sub (storiesNeedingSummary s.story sub currentModel)
      (s.next sha256 currentModel act).map fun s' => (act, s')
  | .other (.recompute _ _) => none
  | .other act => (s.next sha256 currentModel act).map fun s' => (act, s')

theorem Syntheses.play_step {cue : SynthesisCue F}
    (h : s.play sha256 currentModel cue = some (act, s')) :
    SynthesisStep sha256 currentModel s act s' := by
  have hplain : ∀ {b : SynthesisAction F},
      (∀ r started, b = .recompute r started → r.Reads s.story) →
      ((s.next sha256 currentModel b).map fun s' => (b, s')) = some (act, s') →
      SynthesisStep sha256 currentModel s act s' := by
    intro b hreads h
    obtain ⟨s'', hnext, heq⟩ := Option.map_eq_some_iff.mp h
    obtain ⟨rfl, rfl⟩ := Prod.mk.inj heq
    exact ⟨hreads, hnext⟩
  unfold Syntheses.play at h
  split at h
  · next sub candidates base started =>
      by_cases hcan : (candidates.map (·.id)).Nodup ∧ ∀ k ∈ s.story.keys, k < base
      · rw [if_pos hcan] at h
        refine hplain ?_ h
        intro r t heq
        cases heq
        exact Recompute.onTable_reads hcan.1 hcan.2
      · rw [if_neg hcan] at h
        cases h
  · refine hplain ?_ h
    intro r started heq
    cases heq
  · cases h
  · next act hread =>
      exact hplain (fun r started heq => absurd heq (hread r started)) h

theorem Syntheses.play_ends {script : List (SynthesisCue F)} {p : Syntheses → Bool}
    (h : (Run.execute (Syntheses.play sha256 currentModel) {} script).any p = true) :
    ∃ s, SynthesisRuns sha256 currentModel
      (Run.transitions (Syntheses.play sha256 currentModel) {} script) s ∧ p s = true :=
  Run.execute_ends (fun _ _ _ _ => Syntheses.play_step) h

end Steps

end Bulletin
