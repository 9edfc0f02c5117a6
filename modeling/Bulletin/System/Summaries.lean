import Bulletin.Core.Run
import Bulletin.Link.Candidates

/-! # Clusters and their summaries

Builds and article fetches change what a cluster is made of and stamp its row. Any number
of sweeps work through their queues beside them, each step a transaction of its own with
the model calls in between, and digests read their candidates.
-/

namespace Bulletin

structure ClusterSweep where
  /-- What is left of its queue. -/
  due : List DueCluster := []
  /-- The events of the first of them, once they are read, and the time of the read. -/
  reading : Option (List Event × DateTime) := none
deriving DecidableEq

structure Summaries where
  now : DateTime := 1
  /-- The events of each group, as its last build or fetch left them. -/
  events : GroupKey → List Event := fun _ => []
  cluster : SummarizedTable := ∅
  sweep : Nat → ClusterSweep := fun _ => {}

inductive SummaryAction where
  | wait (duration : Nat)
  /-- A build that began at `started` commits the rollup of these events of a group. -/
  | build (key : GroupKey) (started : DateTime) (events : List Event)
  | storeFullText (key : GroupKey) (id : Uuid) (text : String) (started : DateTime)
  | loadQueue (sweep : Nat) (scope : Scope) (limit : Nat) (queue : List GroupKey)
  | readEvents (sweep : Nat)
  /-- The transaction that records what came of the cluster, begun at `started`. -/
  | record (sweep : Nat) (started : DateTime) (outcome : SummaryOutcome)
  /-- The sweep passes the cluster over: its touch failed. -/
  | passOver (sweep : Nat)
  /-- The sweep ends in an error, or with its process. -/
  | abort (sweep : Nat)
  | readCandidates (read : CandidateRead)

def upsertCluster (r : ClusterRollup) (started : DateTime) (row : Option SummarizedCluster) :
    SummarizedCluster :=
  match row with
  | none => { rollup := r, updatedAt := started }
  | some row => { row with rollup := r, updatedAt := started }

def touchCluster (raiseLongform : Bool) (started : DateTime) (row : SummarizedCluster) :
    SummarizedCluster :=
  { row with
    rollup := if raiseLongform then { row.rollup with contentDepth := .longform } else row.rollup
    updatedAt := started }

namespace Summaries

variable (sha256 : List UInt8 → List UInt8) (currentModel : String)

def withSweep (s : Summaries) (sweep : Nat) (w : ClusterSweep) : Summaries :=
  { s with sweep := Function.update s.sweep sweep w }

def rows (s : Summaries) (queue : List GroupKey) :
    List (Sigma fun _ : GroupKey => SummarizedCluster) :=
  queue.filterMap fun key => (s.cluster.lookup key).map fun row => ⟨key, row⟩

/-- The step an action makes, if it can. -/
def next (s : Summaries) : SummaryAction → Option Summaries
  | .wait duration => some { s with now := s.now + duration }
  | .build key started events =>
      if started ≤ s.now then
        (rollup events).map fun r => { s with
          events := Function.update s.events key events
          cluster := s.cluster.insert key (upsertCluster r started (s.cluster.lookup key)) }
      else none
  | .storeFullText key id text started =>
      if started ≤ s.now then
        some { s with
          events := Function.update s.events key (updateEvent id (setFullText text) (s.events key))
          cluster := modifyRow key (touchCluster (longformMinChars ≤ text.length) started) s.cluster }
      else none
  | .loadQueue sweep scope limit queue =>
      if (s.sweep sweep).due = [] ∧ ClustersNeedingSummary s.cluster scope currentModel limit (s.rows queue) then
        some (s.withSweep sweep { due := (s.rows queue).map fun entry => entry.2.dueCluster entry.1 })
      else none
  | .readEvents sweep =>
      match (s.sweep sweep).due, (s.sweep sweep).reading with
      | c :: rest, none =>
          some (s.withSweep sweep { due := c :: rest, reading := some (s.events c.key, s.now) })
      | _, _ => none
  | .record sweep started outcome =>
      match (s.sweep sweep).due, (s.sweep sweep).reading with
      | c :: rest, some (events, readAt) =>
          if readAt ≤ started ∧ started ≤ s.now then
            some { s.withSweep sweep { due := rest } with
              cluster := modifyRow c.key
                ((attemptCluster sha256 events outcome c).applyCluster started currentModel) s.cluster }
          else none
      | _, _ => none
  | .passOver sweep =>
      match (s.sweep sweep).due with
      | [] => none
      | _ :: rest => some (s.withSweep sweep { due := rest })
  | .abort sweep => some (s.withSweep sweep {})
  | .readCandidates _ => some s

end Summaries

section Steps

variable (sha256 : List UInt8 → List UInt8) (currentModel : String)

def SummaryStep (s : Summaries) (act : SummaryAction) (s' : Summaries) : Prop :=
  s.next sha256 currentModel act = some s'

abbrev SummaryRuns (ts : List (Run.Transition Summaries SummaryAction)) (s : Summaries) : Prop :=
  Run.Runs (SummaryStep sha256 currentModel) {} ts s

/-! ## What one step can do -/

/-- What a step does to the events and the row of a group. -/
inductive Summarized (s : Summaries) : SummaryAction → Summaries → GroupKey → Prop
  | build (key : GroupKey) (started : DateTime) (events : List Event) (r : ClusterRollup)
      (s' : Summaries)
      (hr : rollup events = some r) (hevents : s'.events key = events)
      (hrow : s'.cluster.lookup key = some (upsertCluster r started (s.cluster.lookup key))) :
      Summarized s (.build key started events) s' key
  | storeFullText (key : GroupKey) (id : Uuid) (text : String) (started : DateTime) (s' : Summaries)
      (hevents : s'.events key = updateEvent id (setFullText text) (s.events key))
      (hrow : s'.cluster.lookup key =
        (s.cluster.lookup key).map (touchCluster (longformMinChars ≤ text.length) started)) :
      Summarized s (.storeFullText key id text started) s' key
  | record (sweep : Nat) (started : DateTime) (outcome : SummaryOutcome) (c : DueCluster)
      (rest : List DueCluster)
      (events : List Event) (readAt : DateTime) (s' : Summaries)
      (hdue : (s.sweep sweep).due = c :: rest)
      (hreading : (s.sweep sweep).reading = some (events, readAt))
      (hevents : s'.events c.key = s.events c.key)
      (hrow : s'.cluster.lookup c.key = (s.cluster.lookup c.key).map
        ((attemptCluster sha256 events outcome c).applyCluster started currentModel)) :
      Summarized s (.record sweep started outcome) s' c.key
  | other (act : SummaryAction) (s' : Summaries) (key : GroupKey)
      (hevents : s'.events key = s.events key)
      (hrow : s'.cluster.lookup key = s.cluster.lookup key)
      (hbuild : ∀ started events, act ≠ .build key started events)
      (hfetch : ∀ id text started, act ≠ .storeFullText key id text started)
      (hrecord : ∀ sweep started outcome c rest, act = .record sweep started outcome →
        (s.sweep sweep).due = c :: rest → c.key ≠ key) : Summarized s act s' key

variable {sha256 currentModel} {s s' : Summaries} {act : SummaryAction}

theorem SummaryStep.summarized (h : SummaryStep sha256 currentModel s act s') (key : GroupKey) :
    Summarized sha256 currentModel s act s' key := by
  unfold SummaryStep Summaries.next at h
  cases act with
  | build k started events =>
      dsimp only at h
      split at h
      · cases hr : rollup events with
        | none => simp [hr] at h
        | some r =>
            rw [hr, Option.map_some, Option.some.injEq] at h
            subst h
            by_cases hk : key = k
            · subst hk
              exact .build key started events r _ hr (Function.update_self _ _ _)
                (AList.lookup_insert _)
            · exact .other _ _ key (Function.update_of_ne hk _ _) (AList.lookup_insert_ne hk)
                (fun _ _ heq => hk (by cases heq; rfl)) (fun _ _ _ heq => by cases heq)
                (fun _ _ _ _ _ heq => by cases heq)
      · cases h
  | storeFullText k id text started =>
      dsimp only at h
      split at h
      · obtain rfl := Option.some.inj h
        by_cases hk : key = k
        · subst hk
          refine .storeFullText key id text started _ (Function.update_self _ _ _) ?_
          exact lookup_modifyRow.trans (if_pos rfl)
        · refine .other _ _ key (Function.update_of_ne hk _ _) (lookup_modifyRow.trans (if_neg hk))
            (fun _ _ heq => by cases heq) (fun _ _ _ heq => hk (by cases heq; rfl))
            (fun _ _ _ _ _ heq => by cases heq)
      · cases h
  | record sweep started outcome =>
      dsimp only at h
      split at h
      · next c rest events readAt hdue hreading =>
          split at h
          · obtain rfl := Option.some.inj h
            by_cases hk : key = c.key
            · subst hk
              exact .record sweep started outcome c rest events readAt _ hdue hreading rfl
                (lookup_modifyRow.trans (if_pos rfl))
            · refine .other _ _ key rfl (lookup_modifyRow.trans (if_neg hk))
                (fun _ _ heq => by cases heq)
                (fun _ _ _ heq => by cases heq) ?_
              intro sweep' started' outcome' c' rest' heq hdue' hkey
              cases heq
              rw [hdue] at hdue'
              cases hdue'
              exact hk hkey.symm
          · cases h
      · cases h
  | loadQueue sweep scope limit queue =>
      dsimp only at h
      split at h
      · obtain rfl := Option.some.inj h
        exact .other _ _ key rfl rfl (fun _ _ heq => by cases heq) (fun _ _ _ heq => by cases heq)
          (fun _ _ _ _ _ heq => by cases heq)
      · cases h
  | readEvents sweep =>
      dsimp only at h
      split at h
      · obtain rfl := Option.some.inj h
        exact .other _ _ key rfl rfl (fun _ _ heq => by cases heq) (fun _ _ _ heq => by cases heq)
          (fun _ _ _ _ _ heq => by cases heq)
      · cases h
  | passOver sweep =>
      dsimp only at h
      split at h
      · cases h
      · obtain rfl := Option.some.inj h
        exact .other _ _ key rfl rfl (fun _ _ heq => by cases heq) (fun _ _ _ heq => by cases heq)
          (fun _ _ _ _ _ heq => by cases heq)
  | wait _ | abort _ | readCandidates _ =>
      obtain rfl := Option.some.inj h
      exact .other _ _ key rfl rfl (fun _ _ heq => by cases heq) (fun _ _ _ heq => by cases heq)
        (fun _ _ _ _ _ heq => by cases heq)

/-! ## Executable runs -/

def Summaries.play (sha256 : List UInt8 → List UInt8) (currentModel : String) (s : Summaries)
    (act : SummaryAction) : Option (SummaryAction × Summaries) :=
  (s.next sha256 currentModel act).map fun s' => (act, s')

theorem Summaries.play_ends {s₀ : Summaries} {script : List SummaryAction} {p : Summaries → Bool}
    (h : (Run.execute (Summaries.play sha256 currentModel) s₀ script).any p = true) :
    ∃ s, Run.Runs (SummaryStep sha256 currentModel) s₀
      (Run.transitions (Summaries.play sha256 currentModel) s₀ script) s ∧ p s = true := by
  refine Run.execute_ends ?_ h
  intro s cue act s' hplay
  obtain ⟨rfl, hnext⟩ := Run.eq_some_of_paired hplay
  exact hnext

end Steps

def noteKey : GroupKey := ⟨.ofPublic, .rss, "note"⟩

def noteEvent (id : Uuid) : Event :=
  { fingerprint := [], key := noteKey, eventTime := id, title := "note", id := id, ingestTime := 1 }

def noteSummary : SummaryOutcome :=
  .faithful { headline := "Note", tldrText := "A note.", band := .confirmed }

end Bulletin
