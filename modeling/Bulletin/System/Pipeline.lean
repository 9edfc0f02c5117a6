import Bulletin.System.FlowFate
import Bulletin.System.Summaries

/-! # From clusters to digests

The clusters with their summaries and the digest flow, under one clock. A fire takes its
candidates from the clusters as they are at its read.
-/

namespace Bulletin

structure Pipeline (F : Type) where
  flow : Flow F := {}
  summaries : Summaries := { now := 0 }

inductive PipelineAction (F : Type) where
  | wait (duration : Nat)
  /-- A build, a fetch, or a step of a cluster sweep. -/
  | summary (act : SummaryAction)
  /-- Attempt `a` reads its candidates, the subscriber's connections being `subscribed`. -/
  | read (a : Nat) (subscribed : List Uuid) (r : Recompute F)
  /-- Any other step of the flow. -/
  | flow (act : FlowAction F)

namespace PipelineAction

variable {F : Type}

def flowAction : PipelineAction F → Option (FlowAction F)
  | wait duration => some (.background (.wait duration))
  | summary _ => none
  | read a _ r => some (.read a r)
  | flow act => some act

def summaryAction : PipelineAction F → Option SummaryAction
  | wait duration => some (.wait duration)
  | summary act => some act
  | read _ _ _ | flow _ => none

def Proper : PipelineAction F → Prop
  | summary (.wait _) | flow (.read _ _) | flow (.background (.wait _)) => False
  | _ => True

end PipelineAction

/-- The candidate read of a fire, for a subscriber as the fire has loaded it. -/
def fireRead (sub : Uuid) (row : SubscriberRow) (subscribed : List Uuid) : CandidateRead where
  subscriber := sub
  subscribed := subscribed
  lastRun := row.lastRunAt
  horizonDays := contextHorizonDays
  requireSummary := true

section Steps

variable {F : Type} [SelectScore F] (clusterId : GroupKey → Uuid)
  (sha256 : List UInt8 → List UInt8) (currentModel : String)

def Pipeline.offers (s : Pipeline F) (sub : Uuid) (row : SubscriberRow) (subscribed : List Uuid) :
    List LinkCluster :=
  (fireRead sub row subscribed).linkClusters s.flow.db.now s.summaries.cluster clusterId

/-- One step of the flow or of the clusters, or one of each when time passes. -/
structure PipelineStep (s : Pipeline F) (act : PipelineAction F) (s' : Pipeline F) : Prop where
  proper : act.Proper
  flow : match act.flowAction with
    | none => s'.flow = s.flow
    | some f => FlowStep sha256 s.flow f s'.flow
  summaries : match act.summaryAction with
    | none => s'.summaries = s.summaries
    | some f => SummaryStep sha256 currentModel s.summaries f s'.summaries
  offered : ∀ a subscribed r, act = .read a subscribed r → ∃ x row, s.flow.attempt[a]? = some x ∧
    x.phase = .loaded row ∧ r.candidates = s.offers clusterId x.subscriber row subscribed

abbrev PipelineRuns (ts : List (Run.Transition (Pipeline F) (PipelineAction F))) (s : Pipeline F) :
    Prop :=
  Run.Runs (PipelineStep clusterId sha256 currentModel) {} ts s

variable {clusterId sha256 currentModel} {s s' : Pipeline F} {act : PipelineAction F}

theorem PipelineStep.flow_cases (h : PipelineStep clusterId sha256 currentModel s act s') :
    s'.flow = s.flow ∨ ∃ f, FlowStep sha256 s.flow f s'.flow := by
  have hflow := h.flow
  cases hact : act.flowAction with
  | none =>
      rw [hact] at hflow
      exact Or.inl hflow
  | some f =>
      rw [hact] at hflow
      exact Or.inr ⟨f, hflow⟩

/-- What holds at the start of the flow and is kept by its steps holds in every run. -/
theorem PipelineRuns.flow_invariant {ts : List (Run.Transition (Pipeline F) (PipelineAction F))}
    (h : PipelineRuns clusterId sha256 currentModel ts s) (I : Flow F → Prop) (hinit : I {})
    (hstep : ∀ s f s', FlowStep sha256 s f s' → I s → I s') : I s.flow := by
  refine Run.Runs.state_invariant h (fun s => I s.flow) hinit ?_
  intro t _ hs hI
  rcases hs.flow_cases with hsame | ⟨f, hflow⟩
  · rw [hsame]
    exact hI
  · exact hstep _ f _ hflow hI

/-! ## What an attempt has read -/

omit [SelectScore F] in
def Phase.recompute : Phase F → Option (Recompute F)
  | .read _ r _ | .linked _ r _ => some r
  | _ => none

omit [SelectScore F] in
/-- Candidates and new ids are distinct, and the new ids are not in use. -/
structure Recompute.Sound (r : Recompute F) : Prop where
  ids : Function.Injective fun i => (r.clusters i).id
  mint : FreshMint r.mint r.prior

theorem Recompute.Sound.stories_nodup {r : Recompute F} (h : r.Sound) :
    (r.assignment.stories.map (·.id)).Nodup :=
  stories_ids_perm.nodup_iff.mpr (survivors_nodup h.mint)

omit [SelectScore F] in
theorem Recompute.Reads.sound {r : Recompute F} {table : StoryTable}
    (h : r.Reads table) : r.Sound :=
  ⟨h.ids_injective, h.freshMint⟩

def ReadsSound (s : Flow F) : Prop :=
  ∀ (a : Nat) (x : Attempt F) (r : Recompute F), s.attempt[a]? = some x →
    x.phase.recompute = some r → r.Sound

theorem FlowStep.readsSound {s s' : Flow F} {f : FlowAction F} (h : FlowStep sha256 s f s')
    (hsound : ReadsSound s) : ReadsSound s' := by
  intro a x r hx hr
  cases h.stepped.attempted hx with
  | kept hold => exact hsound a x r hold hr
  | begun sub job _ _ hy _ =>
      rw [hy] at hr
      cases hr
  | failed y _ _ _ hy =>
      rw [hy] at hr
      cases hr
  | moved y phase hy hmove hx' =>
      rw [hx'] at hr
      cases hmove with
      | read row r' hphase _ =>
          obtain rfl := Option.some.inj hr
          exact Recompute.Reads.sound h.1
      | persist row r' shown hphase =>
          obtain rfl := Option.some.inj hr
          exact hsound a y r' hy (by rw [hphase]; rfl)
      | _ => cases hr

theorem PipelineRuns.readsSound {ts : List (Run.Transition (Pipeline F) (PipelineAction F))}
    (h : PipelineRuns clusterId sha256 currentModel ts s) : ReadsSound s.flow := by
  refine h.flow_invariant ReadsSound ?_ fun _ _ _ hstep => hstep.readsSound
  intro a x r hx
  simp at hx

/-! ## Executable runs -/

omit [SelectScore F] in
/-- An entry of a scripted run. Reads take clusters and stories as they stand. -/
inductive PipelineCue (F : Type) where
  | wait (duration : Nat)
  | summary (act : SummaryAction)
  | read (a : Nat) (subscribed : List Uuid) (base : Nat)
  | flow (act : FlowAction F)

omit [SelectScore F] in
def SummaryAction.isWait : SummaryAction → Bool
  | wait _ => true
  | _ => false

omit [SelectScore F] in
def FlowAction.isWait : FlowAction F → Bool
  | background (.wait _) => true
  | _ => false

/-- The action of an entry where it stands, and the state after it. -/
def Pipeline.play (clusterId : GroupKey → Uuid) (sha256 : List UInt8 → List UInt8)
    (currentModel : String) (s : Pipeline F) (cue : PipelineCue F) :
    Option (PipelineAction F × Pipeline F) :=
  match cue with
  | .wait duration =>
      (s.flow.next sha256 (.background (.wait duration))).bind fun flow =>
        (s.summaries.next sha256 currentModel (.wait duration)).map fun summaries =>
          (.wait duration, { flow := flow, summaries := summaries })
  | .summary act =>
      if act.isWait then none
      else (s.summaries.next sha256 currentModel act).map fun summaries =>
        (.summary act, { s with summaries := summaries })
  | .read a subscribed base =>
      match s.flow.attempt[a]? with
      | none => none
      | some x =>
          match x.phase with
          | .loaded row =>
              let candidates := s.offers clusterId x.subscriber row subscribed
              if (candidates.map (·.id)).Nodup ∧ ∀ k ∈ s.flow.db.story.keys, k < base then
                let r : Recompute F := .onTable s.flow.db.story x.subscriber candidates {} base
                (s.flow.next sha256 (.read a r)).map fun flow =>
                  (.read a subscribed r, { s with flow := flow })
              else none
          | _ => none
  | .flow act =>
      if act.isWait then none
      else (s.flow.play sha256 (.other act)).map fun p => (.flow act, { s with flow := p.2 })

theorem Flow.play_other {s s' : Flow F} {act act' : FlowAction F}
    (h : s.play sha256 (.other act) = some (act', s')) :
    act' = act ∧ ∀ a r, act ≠ .read a r := by
  unfold Flow.play at h
  split at h
  · next heq => cases heq
  · cases h
  · next a id heq =>
      cases heq
      split at h
      · cases h
      · obtain ⟨_, _, heq⟩ := Option.map_eq_some_iff.mp h
        cases heq
        exact ⟨rfl, nofun⟩
  · next hread _ heq =>
      cases heq
      obtain ⟨_, _, heq⟩ := Option.map_eq_some_iff.mp h
      cases heq
      exact ⟨rfl, hread⟩

theorem Pipeline.play_step {cue : PipelineCue F}
    (h : s.play clusterId sha256 currentModel cue = some (act, s')) :
    PipelineStep clusterId sha256 currentModel s act s' := by
  unfold Pipeline.play at h
  cases cue with
  | wait duration =>
      obtain ⟨flow, hflow, h⟩ := Option.bind_eq_some_iff.mp h
      obtain ⟨summaries, hsummaries, heq⟩ := Option.map_eq_some_iff.mp h
      cases heq
      exact ⟨trivial, ⟨trivial, hflow⟩, hsummaries, nofun⟩
  | summary a =>
      dsimp only at h
      split at h
      · cases h
      · next hwait =>
          obtain ⟨summaries, hsummaries, heq⟩ := Option.map_eq_some_iff.mp h
          cases heq
          refine ⟨?_, rfl, hsummaries, nofun⟩
          cases a with
          | wait duration => exact hwait rfl
          | _ => trivial
  | read a subscribed base =>
      dsimp only at h
      split at h
      · cases h
      · next x hx =>
          split at h
          · next row hphase =>
              split at h
              · next hcan =>
                  obtain ⟨flow, hflow, heq⟩ := Option.map_eq_some_iff.mp h
                  cases heq
                  refine ⟨trivial, ⟨Recompute.onTable_reads hcan.1 hcan.2, hflow⟩, rfl, ?_⟩
                  intro b subscribed' r heq
                  cases heq
                  exact ⟨x, row, hx, hphase, rfl⟩
              · cases h
          · cases h
  | flow a =>
      dsimp only at h
      split at h
      · cases h
      · next hwait =>
          obtain ⟨p, hplay, heq⟩ := Option.map_eq_some_iff.mp h
          cases heq
          obtain ⟨hact, hread⟩ := Flow.play_other hplay
          have hstep := Flow.play_step hplay
          rw [hact] at hstep
          refine ⟨?_, hstep, rfl, nofun⟩
          cases a with
          | read b r => exact absurd rfl (hread b r)
          | background b =>
              cases b with
              | wait duration => exact hwait rfl
              | _ => trivial
          | _ => trivial

theorem Pipeline.play_ends {script : List (PipelineCue F)} {p : Pipeline F → Bool}
    (h : (Run.execute (Pipeline.play clusterId sha256 currentModel) {} script).any p = true) :
    ∃ s, PipelineRuns clusterId sha256 currentModel
      (Run.transitions (Pipeline.play clusterId sha256 currentModel) {} script) s ∧ p s = true :=
  Run.execute_ends (fun _ _ _ _ => Pipeline.play_step) h

end Steps

end Bulletin
