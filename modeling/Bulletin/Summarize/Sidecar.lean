import Bulletin.Summarize.Budget
import Bulletin.Summarize.Grounding
import Bulletin.Summarize.Phrase
import Bulletin.Summarize.Shippable

/-! # An attempt, call by call

An attempt asks a sidecar to classify the events, to say who did what to whom, for a summary, and
then for the opinions of judges on it. What production ships and what the eval reports come out of
the same calls; the eval looks at the draft as it was answered, and production at the draft with its
links broken.
-/

namespace Bulletin

/-! ## The calls -/

/-- The opinion of a judge; one that leaves the verdict out objects to nothing. -/
structure RelationVerdict where
  analysis : String := ""
  faithful : Bool := true
  problem : String := ""
deriving DecidableEq, Repr

/-- What a sidecar answers at one seed, the same to the same request. `none` is a call that
failed. -/
structure Sidecar where
  comprehend : GroundedFacts → List Char → Option Comprehension
  extractRelations : GroundedFacts → List Char → Option RelationsOutput
  /-- A summary of events, with a text or a headline only. -/
  summarize : GroundedFacts → List Char → Bool → Except String ModelOutput
  synthesize : GroundedFacts → List Char → Option String → Except String ModelOutput
  /-- The vote, the relations, and the headline and the text that are judged. -/
  judge : Nat → List Relation → String → String → Option RelationVerdict

structure Sidecar.PassConfig extends SummarizationConfig where
  comprehend : Bool := true
  relations : Bool := true
  relationGate : Bool := true
deriving DecidableEq, Repr

structure GroundedSummary extends ClusterSummary where
  facts : GroundedFacts
deriving DecidableEq, Repr

def tldrMinSourceChars : Nat := 200

def relationGateVotes : Nat := 2

/-- Events are worth a text if one of them is long by its kind, or by what there is of it. -/
def wantTldr (events : List Event) : Bool :=
  let depth := ((events.map (·.contentKind)).max?).getD .longform
  let richestEventChars := ((events.map fun e =>
    e.title.length + (e.bestText.elim 0 fun b => (trim b).length)).max?).getD 0
  depth == .longform || decide (tldrMinSourceChars ≤ richestEventChars)

/-- Votes are cast one after the other, until one is not against the summary. -/
def castVotes (judge : Nat → Option RelationVerdict) : Nat → Nat → Nat → String →
    Option GateViolation
  | 0, _, completed, lastProblem =>
      if 0 < completed then some (.unfaithfulRelation lastProblem) else none
  | votes + 1, vote, completed, _ =>
      match judge vote with
      | none => none
      | some verdict =>
          if verdict.faithful then none
          else
            castVotes judge votes (vote + 1) (completed + 1)
              (if trim verdict.problem = "" then
                "summary reverses or contradicts a grounded relation"
              else trim verdict.problem)

inductive EvalVerdict where
  | passed
  | rejected (v : GateViolation)
  | unavailable
deriving DecidableEq, Repr

namespace Sidecar

variable (sidecar : Sidecar) (unicode : UnicodeTables) (cfg : Sidecar.PassConfig)

def relationGate (summary : ClusterSummary) (facts : GroundedFacts) : Option GateViolation :=
  castVotes (fun vote => sidecar.judge vote facts.relations summary.headline summary.tldrText)
    relationGateVotes 0 0 ""

def relationalGateViolation (summary : ClusterSummary) (facts : GroundedFacts) :
    Option GateViolation :=
  if cfg.relationGate && !facts.relations.isEmpty then sidecar.relationGate summary facts else none

def groundFacts (events : List Event) : GroundedFacts :=
  let source := sourceCorpus events cfg.maxSourceChars
  let facts : GroundedFacts := { extractFacts events with }
  let facts :=
    if cfg.comprehend then (sidecar.comprehend facts source).elim facts (applyComprehension facts)
    else facts
  if cfg.relations && !facts.entities.isEmpty then
    (sidecar.extractRelations facts source).elim facts (applyRelations facts)
  else facts

/-- The draft, with the facts and the text it is checked against. -/
def generateCandidate (events : List Event) :
    Except String (ClusterSummary × GroundedFacts × List Char) :=
  let source := sourceCorpus events cfg.maxSourceChars
  let facts := sidecar.groundFacts cfg events
  (sidecar.summarize facts source (wantTldr events)).map fun out =>
    (candidateSummary out, facts, source)

def gate (facts : GroundedFacts) (source : List Char) (summary : ClusterSummary) :
    Except SummaryFailure GroundedSummary :=
  match if cfg.faithfulnessGate then faithful unicode summary facts.toFacts source else .ok () with
  | .error v => .error (.rejected v.debug)
  | .ok () =>
      match sidecar.relationalGateViolation cfg summary facts with
      | some v => .error (.rejected v.debug)
      | none => .ok ⟨summary, facts⟩

/-- What becomes of a draft, or of a call for one that failed. `none` is a panic. -/
def settle (draft : Except String (ClusterSummary × GroundedFacts × List Char)) :
    Option (Except SummaryFailure GroundedSummary) :=
  match draft with
  | .error kind => some (.error (.unavailable kind))
  | .ok (summary, facts, source) =>
      (summary.defangProse unicode).map (sidecar.gate unicode cfg facts source)

def summarizeCluster (events : List Event) : Option (Except SummaryFailure GroundedSummary) :=
  sidecar.settle unicode cfg (sidecar.generateCandidate cfg events)

def synthesizeStory (members : List GroundedSummary) (threadLabel : Option String) :
    Option (Except SummaryFailure GroundedSummary) :=
  let facts := fuseFacts (members.map (·.facts))
  let corpus := storyMemberCorpus (members.map (·.toClusterSummary))
  sidecar.settle unicode cfg
    ((sidecar.synthesize facts corpus threadLabel).map fun out =>
      (candidateSummary out, facts, corpus))

/-- The gates' verdict on a draft as it was answered; nothing is stored. -/
def evalCluster (events : List Event) : EvalVerdict :=
  match sidecar.generateCandidate cfg events with
  | .error _ => .unavailable
  | .ok (summary, facts, source) =>
      match faithful unicode summary facts.toFacts source with
      | .error v => .rejected v
      | .ok () =>
          match sidecar.relationalGateViolation cfg summary facts with
          | some v => .rejected v
          | none => .passed

end Sidecar

/-! ## The report of an eval -/

structure EvalReport where
  passed : Nat := 0
  rejected : Nat := 0
  unavailable : Nat := 0
  skipped : Nat := 0
  ungroundedEntity : Nat := 0
  ungroundedNumber : Nat := 0
  bannedWord : Nat := 0
  urlInProse : Nat := 0
  tooLong : Nat := 0
  unfaithfulRelation : Nat := 0
deriving DecidableEq, Repr

namespace EvalReport

def record (report : EvalReport) : EvalVerdict → EvalReport
  | .passed => { report with passed := report.passed + 1 }
  | .unavailable => { report with unavailable := report.unavailable + 1 }
  | .rejected v =>
      let report := { report with rejected := report.rejected + 1 }
      match v with
      | .ungroundedEntity _ => { report with ungroundedEntity := report.ungroundedEntity + 1 }
      | .ungroundedNumber _ => { report with ungroundedNumber := report.ungroundedNumber + 1 }
      | .bannedWord _ => { report with bannedWord := report.bannedWord + 1 }
      | .urlInProse _ => { report with urlInProse := report.urlInProse + 1 }
      | .tooLong => { report with tooLong := report.tooLong + 1 }
      | .unfaithfulRelation _ => { report with unfaithfulRelation := report.unfaithfulRelation + 1 }

def generated (report : EvalReport) : Nat := report.passed + report.rejected

def sampled (report : EvalReport) : Nat := report.generated + report.unavailable + report.skipped

/-- The part of the drafts that passed, unless there is no draft. -/
def faithfulnessRate (report : EvalReport) : Option ℚ :=
  if report.generated = 0 then none else some (report.passed / report.generated)

end EvalReport

/-- One cluster of the sample; `none` is a cluster whose events could not be read. -/
def Sidecar.evalNext (sidecar : Sidecar) (unicode : UnicodeTables) (cfg : Sidecar.PassConfig)
    (report : EvalReport) : Option (List Event) → EvalReport
  | none | some [] => { report with skipped := report.skipped + 1 }
  | some events => report.record (sidecar.evalCluster unicode cfg events)

def Sidecar.evalPublic (sidecar : Sidecar) (unicode : UnicodeTables) (cfg : Sidecar.PassConfig)
    (sample : List (Option (List Event))) : EvalReport :=
  sample.foldl (sidecar.evalNext unicode cfg) {}

/-! ## An attempt is one of the model's replies -/

def attemptOutcome : Except SummaryFailure GroundedSummary → SummaryOutcome
  | .error failure => .failed failure
  | .ok summary => .faithful summary.toClusterSummary

section Attempts

variable {sidecar : Sidecar} {unicode : UnicodeTables} {cfg : Sidecar.PassConfig}
  {events : List Event} {members : List GroundedSummary} {threadLabel : Option String}
  {facts : GroundedFacts} {source : List Char} {summary draft : ClusterSummary}
  {shipped : GroundedSummary}

theorem toFacts_groundFacts : (sidecar.groundFacts cfg events).toFacts = extractFacts events := by
  unfold Sidecar.groundFacts
  dsimp only
  have hcomprehended : ∀ facts : GroundedFacts, ∀ answer : Option Comprehension,
      (answer.elim facts (applyComprehension facts)).toFacts = facts.toFacts := by
    intro facts answer
    cases answer <;> rfl
  have hrelated : ∀ facts : GroundedFacts, ∀ answer : Option RelationsOutput,
      (answer.elim facts (applyRelations facts)).toFacts = facts.toFacts := by
    intro facts answer
    cases answer <;> rfl
  split <;> split <;> simp only [hcomprehended, hrelated]

theorem anchored_groundFacts : (sidecar.groundFacts cfg events).Anchored := by
  have hmined : ({ extractFacts events with } : GroundedFacts).Anchored :=
    anchored_mined (extractFacts events)
  have hcomprehended : ∀ answer : Option Comprehension,
      (answer.elim { extractFacts events with }
        (applyComprehension { extractFacts events with })).Anchored := by
    intro answer
    cases answer with
    | none => exact hmined
    | some c => exact hmined.applyComprehension c
  have hrelated : ∀ facts : GroundedFacts, facts.Anchored → ∀ answer : Option RelationsOutput,
      (answer.elim facts (applyRelations facts)).Anchored := by
    intro facts hfacts answer
    cases answer with
    | none => exact hfacts
    | some out => exact hfacts.applyRelations out
  unfold Sidecar.groundFacts
  dsimp only
  split <;> split
  · exact hrelated _ (hcomprehended _) _
  · exact hcomprehended _
  · exact hrelated _ hmined _
  · exact hmined

/-- The votes are cast in full exactly when each is against the summary. -/
theorem castVotes_spec {judge : Nat → Option RelationVerdict} {votes vote completed : Nat}
    {lastProblem : String} (hsome : 0 < votes ∨ 0 < completed) :
    (∃ problem, castVotes judge votes vote completed lastProblem =
        some (.unfaithfulRelation problem) ∧
        ∀ i < votes, ∃ verdict, judge (vote + i) = some verdict ∧ verdict.faithful = false) ∨
      (castVotes judge votes vote completed lastProblem = none ∧
        ∃ i < votes, ∀ verdict, judge (vote + i) = some verdict → verdict.faithful = true) := by
  induction votes generalizing vote completed lastProblem with
  | zero =>
      have hcompleted : 0 < completed := hsome.resolve_left (Nat.lt_irrefl 0)
      exact Or.inl ⟨lastProblem, if_pos hcompleted, by simp⟩
  | succ votes ih =>
      unfold castVotes
      cases hjudge : judge vote with
      | none => exact Or.inr ⟨rfl, 0, Nat.succ_pos votes, by simp [hjudge]⟩
      | some verdict =>
          dsimp only
          cases hfaithful : verdict.faithful with
          | true =>
              refine Or.inr ⟨rfl, 0, Nat.succ_pos votes, ?_⟩
              intro other hother
              rw [Nat.add_zero, hjudge] at hother
              exact Option.some.inj hother ▸ hfaithful
          | false =>
              rw [if_neg Bool.false_ne_true]
              have hnext : ∀ i, vote + 1 + i = vote + (i + 1) := fun i => by omega
              rcases ih (Or.inr (Nat.succ_pos completed)) with
                ⟨problem, hcast, hall⟩ | ⟨hcast, i, hi, hkeeps⟩
              · refine Or.inl ⟨problem, hcast, ?_⟩
                intro i hi
                cases i with
                | zero => exact ⟨verdict, hjudge, hfaithful⟩
                | succ i => exact hnext i ▸ hall i (by omega)
              · exact Or.inr ⟨hcast, i + 1, by omega, hnext i ▸ hkeeps⟩

def Condemned (sidecar : Sidecar) (summary : ClusterSummary) (facts : GroundedFacts) : Prop :=
  ∀ vote < relationGateVotes, ∃ verdict,
    sidecar.judge vote facts.relations summary.headline summary.tldrText = some verdict ∧
      verdict.faithful = false

/-- The judges object when there are relations to judge by and every vote is against the
summary. -/
theorem relationalGateViolation_spec :
    (∃ problem, sidecar.relationalGateViolation cfg summary facts =
        some (.unfaithfulRelation problem) ∧
      cfg.relationGate = true ∧ facts.relations ≠ [] ∧ Condemned sidecar summary facts) ∨
    (sidecar.relationalGateViolation cfg summary facts = none ∧
      ¬ (cfg.relationGate = true ∧ facts.relations ≠ [] ∧ Condemned sidecar summary facts)) := by
  unfold Sidecar.relationalGateViolation
  split
  · rename_i hon
    obtain ⟨hgate, hrelations⟩ : cfg.relationGate = true ∧ facts.relations ≠ [] := by
      simpa using hon
    unfold Sidecar.relationGate
    have hvotes : 0 < relationGateVotes ∨ 0 < 0 := Or.inl (by decide)
    rcases castVotes_spec hvotes with ⟨problem, hcast, hagainst⟩ | ⟨hcast, vote, hvote, hkeeps⟩
    · refine Or.inl ⟨problem, hcast, hgate, hrelations, ?_⟩
      simpa [Condemned] using hagainst
    · refine Or.inr ⟨hcast, ?_⟩
      rintro ⟨_, _, hcondemned⟩
      obtain ⟨verdict, hverdict, hagainst⟩ := hcondemned vote hvote
      have hfor : verdict.faithful = true := hkeeps verdict (by rwa [Nat.zero_add])
      rw [hfor] at hagainst
      cases hagainst
  · rename_i hoff
    refine Or.inr ⟨rfl, ?_⟩
    rintro ⟨hgate, hrelations, _⟩
    simp [hgate, hrelations] at hoff

def objection : Option GateViolation → Option String
  | some (.unfaithfulRelation problem) => some problem
  | _ => none

theorem gate_refines : attemptOutcome (sidecar.gate unicode cfg facts source summary) =
    gateSummary unicode cfg.toSummarizationConfig
      (objection (sidecar.relationalGateViolation cfg summary facts)) facts.toFacts source
      summary := by
  unfold Sidecar.gate gateSummary
  cases if cfg.faithfulnessGate then faithful unicode summary facts.toFacts source else .ok () with
  | error v => rfl
  | ok u =>
      rcases @relationalGateViolation_spec sidecar cfg facts summary with ⟨problem, h, _⟩ | ⟨h, _⟩
      · rw [h]
        rfl
      · rw [h]
        rfl

/-- Whatever the calls bring, an attempt is one with some reply of the model. -/
theorem settle_refines (output : Except String ModelOutput) : ∃ reply : ModelReply,
    (sidecar.settle unicode cfg
      (output.map fun out => (candidateSummary out, facts, source))).map attemptOutcome =
      summarize unicode cfg.toSummarizationConfig reply facts.toFacts source := by
  cases output with
  | error kind => exact ⟨⟨.error kind, none⟩, rfl⟩
  | ok out =>
      refine ⟨⟨.ok out, ((candidateSummary out).defangProse unicode).bind fun draft =>
        objection (sidecar.relationalGateViolation cfg draft facts)⟩, ?_⟩
      unfold summarize Sidecar.settle
      dsimp only [Except.map]
      cases (candidateSummary out).defangProse unicode with
      | none => rfl
      | some draft => exact congrArg some gate_refines

theorem summarizeCluster_refines : ∃ reply : ModelReply,
    (sidecar.summarizeCluster unicode cfg events).map attemptOutcome =
      summarizeCluster unicode cfg.toSummarizationConfig reply events := by
  obtain ⟨reply, hreply⟩ := @settle_refines sidecar unicode cfg (sidecar.groundFacts cfg events)
    (sourceCorpus events cfg.maxSourceChars)
    (sidecar.summarize (sidecar.groundFacts cfg events) (sourceCorpus events cfg.maxSourceChars)
      (wantTldr events))
  rw [toFacts_groundFacts] at hreply
  exact ⟨reply, hreply⟩

theorem synthesizeStory_refines : ∃ reply : ModelReply,
    (sidecar.synthesizeStory unicode cfg members threadLabel).map attemptOutcome =
      synthesizeStory unicode cfg.toSummarizationConfig reply (members.map (·.toClusterSummary))
        (members.map (·.facts.toFacts)) := by
  obtain ⟨reply, hreply⟩ := @settle_refines sidecar unicode cfg
    (fuseFacts (members.map (·.facts))) (storyMemberCorpus (members.map (·.toClusterSummary)))
    (sidecar.synthesize (fuseFacts (members.map (·.facts)))
      (storyMemberCorpus (members.map (·.toClusterSummary))) threadLabel)
  rw [toFacts_fuseFacts, List.map_map] at hreply
  exact ⟨reply, hreply⟩

/-! ## What ships -/

theorem settle_ok {draft : Except String (ClusterSummary × GroundedFacts × List Char)}
    (h : sidecar.settle unicode cfg draft = some (.ok shipped)) :
    ∃ summary source, draft = .ok (summary, shipped.facts, source) ∧
      summary.defangProse unicode = some shipped.toClusterSummary ∧
      (cfg.faithfulnessGate = true →
        faithful unicode shipped.toClusterSummary shipped.facts.toFacts source = .ok ()) := by
  unfold Sidecar.settle at h
  cases draft with
  | error kind => cases Option.some.inj h
  | ok candidate =>
      obtain ⟨summary, facts, source⟩ := candidate
      obtain ⟨inert, hinert, hgate⟩ := Option.map_eq_some_iff.mp h
      unfold Sidecar.gate at hgate
      cases hverdict : if cfg.faithfulnessGate then faithful unicode inert facts.toFacts source
          else .ok () with
      | error v => simp [hverdict] at hgate
      | ok u =>
          cases hviolation : sidecar.relationalGateViolation cfg inert facts with
          | some v => simp [hverdict, hviolation] at hgate
          | none =>
              simp only [hverdict, hviolation, Except.ok.injEq] at hgate
              subst hgate
              refine ⟨summary, source, rfl, hinert, ?_⟩
              intro hon
              rw [if_pos hon] at hverdict
              exact hverdict

/-- Summaries as they come to be stored: of events, or of summaries that were stored before, each
with answers of its own. -/
inductive Shipped (unicode : UnicodeTables) (cfg : Sidecar.PassConfig) : GroundedSummary → Prop
  | cluster (sidecar : Sidecar) (events : List Event) (shipped : GroundedSummary)
      (h : sidecar.summarizeCluster unicode cfg events = some (.ok shipped)) :
      Shipped unicode cfg shipped
  | story (sidecar : Sidecar) (members : List GroundedSummary) (threadLabel : Option String)
      (shipped : GroundedSummary) (hmembers : ∀ m ∈ members, Shipped unicode cfg m)
      (h : sidecar.synthesizeStory unicode cfg members threadLabel = some (.ok shipped)) :
      Shipped unicode cfg shipped

/-- The facts name entities and nothing else, in order. -/
structure Facts.Named (facts : Facts) : Prop where
  sorted : facts.entities.Pairwise (· < ·)
  entity : ∀ e ∈ facts.entities, isLinkingKey e = false

theorem named_extractFacts : (extractFacts events).Named where
  sorted := sortDedup_pairwise _
  entity e he := by
    have hmined : e ∈ sortDedup
        (events.flatMap fun e => e.entities.filter fun t => !isLinkingKey t) := he
    obtain ⟨_, _, hfiltered⟩ := List.mem_flatMap.mp (mem_sortDedup.mp hmined)
    simpa using (List.mem_filter.mp hfiltered).2

theorem named_synthesizeFacts {members : List Facts} (h : ∀ m ∈ members, m.Named) :
    (synthesizeFacts members).Named where
  sorted := sortDedup_pairwise _
  entity e he := by
    have hmined : e ∈ sortDedup (members.flatMap (·.entities)) := he
    obtain ⟨m, hm, hin⟩ := List.mem_flatMap.mp (mem_sortDedup.mp hmined)
    exact (h m hm).entity e hin

theorem candidate_ok {output : Except String ModelOutput} {facts' : GroundedFacts}
    {source' : List Char} (h : (output.map fun out => (candidateSummary out, facts, source)) =
      .ok (summary, facts', source')) : summary.rebuildTldrText = summary ∧ facts' = facts := by
  cases output with
  | error kind => cases h
  | ok out =>
      obtain ⟨rfl, hrest⟩ := Prod.mk.inj (Except.ok.inj h)
      exact ⟨rfl, (Prod.mk.inj hrest).1.symm⟩

theorem settle_facts {output : Except String ModelOutput}
    (h : sidecar.settle unicode cfg
      (output.map fun out => (candidateSummary out, facts, source)) = some (.ok shipped)) :
    shipped.facts = facts := by
  obtain ⟨summary, source', hdraft, _⟩ := settle_ok h
  exact (candidate_ok hdraft).2

/-- Whatever the sidecar answers, through any number of syntheses over syntheses: the facts stored
with a summary are sorted entities without linking keys, an event type and a state of the closed
lists, and complete relations between them, each once and with one of the entities for its subject;
and the summary refers to these entities only. -/
theorem shipped_grounded (hgate : cfg.faithfulnessGate = true) (h : Shipped unicode cfg shipped) :
    shipped.facts.Anchored ∧ shipped.facts.toFacts.Named ∧
      ∀ e surface, TldrRun.ref e surface ∈ shipped.tldr → e ∈ shipped.facts.entities := by
  have hrefs : ∀ {sidecar : Sidecar} {shipped : GroundedSummary}
      {draft : Except String (ClusterSummary × GroundedFacts × List Char)},
      sidecar.settle unicode cfg draft = some (.ok shipped) →
        ∀ e surface, TldrRun.ref e surface ∈ shipped.tldr → e ∈ shipped.facts.entities := by
    intro sidecar shipped draft hsettle e surface hrun
    obtain ⟨_, _, _, _, hfaithful⟩ := settle_ok hsettle
    have hnone := (faithful_eq_ok.mp (hfaithful hgate)).2.1
    simpa [ungroundedEntity] using List.findSome?_eq_none_iff.mp hnone _ hrun
  induction h with
  | cluster sidecar events shipped h =>
      have hfacts : shipped.facts = sidecar.groundFacts cfg events := settle_facts h
      refine ⟨hfacts ▸ anchored_groundFacts, ?_, hrefs h⟩
      rw [hfacts, toFacts_groundFacts]
      exact named_extractFacts
  | story sidecar members threadLabel shipped _ h ih =>
      have hfacts : shipped.facts = fuseFacts (members.map (·.facts)) := settle_facts h
      refine ⟨?_, ?_, hrefs h⟩
      · rw [hfacts]
        refine anchored_fuseFacts ?_
        rw [List.forall_mem_map]
        exact fun m hm => (ih m hm).1
      · rw [hfacts, toFacts_fuseFacts]
        refine named_synthesizeFacts ?_
        rw [List.forall_mem_map, List.forall_mem_map]
        exact fun m hm => (ih m hm).2.1

def deployEvent : Event :=
  { fingerprint := [], key := ⟨.ofPublic, .rss, "deploy"⟩, eventTime := 0,
    title := "Acme rolled the deploy back", entities := ["org:acme", "domain:acme.com"],
    id := 1, ingestTime := 1 }

def deployOutput : ModelOutput where
  headline := " Acme rolled back"
  tldr := [.ref "org:acme" "Acme", .text "rolled it back."]

/-- A sidecar with a relation of an entity it was not given, and with judges that disagree. -/
def deploySidecar : Sidecar where
  comprehend _ _ := some { eventType := "incident", state := "gone" }
  extractRelations _ _ := some { relations :=
    [⟨"org:other", "broke", "the deploy"⟩, ⟨"org:acme", " rolled back ", "the deploy"⟩] }
  summarize _ _ _ := .ok deployOutput
  synthesize _ _ _ := .ok deployOutput
  judge vote _ _ _ := some { faithful := vote == 1, problem := "swapped" }

def deployConfig : Sidecar.PassConfig where
  maxSourceChars := 4000

def deploySummary : GroundedSummary where
  headline := "Acme rolled back"
  tldr := [.ref "org:acme" "Acme", .text "rolled it back."]
  tldrText := "Acme rolled it back."
  band := .confirmed
  facts := {
    entities := ["org:acme"]
    relations := [⟨"org:acme", "rolled back", "the deploy"⟩]
    eventType := some "incident" }

theorem shipped_grounded_deploy : Shipped asciiTables deployConfig deploySummary ∧
    deploySummary.facts.Anchored ∧ deploySummary.facts.toFacts.Named := by
  have hcluster : deploySidecar.summarizeCluster asciiTables deployConfig [deployEvent] =
      some (.ok deploySummary) := by decide +kernel
  have hstory : deploySidecar.synthesizeStory asciiTables deployConfig
      [deploySummary, deploySummary] (some "deploys") = some (.ok deploySummary) := by
    decide +kernel
  have hshipped : Shipped asciiTables deployConfig deploySummary := by
    refine .story deploySidecar _ _ _ ?_ hstory
    intro m hm
    obtain rfl : m = deploySummary := by simpa using hm
    exact .cluster deploySidecar _ _ hcluster
  obtain ⟨hanchored, hnamed, _⟩ := shipped_grounded rfl hshipped
  exact ⟨hshipped, hanchored, hnamed⟩

/-- With judges or without them, an attempt comes to the same, unless it would ship and the judges
have relations to judge by and every one of their votes is against it: then it is rejected. -/
theorem judges_only_condemn (draft : Except String (ClusterSummary × GroundedFacts × List Char)) :
    let unjudged := sidecar.settle unicode { cfg with relationGate := false } draft
    (∃ shipped problem, unjudged = some (.ok shipped) ∧ cfg.relationGate = true ∧
        shipped.facts.relations ≠ [] ∧
        Condemned sidecar shipped.toClusterSummary shipped.facts ∧
        sidecar.settle unicode cfg draft =
          some (.error (.rejected (GateViolation.unfaithfulRelation problem).debug))) ∨
      (sidecar.settle unicode cfg draft = unjudged ∧
        ∀ shipped, unjudged = some (.ok shipped) →
          ¬ (cfg.relationGate = true ∧ shipped.facts.relations ≠ [] ∧
            Condemned sidecar shipped.toClusterSummary shipped.facts)) := by
  intro unjudged
  cases draft with
  | error kind =>
      refine Or.inr ⟨rfl, ?_⟩
      intro shipped hships
      cases Option.some.inj hships
  | ok candidate =>
      obtain ⟨summary, facts, source⟩ := candidate
      cases hinert : summary.defangProse unicode with
      | none =>
          have hpanic : ∀ cfg,
              sidecar.settle unicode cfg (.ok (summary, facts, source)) = none := by
            intro cfg
            simp [Sidecar.settle, hinert]
          refine Or.inr ⟨(hpanic cfg).trans (hpanic _).symm, ?_⟩
          intro shipped hships
          cases (hpanic _).symm.trans hships
      | some inert =>
          have hgate : ∀ cfg, sidecar.settle unicode cfg (.ok (summary, facts, source)) =
              some (sidecar.gate unicode cfg facts source inert) := by
            intro cfg
            simp [Sidecar.settle, hinert]
          have hoff : unjudged = some (sidecar.gate unicode { cfg with relationGate := false }
              facts source inert) := hgate _
          rw [hoff, hgate cfg]
          unfold Sidecar.gate
          have hnone : sidecar.relationalGateViolation { cfg with relationGate := false } inert
              facts = none := by simp [Sidecar.relationalGateViolation]
          dsimp only
          cases if cfg.faithfulnessGate then faithful unicode inert facts.toFacts source
              else .ok () with
          | error v =>
              refine Or.inr ⟨rfl, ?_⟩
              intro shipped hships
              cases Option.some.inj hships
          | ok u =>
              rw [hnone]
              rcases @relationalGateViolation_spec sidecar cfg facts inert with
                ⟨problem, hviolation, hon, hrelations, hcondemned⟩ | ⟨hviolation, hnot⟩
              · rw [hviolation]
                exact Or.inl ⟨⟨inert, facts⟩, problem, rfl, hon, hrelations, hcondemned, rfl⟩
              · rw [hviolation]
                refine Or.inr ⟨rfl, ?_⟩
                rintro shipped ⟨⟩
                exact hnot

/-! ## What the eval measures -/

theorem defangProse_of_inert
    (h : ∀ text ∈ summary.prose, firstLinkableToken unicode text.toList = none) :
    summary.defangProse unicode = some summary.rebuildTldrText := by
  have htext : ∀ text ∈ summary.prose, defangText unicode text = some text := by
    intro text hin
    unfold defangText
    rw [defang_of_inert (h text hin), Option.map_some, String.ofList_toList]
  have hruns : ∀ runs : List TldrRun, (∀ run ∈ runs, run.surface ∈ summary.prose) →
      runs.mapM (TldrRun.defang unicode) = some runs := by
    intro runs
    induction runs with
    | nil => exact fun _ => rfl
    | cons run runs ih =>
        intro hin
        obtain ⟨hrun, hrest⟩ := List.forall_mem_cons.mp hin
        have hdefang : run.defang unicode = some run := by
          cases run with
          | ref e s => exact congrArg (Option.map (TldrRun.ref e)) (htext s hrun)
          | text s => exact congrArg (Option.map TldrRun.text) (htext s hrun)
        rw [List.mapM_cons, hdefang, ih hrest]
        rfl
  unfold ClusterSummary.defangProse
  rw [htext summary.headline List.mem_cons_self, Option.bind_some, hruns summary.tldr ?_]
  · rfl
  · exact fun run hrun => List.mem_cons_of_mem _ (List.mem_map_of_mem hrun)

/-- A short summary with entities and words in order fails the gate by a number or a link alone. -/
theorem faithful_cases {facts : Facts} (hheadline : summary.headline.length ≤ headlineMax)
    (htldr : summary.tldrText.length ≤ tldrMax)
    (hentities : summary.tldr.findSome? (ungroundedEntity facts) = none)
    (hwords : bannedWordIn unicode summary.output = none) :
    faithful unicode summary facts source = .ok () ∨
      (∃ tok, faithful unicode summary facts source = .error (.ungroundedNumber tok)) ∨
      ∃ tok, faithful unicode summary facts source = .error (.urlInProse tok) := by
  unfold faithful
  rw [if_neg (not_or.mpr ⟨Nat.not_lt.mpr hheadline, Nat.not_lt.mpr htldr⟩), hentities, hwords]
  dsimp only
  cases firstUngroundedNumber unicode summary.output (groundingText facts source) with
  | some tok => exact Or.inr (Or.inl ⟨tok, rfl⟩)
  | none =>
      cases firstLinkableToken unicode summary.output with
      | some tok => exact Or.inr (Or.inr ⟨tok, rfl⟩)
      | none => exact Or.inl rfl

/-- If the gate accepts a draft once its links are broken, it has no objection to the draft itself
but a link, or a number that a link is part of. -/
theorem faithful_of_defanged {facts : Facts} (hlower : unicode.LowersEach)
    (hdefang : summary.rebuildTldrText.defangProse unicode = some draft)
    (hok : faithful unicode draft facts source = .ok ()) :
    faithful unicode summary.rebuildTldrText facts source = .ok () ∨
      (∃ tok, faithful unicode summary.rebuildTldrText facts source =
        .error (.ungroundedNumber tok)) ∨
      ∃ tok, faithful unicode summary.rebuildTldrText facts source = .error (.urlInProse tok) := by
  have hrewritten : summary.rebuildTldrText.defangProse unicode =
      if ∀ text ∈ summary.prose, Trimmable unicode text.toList then
        some (summary.mapProse (inertText unicode)) else none := defangProse_spec
  obtain ⟨_, rfl⟩ : (∀ text ∈ summary.prose, Trimmable unicode text.toList) ∧
      summary.mapProse (inertText unicode) = draft := by
    rw [hdefang] at hrewritten
    split at hrewritten
    · rename_i htrimmable
      exact ⟨htrimmable, (Option.some.inj hrewritten).symm⟩
    · cases hrewritten
  obtain ⟨⟨hheadline, htldr⟩, hentities, _, hbanned, _⟩ := faithful_eq_ok.mp hok
  obtain ⟨m, hm⟩ := @exists_views_output unicode summary
  obtain ⟨mh, hh⟩ := @exists_views unicode summary.headline.toList
  obtain ⟨mt, ht⟩ := @exists_views_flatMap unicode (spaced [] summary.surfaces)
  -- breaking links only makes the texts longer
  have hshort : summary.rebuildTldrText.headline.length ≤ headlineMax := by
    rw [← String.length_toList, headline_mapProse, hh.length, String.length_toList] at hheadline
    exact Nat.le_trans (Nat.le_add_right _ _) hheadline
  have hflat : summary.rebuildTldrText.tldrText.length ≤ tldrMax := by
    rw [← String.length_toList, tldrText_mapProse keepsEnds_inertText, ht.length] at htldr
    rw [← String.length_toList, toList_rebuildTldrText]
    exact Nat.le_trans (Nat.le_add_right _ _) htldr
  have hwords : bannedWordIn unicode summary.rebuildTldrText.output = none := by
    rw [← hm.bracketed, bannedWordIn_bracketed hlower hm.marks, hm.plain] at hbanned
    exact hbanned
  rw [entities_mapProse] at hentities
  exact faithful_cases hshort hflat hentities hwords

def Reports : EvalVerdict → Except SummaryFailure GroundedSummary → Prop
  | .passed, .ok _ => True
  | .rejected v, .error (.rejected reason) => reason = v.debug
  | .unavailable, .error (.unavailable _) => True
  | _, _ => False

def InertDraft (sidecar : Sidecar) (unicode : UnicodeTables) (cfg : Sidecar.PassConfig)
    (events : List Event) : Prop :=
  ∀ draft facts source, sidecar.generateCandidate cfg events = .ok (draft, facts, source) →
    ∀ text ∈ draft.prose, firstLinkableToken unicode text.toList = none

theorem evalCluster_reports (hgate : cfg.faithfulnessGate = true)
    (hinert : InertDraft sidecar unicode cfg events) :
    ∃ outcome, sidecar.summarizeCluster unicode cfg events = some outcome ∧
      Reports (sidecar.evalCluster unicode cfg events) outcome := by
  unfold Sidecar.summarizeCluster Sidecar.settle Sidecar.evalCluster
  cases hdraft : sidecar.generateCandidate cfg events with
  | error kind => exact ⟨_, rfl, trivial⟩
  | ok candidate =>
      obtain ⟨draft, facts, source⟩ := candidate
      have hsame : draft.defangProse unicode = some draft := by
        rw [defangProse_of_inert (hinert draft facts source hdraft), (candidate_ok hdraft).1]
      dsimp only
      rw [hsame, Option.map_some]
      refine ⟨_, rfl, ?_⟩
      unfold Sidecar.gate
      rw [if_pos hgate]
      cases faithful unicode draft facts.toFacts source with
      | error v => rfl
      | ok u =>
          dsimp only
          cases sidecar.relationalGateViolation cfg draft facts with
          | some v => rfl
          | none => trivial

/-- A cluster that ships has a draft that passes, or one to which the eval objects for a link, a
number or a relation. -/
theorem evalCluster_of_ships (hlower : unicode.LowersEach) (hgate : cfg.faithfulnessGate = true)
    (h : sidecar.summarizeCluster unicode cfg events = some (.ok shipped)) :
    sidecar.evalCluster unicode cfg events = .passed ∨
      (∃ tok, sidecar.evalCluster unicode cfg events = .rejected (.ungroundedNumber tok)) ∨
      (∃ tok, sidecar.evalCluster unicode cfg events = .rejected (.urlInProse tok)) ∨
      ∃ problem, sidecar.evalCluster unicode cfg events =
        .rejected (.unfaithfulRelation problem) := by
  obtain ⟨draft, source, hdraft, hinert, hfaithful⟩ := settle_ok h
  rw [← (candidate_ok hdraft).1] at hinert
  have hcases := faithful_of_defanged hlower hinert (hfaithful hgate)
  rw [(candidate_ok hdraft).1] at hcases
  unfold Sidecar.evalCluster
  rw [hdraft]
  dsimp only
  rcases hcases with hok | ⟨tok, hnumber⟩ | ⟨tok, hlink⟩
  · rw [hok]
    dsimp only
    rcases @relationalGateViolation_spec sidecar cfg shipped.facts draft with
      ⟨problem, hviolation, _⟩ | ⟨hviolation, _⟩
    · exact Or.inr (Or.inr (Or.inr ⟨problem, by rw [hviolation]⟩))
    · exact Or.inl (by rw [hviolation])
  · exact Or.inr (Or.inl ⟨tok, by rw [hnumber]⟩)
  · exact Or.inr (Or.inr (Or.inl ⟨tok, by rw [hlink]⟩))

def Sidecar.ships (sidecar : Sidecar) (unicode : UnicodeTables) (cfg : Sidecar.PassConfig) :
    Option (List Event) → Bool
  | none | some [] => false
  | some events => match sidecar.summarizeCluster unicode cfg events with
      | some (.ok _) => true
      | _ => false

/-- Whether a gate of production rejects the cluster. -/
def Sidecar.rejects (sidecar : Sidecar) (unicode : UnicodeTables) (cfg : Sidecar.PassConfig) :
    Option (List Event) → Bool
  | none | some [] => false
  | some events => match sidecar.summarizeCluster unicode cfg events with
      | some (.error (.rejected _)) => true
      | _ => false

structure Tallied (sidecar : Sidecar) (unicode : UnicodeTables) (cfg : Sidecar.PassConfig)
    (sample : List (Option (List Event))) (report : EvalReport) : Prop where
  sampled : report.sampled = sample.length
  rejected : report.rejected = report.ungroundedEntity + report.ungroundedNumber +
    report.bannedWord + report.urlInProse + report.tooLong + report.unfaithfulRelation
  ships : sample.countP (sidecar.ships unicode cfg) ≤ report.passed + report.ungroundedNumber +
    report.urlInProse + report.unfaithfulRelation

theorem EvalReport.le_record {report : EvalReport} {verdict : EvalVerdict} :
    report.passed + report.ungroundedNumber + report.urlInProse + report.unfaithfulRelation ≤
      (report.record verdict).passed + (report.record verdict).ungroundedNumber +
        (report.record verdict).urlInProse + (report.record verdict).unfaithfulRelation := by
  rcases verdict with _ | v | _
  · dsimp only [record]
    omega
  · cases v <;> dsimp only [record] <;> omega
  · exact Nat.le_refl _

theorem Sidecar.ships_iff {e : Event} {es : List Event} :
    sidecar.ships unicode cfg (some (e :: es)) = true ↔
      ∃ shipped, sidecar.summarizeCluster unicode cfg (e :: es) = some (.ok shipped) := by
  unfold Sidecar.ships
  dsimp only
  split
  · rename_i shipped hships
    simp [hships]
  · rename_i hnot
    simpa using fun shipped h => hnot shipped h

theorem Tallied.next {sample : List (Option (List Event))} {report : EvalReport}
    (hlower : unicode.LowersEach) (hgate : cfg.faithfulnessGate = true)
    (h : Tallied sidecar unicode cfg sample report) (events : Option (List Event)) :
    Tallied sidecar unicode cfg (sample ++ [events])
      (sidecar.evalNext unicode cfg report events) := by
  obtain ⟨hsampled, hrejected, hships⟩ := h
  have hcount : (sample ++ [events]).countP (sidecar.ships unicode cfg) =
      sample.countP (sidecar.ships unicode cfg) +
        if sidecar.ships unicode cfg events then 1 else 0 := by
    rw [List.countP_append, List.countP_singleton]
  have hlength : (sample ++ [events]).length = sample.length + 1 := List.length_append
  unfold EvalReport.sampled EvalReport.generated at hsampled
  rcases events with _ | _ | ⟨e, es⟩
  · refine ⟨?_, hrejected, ?_⟩
    · rw [hlength, ← hsampled]
      rfl
    · rw [hcount]
      exact hships
  · refine ⟨?_, hrejected, ?_⟩
    · rw [hlength, ← hsampled]
      rfl
    · rw [hcount]
      exact hships
  · have hverdict : sidecar.ships unicode cfg (some (e :: es)) = true → _ := fun hships =>
      evalCluster_of_ships hlower hgate (Sidecar.ships_iff.mp hships).choose_spec
    unfold Sidecar.evalNext
    dsimp only
    generalize sidecar.evalCluster unicode cfg (e :: es) = verdict at hverdict
    refine ⟨?_, ?_, ?_⟩
    · rw [hlength]
      unfold EvalReport.sampled EvalReport.generated
      rcases verdict with _ | v | _
      · dsimp only [EvalReport.record]
        omega
      · cases v <;> dsimp only [EvalReport.record] <;> omega
      · dsimp only [EvalReport.record]
        omega
    · rcases verdict with _ | v | _
      · exact hrejected
      · cases v <;> dsimp only [EvalReport.record] <;> omega
      · exact hrejected
    · rw [hcount]
      cases hshipped : sidecar.ships unicode cfg (some (e :: es)) with
      | false =>
          rw [if_neg Bool.false_ne_true, Nat.add_zero]
          exact hships.trans EvalReport.le_record
      | true =>
          rw [if_pos rfl]
          rcases hverdict hshipped with rfl | ⟨tok, rfl⟩ | ⟨tok, rfl⟩ | ⟨problem, rfl⟩ <;>
            dsimp only [EvalReport.record] <;> omega

theorem tallied_evalPublic (hlower : unicode.LowersEach) (hgate : cfg.faithfulnessGate = true)
    (sample : List (Option (List Event))) :
    Tallied sidecar unicode cfg sample (sidecar.evalPublic unicode cfg sample) := by
  unfold Sidecar.evalPublic
  induction sample using List.reverseRecOn with
  | nil => exact ⟨rfl, rfl, Nat.le_refl _⟩
  | append_singleton sample events ih =>
      rw [List.foldl_append]
      exact ih.next hlower hgate events

theorem evalPublic_inert (hgate : cfg.faithfulnessGate = true)
    {sample : List (Option (List Event))}
    (hinert : ∀ events, some events ∈ sample → InertDraft sidecar unicode cfg events) :
    (sidecar.evalPublic unicode cfg sample).passed =
        sample.countP (sidecar.ships unicode cfg) ∧
      (sidecar.evalPublic unicode cfg sample).rejected =
        sample.countP (sidecar.rejects unicode cfg) := by
  unfold Sidecar.evalPublic
  induction sample using List.reverseRecOn with
  | nil => exact ⟨rfl, rfl⟩
  | append_singleton sample events ih =>
      obtain ⟨hpassed, hrejected⟩ := ih fun events h => hinert events (List.mem_append_left _ h)
      rw [List.foldl_append, List.countP_append, List.countP_append, List.countP_singleton,
        List.countP_singleton, ← hpassed, ← hrejected]
      rcases events with _ | _ | ⟨e, es⟩
      · exact ⟨rfl, rfl⟩
      · exact ⟨rfl, rfl⟩
      · obtain ⟨outcome, houtcome, hreports⟩ :=
          evalCluster_reports hgate (hinert (e :: es) (by simp))
        simp only [List.foldl_cons, List.foldl_nil, Sidecar.evalNext, Sidecar.ships,
          Sidecar.rejects, houtcome]
        generalize sidecar.evalCluster unicode cfg (e :: es) = verdict at hreports
        cases verdict with
        | passed =>
            cases outcome with
            | ok shipped => exact ⟨rfl, rfl⟩
            | error failure => cases hreports
        | rejected v =>
            cases outcome with
            | ok shipped => cases hreports
            | error failure =>
                cases failure with
                | rejected reason => cases v <;> exact ⟨rfl, rfl⟩
                | unavailable kind => cases hreports
        | unavailable =>
            cases outcome with
            | ok shipped => cases hreports
            | error failure =>
                cases failure with
                | rejected reason => cases hreports
                | unavailable kind => exact ⟨rfl, rfl⟩

theorem EvalReport.faithfulnessRate_spec {report : EvalReport} {rate : ℚ}
    (h : rate ∈ report.faithfulnessRate) :
    rate * report.generated = report.passed ∧ 0 ≤ rate ∧ rate ≤ 1 := by
  unfold faithfulnessRate at h
  split at h
  · cases h
  · rename_i hgenerated
    obtain rfl := Option.some.inj h
    have hpos : (0 : ℚ) < report.generated := by exact_mod_cast Nat.pos_of_ne_zero hgenerated
    have hle : (report.passed : ℚ) ≤ report.generated := by
      exact_mod_cast Nat.le_add_right report.passed report.rejected
    exact ⟨div_mul_cancel₀ _ hpos.ne', div_nonneg (Nat.cast_nonneg _) hpos.le,
      (div_le_one hpos).mpr hle⟩

/-- The report of an eval accounts for every cluster of the sample, and for every rejection by its
reason. Production ships no more clusters than passed or were rejected for a number, a link or a
relation; where no draft has a link it ships and rejects exactly as many as the eval, and the rate
is the part of its drafts that it ships. -/
theorem eval_report (hlower : unicode.LowersEach) (hgate : cfg.faithfulnessGate = true)
    (sample : List (Option (List Event))) :
    let report := sidecar.evalPublic unicode cfg sample
    let ships := sample.countP (sidecar.ships unicode cfg)
    let rejects := sample.countP (sidecar.rejects unicode cfg)
    report.sampled = sample.length ∧
      report.rejected = report.ungroundedEntity + report.ungroundedNumber + report.bannedWord +
        report.urlInProse + report.tooLong + report.unfaithfulRelation ∧
      ships ≤ report.passed + report.ungroundedNumber + report.urlInProse +
        report.unfaithfulRelation ∧
      ((∀ events, some events ∈ sample → InertDraft sidecar unicode cfg events) →
        report.passed = ships ∧ report.rejected = rejects ∧
          ∀ rate ∈ report.faithfulnessRate,
            rate * (ships + rejects : Nat) = ships ∧ 0 ≤ rate ∧ rate ≤ 1) := by
  intro report ships rejects
  obtain ⟨hsampled, hrejected, hships⟩ :=
    @tallied_evalPublic sidecar unicode cfg hlower hgate sample
  refine ⟨hsampled, hrejected, hships, ?_⟩
  intro hinert
  obtain ⟨hpassed, hrejects⟩ := evalPublic_inert hgate hinert
  refine ⟨hpassed, hrejects, ?_⟩
  intro rate hrate
  have hgenerated : report.generated = ships + rejects := by
    unfold EvalReport.generated
    rw [hpassed, hrejects]
  have hrate := EvalReport.faithfulnessRate_spec hrate
  rw [hgenerated, hpassed] at hrate
  exact hrate

theorem eval_report_deploy :
    let report := deploySidecar.evalPublic asciiTables deployConfig
      [none, some [deployEvent], some []]
    report.sampled = 3 ∧ report.skipped = 2 ∧ report.passed = 1 ∧
      [none, some [deployEvent], some []].countP (deploySidecar.ships asciiTables deployConfig) ≤
        report.passed + report.ungroundedNumber + report.urlInProse +
          report.unfaithfulRelation := by
  obtain ⟨hsampled, _, hships, _⟩ := @eval_report deploySidecar asciiTables deployConfig
    asciiTables_lowersEach rfl [none, some [deployEvent], some []]
  exact ⟨hsampled, by decide +kernel, by decide +kernel, hships⟩

end Attempts

end Bulletin
