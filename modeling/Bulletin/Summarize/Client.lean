import Bulletin.Summarize.Gate
import Bulletin.Summarize.Prose
import Bulletin.Summarize.Sweep

/-! # One summarization attempt

The model's reply is assembled into a candidate, its prose is made inert, and the gates decide
whether it is kept. A field the reply leaves out is empty.
-/

namespace Bulletin

structure ModelOutput where
  headline : String := ""
  tldr : List TldrRun := []
deriving DecidableEq, Repr

/-- What the sidecar answers in one attempt: an output, or the kind of the failure; and what the
judges of the relation gate object to when they are of one mind. -/
structure ModelReply where
  output : Except String ModelOutput
  problem : Option String := none

def ModelReply.Headless (reply : ModelReply) : Prop :=
  ∃ out, reply.output = .ok out ∧ trim out.headline = ""

def ModelReply.Worded (reply : ModelReply) : Prop :=
  ∃ out, reply.output = .ok out ∧ ∃ run ∈ out.tldr, trim run.surface ≠ ""

instance (reply : ModelReply) : Decidable reply.Headless :=
  match h : reply.output with
  | .error _ => isFalse (by simp [ModelReply.Headless, h])
  | .ok out => decidable_of_iff (trim out.headline = "") (by simp [ModelReply.Headless, h])

instance (reply : ModelReply) : Decidable reply.Worded :=
  match h : reply.output with
  | .error _ => isFalse (by simp [ModelReply.Worded, h])
  | .ok out => decidable_of_iff (∃ run ∈ out.tldr, trim run.surface ≠ "")
      (by simp [ModelReply.Worded, h])

structure SummarizationConfig where
  maxSourceChars : Nat
  faithfulnessGate : Bool := true
deriving DecidableEq, Repr

def GateViolation.debug : GateViolation → String
  | ungroundedEntity entity => "UngroundedEntity(" ++ entity.quote ++ ")"
  | ungroundedNumber tok => "UngroundedNumber(" ++ (String.ofList tok).quote ++ ")"
  | bannedWord word => "BannedWord(" ++ (String.ofList word).quote ++ ")"
  | urlInProse tok => "UrlInProse(" ++ (String.ofList tok).quote ++ ")"
  | tooLong => "TooLong"
  | unfaithfulRelation problem => "UnfaithfulRelation(" ++ problem.quote ++ ")"

/-- The summary a reply amounts to, pending the gate. -/
def candidateSummary (out : ModelOutput) : ClusterSummary :=
  ({ headline := trim out.headline, tldr := out.tldr, band := .confirmed } :
    ClusterSummary).rebuildTldrText

section Attempt

variable (unicode : UnicodeTables) (cfg : SummarizationConfig)

def gateSummary (problem : Option String) (facts : Facts) (source : List Char)
    (summary : ClusterSummary) : SummaryOutcome :=
  match if cfg.faithfulnessGate then faithful unicode summary facts source else .ok () with
  | .error v => .failed (.rejected v.debug)
  | .ok () =>
      match problem with
      | some problem => .failed (.rejected (GateViolation.unfaithfulRelation problem).debug)
      | none => .faithful summary

/-- One attempt with these facts and this text. `none` is a panic. -/
def summarize (reply : ModelReply) (facts : Facts) (source : List Char) : Option SummaryOutcome :=
  match reply.output with
  | .error kind => some (.failed (.unavailable kind))
  | .ok out =>
      ((candidateSummary out).defangProse unicode).map
        (gateSummary unicode cfg reply.problem facts source)

def summarizeCluster (reply : ModelReply) (events : List Event) : Option SummaryOutcome :=
  summarize unicode cfg reply (extractFacts events) (sourceCorpus events cfg.maxSourceChars)

def synthesizeFacts (members : List Facts) : Facts where
  entities := sortDedup (members.flatMap (·.entities))
  numbers := sortDedup (members.flatMap (·.numbers))
  dates := sortDedup (members.flatMap (·.dates))

def storyMemberCorpus (members : List ClusterSummary) : List Char :=
  members.foldl (fun out m =>
    let out := if out ≠ [] then out ++ "\n\n".toList else out
    let tldr := (trim m.tldrText).toList
    out ++ (trim m.headline).toList ++ if tldr ≠ [] then '\n' :: tldr else []) []

/-- The fused text of a story, from its members' summaries and the facts stored with them. -/
def synthesizeStory (reply : ModelReply) (members : List ClusterSummary) (facts : List Facts) :
    Option SummaryOutcome :=
  summarize unicode cfg reply (synthesizeFacts facts) (storyMemberCorpus members)

end Attempt

section Outcomes

variable {unicode : UnicodeTables} {cfg : SummarizationConfig} {reply : ModelReply} {facts : Facts}
  {source : List Char} {summary : ClusterSummary} {out : ModelOutput}

theorem isSome_summarize : (summarize unicode cfg reply facts source).isSome ↔
    ∀ out, reply.output = .ok out →
      ∀ text ∈ (candidateSummary out).prose, Trimmable unicode text.toList := by
  unfold summarize
  cases reply.output with
  | error kind => simp
  | ok out =>
      rw [Option.isSome_map, isSome_defangProse]
      simp

structure Kept (unicode : UnicodeTables) (cfg : SummarizationConfig) (reply : ModelReply)
    (facts : Facts) (source : List Char) (summary : ClusterSummary) : Prop where
  output : ∃ out, reply.output = .ok out ∧ (candidateSummary out).defangProse unicode = some summary
  agreed : reply.problem = none
  faithful : cfg.faithfulnessGate = true → faithful unicode summary facts source = .ok ()

theorem summarize_faithful (h : summarize unicode cfg reply facts source = some (.faithful summary)) :
    Kept unicode cfg reply facts source summary := by
  unfold summarize at h
  cases hout : reply.output with
  | error kind => simp [hout] at h
  | ok out =>
      rw [hout] at h
      obtain ⟨candidate, hcandidate, hgate⟩ := Option.map_eq_some_iff.mp h
      unfold gateSummary at hgate
      cases hverdict : if cfg.faithfulnessGate then faithful unicode candidate facts source
          else .ok () with
      | error v => simp [hverdict] at hgate
      | ok u =>
          cases hproblem : reply.problem with
          | some problem => simp [hverdict, hproblem] at hgate
          | none =>
              simp only [hverdict, hproblem, SummaryOutcome.faithful.injEq] at hgate
              subst hgate
              refine ⟨⟨out, hout, hcandidate⟩, hproblem, ?_⟩
              intro hon
              rw [if_pos hon] at hverdict
              exact hverdict

theorem Kept.band (h : Kept unicode cfg reply facts source summary) :
    summary.band = .confirmed := by
  obtain ⟨out, _, hsummary⟩ := h.output
  unfold ClusterSummary.defangProse at hsummary
  obtain ⟨headline, _, hsummary⟩ := Option.bind_eq_some_iff.mp hsummary
  obtain ⟨tldr, _, rfl⟩ := Option.map_eq_some_iff.mp hsummary
  rfl

theorem defangText_blank {s t : String} (h : defangText unicode s = some t) :
    trim t = "" ↔ trim s = "" := by
  unfold defangText at h
  obtain ⟨inert, hinert, rfl⟩ := Option.map_eq_some_iff.mp h
  rw [defang_spec] at hinert
  split at hinert
  · obtain rfl := Option.some.inj hinert
    rw [trim_eq_empty, trim_eq_empty, String.toList_ofList, splitWhitespace_inertText,
      List.map_eq_nil_iff]
  · cases hinert

theorem Kept.headline_blank (h : Kept unicode cfg reply facts source summary) :
    trim summary.headline = "" ↔ reply.Headless := by
  obtain ⟨out, hout, hsummary⟩ := h.output
  have hreply : reply.Headless ↔ trim out.headline = "" := by simp [ModelReply.Headless, hout]
  unfold ClusterSummary.defangProse at hsummary
  obtain ⟨headline, hheadline, hsummary⟩ := Option.bind_eq_some_iff.mp hsummary
  obtain ⟨tldr, _, rfl⟩ := Option.map_eq_some_iff.mp hsummary
  rw [hreply]
  exact (defangText_blank hheadline).trans trim_blank

theorem defang_run_blank {run run' : TldrRun} (h : run.defang unicode = some run') :
    trim run'.surface = "" ↔ trim run.surface = "" := by
  cases run with
  | ref e s | text s =>
      obtain ⟨s', hs', rfl⟩ := Option.map_eq_some_iff.mp h
      exact defangText_blank hs'

theorem mapM_forall {α β : Type} {f : α → Option β} {p : α → Prop} {q : β → Prop}
    (hf : ∀ a b, f a = some b → (q b ↔ p a)) {l : List α} {l' : List β} (h : l.mapM f = some l') :
    (∀ b ∈ l', q b) ↔ ∀ a ∈ l, p a := by
  induction l generalizing l' with
  | nil =>
      obtain rfl := Option.some.inj h
      simp
  | cons a l ih =>
      rw [List.mapM_cons] at h
      obtain ⟨b, hb, h⟩ := Option.bind_eq_some_iff.mp h
      obtain ⟨bs, hbs, h⟩ := Option.bind_eq_some_iff.mp h
      obtain rfl := Option.some.inj h
      rw [List.forall_mem_cons, List.forall_mem_cons, hf a b hb, ih hbs]

/-- What is kept has a text exactly when the model wrote one. -/
theorem Kept.text_blank (h : Kept unicode cfg reply facts source summary) :
    trim summary.tldrText = "" ↔ ¬ reply.Worded := by
  obtain ⟨out, hout, hsummary⟩ := h.output
  have hreply : ¬ reply.Worded ↔ ∀ run ∈ out.tldr, trim run.surface = "" := by
    simp [ModelReply.Worded, hout]
  unfold ClusterSummary.defangProse at hsummary
  obtain ⟨headline, _, hsummary⟩ := Option.bind_eq_some_iff.mp hsummary
  obtain ⟨tldr, htldr, rfl⟩ := Option.map_eq_some_iff.mp hsummary
  rw [hreply, rebuildTldrText_blank]
  exact mapM_forall (fun _ _ => defang_run_blank) htldr

end Outcomes

end Bulletin
