import Mathlib.Logic.Equiv.List
import Bulletin.Digest.Render
import Bulletin.Digest.Select
import Bulletin.Summarize.Client
import Bulletin.System.CandidateSummaries
import Bulletin.System.Syntheses

/-! # What a rendered headline is

Builds, both sweeps with whatever the model replies, candidate reads of scheduled fires and their
recomputes. A headline comes from the summary that is stored; whether that is one the model wrote is
decided when a reply is stored.
-/

namespace Bulletin

/-! ## One set of clusters -/

def SummarizedCluster.clusterRow (key : GroupKey) (row : SummarizedCluster) : ClusterRow where
  key := key
  title := row.rollup.title
  link := row.rollup.link
  lastEventTime := row.rollup.lastEventTime
  summary := row.summary
  summaryHash := row.summaryHash

def clusterView (clusterId : GroupKey ↪ Uuid) (table : SummarizedTable) : ClusterTable :=
  Std.ExtTreeMap.ofList (table.entries.map fun e => (clusterId e.1, e.2.clusterRow e.1)) compare

section Maps

variable {κ β : Type} [Ord κ] [Std.TransOrd κ] [Std.LawfulEqOrd κ] [BEq κ] [LawfulBEq κ]

theorem getElem?_ofList {l : List (κ × β)} (hl : (l.map Prod.fst).Nodup) {k : κ} {v : β} :
    (Std.ExtTreeMap.ofList l compare)[k]? = some v ↔ (k, v) ∈ l := by
  have hdistinct : l.Pairwise fun a b => ¬ compare a.1 b.1 = .eq := by
    rw [List.nodup_iff_pairwise_ne, List.pairwise_map] at hl
    exact hl.imp fun hne heq => hne (Std.LawfulEqOrd.eq_of_compare heq)
  have hmem : ∀ {v : β}, (k, v) ∈ l → (Std.ExtTreeMap.ofList l compare)[k]? = some v :=
    fun hin => Std.ExtTreeMap.getElem?_ofList_of_mem Std.ReflCmp.compare_self hdistinct hin
  constructor
  · intro h
    have hkey : k ∈ l.map Prod.fst := by
      have hin : k ∈ Std.ExtTreeMap.ofList l compare := by
        rw [← Std.ExtTreeMap.isSome_getElem?_iff_mem, h]
        rfl
      rwa [Std.ExtTreeMap.mem_ofList, List.contains_iff_mem] at hin
    obtain ⟨⟨k', v'⟩, hin, rfl⟩ := List.mem_map.mp hkey
    obtain rfl := Option.some.inj (h.symm.trans (hmem hin))
    exact hin
  · exact hmem

end Maps

/-! ## The system -/

structure StoredSummary where
  summary : ClusterSummary
  facts : Facts
  source : List Char

structure Editorial where
  summaries : Summaries := {}
  story : StoryTable := ∅
  sweep : Nat → SynthesisSweep := fun _ => {}
  /-- The candidates that scheduled fires have read. -/
  offered : List (List LinkCluster) := []
  /-- What the sweeps have stored, newest first. -/
  stored : List StoredSummary := []

inductive EditorialAction (F : Type) where
  /-- A build, an article fetch, or a step of a cluster sweep that records nothing. -/
  | summary (act : SummaryAction)
  /-- A cluster sweep records what came of a reply. -/
  | record (sweep : Nat) (started : DateTime) (reply : ModelReply)
  /-- A scheduled fire reads its candidates. -/
  | offer (read : CandidateRead)
  /-- A recompute, a delivery, or a step of a story sweep that records nothing. -/
  | story (act : SynthesisAction F)
  /-- A story sweep records what came of a reply; `facts` are those stored with the members. -/
  | recordStory (sweep : Nat) (started : DateTime) (facts : List Facts) (reply : ModelReply)

namespace Editorial

variable {F : Type} [Score F] (unicode : UnicodeTables) (cfg : SummarizationConfig)
  (clusterId : GroupKey ↪ Uuid) (sha256 : List UInt8 → List UInt8) (currentModel : String)

def syntheses (s : Editorial) : Syntheses where
  now := s.summaries.now
  cluster := clusterView clusterId s.summaries.cluster
  story := s.story
  sweep := s.sweep

def withSyntheses (s : Editorial) (t : Syntheses) : Editorial :=
  { s with story := t.story, sweep := t.sweep }

/-- The outcome for the cluster a sweep is at, from the events it read. -/
def clusterOutcome (s : Editorial) (sweep : Nat) (reply : ModelReply) : Option SummaryOutcome :=
  (s.summaries.sweep sweep).reading.bind fun read => summarizeCluster unicode cfg reply read.1

/-- The outcome for the story a sweep is at, from the members it read. -/
def storyOutcome (s : Editorial) (sweep : Nat) (facts : List Facts) (reply : ModelReply) :
    Option SummaryOutcome :=
  (s.sweep sweep).reading.bind fun read =>
    synthesizeStory unicode cfg reply (read.1.map (·.summary)) facts

def clusterStores (s : Editorial) (sweep : Nat) (reply : ModelReply) : Option StoredSummary :=
  match (s.summaries.sweep sweep).due, (s.summaries.sweep sweep).reading,
      s.clusterOutcome unicode cfg sweep reply with
  | c :: _, some (events, _), some outcome =>
      match s.summaries.cluster.lookup c.key, attemptCluster sha256 events outcome c with
      | some _, .store summary _ =>
          some ⟨summary, extractFacts events, sourceCorpus events cfg.maxSourceChars⟩
      | _, _ => none
  | _, _, _ => none

def storyStores (s : Editorial) (sweep : Nat) (facts : List Facts) (reply : ModelReply) :
    Option StoredSummary :=
  match (s.sweep sweep).due, (s.sweep sweep).reading,
      s.storyOutcome unicode cfg sweep facts reply with
  | d :: _, some (members, _), some outcome =>
      match s.story[d.id]?, attemptStory sha256 currentModel members outcome d with
      | some _, .store summary _ =>
          some ⟨summary, synthesizeFacts facts, storyMemberCorpus (members.map (·.summary))⟩
      | _, _ => none
  | _, _, _ => none

/-- The step an action makes, if it can; an attempt that panics makes none. -/
def next (s : Editorial) : EditorialAction F → Option Editorial
  | .summary (.record _ _ _) => none
  | .summary act =>
      (s.summaries.next sha256 currentModel act).map fun t => { s with summaries := t }
  | .record sweep started reply =>
      (s.clusterOutcome unicode cfg sweep reply).bind fun outcome =>
        (s.summaries.next sha256 currentModel (.record sweep started outcome)).map fun t =>
          { s with
            summaries := t
            stored := (s.clusterStores unicode cfg sha256 sweep reply).toList ++ s.stored }
  | .offer read =>
      if read.requireSummary then
        some { s with
          offered := read.linkClusters s.summaries.now s.summaries.cluster clusterId :: s.offered }
      else none
  | .story (.wait _) | .story (.build _ _) | .story (.summarize _ _)
  | .story (.record _ _ _) => none
  | .story act =>
      ((s.syntheses clusterId).next sha256 currentModel act).map s.withSyntheses
  | .recordStory sweep started facts reply =>
      (s.storyOutcome unicode cfg sweep facts reply).bind fun outcome =>
        ((s.syntheses clusterId).next (F := F) sha256 currentModel (.record sweep started outcome)).map fun t =>
          { s.withSyntheses t with
            stored := (s.storyStores unicode cfg sha256 currentModel sweep facts reply).toList ++ s.stored }

end Editorial

section Steps

variable {F : Type} [Score F] (unicode : UnicodeTables) (cfg : SummarizationConfig)
  (clusterId : GroupKey ↪ Uuid) (sha256 : List UInt8 → List UInt8) (currentModel : String)

/-- One step. A recompute links the stories it has read and candidates that a fire was offered. -/
def EditorialStep (s : Editorial) (act : EditorialAction F) (s' : Editorial) : Prop :=
  (∀ r started, act = .story (.recompute r started) → r.Reads s.story ∧ r.candidates ∈ s.offered) ∧
    s.next unicode cfg clusterId sha256 currentModel act = some s'

abbrev EditorialRuns (ts : List (Run.Transition Editorial (EditorialAction F))) (s : Editorial) :
    Prop :=
  Run.Runs (EditorialStep unicode cfg clusterId sha256 currentModel) {} ts s

/-! ## What one step can do -/

/-- A step of one side, and what it stores. -/
inductive EditorialMove (s : Editorial) : EditorialAction F → Editorial → Prop
  | summary (act : SummaryAction) (t : Summaries) (hplain : ∀ sweep started o,
      act ≠ .record sweep started o)
      (h : SummaryStep sha256 currentModel s.summaries act t) :
      EditorialMove s (.summary act) { s with summaries := t }
  | record (sweep : Nat) (started : DateTime) (reply : ModelReply) (outcome : SummaryOutcome)
      (t : Summaries) (houtcome : s.clusterOutcome unicode cfg sweep reply = some outcome)
      (h : SummaryStep sha256 currentModel s.summaries (.record sweep started outcome) t) :
      EditorialMove s (.record sweep started reply) { s with
        summaries := t
        stored := (s.clusterStores unicode cfg sha256 sweep reply).toList ++ s.stored }
  | offer (read : CandidateRead) (hgate : read.requireSummary = true) :
      EditorialMove s (.offer read) { s with
        offered := read.linkClusters s.summaries.now s.summaries.cluster clusterId :: s.offered }
  | story (act : SynthesisAction F) (t : Syntheses)
      (hplain : ∀ sweep started o, act ≠ .record sweep started o)
      (h : SynthesisStep sha256 currentModel (s.syntheses clusterId) act t)
      (hoffered : ∀ r started, act = .recompute r started → r.candidates ∈ s.offered) :
      EditorialMove s (.story act) (s.withSyntheses t)
  | recordStory (sweep : Nat) (started : DateTime) (facts : List Facts) (reply : ModelReply)
      (outcome : SummaryOutcome) (t : Syntheses)
      (houtcome : s.storyOutcome unicode cfg sweep facts reply = some outcome)
      (h : SynthesisStep (F := F) sha256 currentModel (s.syntheses clusterId)
        (.record sweep started outcome) t) :
      EditorialMove s (.recordStory sweep started facts reply) { s.withSyntheses t with
        stored := (s.storyStores unicode cfg sha256 currentModel sweep facts reply).toList ++ s.stored }

variable {unicode cfg clusterId sha256 currentModel} {s s' : Editorial} {act : EditorialAction F}

theorem EditorialStep.move (h : EditorialStep unicode cfg clusterId sha256 currentModel s act s') :
    EditorialMove unicode cfg clusterId sha256 currentModel s act s' := by
  obtain ⟨hreads, hnext⟩ := h
  cases act with
  | summary act =>
      have hstep : ∀ b : SummaryAction, (∀ sweep started o, b ≠ .record sweep started o) →
          ((s.summaries.next sha256 currentModel b).map fun t =>
            { s with summaries := t }) = some s' →
          EditorialMove (F := F) unicode cfg clusterId sha256 currentModel s (.summary b) s' := by
        intro b hplain hb
        obtain ⟨t, ht, rfl⟩ := Option.map_eq_some_iff.mp hb
        exact .summary b t hplain ht
      cases act with
      | record _ _ _ => cases hnext
      | _ => exact hstep _ nofun hnext
  | record sweep started reply =>
      obtain ⟨outcome, houtcome, hnext⟩ := Option.bind_eq_some_iff.mp hnext
      obtain ⟨t, ht, rfl⟩ := Option.map_eq_some_iff.mp hnext
      exact .record sweep started reply outcome t houtcome ht
  | offer read =>
      obtain ⟨hgate, heq⟩ := Option.ite_none_right_eq_some.mp hnext
      obtain rfl := Option.some.inj heq
      exact .offer read hgate
  | story act =>
      have hstep : ∀ b : SynthesisAction F, act = b →
          (∀ sweep started o, b ≠ .record sweep started o) →
          ((s.syntheses clusterId).next sha256 currentModel b).map s.withSyntheses = some s' →
          EditorialMove unicode cfg clusterId sha256 currentModel s (.story b) s' := by
        intro b hact hplain hb
        obtain ⟨t, ht, rfl⟩ := Option.map_eq_some_iff.mp hb
        refine .story b t hplain ⟨fun r started heq => ?_, ht⟩ fun r started heq => ?_
        · exact (hreads r started (by rw [hact, heq])).1
        · exact (hreads r started (by rw [hact, heq])).2
      cases act with
      | wait _ | build _ _ | summarize _ _ | record _ _ _ => cases hnext
      | _ => exact hstep _ rfl nofun hnext
  | recordStory sweep started facts reply =>
      obtain ⟨outcome, houtcome, hnext⟩ := Option.bind_eq_some_iff.mp hnext
      obtain ⟨t, ht, rfl⟩ := Option.map_eq_some_iff.mp hnext
      exact .recordStory sweep started facts reply outcome t houtcome ⟨nofun, ht⟩

/-! ## What is stored -/

structure StoresCluster (unicode : UnicodeTables) (cfg : SummarizationConfig)
    (sha256 : List UInt8 → List UInt8) (s : Editorial) (sweep : Nat) (reply : ModelReply)
    (outcome : SummaryOutcome) (c : DueCluster) (events : List Event) (row : SummarizedCluster)
    (hash : List UInt8) (x : StoredSummary) : Prop where
  due : ∃ rest, (s.summaries.sweep sweep).due = c :: rest
  reading : ∃ readAt, (s.summaries.sweep sweep).reading = some (events, readAt)
  answer : s.clusterOutcome unicode cfg sweep reply = some outcome
  row : s.summaries.cluster.lookup c.key = some row
  store : attemptCluster sha256 events outcome c = .store x.summary hash
  against : x.facts = extractFacts events ∧ x.source = sourceCorpus events cfg.maxSourceChars

theorem clusterStores_spec {sweep : Nat} {reply : ModelReply} {x : StoredSummary} :
    s.clusterStores unicode cfg sha256 sweep reply = some x ↔
      ∃ outcome c events row hash,
        StoresCluster unicode cfg sha256 s sweep reply outcome c events row hash x := by
  unfold Editorial.clusterStores
  constructor
  · intro h
    split at h
    · next c rest events readAt outcome hdue hreading houtcome =>
        split at h
        · next row summary hash hrow hstore =>
            obtain rfl := Option.some.inj h
            exact ⟨outcome, c, events, row, hash, ⟨rest, hdue⟩, ⟨readAt, hreading⟩, houtcome, hrow,
              hstore, rfl, rfl⟩
        · cases h
    · cases h
  · intro h
    obtain ⟨outcome, c, events, row, hash, ⟨rest, hdue⟩, ⟨readAt, hreading⟩, houtcome, hrow, hstore,
      hfacts, hsource⟩ := h
    obtain ⟨summary, facts, source⟩ := x
    simp only [hdue, hreading, houtcome, hrow, hstore]
    rw [← hfacts, ← hsource]

structure StoresStory (unicode : UnicodeTables) (cfg : SummarizationConfig)
    (sha256 : List UInt8 → List UInt8) (currentModel : String) (s : Editorial) (sweep : Nat)
    (facts : List Facts) (reply : ModelReply) (outcome : SummaryOutcome) (d : DueStory)
    (members : List MemberSummary) (row : StoryRow) (sig : List UInt8) (x : StoredSummary) :
    Prop where
  due : ∃ rest, (s.sweep sweep).due = d :: rest
  reading : ∃ readAt, (s.sweep sweep).reading = some (members, readAt)
  answer : s.storyOutcome unicode cfg sweep facts reply = some outcome
  row : s.story[d.id]? = some row
  store : attemptStory sha256 currentModel members outcome d = .store x.summary sig
  against : x.facts = synthesizeFacts facts ∧
    x.source = storyMemberCorpus (members.map (·.summary))

theorem storyStores_spec {sweep : Nat} {facts : List Facts} {reply : ModelReply}
    {x : StoredSummary} :
    s.storyStores unicode cfg sha256 currentModel sweep facts reply = some x ↔
      ∃ outcome d members row sig, StoresStory unicode cfg sha256 currentModel s sweep facts reply
        outcome d members row sig x := by
  unfold Editorial.storyStores
  constructor
  · intro h
    split at h
    · next d rest members readAt outcome hdue hreading houtcome =>
        split at h
        · next row summary sig hrow hstore =>
            obtain rfl := Option.some.inj h
            exact ⟨outcome, d, members, row, sig, ⟨rest, hdue⟩, ⟨readAt, hreading⟩, houtcome, hrow,
              hstore, rfl, rfl⟩
        · cases h
    · cases h
  · intro h
    obtain ⟨outcome, d, members, row, sig, ⟨rest, hdue⟩, ⟨readAt, hreading⟩, houtcome, hrow, hstore,
      hfacts, hsource⟩ := h
    obtain ⟨summary, facts', source⟩ := x
    simp only [hdue, hreading, houtcome, hrow, hstore]
    rw [← hfacts, ← hsource]

theorem kept_of_clusterStores {sweep : Nat} {reply : ModelReply} {x : StoredSummary}
    (h : s.clusterStores unicode cfg sha256 sweep reply = some x) :
    Kept unicode cfg reply x.facts x.source x.summary := by
  obtain ⟨outcome, c, events, row, hash, hstores⟩ := clusterStores_spec.mp h
  obtain ⟨readAt, hreading⟩ := hstores.reading
  have houtcome := hstores.answer
  rw [Editorial.clusterOutcome, hreading, Option.bind_some,
    attemptCluster_store hstores.store] at houtcome
  rw [hstores.against.1, hstores.against.2]
  exact summarize_faithful houtcome

theorem kept_of_storyStores {sweep : Nat} {facts : List Facts} {reply : ModelReply}
    {x : StoredSummary}
    (h : s.storyStores unicode cfg sha256 currentModel sweep facts reply = some x) :
    Kept unicode cfg reply x.facts x.source x.summary := by
  obtain ⟨outcome, d, members, row, sig, hstores⟩ := storyStores_spec.mp h
  obtain ⟨readAt, hreading⟩ := hstores.reading
  have houtcome := hstores.answer
  have hfaithful : outcome = .faithful x.summary := attemptStory_store hstores.store
  rw [Editorial.storyOutcome, hreading, Option.bind_some, hfaithful] at houtcome
  rw [hstores.against.1, hstores.against.2]
  exact summarize_faithful houtcome

/-! ## The summaries of a step -/

/-- What a step of the cluster side does to the summary of a group. -/
inductive SummaryColumn (sha256 : List UInt8 → List UInt8) (s : Summaries) (act : SummaryAction)
    (s' : Summaries) (key : GroupKey) : Prop
  | stored (sweep : Nat) (started : DateTime) (outcome : SummaryOutcome) (c : DueCluster)
      (rest : List DueCluster) (events : List Event) (readAt : DateTime)
      (row row' : SummarizedCluster) (hash : List UInt8)
      (hact : act = .record sweep started outcome) (hdue : (s.sweep sweep).due = c :: rest)
      (hreading : (s.sweep sweep).reading = some (events, readAt)) (hkey : c.key = key)
      (hbefore : s.cluster.lookup key = some row) (hafter : s'.cluster.lookup key = some row')
      (hstore : attemptCluster sha256 events outcome c = .store row'.summary hash)
  | fresh (hbefore : s.cluster.lookup key = none)
      (hafter : ∀ row', s'.cluster.lookup key = some row' → row'.summary = {})
  | kept (row row' : SummarizedCluster) (hbefore : s.cluster.lookup key = some row)
      (hafter : s'.cluster.lookup key = some row') (hsummary : row'.summary = row.summary)

theorem applyCluster_summary {now : DateTime} {model : String} {write : SweepWrite}
    {row : SummarizedCluster} : (write.applyCluster now model row).summary = row.summary ∨
      ∃ hash, write = .store (write.applyCluster now model row).summary hash := by
  cases write with
  | store summary hash => exact Or.inr ⟨hash, rfl⟩
  | touch | skip | fail _ _ _ => exact Or.inl rfl

theorem SummaryStep.column {s s' : Summaries} {act : SummaryAction}
    (h : SummaryStep sha256 currentModel s act s') (key : GroupKey) :
    SummaryColumn sha256 s act s' key := by
  cases h.summarized key with
  | build _ started events r _ hr _ hrow =>
      cases hold : s.cluster.lookup key with
      | none =>
          refine .fresh hold ?_
          intro row' hrow'
          rw [hrow, hold] at hrow'
          obtain rfl := Option.some.inj hrow'
          rfl
      | some row =>
          rw [hold] at hrow
          exact .kept row _ hold hrow rfl
  | storeFullText _ id text started _ _ hrow =>
      cases hold : s.cluster.lookup key with
      | none => exact .fresh hold fun row' hrow' => by simp [hrow, hold] at hrow'
      | some row =>
          rw [hold] at hrow
          exact .kept row _ hold hrow rfl
  | record sweep started outcome c rest events readAt _ hdue hreading _ hrow =>
      cases hold : s.cluster.lookup c.key with
      | none => exact .fresh hold fun row' hrow' => by simp [hrow, hold] at hrow'
      | some row =>
          rw [hold, Option.map_some] at hrow
          rcases @applyCluster_summary started currentModel (attemptCluster sha256 events outcome c)
            row with hsame | ⟨hash, hstore⟩
          · exact .kept row _ hold hrow hsame
          · exact .stored sweep started outcome c rest events readAt row _ hash rfl hdue hreading rfl
              hold hrow hstore
  | other _ _ _ _ hrow _ _ _ =>
      cases hold : s.cluster.lookup key with
      | none => exact .fresh hold fun row' hrow' => by simp [hrow, hold] at hrow'
      | some row => exact .kept row row hold (hrow.trans hold) rfl

theorem EditorialStep.storesCluster {sweep : Nat} {started : DateTime} {reply : ModelReply}
    {x : StoredSummary}
    (h : EditorialStep (F := F) unicode cfg clusterId sha256 currentModel s (.record sweep started reply) s')
    (hstores : s.clusterStores unicode cfg sha256 sweep reply = some x) :
    ∃ key row, s'.summaries.cluster.lookup key = some row ∧ row.summary = x.summary := by
  obtain ⟨outcome, c, events, row, hash, ⟨rest, hdue⟩, ⟨readAt, hreading⟩,
      hanswer, hrow, hstore, _⟩ :=
    clusterStores_spec.mp hstores
  cases h.move with
  | record _ _ _ outcome' t houtcome hstep =>
      obtain rfl := Option.some.inj (hanswer.symm.trans houtcome)
      refine ⟨c.key, storeSummary started x.summary hash currentModel row, ?_, rfl⟩
      generalize hkey : c.key = key
      cases hstep.summarized key with
      | record _ _ _ c' rest' events' readAt' _ hdue' hreading' _ hrow' =>
          obtain ⟨rfl, rfl⟩ := List.cons.inj (hdue.symm.trans hdue')
          obtain ⟨rfl, rfl⟩ := Prod.mk.inj (Option.some.inj (hreading.symm.trans hreading'))
          rw [hrow, hstore] at hrow'
          exact hrow'
      | other _ _ _ _ _ _ _ hrecord => exact absurd hkey (hrecord _ _ _ c rest rfl hdue)

theorem EditorialStep.storesStory {sweep : Nat} {started : DateTime} {facts : List Facts}
    {reply : ModelReply} {x : StoredSummary}
    (h : EditorialStep (F := F) unicode cfg clusterId sha256 currentModel s
      (.recordStory sweep started facts reply) s')
    (hstores : s.storyStores unicode cfg sha256 currentModel sweep facts reply = some x) :
    ∃ (id : Uuid) (row : StoryRow), s'.story[id]? = some row ∧
      row.synthesis.summary = x.summary := by
  obtain ⟨outcome, d, members, row, sig, ⟨rest, hdue⟩, ⟨readAt, hreading⟩,
      hanswer, hrow, hstore, _⟩ :=
    storyStores_spec.mp hstores
  cases h.move with
  | recordStory _ _ _ _ outcome' t houtcome hstep =>
      obtain rfl := Option.some.inj (hanswer.symm.trans houtcome)
      refine ⟨d.id, { row with
        synthesis := storeStorySummary started x.summary sig currentModel }, ?_, rfl⟩
      have hwrite := hstep.storyWrite
      show t.story[d.id]? = _
      generalize t.story = table at hwrite ⊢
      cases hwrite with
      | record _ _ _ d' rest' members' readAt' hdue' hreading' =>
          obtain ⟨rfl, rfl⟩ := List.cons.inj (hdue.symm.trans hdue')
          obtain ⟨rfl, rfl⟩ := Prod.mk.inj (Option.some.inj (hreading.symm.trans hreading'))
          rw [getElem?_recordStory, if_pos rfl]
          show s.story[d.id]?.map _ = _
          rw [hrow, hstore]
          rfl
      | other _ _ hrecord => exact absurd rfl (hrecord _ _ _)

/-- What a step does to the summary of a group, with what a sweep stores. -/
inductive ClusterFate (unicode : UnicodeTables) (cfg : SummarizationConfig)
    (sha256 : List UInt8 → List UInt8) (s : Editorial) (act : EditorialAction F) (s' : Editorial)
    (key : GroupKey) : Prop
  | stored (sweep : Nat) (started : DateTime) (reply : ModelReply) (x : StoredSummary)
      (row row' : SummarizedCluster) (hact : act = .record sweep started reply)
      (hstores : s.clusterStores unicode cfg sha256 sweep reply = some x)
      (hbefore : s.summaries.cluster.lookup key = some row)
      (hafter : s'.summaries.cluster.lookup key = some row') (hsummary : row'.summary = x.summary)
  | fresh (hbefore : s.summaries.cluster.lookup key = none)
      (hafter : ∀ row', s'.summaries.cluster.lookup key = some row' → row'.summary = {})
  | kept (row row' : SummarizedCluster) (hbefore : s.summaries.cluster.lookup key = some row)
      (hafter : s'.summaries.cluster.lookup key = some row') (hsummary : row'.summary = row.summary)

theorem EditorialStep.clusterFate (h : EditorialStep unicode cfg clusterId sha256 currentModel s act s')
    (key : GroupKey) : ClusterFate unicode cfg sha256 s act s' key := by
  have hsame : s'.summaries = s.summaries → ClusterFate unicode cfg sha256 s act s' key := by
    intro heq
    cases hold : s.summaries.cluster.lookup key with
    | none => exact .fresh hold fun row' hrow' => by simp [heq, hold] at hrow'
    | some row => exact .kept row row hold (by rw [heq, hold]) rfl
  cases h.move with
  | summary act t hplain hstep =>
      cases hstep.column key with
      | stored sweep started outcome _ _ _ _ _ _ _ hact => exact absurd hact (hplain _ _ _)
      | fresh hbefore hafter => exact .fresh hbefore hafter
      | kept row row' hbefore hafter hsummary => exact .kept row row' hbefore hafter hsummary
  | record sweep started reply outcome t houtcome hstep =>
      cases hstep.column key with
      | stored sweep' started' outcome' c rest events readAt row row' hash hact hdue hreading hkey
          hbefore hafter hstore =>
          cases hact
          have hspec : StoresCluster unicode cfg sha256 s sweep reply outcome c events row hash
              ⟨row'.summary, extractFacts events, sourceCorpus events cfg.maxSourceChars⟩ :=
            ⟨⟨rest, hdue⟩, ⟨readAt, hreading⟩, houtcome, hkey ▸ hbefore, hstore, rfl, rfl⟩
          exact .stored sweep started reply _ row row' rfl
            (clusterStores_spec.mpr ⟨_, _, _, _, _, hspec⟩) hbefore hafter rfl
      | fresh hbefore hafter => exact .fresh hbefore hafter
      | kept row row' hbefore hafter hsummary => exact .kept row row' hbefore hafter hsummary
  | offer _ _ | story _ _ _ _ _ | recordStory _ _ _ _ _ _ _ _ => exact hsame rfl

/-- What a step does to the row of a story: its text and its members. -/
inductive StoryFate (unicode : UnicodeTables) (cfg : SummarizationConfig)
    (sha256 : List UInt8 → List UInt8) (currentModel : String) (s : Editorial)
    (act : EditorialAction F) (s' : Editorial) (id : Uuid) : Prop
  | stored (sweep : Nat) (started : DateTime) (facts : List Facts) (reply : ModelReply)
      (x : StoredSummary) (row row' : StoryRow) (hact : act = .recordStory sweep started facts reply)
      (hstores : s.storyStores unicode cfg sha256 currentModel sweep facts reply = some x)
      (hbefore : s.story[id]? = some row) (hafter : s'.story[id]? = some row')
      (hsummary : row'.synthesis.summary = x.summary) (hmembers : row'.members = row.members)
  | linked (candidates : List LinkCluster) (row' : StoryRow) (hoffered : candidates ∈ s.offered)
      (hafter : s'.story[id]? = some row')
      (hsummary : row'.synthesis.summary = ((s.story[id]?).map (·.synthesis.summary)).getD {})
      (hmembers : ∀ c ∈ row'.members, ∃ x ∈ candidates, x.id = c)
  | kept (row row' : StoryRow) (hbefore : s.story[id]? = some row)
      (hafter : s'.story[id]? = some row')
      (hsummary : row'.synthesis.summary = row.synthesis.summary)
      (hmembers : row'.members ⊆ row.members)
  | absent (hafter : s'.story[id]? = none)

omit [Score F] in
theorem apply_summary {now : DateTime} {model : String} {write : SweepWrite} {t : Synthesis} :
    (write.apply now model t).summary = t.summary ∨
      ∃ sig, write = .store (write.apply now model t).summary sig := by
  cases write with
  | store summary sig => exact Or.inr ⟨sig, rfl⟩
  | touch | skip | fail _ _ _ => exact Or.inl rfl

omit [Score F] in
theorem markRow_kept {now : DateTime} {sub : Uuid} {ids : List Uuid} {id : Uuid} {row : StoryRow} :
    (markRow now sub ids id row).synthesis = row.synthesis ∧
      (markRow now sub ids id row).members = row.members := by
  unfold markRow
  split <;> exact ⟨rfl, rfl⟩

theorem EditorialStep.storyFate (h : EditorialStep unicode cfg clusterId sha256 currentModel s act s')
    (hapart : ∀ sub, StoriesApart s.story sub) (id : Uuid) :
    StoryFate unicode cfg sha256 currentModel s act s' id := by
  have hsame : s'.story[id]? = s.story[id]? →
      StoryFate unicode cfg sha256 currentModel s act s' id := by
    intro heq
    cases hold : s.story[id]? with
    | none => exact .absent (heq.trans hold)
    | some row => exact .kept row row hold (heq.trans hold) rfl (List.Subset.refl _)
  cases h.move with
  | summary _ _ _ _ | record _ _ _ _ _ _ _ | offer _ _ => exact hsame rfl
  | story act t hplain hstep hoffered =>
      have hwrite := hstep.storyWrite
      have hstory : (s.withSyntheses t).story = t.story := rfl
      rw [← hstory] at hwrite
      generalize htable : (s.withSyntheses t).story = table at hwrite
      cases hwrite with
      | recompute r started hreads =>
          cases Recompute.rowFate hreads (hapart r.subscriber) started id with
          | written story hmem _ _ hrow =>
              refine .linked r.candidates _ (hoffered r started rfl) (htable ▸ hrow) ?_ ?_
              · rw [upsertRow_synthesis]
                show ((s.story[id]?.map StoryRow.synthesis).getD {}).summary = _
                cases s.story[id]? <;> rfl
              · intro c hc
                rw [upsertRow_members] at hc
                exact Recompute.candidate_iff.mp (placed_cluster ⟨story, hmem, rfl, hc⟩)
          | mergedAway survivor _ row _ hold _ _ _ hrow =>
              rw [← htable] at hrow
              exact .kept row _ hold hrow rfl (List.nil_subset _)
          | untouched _ _ hrow => exact hsame (htable ▸ hrow)
      | markDelivered sub ids =>
          have hrow : (s.withSyntheses t).story[id]? =
              s.story[id]?.map (markRow s.summaries.now sub ids id) := by
            rw [htable]
            exact markStoriesDelivered_getElem? _ _
          cases hold : s.story[id]? with
          | none => exact .absent (by rw [hrow, hold]; rfl)
          | some row =>
              rw [hold, Option.map_some] at hrow
              exact .kept row _ hold hrow (by rw [markRow_kept.1])
                (by rw [markRow_kept.2]; exact List.Subset.refl _)
      | record sweep started outcome _ _ _ _ _ _ => exact absurd rfl (hplain _ _ _)
      | other _ _ _ => exact hsame (by rw [htable]; rfl)
  | recordStory sweep started facts reply outcome t houtcome hstep =>
      have hwrite := hstep.storyWrite
      generalize htable : t.story = table at hwrite
      cases hwrite with
      | record _ _ _ d rest members readAt hdue hreading =>
          have hrow := @getElem?_recordStory currentModel s.story d.id id started
            (attemptStory sha256 currentModel members outcome d)
          replace hrow : t.story[id]? = _ := (congrArg (·[id]?) htable).trans hrow
          cases hold : s.story[id]? with
          | none =>
              refine .absent (hrow.trans ?_)
              rw [hold]
              split <;> rfl
          | some row =>
              by_cases hid : d.id = id
              · subst hid
                rw [if_pos rfl, hold, Option.map_some] at hrow
                rcases @apply_summary started currentModel (attemptStory sha256 currentModel members
                  outcome d) row.synthesis with hkept | ⟨sig, hstore⟩
                · exact .kept row _ hold hrow hkept (List.Subset.refl _)
                · have hspec : StoresStory unicode cfg sha256 currentModel s sweep facts reply outcome d
                      members row sig ⟨_, synthesizeFacts facts,
                        storyMemberCorpus (members.map (·.summary))⟩ :=
                    ⟨⟨rest, hdue⟩, ⟨readAt, hreading⟩, houtcome, hold, hstore, rfl, rfl⟩
                  exact .stored sweep started facts reply _ row _ rfl
                    (storyStores_spec.mpr ⟨_, _, _, _, _, hspec⟩) hold hrow rfl rfl
              · rw [if_neg hid, hold] at hrow
                exact .kept row row hold hrow rfl (List.Subset.refl _)
      | other _ _ hrecord => exact absurd rfl (hrecord _ _ _)

/-! ## Strict rendering -/

namespace Editorial

variable (unicode cfg clusterId)

/-- A stored summary with a headline, which the model wrote and the gates let through. -/
def Fit (s : Editorial) (summary : ClusterSummary) : Prop :=
  trim summary.headline ≠ "" ∧ ∃ x ∈ s.stored, x.summary = summary ∧
    ∃ reply, Kept unicode cfg reply x.facts x.source summary

def Gated (s : Editorial) (c : Uuid) : Prop :=
  ∃ key row, s.summaries.cluster.lookup key = some row ∧ clusterId key = c ∧ row.gatePassed = true

/-- Every stored summary that is shown has a headline. -/
structure StoredFit (s : Editorial) : Prop where
  cluster : ∀ key row, s.summaries.cluster.lookup key = some row → row.gatePassed = true →
    s.Fit unicode cfg row.summary
  story : ∀ (id : Uuid) (row : StoryRow), s.story[id]? = some row →
    row.synthesis.summary.isEmpty = false → s.Fit unicode cfg row.synthesis.summary

/-- And every item that a story is rendered as takes its headline from one of them. -/
structure Strict (s : Editorial) : Prop extends StoredFit unicode cfg s where
  item : ∀ (id : Uuid) (row : StoryRow), s.story[id]? = some row → ∀ sub ids item,
    buildRenderItem row.clusters (clusterCards (clusterView clusterId s.summaries.cluster) sub ids)
      (some row.synthesis.summary) = some item →
    ∃ summary, s.Fit unicode cfg summary ∧ item.headline = summary.headline

/-- Only clusters with such a summary are offered, and only they are in stories. -/
structure OnlyGated (s : Editorial) : Prop where
  offered : ∀ candidates ∈ s.offered, ∀ x ∈ candidates, s.Gated clusterId x.id
  member : ∀ (id : Uuid) (row : StoryRow), s.story[id]? = some row → ∀ c ∈ row.members,
    s.Gated clusterId c
  apart : ∀ sub, StoriesApart s.story sub

end Editorial

/-- A sweep stores what a model wrote that gave no headline; for a story, with some text. -/
def StoresHeadless (unicode : UnicodeTables) (cfg : SummarizationConfig)
    (sha256 : List UInt8 → List UInt8) (currentModel : String)
    (t : Run.Transition Editorial (EditorialAction F)) : Prop :=
  match t.action with
  | .record sweep _ reply =>
      (t.before.clusterStores unicode cfg sha256 sweep reply).isSome ∧ reply.Headless
  | .recordStory sweep _ facts reply =>
      (t.before.storyStores unicode cfg sha256 currentModel sweep facts reply).isSome ∧
        reply.Headless ∧ reply.Worded
  | _ => False

instance (t : Run.Transition Editorial (EditorialAction F)) :
    Decidable (StoresHeadless unicode cfg sha256 currentModel t) :=
  match h : t.action with
  | .record sweep _ reply => decidable_of_iff
      ((t.before.clusterStores unicode cfg sha256 sweep reply).isSome ∧ reply.Headless)
      (by simp [StoresHeadless, h])
  | .recordStory sweep _ facts reply => decidable_of_iff
      ((t.before.storyStores unicode cfg sha256 currentModel sweep facts reply).isSome ∧
        reply.Headless ∧ reply.Worded) (by simp [StoresHeadless, h])
  | .summary _ | .offer _ | .story _ => isFalse (by simp [StoresHeadless, h])

/-! ### What is stored -/

theorem EditorialStep.stored (h : EditorialStep unicode cfg clusterId sha256 currentModel s act s') :
    s.stored ⊆ s'.stored := by
  cases h.move with
  | summary _ _ _ _ | offer _ _ | story _ _ _ _ _ => exact List.Subset.refl _
  | record _ _ _ _ _ _ _ | recordStory _ _ _ _ _ _ _ _ => exact List.subset_append_right _ _

theorem Editorial.Fit.step (h : EditorialStep unicode cfg clusterId sha256 currentModel s act s')
    {summary : ClusterSummary} (hfit : s.Fit unicode cfg summary) : s'.Fit unicode cfg summary := by
  obtain ⟨hheadline, x, hx, hrest⟩ := hfit
  exact ⟨hheadline, x, h.stored hx, hrest⟩

omit [Score F] in
theorem isEmpty_iff {summary : ClusterSummary} :
    summary.isEmpty = true ↔ trim summary.headline = "" ∧ trim summary.tldrText = "" := by
  simp [ClusterSummary.isEmpty]

theorem not_storedFit {t : Run.Transition Editorial (EditorialAction F)}
    (h : EditorialStep unicode cfg clusterId sha256 currentModel t.before t.action t.after)
    (hheadless : StoresHeadless unicode cfg sha256 currentModel t) :
    ¬ t.after.StoredFit unicode cfg := by
  intro hfit
  obtain ⟨s, act, s'⟩ := t
  cases act with
  | record sweep started reply =>
      obtain ⟨hstores, hblank⟩ := hheadless
      obtain ⟨x, hx⟩ := Option.isSome_iff_exists.mp hstores
      have hkept := kept_of_clusterStores hx
      obtain ⟨key, row, hrow, hsummary⟩ := h.storesCluster hx
      have hpassed : row.gatePassed = true := by
        rw [SummarizedCluster.gatePassed, hsummary, hkept.band]
        rfl
      apply (hfit.cluster key row hrow hpassed).1
      rw [hsummary]
      exact hkept.headline_blank.mpr hblank
  | recordStory sweep started facts reply =>
      obtain ⟨hstores, hblank, hworded⟩ := hheadless
      obtain ⟨x, hx⟩ := Option.isSome_iff_exists.mp hstores
      have hkept := kept_of_storyStores hx
      obtain ⟨id, row, hrow, hsummary⟩ := h.storesStory hx
      have hshown : row.synthesis.summary.isEmpty = false := by
        rw [Bool.eq_false_iff, Ne, isEmpty_iff, hsummary, hkept.text_blank]
        exact fun hempty => hempty.2 hworded
      apply (hfit.story id row hrow hshown).1
      rw [hsummary]
      exact hkept.headline_blank.mpr hblank
  | summary _ | offer _ | story _ => exact hheadless

theorem EditorialStep.storedFit (h : EditorialStep unicode cfg clusterId sha256 currentModel s act s')
    (hapart : ∀ sub, StoriesApart s.story sub) (hfit : s.StoredFit unicode cfg)
    (hno : ¬ StoresHeadless unicode cfg sha256 currentModel ⟨s, act, s'⟩) :
    s'.StoredFit unicode cfg := by
  refine ⟨?_, ?_⟩
  · intro key row' hrow' hpassed
    cases h.clusterFate key with
    | stored sweep started reply x row row'' hact hstores _ hafter hsummary =>
        obtain rfl := Option.some.inj (hafter.symm.trans hrow')
        subst hact
        have hkept := kept_of_clusterStores hstores
        have hheadline : ¬ reply.Headless := fun hblank => hno ⟨by rw [hstores]; rfl, hblank⟩
        have hmem : x ∈ s'.stored := by
          cases h.move with
          | record _ _ _ _ _ _ _ =>
              rw [hstores]
              exact List.mem_cons_self
        rw [hsummary]
        exact ⟨fun hblank => hheadline (hkept.headline_blank.mp hblank), x, hmem, rfl, reply, hkept⟩
    | fresh _ hafter =>
        rw [SummarizedCluster.gatePassed, hafter row' hrow'] at hpassed
        cases hpassed
    | kept row row'' hbefore hafter hsummary =>
        obtain rfl := Option.some.inj (hafter.symm.trans hrow')
        rw [hsummary]
        refine (hfit.cluster key row hbefore ?_).step h
        rwa [SummarizedCluster.gatePassed, hsummary] at hpassed
  · intro id row' hrow' hshown
    cases h.storyFate hapart id with
    | stored sweep started facts reply x row row'' hact hstores _ hafter hsummary _ =>
        obtain rfl := Option.some.inj (hafter.symm.trans hrow')
        subst hact
        have hkept := kept_of_storyStores hstores
        have hmem : x ∈ s'.stored := by
          cases h.move with
          | recordStory _ _ _ _ _ _ _ _ =>
              rw [hstores]
              exact List.mem_cons_self
        rw [hsummary, Bool.eq_false_iff, Ne, isEmpty_iff, hkept.headline_blank,
          hkept.text_blank] at hshown
        rw [hsummary]
        refine ⟨?_, x, hmem, rfl, reply, hkept⟩
        intro hblank
        rw [hkept.headline_blank] at hblank
        -- a text with neither headline nor words counts as none
        exact hshown ⟨hblank, fun hworded => hno ⟨by rw [hstores]; rfl, hblank, hworded⟩⟩
    | linked candidates row'' _ hafter hsummary _ =>
        obtain rfl := Option.some.inj (hafter.symm.trans hrow')
        cases hold : s.story[id]? with
        | none =>
            rw [hsummary, hold] at hshown
            exact absurd hshown (by decide +kernel)
        | some row =>
            rw [hold, Option.map_some, Option.getD_some] at hsummary
            rw [hsummary] at hshown ⊢
            exact (hfit.story id row hold hshown).step h
    | kept row row'' hbefore hafter hsummary _ =>
        obtain rfl := Option.some.inj (hafter.symm.trans hrow')
        rw [hsummary] at hshown ⊢
        exact (hfit.story id row hbefore hshown).step h
    | absent hafter => cases hafter.symm.trans hrow'

/-! ### Who is in a story -/

theorem Editorial.Gated.step (h : EditorialStep unicode cfg clusterId sha256 currentModel s act s')
    {c : Uuid} (hgated : s.Gated clusterId c) : s'.Gated clusterId c := by
  obtain ⟨key, row, hrow, hid, hpassed⟩ := hgated
  cases h.clusterFate key with
  | stored sweep started reply x _ row' _ hstores _ hafter hsummary =>
      refine ⟨key, row', hafter, hid, ?_⟩
      rw [SummarizedCluster.gatePassed, hsummary, (kept_of_clusterStores hstores).band]
      rfl
  | fresh hbefore _ => cases hrow.symm.trans hbefore
  | kept row'' row' hbefore hafter hsummary =>
      obtain rfl := Option.some.inj (hbefore.symm.trans hrow)
      refine ⟨key, row', hafter, hid, ?_⟩
      rwa [SummarizedCluster.gatePassed, hsummary]

theorem gated_of_linkClusters {read : CandidateRead} (hgate : read.requireSummary = true)
    {x : LinkCluster}
    (hx : x ∈ read.linkClusters s.summaries.now s.summaries.cluster clusterId) :
    s.Gated clusterId x.id := by
  unfold CandidateRead.linkClusters at hx
  obtain ⟨key, hkey, hrow⟩ := List.mem_filterMap.mp ((List.mem_insertionSort _).mp hx)
  obtain ⟨row, hlookup, rfl⟩ := Option.map_eq_some_iff.mp hrow
  obtain ⟨row', hlookup', hpassed⟩ := CandidateRead.gated_of_mem hgate hkey
  exact ⟨key, row', hlookup', rfl, hpassed⟩

theorem EditorialStep.apart (h : EditorialStep unicode cfg clusterId sha256 currentModel s act s')
    (hapart : ∀ sub, StoriesApart s.story sub) (sub : Uuid) : StoriesApart s'.story sub := by
  cases h.move with
  | summary _ _ _ _ | record _ _ _ _ _ _ _ | offer _ _ => exact hapart sub
  | story act t _ hstep _ => exact SynthesisStep.apart hstep hapart sub
  | recordStory _ _ _ _ outcome t _ hstep => exact SynthesisStep.apart hstep hapart sub

theorem EditorialStep.onlyGated (h : EditorialStep unicode cfg clusterId sha256 currentModel s act s')
    (honly : s.OnlyGated clusterId) : s'.OnlyGated clusterId := by
  refine ⟨?_, ?_, h.apart honly.apart⟩
  · intro candidates hcandidates x hx
    have hold : candidates ∈ s.offered → s'.Gated clusterId x.id :=
      fun hin => (honly.offered candidates hin x hx).step h
    cases h.move with
    | offer read hgate =>
        rcases List.mem_cons.mp hcandidates with rfl | hin
        · exact gated_of_linkClusters (s := s) hgate hx
        · exact hold hin
    | summary _ _ _ _ | record _ _ _ _ _ _ _ | story _ _ _ _ _ | recordStory _ _ _ _ _ _ _ _ =>
        exact hold hcandidates
  · intro id row' hrow' c hc
    cases h.storyFate honly.apart id with
    | stored _ _ _ _ _ row row'' _ _ hbefore hafter _ hmembers =>
        obtain rfl := Option.some.inj (hafter.symm.trans hrow')
        exact (honly.member id row hbefore c (hmembers ▸ hc)).step h
    | linked candidates row'' hoffered hafter _ hmembers =>
        obtain rfl := Option.some.inj (hafter.symm.trans hrow')
        obtain ⟨x, hx, rfl⟩ := hmembers c hc
        exact (honly.offered candidates hoffered x hx).step h
    | kept row row'' hbefore hafter _ hmembers =>
        obtain rfl := Option.some.inj (hafter.symm.trans hrow')
        exact (honly.member id row hbefore c (hmembers hc)).step h
    | absent hafter => cases hafter.symm.trans hrow'

/-! ### What is rendered -/

omit [Score F] in
theorem getElem?_clusterView {table : SummarizedTable} {key : GroupKey} {row : ClusterRow} :
    (clusterView clusterId table)[clusterId key]? = some row ↔
      ∃ sum, table.lookup key = some sum ∧ sum.clusterRow key = row := by
  unfold clusterView
  have hkeys : ((table.entries.map fun e => (clusterId e.1, e.2.clusterRow e.1)).map
      Prod.fst).Nodup := by
    rw [List.map_map]
    have hnodup : (table.entries.map Sigma.fst).Nodup := table.nodupKeys
    have heq : table.entries.map (Prod.fst ∘ fun e => (clusterId e.1, e.2.clusterRow e.1)) =
        (table.entries.map Sigma.fst).map clusterId := by
      rw [List.map_map]
      rfl
    rw [heq]
    exact hnodup.map clusterId.injective
  rw [getElem?_ofList hkeys]
  constructor
  · intro h
    obtain ⟨e, he, heq⟩ := List.mem_map.mp h
    obtain ⟨hid, hrow⟩ := Prod.mk.inj heq
    obtain rfl := clusterId.injective hid
    exact ⟨e.2, AList.mem_lookup_iff.mpr he, hrow⟩
  · intro h
    obtain ⟨sum, hsum, rfl⟩ := h
    exact List.mem_map.mpr ⟨⟨key, sum⟩, AList.mem_lookup_iff.mp hsum, rfl⟩

omit [Score F] in
theorem row_of_card {cluster : ClusterTable} {sub : Uuid} {ids : List Uuid} {c : Uuid}
    {card : ClusterCard} (h : (clusterCards cluster sub ids)[c]? = some card) :
    ∃ row, cluster[c]? = some row ∧ row.card = card := by
  unfold clusterCards readClusters at h
  have hkeys : (((cluster.toList.filter fun entry => entry.1 ∈ ids ∧
      entry.2.key.scope.visibleTo sub).map fun entry => (entry.1, entry.2.card)).map
        Prod.fst).Nodup := by
    rw [List.map_map]
    have hnodup : (cluster.toList.map Prod.fst).Nodup := by
      rw [Std.ExtTreeMap.map_fst_toList_eq_keys]
      exact Std.ExtTreeMap.nodup_keys
    exact hnodup.sublist (List.filter_sublist.map Prod.fst)
  rw [getElem?_ofList hkeys] at h
  obtain ⟨entry, hentry, heq⟩ := List.mem_map.mp h
  obtain ⟨rfl, rfl⟩ := Prod.mk.inj heq
  exact ⟨entry.2, Std.ExtTreeMap.mem_toList_iff_getElem?_eq_some.mp (List.mem_filter.mp hentry).1, rfl⟩

omit [Score F] in
theorem headline_of_item {members : List ClusterRef} {cards : Cards} {summary : ClusterSummary}
    {item : RenderItem} (h : buildRenderItem members cards (some summary) = some item) :
    ∃ chosen : ClusterSummary, (chosen = summary ∧ summary.isEmpty = false ∨
        ∃ m ∈ members, ∃ card, cards[m.clusterId]? = some card ∧ chosen = card.summary) ∧
      (trim chosen.headline ≠ "" → item.headline = chosen.headline) := by
  unfold buildRenderItem at h
  cases hres : resolvedMembers members cards with
  | nil => simp [hres] at h
  | cons first others =>
      simp only [hres, Option.some.injEq] at h
      subst h
      refine ⟨chosenSummary (some summary) first.2, ?_, ?_⟩
      · cases hempty : summary.isEmpty with
        | false =>
            refine Or.inl ⟨?_, rfl⟩
            unfold chosenSummary
            rw [Option.filter_some, hempty]
            rfl
        | true =>
            refine Or.inr ?_
            have hfirst : first ∈ resolvedMembers members cards := by simp [hres]
            obtain ⟨m, hm, hresolved⟩ :=
              List.mem_filterMap.mp ((List.mem_insertionSort _).mp hfirst)
            obtain ⟨card, hcard, rfl⟩ := Option.map_eq_some_iff.mp hresolved
            exact ⟨m, hm, card, hcard, chosenSummary_of_isEmpty hempty card⟩
      · intro hne
        simp only [hne, if_false]

omit [Score F] in
theorem Editorial.StoredFit.strict (hfit : s.StoredFit unicode cfg)
    (honly : s.OnlyGated clusterId) :
    s.Strict unicode cfg clusterId := by
  refine ⟨hfit, ?_⟩
  intro id row hrow sub ids item hitem
  obtain ⟨chosen, hchosen, hheadline⟩ := headline_of_item hitem
  have hchosenFit : s.Fit unicode cfg chosen := by
    rcases hchosen with ⟨rfl, hshown⟩ | ⟨m, hm, card, hcard, rfl⟩
    · exact hfit.story id row hrow hshown
    · obtain ⟨key, sum, hsum, hid, hpassed⟩ :=
        honly.member id row hrow m.clusterId (List.mem_map_of_mem hm)
      obtain ⟨clusterRow, hclusterRow, rfl⟩ := row_of_card hcard
      rw [← hid] at hclusterRow
      obtain ⟨sum', hsum', rfl⟩ := getElem?_clusterView.mp hclusterRow
      obtain rfl := Option.some.inj (hsum.symm.trans hsum')
      exact hfit.cluster key sum hsum hpassed
  exact ⟨chosen, hchosenFit, hheadline hchosenFit.1⟩

/-! ### Runs -/

variable {ts : List (Run.Transition Editorial (EditorialAction F))}

theorem EditorialRuns.onlyGated (h : EditorialRuns unicode cfg clusterId sha256 currentModel ts s) :
    s.OnlyGated clusterId := by
  refine Run.Runs.state_invariant h (fun s => s.OnlyGated clusterId) ?_
    fun _ _ hstep => EditorialStep.onlyGated hstep
  refine ⟨fun _ hc => absurd hc List.not_mem_nil, ?_, storiesApart_empty⟩
  intro id row hrow
  cases hrow

/-- In every run each rendered headline is one that the model wrote and the gates let through,
exactly when no sweep stores what the model wrote without a headline. -/
theorem strict_summaries_iff (h : EditorialRuns unicode cfg clusterId sha256 currentModel ts s) :
    (∀ t ∈ ts, t.after.Strict unicode cfg clusterId) ↔
      ∀ t ∈ ts, ¬ StoresHeadless unicode cfg sha256 currentModel t := by
  have honly : ∀ t ∈ ts, t.before.OnlyGated clusterId ∧ t.after.OnlyGated clusterId := by
    intro t ht
    obtain ⟨pre, _, _, hpre⟩ := h.before_of_mem ht
    have hbefore := EditorialRuns.onlyGated hpre
    exact ⟨hbefore, EditorialStep.onlyGated (h.step_of_mem ht) hbefore⟩
  have hempty : ({} : Editorial).StoredFit unicode cfg := by
    refine ⟨fun key row hrow => ?_, fun id row hrow => ?_⟩ <;> cases hrow
  have hfit := Run.Runs.throughout_iff
    (Q := fun s => s.StoredFit unicode cfg) h hempty fun t ht hbefore =>
    ⟨fun hafter hheadless => not_storedFit (h.step_of_mem ht) hheadless hafter,
      EditorialStep.storedFit (h.step_of_mem ht) (honly t ht).1.apart hbefore⟩
  rw [← hfit]
  exact forall₂_congr fun t ht => ⟨fun hstrict => hstrict.toStoredFit,
    fun hstored => hstored.strict (honly t ht).2⟩

/-! ### Executable runs -/

/-- A step of a script; a recompute links the candidates last offered. -/
inductive EditorialCue (F : Type) where
  | recompute (sub : Uuid) (base : Nat) (started : DateTime)
  | other (act : EditorialAction F)

/-- The action of an entry where it stands, and the state after it. -/
def Editorial.play (unicode : UnicodeTables) (cfg : SummarizationConfig)
    (clusterId : GroupKey ↪ Uuid)
    (sha256 : List UInt8 → List UInt8) (currentModel : String) (s : Editorial)
    (cue : EditorialCue F) : Option (EditorialAction F × Editorial) :=
  match cue with
  | .recompute sub base started =>
      s.offered.head?.bind fun candidates =>
        if (candidates.map (·.id)).Nodup ∧ ∀ k ∈ s.story.keys, k < base then
          let act : EditorialAction F :=
            .story (.recompute (.onTable s.story sub candidates {} base) started)
          (s.next unicode cfg clusterId sha256 currentModel act).map fun s' => (act, s')
        else none
  | .other (.story (.recompute _ _)) => none
  | .other act => (s.next unicode cfg clusterId sha256 currentModel act).map fun s' => (act, s')

theorem Editorial.play_step {cue : EditorialCue F}
    (h : s.play unicode cfg clusterId sha256 currentModel cue = some (act, s')) :
    EditorialStep unicode cfg clusterId sha256 currentModel s act s' := by
  unfold Editorial.play at h
  split at h
  · next sub base started =>
      obtain ⟨candidates, hhead, h⟩ := Option.bind_eq_some_iff.mp h
      obtain ⟨hcan, h⟩ := Option.ite_none_right_eq_some.mp h
      obtain ⟨rfl, hnext⟩ := Run.eq_some_of_paired h
      refine ⟨?_, hnext⟩
      intro r t heq
      cases heq
      exact ⟨Recompute.onTable_reads hcan.1 hcan.2, List.mem_of_mem_head? hhead⟩
  · cases h
  · next act hplain =>
      obtain ⟨rfl, hnext⟩ := Run.eq_some_of_paired h
      exact ⟨fun r started heq => absurd heq (hplain r started), hnext⟩

theorem Editorial.play_ends {script : List (EditorialCue F)} {p : Editorial → Bool}
    (h : (Run.execute (Editorial.play unicode cfg clusterId sha256 currentModel) {} script).any p =
      true) : ∃ s, EditorialRuns unicode cfg clusterId sha256 currentModel
        (Run.transitions (Editorial.play unicode cfg clusterId sha256 currentModel) {} script) s ∧
      p s = true :=
  Run.execute_ends (fun _ _ _ _ => Editorial.play_step) h

end Steps

/-! ## A blank headline -/

def noteId : GroupKey ↪ Uuid where
  toFun key := Encodable.encode
    ((match key.scope with
      | .ofPublic => 0
      | .ofPrivate owner => owner + 1,
      match key.source with
      | .rss => 0
      | .github => 1
      | .slack => 2, key.groupKey.toList.map Char.toNat) : Nat × Nat × List Nat)
  inj' := by
    intro a b h
    obtain ⟨scope, source, groupKey⟩ := a
    obtain ⟨scope', source', groupKey'⟩ := b
    obtain ⟨hscope, hrest⟩ := Prod.mk.inj (Encodable.encode_injective h)
    obtain ⟨hsource, hkey⟩ := Prod.mk.inj hrest
    obtain rfl : scope = scope' := by
      cases scope with
      | ofPublic => cases scope' with
        | ofPublic => rfl
        | ofPrivate _ => cases hscope
      | ofPrivate owner => cases scope' with
        | ofPublic => cases hscope
        | ofPrivate _ => rw [Nat.succ.inj hscope]
    obtain rfl : source = source' := by
      cases source <;> cases source' <;> first | rfl | cases hsource
    have hchars : groupKey.toList = groupKey'.toList :=
      List.map_injective_iff.mpr (fun c d hcd => Char.toNat_inj.mp hcd) hkey
    obtain rfl := String.toList_inj.mp hchars
    rfl

/-- A cluster is built, summarized with this reply, offered, and made a story. -/
def noteEditorial (out : ModelOutput) : List (EditorialCue ℚ) :=
  [.other (.summary (.build noteKey 1 [noteEvent 1])),
    .other (.summary (.loadQueue 0 .ofPublic 10 [noteKey])), .other (.summary (.readEvents 0)),
    .other (.record 0 1 { output := .ok out }), .other (.offer noteRead), .recompute 7 100 1]

def noteEditorialRun (out : ModelOutput) : List (Run.Transition Editorial (EditorialAction ℚ)) :=
  Run.transitions (Editorial.play asciiTables { maxSourceChars := 100 } noteId plainDigest "m") {}
    (noteEditorial out)

def noteHeadlines (s : Editorial) : List String :=
  s.story.toList.filterMap fun entry =>
    (buildRenderItem entry.2.clusters
      (clusterCards (clusterView noteId s.summaries.cluster) 7 entry.2.members)
      (some entry.2.synthesis.summary)).map (·.headline)

theorem noteEditorial_ends {out : ModelOutput} {p : Editorial → Bool}
    (h : (Run.execute (Editorial.play asciiTables { maxSourceChars := 100 } noteId plainDigest "m") {}
      (noteEditorial out)).any p = true) : ∃ s,
    EditorialRuns asciiTables { maxSourceChars := 100 } noteId plainDigest "m"
      (noteEditorialRun out) s ∧
      p s = true :=
  Editorial.play_ends h

theorem strict_summaries_iff_note : ∃ s,
    EditorialRuns asciiTables { maxSourceChars := 100 } noteId plainDigest "m"
      (noteEditorialRun { headline := "Note" }) s ∧ noteHeadlines s = ["Note"] ∧
    ∀ t ∈ noteEditorialRun { headline := "Note" },
      t.after.Strict asciiTables { maxSourceChars := 100 } noteId := by
  obtain ⟨s, hrun, hheadlines⟩ := @noteEditorial_ends { headline := "Note" }
    (fun s => noteHeadlines s = ["Note"]) (by decide +kernel)
  have hno : ∀ t ∈ noteEditorialRun { headline := "Note" },
      ¬ StoresHeadless asciiTables { maxSourceChars := 100 } plainDigest "m" t := by
    decide +kernel
  exact ⟨s, hrun, of_decide_eq_true hheadlines, (strict_summaries_iff hrun).mpr hno⟩

/-- The gate has nothing to object to where there is nothing to read. The summary is stored as
confirmed, and the item shows the title of the feed. -/
theorem blank_headline_renders_title : ∃ s,
    EditorialRuns asciiTables { maxSourceChars := 100 } noteId plainDigest "m"
      (noteEditorialRun { headline := " " }) s ∧ noteHeadlines s = ["note"] ∧
    (∃ row, s.summaries.cluster.lookup noteKey = some row ∧ row.summary = { band := .confirmed }) ∧
    faithful asciiTables { band := .confirmed } (extractFacts [noteEvent 1])
      (sourceCorpus [noteEvent 1] 100) = .ok () ∧
    ¬ ∀ t ∈ noteEditorialRun { headline := " " },
      t.after.Strict asciiTables { maxSourceChars := 100 } noteId := by
  obtain ⟨s, hrun, hends⟩ := @noteEditorial_ends { headline := " " }
    (fun s => noteHeadlines s = ["note"] ∧
      (s.summaries.cluster.lookup noteKey).map (·.summary) = some { band := .confirmed })
    (by decide +kernel)
  obtain ⟨hheadlines, hrow⟩ := of_decide_eq_true hends
  have hheadless : ∃ t ∈ noteEditorialRun { headline := " " },
      StoresHeadless asciiTables { maxSourceChars := 100 } plainDigest "m" t := by
    decide +kernel
  obtain ⟨t, ht, hstores⟩ := hheadless
  refine ⟨s, hrun, hheadlines, Option.map_eq_some_iff.mp hrow, by decide +kernel, ?_⟩
  intro hstrict
  exact not_storedFit (hrun.step_of_mem ht) hstores (hstrict t ht).toStoredFit

end Bulletin
