import Bulletin.Core.Unwinding
import Bulletin.Digest.Select
import Bulletin.Link.Foreign
import Bulletin.System.Attested
import Bulletin.System.Db
import Bulletin.System.Hidden

/-! # Tenants

Ingestion and builds of every scope, with the recomputes that read the clusters. Two
histories that differ only in the private events of one subscriber look the same to all
others. Ids are drawn by the steps, and both histories draw the same ones where they agree.
-/

namespace Bulletin

structure Tenants where
  content : Content := {}
  /-- What the summary sweeps have written on the clusters. -/
  summary : GroupKey → ClusterSummary := fun _ => {}
  story : StoryTable := ∅

inductive TenantAction (F : Type) where
  /-- Ingestion, a build, or one of their writers. -/
  | content (act : ContentAction)
  | summarize (key : GroupKey) (summary : ClusterSummary)
  /-- A subscriber reads candidates and links them. -/
  | recompute (read : CandidateRead) (tuning : LinkTuning F) (mint : Nat → Uuid)
  | markDelivered (sub : Uuid) (stories : List Uuid)

/-! ## The cluster table -/

def clusterEntries (log : List Event) (cluster : ClusterCache)
    (summary : GroupKey → ClusterSummary) : List (Sigma fun _ : GroupKey => SummarizedCluster) :=
  (log.map (·.key)).dedup.filterMap fun key =>
    (cluster key).map fun row => ⟨key, { row with summary := summary key }⟩

theorem mem_clusterEntries {log : List Event} {cluster : ClusterCache}
    {summary : GroupKey → ClusterSummary} {key : GroupKey} {row : SummarizedCluster} :
    ⟨key, row⟩ ∈ clusterEntries log cluster summary ↔ (∃ e ∈ log, e.key = key) ∧
      ∃ cached, cluster key = some cached ∧ row = { cached with summary := summary key } := by
  unfold clusterEntries
  rw [List.mem_filterMap]
  constructor
  · rintro ⟨k, hk, hrow⟩
    obtain ⟨cached, hcached, heq⟩ := Option.map_eq_some_iff.mp hrow
    cases heq
    rw [List.mem_dedup, List.mem_map] at hk
    exact ⟨hk, cached, hcached, rfl⟩
  · rintro ⟨hk, cached, hcached, rfl⟩
    refine ⟨key, List.mem_dedup.mpr (List.mem_map.mpr hk), ?_⟩
    rw [hcached]
    rfl

theorem nodupKeys_clusterEntries (log : List Event) (cluster : ClusterCache)
    (summary : GroupKey → ClusterSummary) : (clusterEntries log cluster summary).NodupKeys := by
  unfold List.NodupKeys List.keys clusterEntries
  rw [List.map_filterMap]
  have hkeys : ∀ key key' k : GroupKey, k ∈ Option.map Sigma.fst ((cluster key).map fun row =>
      (⟨key, { row with summary := summary key }⟩ : Sigma fun _ : GroupKey => SummarizedCluster)) →
      k ∈ Option.map Sigma.fst ((cluster key').map fun row =>
        (⟨key', { row with summary := summary key' }⟩ :
          Sigma fun _ : GroupKey => SummarizedCluster)) → key = key' := by
    intro key key' k hk hk'
    simp only [Option.map_map, Option.mem_def, Option.map_eq_some_iff, Function.comp] at hk hk'
    obtain ⟨_, _, rfl⟩ := hk
    obtain ⟨_, _, rfl⟩ := hk'
    rfl
  exact (List.nodup_dedup _).filterMap hkeys

/-- The cluster table as candidate reads see it. -/
def Tenants.table (s : Tenants) : SummarizedTable :=
  ⟨clusterEntries s.content.event s.content.cluster s.summary, nodupKeys_clusterEntries _ _ _⟩

theorem dedup_filter {α : Type} [DecidableEq α] (p : α → Bool) (l : List α) :
    l.dedup.filter p = (l.filter p).dedup := by
  induction l with
  | nil => rfl
  | cons a l ih =>
      by_cases ha : a ∈ l
      · rw [List.dedup_cons_of_mem ha, ih]
        cases hp : p a with
        | false => rw [List.filter_cons_of_neg (by simp [hp])]
        | true =>
            rw [List.filter_cons_of_pos hp, List.dedup_cons_of_mem (List.mem_filter.mpr ⟨ha, hp⟩)]
      · rw [List.dedup_cons_of_notMem ha]
        cases hp : p a with
        | false =>
            rw [List.filter_cons_of_neg (by simp [hp]), List.filter_cons_of_neg (by simp [hp]), ih]
        | true =>
            rw [List.filter_cons_of_pos hp, List.filter_cons_of_pos hp, ih,
              List.dedup_cons_of_notMem]
            exact fun hin => ha (List.mem_filter.mp hin).1

theorem othersClusters_entries {sub : Uuid} {s t : Tenants}
    (hcontent : s.content.Alike sub t.content)
    (hsummary : ∀ key : GroupKey, key.scope ≠ .ofPrivate sub → s.summary key = t.summary key) :
    othersClusters sub s.table = othersClusters sub t.table := by
  have hentries : ∀ s : Tenants, othersClusters sub s.table =
      ((shown sub s.content.event).map (·.key)).dedup.filterMap fun key =>
        (s.content.cluster key).map fun row =>
          (⟨key, { row with summary := s.summary key }⟩ : Sigma fun _ => SummarizedCluster) := by
    intro s
    have hkeys : (s.content.event.map (·.key)).dedup.filter (fun key =>
      key.scope ≠ .ofPrivate sub) =
        ((shown sub s.content.event).map (·.key)).dedup := by
      rw [dedup_filter, List.filter_map]
      rfl
    unfold othersClusters
    show (clusterEntries _ _ _).filter _ = _
    unfold clusterEntries
    rw [← hkeys, List.filter_filterMap, List.filterMap_filter]
    refine List.filterMap_congr fun key _ => ?_
    cases s.content.cluster key with
    | none => simp
    | some row => by_cases hscope : key.scope = .ofPrivate sub <;> simp [hscope]
  rw [hentries, hentries, hcontent.event]
  refine List.filterMap_congr fun key hkey => ?_
  obtain ⟨e, he, rfl⟩ := List.mem_map.mp (List.mem_dedup.mp hkey)
  have hscope : e.key.scope ≠ .ofPrivate sub := of_decide_eq_true (List.mem_filter.mp he).2
  rw [hcontent.cluster e.key hscope, hsummary e.key hscope]

/-! ## Steps -/

section Steps

variable {F : Type} [Score F] (clusterId : GroupKey → Uuid)

def Tenants.recompute (s : Tenants) (read : CandidateRead) (prior : List PriorMember)
    (tuning : LinkTuning F) (mint : Nat → Uuid) : Recompute F where
  subscriber := read.subscriber
  candidates := read.linkClusters s.content.now s.table clusterId
  prior := prior
  tuning := tuning
  mint := mint

inductive TenantStep (s : Tenants) : TenantAction F → Tenants → Prop
  | content (act : ContentAction) (content : Content)
      (hcontent : ContentStep s.content act content) :
      TenantStep s (.content act) { s with content := content }
  | summarize (key : GroupKey) (summary : ClusterSummary) : TenantStep s (.summarize key summary)
      { s with summary := Function.update s.summary key summary }
  | recompute (read : CandidateRead) (tuning : LinkTuning F) (mint : Nat → Uuid) (r : Recompute F)
      (hread : r = s.recompute clusterId read r.prior tuning mint) (hreads : r.Reads s.story) :
      TenantStep s (.recompute read tuning mint)
        { s with story := r.persist s.content.now s.story }
  | markDelivered (sub : Uuid) (stories : List Uuid) : TenantStep s (.markDelivered sub stories)
      { s with story := markStoriesDelivered s.content.now sub stories s.story }

abbrev TenantRuns (ts : List (Run.Transition Tenants (TenantAction F))) (s : Tenants) : Prop :=
  Run.Runs (TenantStep clusterId) {} ts s

/-- What everyone else may see of an action: not the events, the builds, the summaries and the
stories of the subscriber. -/
def TenantAction.beside (sub : Uuid) : TenantAction F → Bool
  | content act => act.scope ≠ some (.ofPrivate sub)
  | summarize key _ => key.scope ≠ .ofPrivate sub
  | recompute read _ _ => read.subscriber ≠ sub
  | markDelivered owner _ => owner ≠ sub

end Steps

/-! ## What a row is folded from -/

/-- Every row is the rollup of events of its own group as they once stood in the log, but for the
depth that a long article has raised since. -/
def Content.FoldsOwn (s : Content) : Prop :=
  ∀ key row, s.cluster key = some row → ∃ events, (∀ e ∈ events, e.key = key ∧ s.Remembers e) ∧
    ∃ r, rollup events = some r ∧
      (row.rollup = r ∨ row.rollup = { r with contentDepth := .longform })

section Folds

variable {s s' : Content} {act : ContentAction}

theorem Content.FoldsOwn.group (hown : s.FoldsOwn) {key : GroupKey} {row : CachedCluster}
    (hrow : s.cluster key = some row) : ∃ e ∈ s.event, e.key = key := by
  obtain ⟨events, hevents, r, hr, _⟩ := hown key row hrow
  cases events with
  | nil => cases hr
  | cons e events =>
      obtain ⟨hkey, e', he', hbecomes⟩ := hevents e List.mem_cons_self
      exact ⟨e', he', hbecomes.key.trans hkey⟩

theorem Content.FoldsOwn.step (hown : s.FoldsOwn) (h : Ingested s act s') (hs : s.ReadsLog) :
    s'.FoldsOwn := by
  intro key row hrow
  have hlater : ∀ {events : List Event} {key : GroupKey},
      (∀ e ∈ events, e.key = key ∧ s.Remembers e) → ∀ e ∈ events, e.key = key ∧ s'.Remembers e :=
    fun hevents e he => (hevents e he).imp_right (h.remembers hs.unfetched)
  have hold : s.cluster key = some row → ∃ events, (∀ e ∈ events, e.key = key ∧ s'.Remembers e) ∧
      ∃ r, rollup events = some r ∧
        (row.rollup = r ∨ row.rollup = { r with contentDepth := .longform }) := by
    intro hrow
    obtain ⟨events, hevents, hfold⟩ := hown key row hrow
    exact ⟨events, hlater hevents, hfold⟩
  cases id h with
  | commitBuild scope b hb hgroups hreading =>
      change b.commit s.cluster key = some row at hrow
      unfold Build.commit at hrow
      cases hrows : b.rows key with
      | none =>
          rw [hrows] at hrow
          exact hold hrow
      | some events =>
          rw [hrows] at hrow
          obtain ⟨r, hr, rfl⟩ := Option.map_eq_some_iff.mp hrow
          have hholds : b.holds key = some events := (Build.holds_rows hreading).trans hrows
          exact ⟨events, hlater (hs.holds scope b hb key events hholds), r, hr, Or.inl rfl⟩
  | storeFullText target text _ _ =>
      change touchGroup s.now target.key _ s.cluster key = some row at hrow
      unfold touchGroup at hrow
      by_cases hkey : key = target.key
      · rw [hkey, Function.update_self] at hrow
        obtain ⟨old, htarget, rfl⟩ := Option.map_eq_some_iff.mp hrow
        obtain ⟨events, hevents, r, hr, hrollup⟩ := hown target.key old htarget
        subst hkey
        refine ⟨events, hlater hevents, r, hr, ?_⟩
        dsimp only
        split
        · right
          rcases hrollup with hsame | hraised
          · rw [hsame]
          · rw [hraised]
        · exact hrollup
      · rw [Function.update_of_ne hkey] at hrow
        exact hold hrow
  | _ => exact hold hrow

end Folds

/-! ## Isolation -/

section Isolation

variable {F : Type} [Score F] {clusterId : GroupKey → Uuid} {sub : Uuid} {s s' t t' : Tenants}
  {act : TenantAction F} {ts us : List (Run.Transition Tenants (TenantAction F))}

structure Tenants.Sound (s : Tenants) : Prop where
  reads : s.content.ReadsLog
  folds : s.content.FoldsOwn
  apart : ∀ owner, StoriesApart s.story owner

theorem Tenants.sound_start : ({} : Tenants).Sound where
  reads := Content.ReadsLog.start
  folds := by
    intro key row hrow
    cases hrow
  apart := storiesApart_empty

theorem TenantStep.sound (h : TenantStep clusterId s act s') (hs : s.Sound) : s'.Sound := by
  cases h with
  | content act content hcontent =>
      exact ⟨hs.reads.step hcontent.ingested, hs.folds.step hcontent.ingested hs.reads, hs.apart⟩
  | summarize key summary => exact ⟨hs.reads, hs.folds, hs.apart⟩
  | recompute read tuning mint r _ hreads =>
      exact ⟨hs.reads, hs.folds, Recompute.persist_apart hreads hs.apart s.content.now⟩
  | markDelivered owner stories =>
      exact ⟨hs.reads, hs.folds, fun o => (sameStories_mark _ _ _ _).apart (hs.apart o)⟩

theorem TenantRuns.sound (h : TenantRuns clusterId ts s) : s.Sound :=
  h.state_invariant _ Tenants.sound_start fun _ _ hstep hs => hstep.sound hs

theorem Tenants.Sound.lookup_table (hs : s.Sound) (key : GroupKey) :
    s.table.lookup key = (s.content.cluster key).map fun row =>
      { row with summary := s.summary key } := by
  ext row
  have hmem : s.table.lookup key = some row ↔
      (⟨key, row⟩ : Sigma fun _ => SummarizedCluster) ∈ s.table.entries := by
    rw [← AList.mem_lookup_iff, Option.mem_def]
  rw [hmem, Option.map_eq_some_iff]
  refine mem_clusterEntries.trans ?_
  constructor
  · rintro ⟨_, cached, hcached, rfl⟩
    exact ⟨cached, hcached, rfl⟩
  · rintro ⟨cached, hcached, rfl⟩
    exact ⟨hs.folds.group hcached, cached, hcached, rfl⟩

structure Tenants.Alike (sub : Uuid) (s t : Tenants) : Prop where
  content : s.content.Alike sub t.content
  summary : ∀ key : GroupKey, key.scope ≠ .ofPrivate sub → s.summary key = t.summary key
  story : OthersAgree sub s.story t.story

theorem Tenants.Alike.symm (h : s.Alike sub t) : t.Alike sub s where
  content := h.content.symm
  summary := fun key hkey => (h.summary key hkey).symm
  story := h.story.symm

theorem Tenants.Alike.linkClusters (h : s.Alike sub t) {read : CandidateRead}
    (hread : read.subscriber ≠ sub) :
    read.linkClusters s.content.now s.table clusterId =
      read.linkClusters t.content.now t.table clusterId := by
  rw [h.content.now]
  exact CandidateRead.linkClusters_of_others clusterId
    (othersClusters_entries h.content h.summary) hread

theorem markRow_subscriberId {now : DateTime} {owner id : Uuid} {stories : List Uuid}
    {row : StoryRow} :
    (markRow now owner stories id row).subscriberId = row.subscriberId := by
  unfold markRow
  split <;> rfl

theorem markStories_foreign {now : DateTime} {owner : Uuid} {stories : List Uuid}
    {table : StoryTable} {id : Uuid} {row : StoryRow} (hrow : row.subscriberId ≠ owner) :
    (markStoriesDelivered now owner stories table)[id]? = some row ↔ table[id]? = some row := by
  have hsame : ∀ r : StoryRow, r.subscriberId ≠ owner → markRow now owner stories id r = r := by
    intro r hr
    exact if_neg fun hin => hr hin.2
  rw [markStoriesDelivered_getElem?, Option.map_eq_some_iff]
  constructor
  · rintro ⟨r, hr, rfl⟩
    rw [markRow_subscriberId] at hrow
    rw [hsame r hrow]
    exact hr
  · intro hget
    exact ⟨row, hget, hsame row hrow⟩

theorem markStories_agree {now : DateTime} {owner : Uuid} {stories : List Uuid}
    {table table' : StoryTable} (h : OthersAgree sub table table') :
    OthersAgree sub (markStoriesDelivered now owner stories table)
      (markStoriesDelivered now owner stories table') := by
  intro id row hrow
  rw [markStoriesDelivered_getElem?, markStoriesDelivered_getElem?, Option.map_eq_some_iff,
    Option.map_eq_some_iff]
  refine exists_congr fun r => and_congr_left fun hmark => h id r ?_
  rw [← hmark, markRow_subscriberId] at hrow
  exact hrow

theorem TenantStep.alike_hidden (h : TenantStep clusterId s act s') (hs : s.Sound)
    (hact : act.beside sub = false) (halike : s.Alike sub t) : s'.Alike sub t := by
  cases h with
  | content act content hcontent =>
      have hscope : act.scope = some (.ofPrivate sub) := by simpa [TenantAction.beside] using hact
      have hhidden := hcontent.ingested.alike_hidden hs.reads.placed hscope
      exact { halike with content := hhidden.trans halike.content }
  | summarize key summary =>
      have hscope : key.scope = .ofPrivate sub := by simpa [TenantAction.beside] using hact
      refine { halike with summary := ?_ }
      intro k hk
      have hne : k ≠ key := fun heq => hk (heq ▸ hscope)
      dsimp only
      rw [Function.update_of_ne hne]
      exact halike.summary k hk
  | recompute read tuning mint r hread hreads =>
      have hsub : read.subscriber = sub := by simpa [TenantAction.beside] using hact
      have howner : r.subscriber = sub := (congrArg Recompute.subscriber hread).trans hsub
      refine { halike with story := ?_ }
      intro id row hrow
      have hkept := Recompute.persist_foreign hreads (hs.apart r.subscriber) s.content.now (s := id)
        (howner ▸ hrow)
      exact hkept.trans (halike.story id row hrow)
  | markDelivered owner stories =>
      have hsub : owner = sub := by simpa [TenantAction.beside] using hact
      refine { halike with story := ?_ }
      intro id row hrow
      exact (markStories_foreign (hsub ▸ hrow)).trans (halike.story id row hrow)

theorem TenantStep.alike_seen (h : TenantStep clusterId s act s')
    (h' : TenantStep clusterId t act t')
    (hs : s.Sound) (ht : t.Sound) (hact : act.beside sub = true) (halike : s.Alike sub t) :
    s'.Alike sub t' := by
  cases h with
  | content act content hcontent =>
      cases h' with
      | content _ content' hcontent' =>
          have hscope : act.scope ≠ some (.ofPrivate sub) := by
            simpa [TenantAction.beside] using hact
          exact { halike with content := hcontent.ingested.alike_seen hcontent'.ingested hs.reads.placed hscope
                                halike.content }
  | summarize key summary =>
      cases h'
      refine { halike with summary := ?_ }
      intro k hk
      dsimp only
      by_cases heq : k = key
      · subst heq
        rw [Function.update_self, Function.update_self]
      · rw [Function.update_of_ne heq, Function.update_of_ne heq]
        exact halike.summary k hk
  | recompute read tuning mint r hread hreads =>
      cases h' with
      | recompute _ _ _ r' hread' hreads' =>
          have hsub : read.subscriber ≠ sub := by simpa [TenantAction.beside] using hact
          have hsame : r.Same r' := by
            rw [hread, hread']
            exact ⟨rfl, halike.linkClusters hsub, rfl, rfl⟩
          have howner : r.subscriber ≠ sub := by
            rw [hread]
            exact hsub
          have hagree := Recompute.persist_agree hsame hreads hreads' (hs.apart r.subscriber)
            (ht.apart r'.subscriber) halike.story howner s.content.now
          refine { halike with story := ?_ }
          dsimp only
          rw [← halike.content.now]
          exact hagree
  | markDelivered owner stories =>
      cases h'
      refine { halike with story := ?_ }
      dsimp only
      rw [halike.content.now]
      exact markStories_agree halike.story

variable (clusterId) in
/-- A subscriber sees the same in two states: the public clusters, the own ones, the candidates and
the stories. -/
structure SeesAlike (owner : Uuid) (s t : Tenants) : Prop where
  publicRows : ∀ key : GroupKey, key.scope = .ofPublic → s.table.lookup key = t.table.lookup key
  ownRows : ∀ key : GroupKey, key.scope = .ofPrivate owner → s.table.lookup key = t.table.lookup key
  candidates : ∀ read : CandidateRead, read.subscriber = owner →
    read.linkClusters s.content.now s.table clusterId =
      read.linkClusters t.content.now t.table clusterId
  stories : ∀ (id : Uuid) (row : StoryRow), row.subscriberId = owner →
    (s.story[id]? = some row ↔ t.story[id]? = some row)

theorem Tenants.Alike.sees (h : s.Alike sub t) {owner : Uuid} (howner : owner ≠ sub) :
    SeesAlike clusterId owner s t where
  publicRows := by
    intro key hkey
    exact lookup_eq_of_others (othersClusters_entries h.content h.summary) (hkey ▸ nofun)
  ownRows := by
    intro key hkey
    refine lookup_eq_of_others (othersClusters_entries h.content h.summary) ?_
    rw [hkey]
    exact fun heq => howner (Scope.ofPrivate.inj heq)
  candidates := by
    rintro read rfl
    exact h.linkClusters howner
  stories := by
    rintro id row rfl
    exact h.story id row howner

/-- A cluster of the table is folded from events of the log that are of its own group, and so of its
own scope, each as it stood when it was read. -/
structure OneScope (s : Tenants) (key : GroupKey) (row : CachedCluster) : Prop where
  read : s.table.lookup key = some { row with summary := s.summary key }
  folded : ∃ events, (∀ e ∈ events, e.key = key ∧ ∃ e' ∈ s.content.event, e.Becomes e') ∧
    ∃ r, rollup events = some r ∧
      (row.rollup = r ∨ row.rollup = { r with contentDepth := .longform })

theorem beside_unwinding : Run.Unwinding (TenantStep (F := F) clusterId) (TenantAction.beside sub)
    (fun s t => s.Sound ∧ t.Sound ∧ s.Alike sub t) where
  symm := fun _ _ h => ⟨h.2.1, h.1, h.2.2.symm⟩
  hidden := fun _ _ _ _ hstep ha h =>
    ⟨hstep.sound h.1, h.2.1, hstep.alike_hidden h.1 ha h.2.2⟩
  seen := fun _ _ _ _ _ hstep hstep' ha h =>
    ⟨hstep.sound h.1, hstep'.sound h.2.1, hstep.alike_seen hstep' h.1 h.2.1 ha h.2.2⟩

/-- Two histories that differ only in what is one subscriber's own look the same to every other
subscriber, and no cluster mixes scopes. -/
theorem tenants_isolated (h : TenantRuns clusterId ts s) (h' : TenantRuns clusterId us t)
    (hsame : Run.observed (TenantAction.beside sub) ts = Run.observed (TenantAction.beside sub) us) :
    (∀ owner ≠ sub, SeesAlike clusterId owner s t) ∧
    ∀ key row, s.content.cluster key = some row → OneScope s key row := by
  have halike := (beside_unwinding.noninterference
    ⟨Tenants.sound_start, Tenants.sound_start, Content.Alike.refl _, fun _ _ => rfl,
      fun _ _ _ => Iff.rfl⟩ h h' hsame).2.2
  refine ⟨fun owner howner => halike.sees howner, ?_⟩
  intro key row hrow
  have hs := TenantRuns.sound h
  refine ⟨?_, hs.folds key row hrow⟩
  rw [hs.lookup_table, hrow]
  rfl

end Isolation

/-! ## A private event next to another's -/

/-- An entry of a scripted history. New stories get the ids from `base` on. -/
inductive TenantCue where
  | content (act : ContentAction)
  | summarize (key : GroupKey) (summary : ClusterSummary)
  | recompute (read : CandidateRead) (base : Nat)

def TenantCue.action : TenantCue → TenantAction ℚ
  | content act => .content act
  | summarize key summary => .summarize key summary
  | recompute read base => .recompute read {} (mintFrom base)

/-- The clusters of the rss source are 1, and those of GitHub 2 and, of subscriber 7, 3. -/
def tenantClusterId (key : GroupKey) : Uuid :=
  if key.source = .rss then 1 else if key.scope = .ofPrivate 7 then 3 else 2

/-- The state after an entry, if its step can be made. -/
def Tenants.after (s : Tenants) : TenantCue → Option Tenants
  | .content act => (s.content.next act).map fun content => { s with content := content }
  | .summarize key summary => some { s with summary := Function.update s.summary key summary }
  | .recompute read base =>
      let candidates : List LinkCluster :=
        read.linkClusters s.content.now s.table tenantClusterId
      if (candidates.map (·.id)).Nodup ∧ ∀ k ∈ s.story.keys, k < base then
        let r : Recompute ℚ := .onTable s.story read.subscriber candidates {} base
        some { s with story := r.persist s.content.now s.story }
      else none

def Tenants.play (s : Tenants) (cue : TenantCue) : Option (TenantAction ℚ × Tenants) :=
  (s.after cue).map fun s' => (cue.action, s')

theorem Tenants.play_action {s s' : Tenants} {cue : TenantCue} {act : TenantAction ℚ}
    (h : s.play cue = some (act, s')) : act = cue.action :=
  (Run.eq_some_of_paired h).1.symm

theorem Tenants.play_step {s s' : Tenants} {cue : TenantCue} {act : TenantAction ℚ}
    (h : s.play cue = some (act, s')) : TenantStep tenantClusterId s act s' := by
  obtain ⟨rfl, hnext⟩ := Run.eq_some_of_paired h
  cases cue with
  | content act =>
      obtain ⟨content, hcontent, rfl⟩ := Option.map_eq_some_iff.mp hnext
      exact .content act content hcontent
  | summarize key summary =>
      obtain rfl := Option.some.inj hnext
      exact .summarize key summary
  | recompute read base =>
      unfold Tenants.after at hnext
      dsimp only at hnext
      split at hnext
      · rename_i hcan
        obtain rfl := Option.some.inj hnext
        exact .recompute read {} (mintFrom base) _ rfl (Recompute.onTable_reads hcan.1 hcan.2)
      · cases hnext

def incident (scope : Scope) (fingerprint : UInt8) : NewEvent :=
  { fingerprint := [fingerprint], key := ⟨scope, .github, "octo/repo#1"⟩, eventTime := 0,
    title := "incident", entities := ["cve:a"] }

def publicAdvisory : NewEvent :=
  { fingerprint := [1], key := ⟨.ofPublic, .rss, "advisory"⟩, eventTime := 0, title := "advisory",
    entities := ["cve:a"] }

def ingestCues (id : Uuid) (ev : NewEvent) : List TenantCue :=
  [.content (.beginIngest id ev), .content (.commitIngest ⟨id, 1, ev⟩)]

def buildCues (key : GroupKey) : List TenantCue :=
  [.content (.beginBuild key.scope 6 0), .content (.listGroups key.scope),
    .content (.readGroup key.scope key), .content (.upsertGroup key.scope),
    .content (.commitBuild key.scope)]

def readOf (sub : Uuid) : CandidateRead where
  subscriber := sub
  subscribed := []
  lastRun := none
  horizonDays := 1
  requireSummary := false

/-- Subscribers 7 and 8 have the same incident, in their own scopes, next to a public advisory. -/
def sharedHistory : List TenantCue :=
  ingestCues 10 publicAdvisory ++ ingestCues 11 (incident (.ofPrivate 7) 2) ++
    ingestCues 12 (incident (.ofPrivate 8) 2) ++ [.content (.wait 5)] ++
    buildCues publicAdvisory.key ++ buildCues (incident (.ofPrivate 7) 2).key ++
    buildCues (incident (.ofPrivate 8) 2).key ++ [.recompute (readOf 7) 100,
      .recompute (readOf 8) 200]

def quietHistory : List TenantCue := sharedHistory.filter fun cue => cue.action.beside 7

def tenantRun (script : List TenantCue) : List (Run.Transition Tenants (TenantAction ℚ)) :=
  Run.transitions Tenants.play {} script

theorem Tenants.play_ends {script : List TenantCue} {p : Tenants → Bool}
    (h : (Run.execute Tenants.play {} script).any p = true) :
    ∃ s, TenantRuns tenantClusterId (tenantRun script) s ∧ p s = true :=
  Run.execute_ends (fun _ _ _ _ => Tenants.play_step) h

theorem observed_tenantRun {script : List TenantCue} {sub : Uuid}
    (h : (Run.execute Tenants.play {} script).isSome = true) :
    Run.observed (TenantAction.beside sub) (tenantRun script) =
      (script.filter fun cue => cue.action.beside sub).map TenantCue.action := by
  have hplay : ∀ s cue act s', Tenants.play s cue = some (act, s') → act = cue.action :=
    fun _ _ _ _ => Tenants.play_action
  unfold Run.observed tenantRun
  rw [Run.actions_transitions hplay h, List.filter_map]
  rfl

theorem tenants_isolated_shared : ∃ s t, TenantRuns tenantClusterId (tenantRun sharedHistory) s ∧
    TenantRuns tenantClusterId (tenantRun quietHistory) t ∧
    s.story.keys = [100, 200] ∧ t.story.keys = [200] ∧ SeesAlike tenantClusterId 8 s t ∧
    ∀ key row, s.content.cluster key = some row → OneScope s key row := by
  have hshared : (Run.execute Tenants.play {} sharedHistory).any
      (fun s => s.story.keys == [100, 200]) = true := by decide +kernel
  have hquiet : (Run.execute Tenants.play {} quietHistory).any
      (fun s => s.story.keys == [200]) = true := by decide +kernel
  obtain ⟨s, hs, hstories⟩ := Tenants.play_ends hshared
  obtain ⟨t, ht, hstories'⟩ := Tenants.play_ends hquiet
  have hsame : Run.observed (TenantAction.beside 7) (tenantRun sharedHistory) =
      Run.observed (TenantAction.beside 7) (tenantRun quietHistory) := by
    rw [observed_tenantRun (Option.isSome_of_any hshared),
      observed_tenantRun (Option.isSome_of_any hquiet), quietHistory, List.filter_filter]
    simp only [Bool.and_self]
  obtain ⟨hsees, hscopes⟩ := tenants_isolated hs ht hsame
  exact ⟨s, t, hs, ht, eq_of_beq hstories, eq_of_beq hstories', hsees 8 (by decide), hscopes⟩

end Bulletin
