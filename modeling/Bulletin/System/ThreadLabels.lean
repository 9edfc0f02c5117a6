import Bulletin.Core.Run
import Bulletin.Summarize.ClusterSweep
import Bulletin.Summarize.Phrase
import Bulletin.Thread.Store

/-! # Labels of threads

A sweep names the threads of a subscriber and flags what is new on them. Its reads and its writes
are transactions of their own with calls to a model between them, so passes, builds and other sweeps
come in at any point.
-/

namespace Bulletin

open Text

/-! ## Rows -/

/-- The columns of a thread that a label sweep writes. -/
structure ThreadLabel where
  summary : String := ""
  delta : Option String := none
  /-- The last story of the thread that the delta covers. -/
  deltaThrough : Option DateTime := none
  summaryModel : Option String := none
  /-- A sweep has written them. -/
  summarized : Bool := false
deriving DecidableEq, Repr

abbrev LabelTable := Std.ExtTreeMap Uuid ThreadLabel compare

def LabelTable.row (table : LabelTable) (id : Uuid) : ThreadLabel := table.getD id {}

structure DueThread where
  id : Uuid
  entities : List String
  summary : String
  delta : Option String
  deltaThrough : Option DateTime
  lastStoryTime : Option DateTime
  summaryModel : Option String
deriving DecidableEq, Repr

structure ThreadStory where
  lastEventTime : DateTime
  headline : String
deriving DecidableEq, Repr

section Queries

variable {F : Type}

/-- Never labelled, labelled by another model, or moved since. -/
def StoredThread.needsLabel (currentModel : String) (t : StoredThread F) (l : ThreadLabel) : Bool :=
  !l.summarized || l.summaryModel != some currentModel || t.lastStoryTime != l.deltaThrough

def StoredThread.dueThread (id : Uuid) (t : StoredThread F) (l : ThreadLabel) : DueThread where
  id := id
  entities := t.entities
  summary := l.summary
  delta := l.delta
  deltaThrough := l.deltaThrough
  lastStoryTime := t.lastStoryTime
  summaryModel := l.summaryModel

def dueThreads (table : ThreadTable F) (label : LabelTable) (sub : Uuid) (currentModel : String) :
    List DueThread :=
  (table.toList.filter fun entry => entry.2.subscriberId = sub ∧ entry.2.mergedInto = none ∧
    entry.2.state ≠ .archived ∧ entry.2.needsLabel currentModel (label.row entry.1)).map
      fun entry => entry.2.dueThread entry.1 (label.row entry.1)

def notBefore : Option DateTime → Option DateTime → Prop
  | _, none => True
  | none, some _ => False
  | some a, some b => b ≤ a

/-- `first` is the first `limit` of the rows in an order; rows that tie come in any order. -/
def Leading {α : Type} (le : α → α → Prop) (limit : Nat) (rows first : List α) : Prop :=
  first.length = min limit rows.length ∧ first.Pairwise le ∧
    ∃ rest, rows.Perm (first ++ rest) ∧ ∀ x ∈ first, ∀ y ∈ rest, le x y

def ThreadsNeedingSummary (table : ThreadTable F) (label : LabelTable) (sub : Uuid)
    (currentModel : String) (limit : Nat) (queue : List DueThread) : Prop :=
  Leading (fun x y => notBefore x.lastStoryTime y.lastStoryTime) limit
    (dueThreads table label sub currentModel) queue

def representativeHeadline (members : List (Sigma fun _ : GroupKey => SummarizedCluster))
    (clusterId : GroupKey → Uuid) : String :=
  match members.insertionSort fun x y =>
    (compare y.2.rollup.lastEventTime x.2.rollup.lastEventTime).then
      (compare (clusterId y.1) (clusterId x.1)) ≠ .gt with
  | [] => ""
  | latest :: _ =>
      if latest.2.summary.headline = "" then latest.2.rollup.title else latest.2.summary.headline

/-- A story of the subscriber with a member on some of the entities. -/
def StoryRow.onThread (clusterId : GroupKey → Uuid) (cluster : SummarizedTable) (sub : Uuid)
    (entities : List String) (row : StoryRow) : Option ThreadStory :=
  let members := cluster.entries.filter fun entry =>
    clusterId entry.1 ∈ row.members ∧ entry.1.scope.visibleTo sub
  if row.Live sub ∧ ∃ entry ∈ members, ∃ token ∈ entry.2.rollup.entities, token ∈ entities then
    some ⟨row.lastEventTime, representativeHeadline members clusterId⟩
  else none

def ThreadRecentStories (clusterId : GroupKey → Uuid) (cluster : SummarizedTable)
    (story : StoryTable) (sub : Uuid) (entities : List String) (limit : Nat)
    (recent : List ThreadStory) : Prop :=
  Leading (fun x y => y.lastEventTime ≤ x.lastEventTime) limit
    (story.toList.filterMap fun entry => entry.2.onThread clusterId cluster sub entities) recent

end Queries

/-! ## One thread -/

def storyScanLimit : Nat := 30

def faninLimit : Nat := 6

structure LabelClient where
  label : List String → List String → Option String
  delta : String → List String → Option String

namespace DueThread

variable (unicode : UnicodeTables) (client : LabelClient) (currentModel : String) (d : DueThread)
  (recent : List ThreadStory)

def newStories : List ThreadStory :=
  recent.filter fun s => d.deltaThrough.all (· < s.lastEventTime)

def newLabel : String :=
  let needLabel := trim d.summary = "" ∨ d.summaryModel ≠ some currentModel ∨
    d.newStories recent ≠ []
  let headlines := (recent.take faninLimit).map (·.headline)
  if needLabel ∧ headlines ≠ [] then
    ((client.label d.entities headlines).bind (cleanLabel unicode)).getD d.summary
  else d.summary

def countDelta : Option String :=
  let count := (d.newStories recent).length
  if count = storyScanLimit then some (toString count ++ "+ updates") else autoDelta count

def newDelta : Option String :=
  let label := d.newLabel unicode client currentModel recent
  if d.newStories recent = [] then d.delta
  else
    ((client.delta (if trim label = "" then autoLabel d.entities else label)
      (((d.newStories recent).take faninLimit).map (·.headline))).bind (cleanDelta unicode)).or
        (d.countDelta recent)

/-- What the pass writes. It covers the stories up to the time it was loaded with. -/
def stored : ThreadLabel where
  summary := d.newLabel unicode client currentModel recent
  delta := d.newDelta unicode client currentModel recent
  deltaThrough := d.lastStoryTime
  summaryModel := some currentModel
  summarized := true

end DueThread

/-! ## Sweeps among other transactions -/

/-- A sweep that is under way: the threads it has left, and the stories of the first one once they
were read. -/
structure LabelSweep where
  sub : Uuid
  currentModel : String
  queue : List DueThread
  recent : Option (List ThreadStory)
deriving DecidableEq, Repr

structure Labelling (F : Type) where
  thread : ThreadTable F := ∅
  label : LabelTable := ∅
  cluster : SummarizedTable := ∅
  story : StoryTable := ∅
  /-- The sweeps under way, by their jobs. -/
  sweep : Std.ExtTreeMap Uuid LabelSweep compare := ∅

inductive LabellingAction (F : Type) where
  /-- Builds, recomputes and the sweeps of clusters and stories. -/
  | content (cluster : SummarizedTable) (story : StoryTable)
  /-- A maintenance pass commits. -/
  | maintain (sub : Uuid) (upserts : List (ThreadUpsert F)) (newIds : List Uuid)
  | load (job sub : Uuid) (currentModel : String) (queue : List DueThread)
  | read (job : Uuid) (recent : List ThreadStory)
  | store (job : Uuid) (client : LabelClient)
  /-- The sweep ends, or fails. -/
  | stop (job : Uuid)

section Steps

variable {F : Type} (unicode : UnicodeTables) (clusterId : GroupKey → Uuid) (maxPerSweep : Nat)

/-- The sweep has stored the first thread of its queue. -/
def LabelSweep.next (sweep : LabelSweep) : LabelSweep :=
  { sweep with queue := sweep.queue.tail, recent := none }

/-- A job writes the columns of a thread. -/
def Labelling.write (s : Labelling F) (job : Uuid) (sweep : LabelSweep) (id : Uuid)
    (l : ThreadLabel) : Labelling F :=
  { s with
    label := if id ∈ s.thread then s.label.insert id l else s.label
    sweep := s.sweep.insert job sweep.next }

def LabellingStep (s : Labelling F) (act : LabellingAction F) (s' : Labelling F) : Prop :=
  match act with
  | .content cluster story => s' = { s with cluster := cluster, story := story }
  | .maintain sub upserts newIds => (∀ id ∈ newIds, id ∉ s.thread) ∧
      s' = { s with thread := saveThreads sub upserts newIds s.thread }
  | .load job sub currentModel queue => s.sweep[job]? = none ∧
      ThreadsNeedingSummary s.thread s.label sub currentModel maxPerSweep queue ∧
      s' = { s with sweep := s.sweep.insert job ⟨sub, currentModel, queue, none⟩ }
  | .read job recent => ∃ sweep d rest, s.sweep[job]? = some sweep ∧ sweep.queue = d :: rest ∧
      sweep.recent = none ∧ ThreadRecentStories clusterId s.cluster s.story sweep.sub d.entities
        storyScanLimit recent ∧
      s' = { s with sweep := s.sweep.insert job { sweep with recent := some recent } }
  | .store job client => ∃ sweep d rest recent, s.sweep[job]? = some sweep ∧
      sweep.queue = d :: rest ∧ sweep.recent = some recent ∧
      s' = s.write job sweep d.id (d.stored unicode client sweep.currentModel recent)
  | .stop job => s' = { s with sweep := s.sweep.erase job }

abbrev LabellingRuns (ts : List (Run.Transition (Labelling F) (LabellingAction F)))
    (s : Labelling F) : Prop :=
  Run.Runs (LabellingStep unicode clusterId maxPerSweep) {} ts s

end Steps

/-! ## What is shown of a thread -/

def CountsNews (s : String) : Prop :=
  s = "1 update" ∨ (∃ n, 2 ≤ n ∧ n < storyScanLimit ∧ s = toString n ++ " updates") ∨
    s = toString storyScanLimit ++ "+ updates"

/-- No label yet, or one that may be shown; no delta, one that may be shown, or a count. -/
structure Showable (unicode : UnicodeTables) (summary : String) (delta : Option String) : Prop where
  summary : summary = "" ∨ Presentable unicode labelMax summary
  delta : ∀ s ∈ delta, (Presentable unicode deltaMax s ∧
    (splitWhitespace s.toList).length ≤ deltaMaxWords) ∨ CountsNews s

section Shown

variable {F : Type} {unicode : UnicodeTables} {client : LabelClient} {currentModel : String}
  {d : DueThread} {recent : List ThreadStory} {table : ThreadTable F} {label : LabelTable}

theorem newStories_length_le (h : recent.length ≤ storyScanLimit) :
    (d.newStories recent).length ≤ storyScanLimit :=
  (List.length_filter_le _ _).trans h

theorem countDelta_counts (h : recent.length ≤ storyScanLimit) {s : String}
    (hs : d.countDelta recent = some s) : CountsNews s := by
  have hle := newStories_length_le (d := d) h
  unfold DueThread.countDelta at hs
  dsimp only at hs
  split at hs
  · rename_i hfull
    cases hs
    rw [hfull]
    exact Or.inr (Or.inr rfl)
  · rename_i hpart
    generalize (d.newStories recent).length = n at hs hle hpart
    match n, hs with
    | 1, hs =>
        cases hs
        exact Or.inl rfl
    | n + 2, hs =>
        cases hs
        exact Or.inr (Or.inl ⟨n + 2, by omega, by omega, rfl⟩)

theorem countDelta_isSome (h : d.newStories recent ≠ []) : (d.countDelta recent).isSome := by
  have hpos := List.length_pos_iff.mpr h
  unfold DueThread.countDelta
  dsimp only
  split
  · rfl
  · generalize (d.newStories recent).length = n at hpos
    match n, hpos with
    | 1, _ => rfl
    | n + 2, _ => rfl

theorem stored_shown (hd : Showable unicode d.summary d.delta)
    (hrecent : recent.length ≤ storyScanLimit) :
    Showable unicode (d.stored unicode client currentModel recent).summary
      (d.stored unicode client currentModel recent).delta := by
  constructor
  · show d.newLabel unicode client currentModel recent = "" ∨ Presentable unicode labelMax
      (d.newLabel unicode client currentModel recent)
    unfold DueThread.newLabel
    dsimp only
    split
    · cases hlabel : (client.label d.entities _).bind (cleanLabel unicode) with
      | none => exact hd.summary
      | some s =>
          obtain ⟨raw, _, hclean⟩ := Option.bind_eq_some_iff.mp hlabel
          exact Or.inr (cleanLabel_spec hclean)
    · exact hd.summary
  · show ∀ s ∈ d.newDelta unicode client currentModel recent, _
    unfold DueThread.newDelta
    dsimp only
    split
    · exact hd.delta
    · intro s hs
      rcases Option.or_eq_some_iff.mp hs with hdelta | ⟨_, hcount⟩
      · obtain ⟨raw, _, hclean⟩ := Option.bind_eq_some_iff.mp hdelta
        exact Or.inl (cleanDelta_spec hclean)
      · exact Or.inr (countDelta_counts hrecent hcount)

theorem stored_keeps :
    (trim d.summary ≠ "" → trim (d.stored unicode client currentModel recent).summary ≠ "") ∧
      (d.delta.isSome → (d.stored unicode client currentModel recent).delta.isSome) := by
  constructor
  · intro hold
    show trim (d.newLabel unicode client currentModel recent) ≠ ""
    unfold DueThread.newLabel
    dsimp only
    split
    · cases hlabel : (client.label d.entities _).bind (cleanLabel unicode) with
      | none => exact hold
      | some s =>
          obtain ⟨raw, _, hclean⟩ := Option.bind_eq_some_iff.mp hlabel
          obtain ⟨rfl, hnew⟩ := cleanPhrase_eq_some.mp hclean
          exact fun hblank => hnew.nonempty (trim_blank.mp hblank)
    · exact hold
  · intro hold
    show (d.newDelta unicode client currentModel recent).isSome
    unfold DueThread.newDelta
    dsimp only
    split
    · exact hold
    · rename_i hnews
      rw [Option.isSome_or, countDelta_isSome hnews, Bool.or_true]

end Shown

/-! ## What the steps keep -/

section Kept

variable {F : Type} {unicode : UnicodeTables} {clusterId : GroupKey → Uuid} {maxPerSweep : Nat}
  {s s' : Labelling F} {act : LabellingAction F} {job k : Uuid} {sweep : LabelSweep}

theorem row_insert {label : LabelTable} {id : Uuid} {l : ThreadLabel} :
    LabelTable.row (label.insert id l) k = if k = id then l else label.row k := by
  unfold LabelTable.row
  rw [Std.ExtTreeMap.getD_insert]
  by_cases h : k = id
  · subst h
    simp
  · rw [if_neg h, if_neg]
    simpa using fun heq => h heq.symm

theorem getElem?_insert_job {sweeps : Std.ExtTreeMap Uuid LabelSweep compare} {x : LabelSweep} :
    (sweeps.insert job x)[k]? = if k = job then some x else sweeps[k]? := by
  rw [Std.ExtTreeMap.getElem?_insert]
  by_cases h : k = job
  · subst h
    simp
  · rw [if_neg h, if_neg]
    simpa using fun heq => h heq.symm

theorem write_row {id : Uuid} {l : ThreadLabel} : (s.write job sweep id l).label.row k =
    if k = id ∧ id ∈ s.thread then l else s.label.row k := by
  unfold Labelling.write
  dsimp only
  split
  · rename_i hmem
    rw [row_insert]
    simp [hmem]
  · rename_i hmem
    simp [hmem]

theorem mem_of_leading {α : Type} {le : α → α → Prop} {limit : Nat} {rows first : List α}
    (h : Leading le limit rows first) {x : α} (hx : x ∈ first) : x ∈ rows := by
  obtain ⟨_, _, rest, hperm, _⟩ := h
  exact hperm.mem_iff.mpr (List.mem_append_left rest hx)

theorem leading_length_le {α : Type} {le : α → α → Prop} {limit : Nat} {rows first : List α}
    (h : Leading le limit rows first) : first.length ≤ limit :=
  h.1 ▸ Nat.min_le_left limit rows.length

theorem dueThreads_row {table : ThreadTable F} {label : LabelTable} {sub : Uuid}
    {currentModel : String} {d : DueThread} (h : d ∈ dueThreads table label sub currentModel) :
    (label.row d.id).summary = d.summary ∧ (label.row d.id).delta = d.delta := by
  obtain ⟨entry, _, rfl⟩ := List.mem_map.mp h
  exact ⟨rfl, rfl⟩

theorem dueThreads_nodup {table : ThreadTable F} {label : LabelTable} {sub : Uuid}
    {currentModel : String} : ((dueThreads table label sub currentModel).map (·.id)).Nodup := by
  unfold dueThreads
  rw [List.map_map]
  have hkeys : (table.toList.map (·.1)).Nodup := by
    rw [Std.ExtTreeMap.map_fst_toList_eq_keys]
    exact Std.ExtTreeMap.nodup_keys
  exact hkeys.sublist (List.filter_sublist.map _)

/-- Everything that is shown, and that sweeps hold, may be shown. -/
structure Labelling.Shows (unicode : UnicodeTables) (s : Labelling F) : Prop where
  row : ∀ k, Showable unicode (s.label.row k).summary (s.label.row k).delta
  held : ∀ (job : Uuid) sweep, s.sweep[job]? = some sweep → ∀ d ∈ sweep.queue,
    Showable unicode d.summary d.delta
  scanned : ∀ (job : Uuid) sweep, s.sweep[job]? = some sweep → ∀ recent, sweep.recent = some recent →
    recent.length ≤ storyScanLimit

theorem forall_insert_job {P : LabelSweep → Prop} {x : LabelSweep} (hx : P x)
    (h : ∀ (k : Uuid) sweep, s.sweep[k]? = some sweep → P sweep) :
    ∀ (k : Uuid) sweep, (s.sweep.insert job x)[k]? = some sweep → P sweep := by
  intro k sweep hsweep
  rw [getElem?_insert_job] at hsweep
  split at hsweep
  · cases hsweep
    exact hx
  · exact h k sweep hsweep

theorem Labelling.Shows.step (h : s.Shows unicode)
    (hstep : LabellingStep unicode clusterId maxPerSweep s act s') : s'.Shows unicode := by
  cases act with
  | content cluster story =>
      obtain rfl := hstep
      exact ⟨h.row, h.held, h.scanned⟩
  | maintain sub upserts newIds =>
      obtain ⟨_, rfl⟩ := hstep
      exact ⟨h.row, h.held, h.scanned⟩
  | load job sub currentModel queue =>
      obtain ⟨_, hqueue, rfl⟩ := hstep
      refine ⟨h.row, forall_insert_job (P := fun sweep => ∀ d ∈ sweep.queue, _) ?_ h.held,
        forall_insert_job (P := fun sweep => ∀ recent, sweep.recent = some recent → _) ?_ h.scanned⟩
      · intro d hd
        obtain ⟨hsummary, hdelta⟩ := dueThreads_row (mem_of_leading hqueue hd)
        rw [← hsummary, ← hdelta]
        exact h.row d.id
      · intro recent hrecent
        cases hrecent
  | read job recent =>
      obtain ⟨sweep, d, rest, hsweep, _, _, hscan, rfl⟩ := hstep
      refine ⟨h.row, forall_insert_job (P := fun sweep => ∀ d ∈ sweep.queue, _)
        (h.held job sweep hsweep) h.held,
        forall_insert_job (P := fun sweep => ∀ recent, sweep.recent = some recent → _) ?_ h.scanned⟩
      intro recent hrecent
      cases hrecent
      exact leading_length_le hscan
  | store job client =>
      obtain ⟨sweep, d, rest, recent, hsweep, hqueue, hrecent, rfl⟩ := hstep
      have hd : d ∈ sweep.queue := by
        rw [hqueue]
        exact List.mem_cons_self
      refine ⟨fun k => ?_, forall_insert_job (P := fun sweep => ∀ d ∈ sweep.queue, _) ?_ h.held,
        forall_insert_job (P := fun sweep => ∀ recent, sweep.recent = some recent → _) ?_ h.scanned⟩
      · rw [write_row]
        split
        · exact stored_shown (h.held job sweep hsweep d hd)
            (h.scanned job sweep hsweep recent hrecent)
        · exact h.row k
      · intro x hx
        exact h.held job sweep hsweep x (List.mem_of_mem_tail hx)
      · intro recent hnone
        cases hnone
  | stop job =>
      obtain rfl := hstep
      have herase : ∀ (k : Uuid) sweep, (s.sweep.erase job)[k]? = some sweep →
          s.sweep[k]? = some sweep := by
        intro k sweep hsweep
        rw [Std.ExtTreeMap.getElem?_erase] at hsweep
        split at hsweep
        · cases hsweep
        · exact hsweep
      exact ⟨h.row, fun k sweep hsweep => h.held k sweep (herase k sweep hsweep),
        fun k sweep hsweep => h.scanned k sweep (herase k sweep hsweep)⟩

theorem shows_empty : ({} : Labelling F).Shows unicode where
  row k := by
    have hrow : LabelTable.row ∅ k = {} := by
      unfold LabelTable.row
      exact Std.ExtTreeMap.getD_empty
    rw [show ({} : Labelling F).label = ∅ from rfl, hrow]
    exact ⟨Or.inl rfl, fun s hs => by cases hs⟩
  held job sweep h := by simp at h
  scanned job sweep h := by simp at h

end Kept

/-! ## Which write loses a label -/

section Lost

variable {F : Type} {unicode : UnicodeTables} {clusterId : GroupKey → Uuid} {maxPerSweep : Nat}
  {s s' : Labelling F} {act : LabellingAction F} {job : Uuid} {d : DueThread}
  {ts : List (Run.Transition (Labelling F) (LabellingAction F))}

/-- Another sweep stored the thread while the sweep of this job held it. -/
def Overwritten (ts : List (Run.Transition (Labelling F) (LabellingAction F))) (job : Uuid)
    (d : DueThread) : Prop :=
  ∃ u ∈ ts, ∃ other client sweep held, other ≠ job ∧ u.action = .store other client ∧
    u.before.sweep[other]? = some sweep ∧ (sweep.queue.head?.map (·.id)) = some d.id ∧
    u.before.sweep[job]? = some held ∧ d ∈ held.queue

theorem Overwritten.snoc (h : Overwritten ts job d)
    (t : Run.Transition (Labelling F) (LabellingAction F)) : Overwritten (ts ++ [t]) job d := by
  obtain ⟨u, hu, hrest⟩ := h
  exact ⟨u, List.mem_append_left _ hu, hrest⟩

/-- A sweep holds its threads as their rows are, but for those that others stored since. -/
structure Holds (ts : List (Run.Transition (Labelling F) (LabellingAction F)))
    (s : Labelling F) : Prop where
  nodup : ∀ (job : Uuid) sweep, s.sweep[job]? = some sweep → (sweep.queue.map (·.id)).Nodup
  fresh : ∀ (job : Uuid) sweep, s.sweep[job]? = some sweep → ∀ d ∈ sweep.queue,
    ((s.label.row d.id).summary = d.summary ∧ (s.label.row d.id).delta = d.delta) ∨
      Overwritten ts job d

theorem Holds.step (h : Holds ts s) (hstep : LabellingStep unicode clusterId maxPerSweep s act s') :
    Holds (ts ++ [⟨s, act, s'⟩]) s' := by
  cases act with
  | content cluster story =>
      obtain rfl := hstep
      exact ⟨h.nodup, fun k sweep hk d hd => (h.fresh k sweep hk d hd).imp_right (·.snoc _)⟩
  | maintain sub upserts newIds =>
      obtain ⟨_, rfl⟩ := hstep
      exact ⟨h.nodup, fun k sweep hk d hd => (h.fresh k sweep hk d hd).imp_right (·.snoc _)⟩
  | load job sub currentModel queue =>
      obtain ⟨_, hqueue, rfl⟩ := hstep
      constructor
      · refine forall_insert_job (P := fun sweep => (sweep.queue.map (·.id)).Nodup) ?_ h.nodup
        obtain ⟨_, _, rest, hperm, _⟩ := hqueue
        have hnodup := (hperm.map (·.id)).nodup_iff.mp dueThreads_nodup
        rw [List.map_append] at hnodup
        exact hnodup.of_append_left
      · intro k sweep hk d hd
        simp only [getElem?_insert_job] at hk
        split at hk
        · cases hk
          exact Or.inl (dueThreads_row (mem_of_leading hqueue hd))
        · exact (h.fresh k sweep hk d hd).imp_right (·.snoc _)
  | read job recent =>
      obtain ⟨sweep, first, rest, hsweep, _, _, _, rfl⟩ := hstep
      constructor
      · exact forall_insert_job (P := fun sweep => (sweep.queue.map (·.id)).Nodup)
          (x := { sweep with recent := some recent }) (h.nodup job sweep hsweep) h.nodup
      · intro k held hk d hd
        simp only [getElem?_insert_job] at hk
        split at hk
        · rename_i hjob
          cases hk
          rw [hjob]
          exact (h.fresh job sweep hsweep d hd).imp_right (·.snoc _)
        · exact (h.fresh k held hk d hd).imp_right (·.snoc _)
  | store job client =>
      obtain ⟨sweep, first, rest, recent, hsweep, hqueue, hrecent, rfl⟩ := hstep
      have hnodup := h.nodup job sweep hsweep
      have htail : (s.write job sweep first.id
          (first.stored unicode client sweep.currentModel recent)).sweep =
            s.sweep.insert job sweep.next := rfl
      rw [hqueue, List.map_cons, List.nodup_cons] at hnodup
      constructor
      · refine forall_insert_job (P := fun sweep => (sweep.queue.map (·.id)).Nodup) ?_ h.nodup
        unfold LabelSweep.next
        rw [hqueue]
        exact hnodup.2
      · intro k held hk d hd
        rw [htail, getElem?_insert_job] at hk
        rw [write_row]
        split at hk
        · -- the rest of the queue has other threads
          rename_i hjob
          cases hk
          have hrest : d ∈ rest := by
            unfold LabelSweep.next at hd
            rwa [hqueue] at hd
          have hne : d.id ≠ first.id := fun heq => hnodup.1 (heq ▸ List.mem_map_of_mem hrest)
          rw [if_neg (fun hboth => hne hboth.1), hjob]
          exact (h.fresh job sweep hsweep d (by rw [hqueue]; exact List.mem_cons_of_mem _ hrest)).imp_right
            (·.snoc _)
        · rename_i hjob
          by_cases hsame : d.id = first.id
          · refine Or.inr ⟨_, List.mem_append_right ts (List.mem_singleton_self _), job, client,
              sweep, held, fun heq => hjob heq.symm, rfl, hsweep, ?_, hk, hd⟩
            rw [hqueue, hsame]
            rfl
          · rw [if_neg (fun hboth => hsame hboth.1)]
            exact (h.fresh k held hk d hd).imp_right (·.snoc _)
  | stop job =>
      obtain rfl := hstep
      have herase : ∀ (k : Uuid) sweep, (s.sweep.erase job)[k]? = some sweep →
          s.sweep[k]? = some sweep := by
        intro k sweep hsweep
        rw [Std.ExtTreeMap.getElem?_erase] at hsweep
        split at hsweep
        · cases hsweep
        · exact hsweep
      exact ⟨fun k sweep hk => h.nodup k sweep (herase k sweep hk),
        fun k sweep hk d hd => (h.fresh k sweep (herase k sweep hk) d hd).imp_right (·.snoc _)⟩

theorem Holds.of_runs (h : LabellingRuns unicode clusterId maxPerSweep ts s) : Holds ts s := by
  refine h.invariant Holds ⟨fun job sweep h => by simp at h, fun job sweep h => by simp at h⟩ ?_
  intro pre t post _ _ hstep hpre
  exact hpre.step hstep

/-- The label or the delta of a thread is gone. -/
def Labelling.Loses (s s' : Labelling F) (k : Uuid) : Prop :=
  (trim (s.label.row k).summary ≠ "" ∧ trim (s'.label.row k).summary = "") ∨
    ((s.label.row k).delta.isSome ∧ (s'.label.row k).delta = none)

/-- Only a write loses a label, and only of a thread that another sweep stored in the meantime. -/
theorem Holds.overwritten {k : Uuid} (h : Holds ts s)
    (hstep : LabellingStep unicode clusterId maxPerSweep s act s') (hloses : s.Loses s' k) :
    ∃ job client sweep d, act = .store job client ∧ s.sweep[job]? = some sweep ∧
      sweep.queue.head? = some d ∧ d.id = k ∧ Overwritten ts job d := by
  have hsame : s'.label = s.label → False := by
    intro heq
    unfold Labelling.Loses at hloses
    rw [heq] at hloses
    rcases hloses with ⟨hold, hnew⟩ | ⟨hold, hnew⟩
    · exact hold hnew
    · rw [hnew] at hold
      cases hold
  cases act with
  | content | stop =>
      obtain rfl := hstep
      exact (hsame rfl).elim
  | maintain =>
      obtain ⟨_, rfl⟩ := hstep
      exact (hsame rfl).elim
  | load =>
      obtain ⟨_, _, rfl⟩ := hstep
      exact (hsame rfl).elim
  | read =>
      obtain ⟨_, _, _, _, _, _, _, rfl⟩ := hstep
      exact (hsame rfl).elim
  | store job client =>
      obtain ⟨sweep, d, rest, recent, hsweep, hqueue, hrecent, rfl⟩ := hstep
      have hd : d ∈ sweep.queue := by
        rw [hqueue]
        exact List.mem_cons_self
      unfold Labelling.Loses at hloses
      rw [write_row] at hloses
      have hk : k = d.id ∧ d.id ∈ s.thread := by
        by_contra hnot
        rw [if_neg hnot] at hloses
        rcases hloses with ⟨hold, hnew⟩ | ⟨hold, hnew⟩
        · exact hold hnew
        · rw [hnew] at hold
          cases hold
      rw [if_pos hk, hk.1] at hloses
      refine ⟨job, client, sweep, d, rfl, hsweep, by rw [hqueue]; rfl, hk.1.symm, ?_⟩
      refine (h.fresh job sweep hsweep d hd).resolve_left fun hfresh => ?_
      obtain ⟨hsummary, hdelta⟩ := hfresh
      rw [hsummary, hdelta] at hloses
      obtain ⟨hlabel, hflag⟩ := @stored_keeps unicode client sweep.currentModel d recent
      rcases hloses with ⟨hold, hnew⟩ | ⟨hold, hnew⟩
      · exact hlabel hold hnew
      · have hkept := hflag hold
        rw [hnew] at hkept
        cases hkept

end Lost

/-- No thread is in the queues of two sweeps. -/
def Labelling.Exclusive {F : Type} (s : Labelling F) : Prop :=
  ∀ (j k : Uuid) sweep held, s.sweep[j]? = some sweep → s.sweep[k]? = some held →
    ∀ d ∈ sweep.queue, ∀ x ∈ held.queue, d.id = x.id → j = k

/-! ## Two sweeps of one subscriber -/

def relayUpsert : ThreadUpsert Unit where
  id := none
  origin := .emergent
  pinned := false
  entities := ["repo:acme/relay"]
  affinity := ()
  state := .active
  confidence := .confirmed
  storyCount := 1
  sourceDiversity := 1
  baselineRate := ()
  firstSeen := some 10
  lastStoryTime := some 10
  absorb := []

def relayCluster : SummarizedCluster where
  rollup :=
    { title := "Relay back"
      link := none
      firstEventTime := 10
      lastEventTime := 10
      entities := ["repo:acme/relay"]
      eventCount := 1
      contentDepth := .message
      maxSeverity := none
      connectionId := none }
  updatedAt := 10

def relayStory : StoryRow where
  subscriberId := 1
  mergedInto := none
  clusters := [⟨5, none⟩]
  firstEventTime := 10
  lastEventTime := 10
  eventCount := 1
  sourceDiversity := 1
  contentDepth := .message
  maxSeverity := none
  lastDeliveredAt := none
  updatedAt := 10
  synthesis := {}

def relayDue : DueThread := relayUpsert.inserted 1 |>.dueThread 7 {}

def relayClient (answer : Option String) : LabelClient := ⟨fun _ _ => answer, fun _ _ => none⟩

def relayScan : List ThreadStory := [⟨10, "Relay back"⟩]

def relayFound : Labelling Unit where
  thread := saveThreads 1 [relayUpsert] [7] ∅
  cluster := (∅ : SummarizedTable).insert ⟨.ofPublic, .rss, "relay"⟩ relayCluster
  story := (∅ : StoryTable).insert 3 relayStory

def relaySweep : LabelSweep := ⟨1, "m", [relayDue], some relayScan⟩

def Labelling.scan (s : Labelling Unit) (job : Uuid) : Labelling Unit :=
  let loaded := { s with sweep := s.sweep.insert job { relaySweep with recent := none } }
  { loaded with sweep := loaded.sweep.insert job relaySweep }

def Labelling.answer (s : Labelling Unit) (job : Uuid) (reply : Option String) : Labelling Unit :=
  s.write job relaySweep 7 (relayDue.stored asciiTables (relayClient reply) "m" relayScan)

abbrev RelayRun (ts : List (Run.Transition (Labelling Unit) (LabellingAction Unit)))
    (s : Labelling Unit) : Prop :=
  LabellingRuns asciiTables (fun _ => 5) 4 ts s

abbrev RelayStep (s : Labelling Unit) (act : LabellingAction Unit) (s' : Labelling Unit) : Prop :=
  LabellingStep asciiTables (fun _ => 5) 4 s act s'

theorem relay_found : ∃ ts, RelayRun ts relayFound := by
  have hmaintain : RelayStep {} (.maintain 1 [relayUpsert] [7])
      { thread := saveThreads 1 [relayUpsert] [7] ∅ } := ⟨by simp, rfl⟩
  have hcontent : RelayStep { thread := saveThreads 1 [relayUpsert] [7] ∅ }
      (.content relayFound.cluster relayFound.story) relayFound := rfl
  exact ⟨_, (Run.Runs.nil.snoc hmaintain).snoc hcontent⟩

theorem relay_scan {ts : List (Run.Transition (Labelling Unit) (LabellingAction Unit))}
    {s : Labelling Unit} (job : Uuid) (h : RelayRun ts s) (hjob : s.sweep[job]? = none)
    (hthread : s.thread = relayFound.thread) (hlabel : s.label = ∅)
    (hcluster : s.cluster = relayFound.cluster) (hstory : s.story = relayFound.story) :
    ∃ us, RelayRun (ts ++ us) (s.scan job) := by
  have hdue : dueThreads s.thread s.label 1 "m" = [relayDue] := by
    rw [hthread, hlabel]
    decide +kernel
  have hrows : (s.story.toList.filterMap fun entry =>
      entry.2.onThread (fun _ => 5) s.cluster 1 relayDue.entities) = relayScan := by
    rw [hstory, hcluster]
    decide +kernel
  have hload : RelayStep s (.load job 1 "m" [relayDue])
      { s with sweep := s.sweep.insert job { relaySweep with recent := none } } := by
    refine ⟨hjob, ?_, rfl⟩
    unfold ThreadsNeedingSummary
    rw [hdue]
    exact ⟨rfl, List.pairwise_singleton _ _, [], List.Perm.refl _, by simp⟩
  have hread : RelayStep { s with sweep := s.sweep.insert job { relaySweep with recent := none } }
      (.read job relayScan) (s.scan job) := by
    refine ⟨{ relaySweep with recent := none }, relayDue, [], by simp, rfl, rfl, ?_, rfl⟩
    unfold ThreadRecentStories
    dsimp only
    rw [show (relaySweep.sub) = 1 from rfl, hrows]
    exact ⟨rfl, List.pairwise_singleton _ _, [], List.Perm.refl _, by simp⟩
  have hrun := (h.snoc hload).snoc hread
  rw [List.append_assoc] at hrun
  exact ⟨_, hrun⟩

theorem relay_answer {ts : List (Run.Transition (Labelling Unit) (LabellingAction Unit))}
    {s : Labelling Unit} (job : Uuid) (h : RelayRun ts s) (hjob : s.sweep[job]? = some relaySweep)
    (reply : Option String) :
    RelayRun (ts ++ [⟨s, .store job (relayClient reply), s.answer job reply⟩])
      (s.answer job reply) := by
  have hstore : RelayStep s (.store job (relayClient reply)) (s.answer job reply) :=
    ⟨relaySweep, relayDue, [], relayScan, hjob, rfl, rfl, rfl⟩
  exact h.snoc hstore

def relayStored : Labelling Unit :=
  (((relayFound.scan 20).scan 21).answer 20 (some "Relay work")).answer 21 none

/-- Both sweeps read the thread; the one stores a label, the other an empty one after it. -/
theorem relay_run : ∃ ts, RelayRun ts relayStored ∧
    ∃ pre t, ts = pre ++ [t] ∧ t.before.Loses t.after 7 := by
  obtain ⟨_, hfound⟩ := relay_found
  obtain ⟨_, hfirst⟩ := relay_scan 20 hfound rfl rfl rfl rfl rfl
  obtain ⟨_, hsecond⟩ := relay_scan 21 hfirst (by decide +kernel) rfl rfl rfl rfl
  have hone := relay_answer 20 hsecond (by decide +kernel) (some "Relay work")
  have htwo := relay_answer 21 hone (by decide +kernel) none
  exact ⟨_, htwo, _, _, rfl, Or.inl ⟨by decide +kernel, by decide +kernel⟩⟩

/-! ## Every run -/

section Runs

variable {F : Type} {unicode : UnicodeTables} {clusterId : GroupKey → Uuid} {maxPerSweep : Nat}
  {s : Labelling F} {ts : List (Run.Transition (Labelling F) (LabellingAction F))}

/-- Whatever comes between the reads and the writes of the sweeps, every label that is stored may be
shown and every delta is a flag that may be shown or a count, and a write leaves its thread due
exactly when the last story of the thread is not the one it was loaded with. -/
theorem thread_labels_shown (h : LabellingRuns unicode clusterId maxPerSweep ts s) :
    (∀ k, Showable unicode (s.label.row k).summary (s.label.row k).delta) ∧
    ∀ t ∈ ts, ∀ job client, t.action = .store job client →
      ∃ sweep d, t.before.sweep[job]? = some sweep ∧ sweep.queue.head? = some d ∧
        ∀ row, t.before.thread[d.id]? = some row → t.after.thread[d.id]? = some row ∧
          (row.needsLabel sweep.currentModel (t.after.label.row d.id) = true ↔
            row.lastStoryTime ≠ d.lastStoryTime) := by
  constructor
  · exact (h.state_invariant (Labelling.Shows unicode) shows_empty
      fun t _ hstep hshows => hshows.step hstep).row
  · intro t ht job client haction
    have hstep := h.step_of_mem ht
    rw [haction] at hstep
    obtain ⟨sweep, d, rest, recent, hsweep, hqueue, hrecent, hafter⟩ := hstep
    refine ⟨sweep, d, hsweep, by rw [hqueue]; rfl, fun row hrow => ?_⟩
    have hmem : d.id ∈ t.before.thread := by
      rw [← Std.ExtTreeMap.isSome_getElem?_iff_mem, hrow]
      rfl
    rw [hafter]
    refine ⟨hrow, ?_⟩
    rw [write_row, if_pos ⟨rfl, hmem⟩]
    simp [StoredThread.needsLabel, DueThread.stored]

theorem thread_labels_shown_relay : ∃ ts, RelayRun ts relayStored ∧
    (∀ k, Showable asciiTables (relayStored.label.row k).summary (relayStored.label.row k).delta) ∧
    ∀ t ∈ ts, ∀ job client, t.action = .store job client →
      ∃ sweep d, t.before.sweep[job]? = some sweep ∧ sweep.queue.head? = some d ∧
        ∀ row, t.before.thread[d.id]? = some row → t.after.thread[d.id]? = some row ∧
          (row.needsLabel sweep.currentModel (t.after.label.row d.id) = true ↔
            row.lastStoryTime ≠ d.lastStoryTime) := by
  obtain ⟨ts, hrun, _⟩ := relay_run
  exact ⟨ts, hrun, thread_labels_shown hrun⟩

/-- A label or a delta is lost only by a write over what another sweep stored while the writer held
the thread, so none is where no two sweeps hold a thread at once. -/
theorem lost_labels_overwritten (h : LabellingRuns unicode clusterId maxPerSweep ts s) :
    (∀ pre t post k, ts = pre ++ t :: post → t.before.Loses t.after k →
      ∃ job client sweep d, t.action = .store job client ∧ t.before.sweep[job]? = some sweep ∧
        sweep.queue.head? = some d ∧ d.id = k ∧ Overwritten pre job d) ∧
    ((∀ t ∈ ts, t.before.Exclusive) → ∀ t ∈ ts, ∀ k, ¬ t.before.Loses t.after k) := by
  have hcause : ∀ pre t post k, ts = pre ++ t :: post → t.before.Loses t.after k →
      ∃ job client sweep d, t.action = .store job client ∧ t.before.sweep[job]? = some sweep ∧
        sweep.queue.head? = some d ∧ d.id = k ∧ Overwritten pre job d := by
    intro pre t post k heq hloses
    rw [heq] at h
    obtain ⟨_, hpre, hstep⟩ := h.upto.last
    exact (Holds.of_runs hpre).overwritten hstep hloses
  refine ⟨hcause, fun hexclusive t ht k hloses => ?_⟩
  obtain ⟨pre, post, heq, _⟩ := h.before_of_mem ht
  obtain ⟨job, _, _, d, _, _, _, _, u, hu, other, _, sweep, held, hne, _, hsweep, hhead, hheld, hd⟩ :=
    hcause pre t post k heq hloses
  obtain ⟨x, hx, hid⟩ := Option.map_eq_some_iff.mp hhead
  have hmem : u ∈ ts := heq ▸ List.mem_append_left _ hu
  exact hne (hexclusive u hmem other job sweep held hsweep hheld x (List.mem_of_head? hx) d hd hid)

/-- The second of two sweeps takes a label that the first one gave. -/
theorem lost_labels_overwritten_relay : ∃ pre t, RelayRun (pre ++ [t]) relayStored ∧
    t.before.Loses t.after 7 ∧ ∃ job d, d.id = 7 ∧ Overwritten pre job d := by
  obtain ⟨_, hrun, pre, t, rfl, hloses⟩ := relay_run
  obtain ⟨job, _, _, d, _, _, _, hid, hover⟩ :=
    (lost_labels_overwritten hrun).1 pre t [] 7 rfl hloses
  exact ⟨pre, t, hrun, hloses, job, d, hid, hover⟩

end Runs

end Bulletin
