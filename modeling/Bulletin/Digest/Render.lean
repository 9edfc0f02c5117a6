import Bulletin.Digest.Store

/-! # Rendering a digest's stories

Each story becomes one item: its latest member stands for it, the others are listed as
connections, and the text is the story's own synthesis when there is one.
-/

namespace Bulletin

structure ClusterCard where
  title : String
  link : Option String
  source : SourceKind
  lastEventTime : DateTime
  summary : ClusterSummary
deriving DecidableEq, Repr

/-- Another member of a story, shown beneath its headline. -/
structure Connection where
  title : String
  link : Option String
  source : SourceKind
  linkReason : Option String
deriving DecidableEq, Repr

structure RenderItem where
  title : String
  link : Option String
  source : SourceKind
  lastEventTime : DateTime
  connections : List Connection
  headline : String
  summary : String
  summaryRuns : List TldrRun
  summaryBand : Band
  /-- The text is the story's synthesis. -/
  synthesized : Bool
  /-- The text was put together from the members' headlines. -/
  composed : Bool
deriving DecidableEq, Repr

abbrev Cards := Std.ExtTreeMap Uuid ClusterCard compare

def ClusterRow.card (row : ClusterRow) : ClusterCard where
  title := row.title
  link := row.link
  source := row.key.source
  lastEventTime := row.lastEventTime
  summary := row.summary

/-- The cards of the clusters among `ids` the subscriber can read. -/
def clusterCards (cluster : ClusterTable) (sub : Uuid) (ids : List Uuid) : Cards :=
  Std.ExtTreeMap.ofList ((readClusters cluster sub ids).map fun entry =>
    (entry.1, entry.2.card)) compare

def asSentence (s : String) : String :=
  let s := trim s
  match s.toList.getLast? with
  | some '.' | some '!' | some '?' => s
  | _ => s ++ "."

def composedTldrMaxMembers : Nat := 4

/-- The line a member contributes to a composed text: its headline, or its title. -/
def memberLine (card : ClusterCard) : Option String :=
  let headline := trim card.summary.headline
  let line := if headline = "" then trim card.title else headline
  if line = "" then none else some (asSentence line)

/-- A text from the headlines of a story's other members. -/
def composeMemberTldr (connections : List (ClusterRef × ClusterCard)) : List TldrRun :=
  let sentences := (connections.filterMap fun m => memberLine m.2).take composedTldrMaxMembers
  if sentences = [] then [] else [.text (String.intercalate " " sentences)]

def resolvedMembers (members : List ClusterRef) (cards : Cards) : List (ClusterRef × ClusterCard) :=
  (members.filterMap fun m => cards[m.clusterId]?.map fun c => (m, c)).insertionSort fun x y =>
    (compare y.2.lastEventTime x.2.lastEventTime).then (compare x.1.clusterId y.1.clusterId) ≠ .gt

/-- The summary an item shows: the story's, unless it is empty. -/
def chosenSummary (storySummary : Option ClusterSummary) (representative : ClusterCard) :
    ClusterSummary :=
  (storySummary.filter fun s => !s.isEmpty).getD representative.summary

def buildRenderItem (members : List ClusterRef) (cards : Cards)
    (storySummary : Option ClusterSummary) : Option RenderItem :=
  match resolvedMembers members cards with
  | [] => none
  | (_, representative) :: others =>
      let chosen := chosenSummary storySummary representative
      let runs := if chosen.tldr ≠ [] then chosen.tldr else composeMemberTldr others
      some
        { title := representative.title
          link := representative.link
          source := representative.source
          lastEventTime := representative.lastEventTime
          connections := others.map fun m => ⟨m.2.title, m.2.link, m.2.source, m.1.linkReason⟩
          headline := if trim chosen.headline = "" then representative.title else chosen.headline
          summary := if chosen.tldr ≠ [] then chosen.tldrText
            else String.join (runs.map (·.surface))
          summaryRuns := runs
          summaryBand := chosen.band
          synthesized := storySummary.any fun s => !s.isEmpty
          composed := chosen.tldr = [] ∧ runs ≠ [] }

/-- The items of a digest in render order, each with the current row of its story. -/
def renderStories (table : StoryTable) (digest : DigestTable) (sub id : Uuid) :
    List (DigestItem × StoryRow) :=
  match digest[id]? with
  | none => []
  | some row =>
      (row.items.insertionSort fun x y => x.position ≤ y.position).filterMap fun item =>
        (ownStory table sub item.storyId).map fun story => (item, story)

/-- The rendered items of a digest; a story without a card is skipped. -/
def renderItems (table : StoryTable) (digest : DigestTable) (cluster : ClusterTable)
    (sub id : Uuid) : List RenderItem :=
  let stories := renderStories table digest sub id
  let cards := clusterCards cluster sub (stories.flatMap fun s => s.2.members)
  stories.filterMap fun s => buildRenderItem s.2.clusters cards (some s.2.synthesis.summary)

theorem chosenSummary_of_isEmpty {s : ClusterSummary} (h : s.isEmpty = true)
    (representative : ClusterCard) :
    chosenSummary (some s) representative = chosenSummary none representative := by
  unfold chosenSummary
  rw [Option.filter_some, h]
  rfl

theorem buildRenderItem_synthesized {members : List ClusterRef} {cards : Cards} {s : ClusterSummary}
    {item : RenderItem} (h : buildRenderItem members cards (some s) = some item) :
    if s.isEmpty then item.synthesized = false ∧ buildRenderItem members cards none = some item
    else item.synthesized = true := by
  unfold buildRenderItem at h ⊢
  cases hres : resolvedMembers members cards with
  | nil => simp [hres] at h
  | cons first others =>
      simp only [hres, Option.some.injEq] at h ⊢
      subst h
      cases hs : s.isEmpty with
      | true => simp [chosenSummary_of_isEmpty hs, hs]
      | false => simp [hs]

theorem mem_renderItems {table : StoryTable} {digest : DigestTable} {cluster : ClusterTable}
    {sub id : Uuid} {item : RenderItem} (h : item ∈ renderItems table digest cluster sub id) :
    ∃ (s : Uuid) (row : StoryRow) (cards : Cards), s ∈ digestStories digest id ∧
      table[s]? = some row ∧ row.subscriberId = sub ∧
      buildRenderItem row.clusters cards (some row.synthesis.summary) = some item := by
  unfold renderItems at h
  obtain ⟨⟨di, row⟩, hstory, hitem⟩ := List.mem_filterMap.mp h
  unfold renderStories at hstory
  cases hdigest : digest[id]? with
  | none =>
      rw [hdigest] at hstory
      cases hstory
  | some d =>
      rw [hdigest] at hstory
      obtain ⟨di', hdi, hown⟩ := List.mem_filterMap.mp hstory
      obtain ⟨row', hrow', heq⟩ := Option.map_eq_some_iff.mp hown
      cases heq
      unfold ownStory at hrow'
      obtain ⟨hrow, hsub⟩ := Option.filter_eq_some_iff.mp hrow'
      refine ⟨di.storyId, row, _, ?_, hrow, of_decide_eq_true hsub, hitem⟩
      unfold digestStories
      rw [hdigest]
      exact List.mem_map_of_mem ((List.mem_insertionSort _).mp hdi)

/-! ## The item of each story -/

def digestCards (table : StoryTable) (digest : DigestTable) (cluster : ClusterTable)
    (sub id : Uuid) : Cards :=
  clusterCards cluster sub ((renderStories table digest sub id).flatMap fun s => s.2.members)

def storyItem (table : StoryTable) (digest : DigestTable) (cluster : ClusterTable)
    (sub id s : Uuid) : Option RenderItem :=
  (ownStory table sub s).bind fun row =>
    buildRenderItem row.clusters (digestCards table digest cluster sub id)
      (some row.synthesis.summary)

def renderOrder (digest : DigestTable) (id : Uuid) : List Uuid :=
  (digest[id]?.map fun row =>
    (row.items.insertionSort fun x y => x.position ≤ y.position).map (·.storyId)).getD []

def Readable (cluster : ClusterTable) (sub c : Uuid) : Prop :=
  ∃ row, cluster[c]? = some row ∧ row.key.scope.visibleTo sub = true

section Items

variable {table : StoryTable} {digest : DigestTable} {cluster : ClusterTable} {sub id s : Uuid}

theorem renderOrder_perm : (renderOrder digest id).Perm (digestStories digest id) := by
  unfold renderOrder digestStories
  cases digest[id]? with
  | none => exact List.Perm.refl _
  | some row => exact (List.perm_insertionSort (fun x y : DigestItem => x.position ≤ y.position) _).map _

theorem renderItems_eq :
    renderItems table digest cluster sub id =
      (renderOrder digest id).filterMap (storyItem table digest cluster sub id) := by
  have hstories : ∀ f : DigestItem × StoryRow → Option RenderItem,
      (renderStories table digest sub id).filterMap f = ((digest[id]?.map fun row =>
        row.items.insertionSort fun x y => x.position ≤ y.position).getD []).filterMap fun item =>
          (ownStory table sub item.storyId).bind fun story => f (item, story) := by
    intro f
    unfold renderStories
    cases digest[id]? with
    | none => rfl
    | some row =>
        dsimp only
        rw [List.filterMap_filterMap]
        apply List.filterMap_congr
        intro item _
        rw [Option.bind_map]
        rfl
  have horder : renderOrder digest id = ((digest[id]?.map fun row =>
      row.items.insertionSort fun x y => x.position ≤ y.position).getD []).map (·.storyId) := by
    unfold renderOrder
    cases digest[id]? <;> rfl
  rw [horder, List.filterMap_map]
  exact hstories _

theorem mem_clusterCards {ids : List Uuid} {c : Uuid} :
    c ∈ clusterCards cluster sub ids ↔ c ∈ ids ∧ Readable cluster sub c := by
  unfold clusterCards
  rw [Std.ExtTreeMap.mem_ofList, List.contains_iff_mem, List.map_map]
  unfold readClusters Readable
  constructor
  · intro h
    obtain ⟨entry, hentry, rfl⟩ := List.mem_map.mp h
    obtain ⟨hmem, hread⟩ := List.mem_filter.mp hentry
    obtain ⟨hin, hvisible⟩ := of_decide_eq_true hread
    exact ⟨hin, entry.2, Std.ExtTreeMap.mem_toList_iff_getElem?_eq_some.mp hmem, hvisible⟩
  · intro h
    obtain ⟨hin, row, hrow, hvisible⟩ := h
    refine List.mem_map.mpr ⟨(c, row), List.mem_filter.mpr ⟨?_, ?_⟩, rfl⟩
    · exact Std.ExtTreeMap.mem_toList_iff_getElem?_eq_some.mpr hrow
    · exact decide_eq_true ⟨hin, hvisible⟩

theorem buildRenderItem_isSome {members : List ClusterRef} {cards : Cards}
    {summary : Option ClusterSummary} :
    (buildRenderItem members cards summary).isSome ↔ ∃ m ∈ members, m.clusterId ∈ cards := by
  have hresolved : (buildRenderItem members cards summary).isSome ↔
      resolvedMembers members cards ≠ [] := by
    unfold buildRenderItem
    cases resolvedMembers members cards with
    | nil => simp
    | cons first others => simp
  rw [hresolved]
  unfold resolvedMembers
  constructor
  · intro h
    obtain ⟨x, hx⟩ := List.exists_mem_of_ne_nil _ h
    obtain ⟨m, hm, hcard⟩ := List.mem_filterMap.mp ((List.mem_insertionSort _).mp hx)
    obtain ⟨card, hcard, _⟩ := Option.map_eq_some_iff.mp hcard
    refine ⟨m, hm, ?_⟩
    rw [← Std.ExtTreeMap.isSome_getElem?_iff_mem, hcard]
    rfl
  · intro h
    obtain ⟨m, hm, hcard⟩ := h
    rw [← Std.ExtTreeMap.isSome_getElem?_iff_mem, Option.isSome_iff_exists] at hcard
    obtain ⟨card, hcard⟩ := hcard
    refine List.ne_nil_of_mem (a := (m, card)) ((List.mem_insertionSort _).mpr
      (List.mem_filterMap.mpr ⟨m, hm, ?_⟩))
    rw [hcard]
    rfl

/-- A frozen story has an item when the subscriber's row of it has a member to read. -/
theorem storyItem_isSome (hs : s ∈ digestStories digest id) {row : StoryRow}
    (hown : ownStory table sub s = some row) :
    (storyItem table digest cluster sub id s).isSome ↔
      ∃ c ∈ row.members, Readable cluster sub c := by
  unfold storyItem
  rw [hown, Option.bind_some, buildRenderItem_isSome]
  unfold digestCards
  have hids : ∀ c ∈ row.members,
      c ∈ (renderStories table digest sub id).flatMap fun s => s.2.members := by
    intro c hc
    unfold digestStories at hs
    unfold renderStories
    cases hdigest : digest[id]? with
    | none =>
        rw [hdigest] at hs
        cases hs
    | some d =>
        rw [hdigest] at hs
        obtain ⟨item, hitem, rfl⟩ := List.mem_map.mp hs
        refine List.mem_flatMap.mpr ⟨(item, row), List.mem_filterMap.mpr ⟨item, ?_, ?_⟩, hc⟩
        · exact (List.mem_insertionSort _).mpr hitem
        · rw [hown]
          rfl
  constructor
  · intro h
    obtain ⟨m, hm, hcard⟩ := h
    exact ⟨m.clusterId, List.mem_map_of_mem hm, (mem_clusterCards.mp hcard).2⟩
  · intro h
    obtain ⟨c, hc, hread⟩ := h
    obtain ⟨m, hm, rfl⟩ := List.mem_map.mp hc
    exact ⟨m, hm, mem_clusterCards.mpr ⟨hids _ hc, hread⟩⟩

end Items

end Bulletin
