import Bulletin.Digest.Generate
import Bulletin.Link.Minting
import Bulletin.System.FrozenItems
import Bulletin.System.StrictSummary
import Bulletin.Thread.Assign

/-! # Dry runs

`explain` links and ranks as a fire does, and shows every candidate with its verdict and its card;
it writes nothing, and the new stories it names are its own. What it shows matches what the fire
records, freezes and renders from the same reads.
-/

namespace Bulletin

open List Matched Relator

/-! ## The threads of candidates -/

section Threads

variable {F : Type} [SelectScore F]

/-- The entity spine of a linked story; an unknown one has none. -/
def storyEntities (r : Recompute F) (s : Uuid) : List String :=
  ((r.assignment.stories.find? fun story => story.id = s).map (Fire.storySpine r)).getD []

/-- The thread of every candidate, by the entities of its story. -/
def assignCandidateThreads (threads : ThreadStore F) (r : Recompute F) (s : Uuid) : Option Uuid :=
  assignThread threads r.subscriber (storyEntities r s) minOverlap

/-- A fire that assigns the threads of its candidates before it ranks them. -/
def Fire.threaded (fire : Fire F) (threads : ThreadStore F) (r : Recompute F) : Fire F :=
  { fire with thread := assignCandidateThreads threads r }

end Threads

/-! ## The dry run -/

/-- A candidate with its verdict and its card; none for a story without one. -/
structure ExplainRow (F : Type) where
  verdict : Verdict
  storyId : Uuid
  lastEventTime : DateTime
  reason : ItemReason F
  item : Option RenderItem

def ExplainRow.isSelected {F : Type} (row : ExplainRow F) : Bool :=
  match row.verdict with
  | .selected _ => true
  | _ => false

section Explain

variable {F : Type} [SelectScore F]

/-- The card of a linked story, without a synthesis: that is on the stored row. -/
def explainItem (r : Recompute F) (cards : Cards) (s : Uuid) : Option RenderItem :=
  (r.assignment.stories.find? fun story => story.id = s).bind fun story =>
    buildRenderItem story.clusters cards none

def explainCards (r : Recompute F) (cluster : ClusterTable) : Cards :=
  clusterCards cluster r.subscriber (r.assignment.stories.flatMap (·.members))

def explain (fire : Fire F) (r : Recompute F) (shown : DigestTable) (cluster : ClusterTable) :
    List (ExplainRow F) :=
  (fire.linkAndSelect r shown).map fun d =>
    { verdict := d.verdict
      storyId := d.id
      lastEventTime := d.lastEventTime
      reason := reasonOf d (storyEntities r d.id)
      item := explainItem r (explainCards r cluster) d.id }

end Explain

/-! ## Selection under other ids -/

def Candidate.Renamed {F : Type} (R : Uuid → Uuid → Prop) (c c' : Candidate F) : Prop :=
  ∃ id, R c.id id ∧ c' = { c with id := id }

def Gated.Renamed {F : Type} (R : Uuid → Uuid → Prop) (g g' : Gated F) : Prop :=
  ∃ id, R g.id id ∧ g' = { g with id := id }

def Decision.Renamed {F : Type} (R : Uuid → Uuid → Prop) (d d' : Decision F) : Prop :=
  ∃ id, R d.id id ∧ d' = { d with id := id }

section Select

variable {F : Type} [SelectScore F] {R : Uuid → Uuid → Prop} {cfg : ScoringConfig F}
  {maxItems : Nat} {now displayFloor : DateTime}

theorem gate_matched : (Candidate.Renamed R ⇒ Sum.LiftRel (Decision.Renamed R) (Gated.Renamed R))
    (gate cfg now displayFloor) (gate cfg now displayFloor) := by
  rintro c _ ⟨id, hid, rfl⟩
  by_cases hstale : c.lastEventTime < displayFloor
  · have hdrop := (@gate_stale F _ cfg now displayFloor c).mpr hstale
    have hdrop' := (@gate_stale F _ cfg now displayFloor { c with id := id }).mpr hstale
    rw [hdrop, hdrop']
    exact .inl ⟨id, hid, rfl⟩
  · by_cases hbelow : Score.lt (relevance c cfg) cfg.relevanceFloor = true
    · have hdrop := (@gate_below F _ cfg now displayFloor c).mpr ⟨hstale, hbelow⟩
      have hdrop' := (@gate_below F _ cfg now displayFloor { c with id := id }).mpr ⟨hstale, hbelow⟩
      rw [hdrop, hdrop']
      exact .inl ⟨id, hid, rfl⟩
    · have hpasses : Passes cfg displayFloor c := ⟨hstale, by simpa using hbelow⟩
      have hpasses' : Passes cfg displayFloor { c with id := id } := hpasses
      rw [gate_of_passes hpasses, gate_of_passes hpasses']
      exact .inr ⟨id, hid, rfl⟩

omit [SelectScore F] in
theorem capPass_matched {gs gs' : List (Gated F)} (hgs : Forall₂ (Gated.Renamed R) gs gs')
    {st : CapState} {rank : Nat} : Forall₂ (Decision.Renamed R) (capPass cfg maxItems st rank gs)
      (capPass cfg maxItems st rank gs') := by
  induction hgs generalizing st rank with
  | nil => exact .nil
  | @cons g _ gs gs' hg hgs ih =>
      obtain ⟨id, hid, rfl⟩ := hg
      have hfits : st.fits cfg maxItems { g with id := id } = st.fits cfg maxItems g := rfl
      have htake : st.take { g with id := id } = st.take g := rfl
      unfold capPass
      rw [hfits, htake]
      split
      · exact .cons ⟨id, hid, rfl⟩ ih
      · exact .cons ⟨id, hid, rfl⟩ ih

theorem rankOrder_matched (hR : OrderKept R) : (Gated.Renamed R ⇒ Gated.Renamed R ⇒ Iff)
    (fun x y : Gated F => rankOrder x y ≠ .gt) (fun x y => rankOrder x y ≠ .gt) := by
  rintro x _ ⟨id, hx, rfl⟩ y _ ⟨id', hy, rfl⟩
  unfold rankOrder
  dsimp only
  rw [hR.compare_eq hx hy]

omit [SelectScore F] in
theorem isSelected_matched {d d' : Decision F} (h : Decision.Renamed R d d') :
    d.isSelected = d'.isSelected := by
  obtain ⟨id, _, rfl⟩ := h
  rfl

theorem select_matched (hR : OrderKept R) {cs cs' : List (Candidate F)}
    (hcs : Forall₂ (Candidate.Renamed R) cs cs') :
    Forall₂ (Decision.Renamed R) (select cs cfg maxItems now displayFloor)
      (select cs' cfg maxItems now displayFloor) := by
  have houtcomes := rel_map (@gate_matched F _ R cfg now displayFloor) hcs
  have hdropped : Forall₂ (Decision.Renamed R)
      ((cs.map (gate cfg now displayFloor)).filterMap Sum.getLeft?)
      ((cs'.map (gate cfg now displayFloor)).filterMap Sum.getLeft?) := by
    refine rel_filterMap (fun o o' ho => ?_) houtcomes
    cases ho with
    | inl hd => exact .some hd
    | inr hg => exact .none
  have hpassed : Forall₂ (Gated.Renamed R)
      ((cs.map (gate cfg now displayFloor)).filterMap Sum.getRight?)
      ((cs'.map (gate cfg now displayFloor)).filterMap Sum.getRight?) := by
    refine rel_filterMap (fun o o' ho => ?_) houtcomes
    cases ho with
    | inl hd => exact .none
    | inr hg => exact .some hg
  have hdecided := @capPass_matched F R cfg maxItems _ _
    (rel_insertionSort (rankOrder_matched hR) hpassed) {} 0
  have hids : (Decision.Renamed R ⇒ Decision.Renamed R ⇒ Iff)
      (fun x y : Decision F => x.id ≤ y.id) (fun x y => x.id ≤ y.id) := by
    rintro x _ ⟨id, hx, rfl⟩ y _ ⟨id', hy, rfl⟩
    exact hR.le_iff hx hy
  refine rel_append (rel_append ?_ ?_) (rel_insertionSort hids hdropped)
  · exact rel_filter (fun d d' hd => iff_of_eq (congrArg (· = true) (isSelected_matched hd))) hdecided
  · exact rel_filter (fun d d' hd => iff_of_eq (congrArg (fun b => (!b) = true)
      (isSelected_matched hd))) hdecided

end Select

/-! ## A fire under other ids -/

section Fires

variable {F : Type} [SelectScore F] {r : Recompute F} {table : StoryTable} {digest : DigestTable}
  {mint : Nat → Uuid} {s s' : Uuid}

theorem find?_matched (hreads : r.Reads table) (hmint : MintsLater r.mint table)
    (hdry : MintsLater mint table) (hs : SameStory table r.mint mint s s') :
    Option.Rel (LinkedStory.Renamed (SameStory table r.mint mint))
      (r.assignment.stories.find? fun story => story.id = s)
      ((r.minting mint).assignment.stories.find? fun story => story.id = s') := by
  refine rel_find? ?_ (Recompute.stories_matched hreads hmint hdry)
  rintro x _ ⟨id, hx, rfl⟩
  exact decide_eq_decide.mpr ((sameStory_orderKept hmint hdry).eq_iff hx hs)

theorem storyEntities_matched (hreads : r.Reads table) (hmint : MintsLater r.mint table)
    (hdry : MintsLater mint table) (hs : SameStory table r.mint mint s s') :
    storyEntities (r.minting mint) s' = storyEntities r s := by
  have hfound := find?_matched hreads hmint hdry hs
  unfold storyEntities
  generalize (r.assignment.stories.find? fun story => story.id = s) = x at hfound ⊢
  generalize ((r.minting mint).assignment.stories.find? fun story => story.id = s') = y at hfound ⊢
  cases hfound with
  | none => rfl
  | some hstory =>
      obtain ⟨id, _, rfl⟩ := hstory
      rfl

/-- The candidates of both runs, as long as no digest shows a story that is yet to be named. -/
theorem candidates_matched (hreads : r.Reads table) (hmint : MintsLater r.mint table)
    (hdry : MintsLater mint table) (fire : Fire F) (threads : ThreadStore F)
    (hshown : ∀ s sh, (lastShown digest r.subscriber fire.windowEnd contextHorizonDays)[s]? = some sh →
      s ∈ table) :
    Forall₂ (Candidate.Renamed (SameStory table r.mint mint))
      ((fire.threaded threads r).candidates r digest)
      ((fire.threaded threads (r.minting mint)).candidates (r.minting mint) digest) := by
  rw [Fire.candidates_eq, Fire.candidates_eq]
  refine rel_map ?_ (Recompute.stories_matched hreads hmint hdry)
  rintro story _ ⟨id, hid, rfl⟩
  refine ⟨id, hid, ?_⟩
  have hlast : (lastShown digest r.subscriber fire.windowEnd contextHorizonDays)[id]? =
      (lastShown digest r.subscriber fire.windowEnd contextHorizonDays)[story.id]? := by
    have hnew : ∀ k : Uuid, k ∉ table →
        (lastShown digest r.subscriber fire.windowEnd contextHorizonDays)[k]? = none := by
      intro k hk
      by_contra hsome
      obtain ⟨sh, hsh⟩ := Option.ne_none_iff_exists'.mp hsome
      exact hk (hshown k sh hsh)
    generalize story.id = k at hid
    cases hid with
    | held _ => rfl
    | minted k => rw [hnew _ (hmint.unused k), hnew _ (hdry.unused k)]
  have hthread : assignCandidateThreads threads (r.minting mint) id =
      assignCandidateThreads threads r story.id := by
    unfold assignCandidateThreads
    rw [storyEntities_matched hreads hmint hdry hid]
    rfl
  show Candidate.mk id _ _ _ _ _ _ _ _ _ _ = Candidate.mk id _ _ _ _ _ _ _ _ _ _
  congr 1

theorem linkAndSelect_matched (hreads : r.Reads table) (hmint : MintsLater r.mint table)
    (hdry : MintsLater mint table) (fire : Fire F) (threads : ThreadStore F)
    (hshown : ∀ s sh, (lastShown digest r.subscriber fire.windowEnd contextHorizonDays)[s]? = some sh →
      s ∈ table) :
    Forall₂ (Decision.Renamed (SameStory table r.mint mint))
      ((fire.threaded threads r).linkAndSelect r digest)
      ((fire.threaded threads (r.minting mint)).linkAndSelect (r.minting mint) digest) :=
  select_matched (sameStory_orderKept hmint hdry)
    (candidates_matched hreads hmint hdry fire threads hshown)

end Fires

/-! ## A dry run beside a second fire -/

def noThreads : ThreadStore ℚ := ⟨[], [], ∅, ∅, ∅⟩

def secondLink : Recompute ℚ := retryLink ["cve:b"]

theorem secondLink_reads : secondLink.Reads firstDb₃.story :=
  Recompute.onTable_reads (show ([1, 2] : List Uuid).Nodup by decide) (by decide +kernel)

theorem secondLink_mints : MintsLater secondLink.mint firstDb₃.story :=
  mintsLater_mintFrom (by decide +kernel)

theorem dryLink_mints : MintsLater (mintFrom 300) firstDb₃.story :=
  mintsLater_mintFrom (by decide +kernel)

/-! ## What is shown, frozen and rendered -/

section Shown

variable {F : Type} [SelectScore F] {sha256 : List UInt8 → List UInt8}
  {ts : List (Run.Transition Db (Action F))} {db : Db} {r : Recompute F} {mint : Nat → Uuid}

theorem DbRuns.shown_held (h : DbRuns sha256 ts db) {sub s : Uuid} {windowEnd : DateTime} {sh : Shown}
    (hs : (lastShown db.digest sub windowEnd contextHorizonDays)[s]? = some sh) : s ∈ db.story := by
  obtain ⟨_, _, hrow, _, ⟨item, hitem, rfl, _⟩, _⟩ := newest_of_lastShown hs
  obtain ⟨story, hstory, _⟩ := (DbRuns.itemsOwn h).own hrow item hitem
  rw [← Std.ExtTreeMap.isSome_getElem?_iff_mem, hstory]
  rfl

/-- In every state of a run, a dry run shows the candidates of the fire from the same reads in the
same order, each with the verdict and the reasons the fire records of it, and selects what the fire
freezes. Only the new stories have other names. -/
theorem explain_agrees (h : DbRuns sha256 ts db) (hreads : r.Reads db.story)
    (hmint : MintsLater r.mint db.story) (hdry : MintsLater mint db.story) (fire : Fire F)
    (threads : ThreadStore F) :
    Forall₂ (fun record row => SameStory db.story r.mint mint record.storyId row.storyId ∧
        row.verdict = record.verdict ∧ row.reason = record.reason)
      (decisionLog r ((fire.threaded threads r).linkAndSelect r db.digest))
      (explain (fire.threaded threads (r.minting mint)) (r.minting mint) db.digest db.cluster) ∧
    Forall₂ (fun item row => SameStory db.story r.mint mint item.storyId row.storyId ∧
        row.lastEventTime = item.lastEventTime)
      (frozenItems ((fire.threaded threads r).linkAndSelect r db.digest))
      ((explain (fire.threaded threads (r.minting mint)) (r.minting mint) db.digest
        db.cluster).filter (·.isSelected)) := by
  have hdecisions := linkAndSelect_matched hreads hmint hdry fire threads
    fun s sh hs => DbRuns.shown_held h hs
  constructor
  · refine rel_map ?_ hdecisions
    rintro d _ ⟨id, hid, rfl⟩
    refine ⟨hid, rfl, ?_⟩
    show reasonOf d (storyEntities (r.minting mint) id) = reasonOf d (storyEntities r d.id)
    rw [storyEntities_matched hreads hmint hdry hid]
  · unfold explain
    rw [List.filter_map]
    refine rel_map ?_ (rel_filter (fun d d' hd => ?_) hdecisions)
    · rintro d _ ⟨id, hid, rfl⟩
      exact ⟨hid, rfl⟩
    · exact iff_of_eq (congrArg (· = true) (isSelected_matched hd))

theorem explain_agrees_second :
    Forall₂ (fun record row =>
        SameStory firstDb₃.story secondLink.mint (mintFrom 300) record.storyId row.storyId ∧
          row.verdict = record.verdict ∧ row.reason = record.reason)
      (decisionLog secondLink (((Fire.plain ℚ 20).threaded noThreads secondLink).linkAndSelect
        secondLink firstDb₃.digest))
      (explain ((Fire.plain ℚ 20).threaded noThreads (secondLink.minting (mintFrom 300)))
        (secondLink.minting (mintFrom 300)) firstDb₃.digest firstDb₃.cluster) :=
  (explain_agrees firstRun_runs secondLink_reads secondLink_mints dryLink_mints (Fire.plain ℚ 20)
    noThreads).1

/-! ## What is rendered of it -/

/-- The card of a dry run and the item that is mailed: the same representative with the same
connections, and the same text unless the story has a synthesis. -/
structure Previews (x y : RenderItem) : Prop where
  title : y.title = x.title
  link : y.link = x.link
  source : y.source = x.source
  lastEventTime : y.lastEventTime = x.lastEventTime
  connections : y.connections = x.connections
  text : y.synthesized = false → y = x

omit [SelectScore F] in
theorem clusterCards_getElem? {cluster : ClusterTable} {sub c : Uuid} {ids ids' : List Uuid}
    (h : c ∈ ids) (h' : c ∈ ids') :
    (clusterCards cluster sub ids)[c]? = (clusterCards cluster sub ids')[c]? := by
  by_cases hread : Readable cluster sub c
  · have hmem : c ∈ clusterCards cluster sub ids := mem_clusterCards.mpr ⟨h, hread⟩
    have hmem' : c ∈ clusterCards cluster sub ids' := mem_clusterCards.mpr ⟨h', hread⟩
    rw [← Std.ExtTreeMap.isSome_getElem?_iff_mem, Option.isSome_iff_exists] at hmem hmem'
    obtain ⟨card, hcard⟩ := hmem
    obtain ⟨card', hcard'⟩ := hmem'
    obtain ⟨row, hrow, rfl⟩ := row_of_card hcard
    obtain ⟨row', hrow', rfl⟩ := row_of_card hcard'
    rw [hcard, hcard', Option.some.inj (hrow.symm.trans hrow')]
  · have hnone : ∀ ids, (clusterCards cluster sub ids)[c]? = none := by
      intro ids
      exact Std.ExtTreeMap.getElem?_eq_none fun hmem => hread (mem_clusterCards.mp hmem).2
    rw [hnone, hnone]

omit [SelectScore F] in
theorem resolvedMembers_congr {members : List ClusterRef} {cards cards' : Cards}
    (h : ∀ m ∈ members, cards[m.clusterId]? = cards'[m.clusterId]?) :
    resolvedMembers members cards = resolvedMembers members cards' := by
  unfold resolvedMembers
  congr 1
  refine List.filterMap_congr fun m hm => ?_
  rw [h m hm]

omit [SelectScore F] in
/-- A story's own text changes nothing of an item but the text. -/
theorem buildRenderItem_previews {members : List ClusterRef} {cards cards' : Cards}
    (h : ∀ m ∈ members, cards[m.clusterId]? = cards'[m.clusterId]?) (s : ClusterSummary) :
    Option.Rel Previews (buildRenderItem members cards none) (buildRenderItem members cards' (some s)) := by
  unfold buildRenderItem
  rw [resolvedMembers_congr h]
  cases resolvedMembers members cards' with
  | nil => exact .none
  | cons first others =>
      refine .some ⟨rfl, rfl, rfl, rfl, rfl, fun htext => ?_⟩
      have hempty : s.isEmpty = true := by simpa using htext
      simp [chosenSummary_of_isEmpty hempty, hempty]

omit [SelectScore F] in
theorem renderOrder_created {digest : DigestTable} {id sub : Uuid} {windowEnd : DateTime}
    {items : List FrozenItem} (hnew : findDigest digest sub windowEnd = none) :
    renderOrder (createWithItems digest id sub windowEnd items) id = items.map (·.storyId) := by
  have hsorted : (newDigest sub windowEnd items).items.Pairwise fun x y : DigestItem =>
      x.position ≤ y.position := by
    show (items.zipIdx.map fun item => item.1.row item.2).Pairwise _
    rw [List.pairwise_map, List.pairwise_iff_getElem]
    intro i j hi hj hij
    rw [List.getElem_zipIdx, List.getElem_zipIdx]
    show 0 + i ≤ 0 + j
    omega
  unfold renderOrder
  rw [createWithItems_getElem?, if_pos ⟨hnew, rfl⟩, Option.map_some, Option.getD_some,
    hsorted.insertionSort_eq, newDigest_stories]

theorem exists_story_of_selected {fire : Fire F} {digest : DigestTable} {d : Decision F}
    (h : d ∈ fire.linkAndSelect r digest) : ∃ story ∈ r.assignment.stories, story.id = d.id := by
  obtain ⟨c, hc, hgate⟩ := mem_select h
  rw [Fire.candidates_eq] at hc
  obtain ⟨story, hstory, rfl⟩ := List.mem_map.mp hc
  refine ⟨story, hstory, ?_⟩
  rcases hgate with hdropped | ⟨_, v, rfl⟩
  · obtain ⟨cause, rfl⟩ := gate_eq_inl hdropped
    rfl
  · rfl

/-- The row of a story once its assignment is written, whatever was delivered or synthesized since. -/
theorem row_of_persisted {table : StoryTable} (hreads : r.Reads db.story)
    (hapart : StoriesApart db.story r.subscriber) {story : LinkedStory}
    (hstory : story ∈ r.assignment.stories) (hsame : SameStories (r.persist db.now db.story) table) :
    ∃ row, ownStory table r.subscriber story.id = some row ∧ row.clusters = story.clusters := by
  have hwritten := @persist_story db.now r.subscriber r.assignment db.story
    (hreads.writable hapart) story hstory
  obtain ⟨row, hrow, hcontent⟩ := hsame.row hwritten
  refine ⟨row, ownStory_eq_some.mpr ⟨hrow, ?_⟩, ?_⟩
  · rw [hcontent.1]
    refine Recompute.written_subscriber ?_
    rcases Recompute.story_id hreads hapart hstory with ⟨_, hrep⟩ | hnew
    · exact Or.inr hrep
    · exact Or.inl (Recompute.not_mem_iff.mp hnew)
  · rw [hcontent.clusters, upsertRow_clusters]

theorem mem_renderedMembers {table : StoryTable} {digest : DigestTable} {sub id s c : Uuid}
    {row : StoryRow} (hs : s ∈ digestStories digest id) (hown : ownStory table sub s = some row)
    (hc : c ∈ row.members) : c ∈ (renderStories table digest sub id).flatMap fun s => s.2.members := by
  unfold digestStories at hs
  unfold renderStories
  cases hdigest : digest[id]? with
  | none =>
      rw [hdigest] at hs
      cases hs
  | some d =>
      rw [hdigest] at hs
      obtain ⟨item, hitem, rfl⟩ := List.mem_map.mp hs
      refine List.mem_flatMap.mpr ⟨(item, row), List.mem_filterMap.mpr ⟨item, ?_, ?_⟩, hc⟩
      · exact (List.mem_insertionSort _).mpr hitem
      · rw [hown]
        rfl

theorem explainCards_matched (hreads : r.Reads db.story) (hmint : MintsLater r.mint db.story)
    (hdry : MintsLater mint db.story) (cluster : ClusterTable) :
    explainCards (r.minting mint) cluster = explainCards r cluster := by
  have hmembers : (r.minting mint).assignment.stories.flatMap (·.members) =
      r.assignment.stories.flatMap (·.members) := by
    have hstories := Recompute.stories_matched hreads hmint hdry
    generalize r.assignment.stories = l at hstories ⊢
    generalize (r.minting mint).assignment.stories = l' at hstories ⊢
    induction hstories with
    | nil => rfl
    | cons hstory _ ih =>
        obtain ⟨id, _, rfl⟩ := hstory
        rw [List.flatMap_cons, List.flatMap_cons, ih]
        rfl
  unfold explainCards
  rw [hmembers]
  rfl

theorem explainItem_eq {s : Uuid} (hreads : r.Reads db.story) (hmint : MintsLater r.mint db.story)
    (hdry : MintsLater mint db.story) (hapart : StoriesApart db.story r.subscriber)
    {story : LinkedStory} (hstory : story ∈ r.assignment.stories)
    (hs : SameStory db.story r.mint mint story.id s) (cards : Cards) :
    explainItem (r.minting mint) cards s = buildRenderItem story.clusters cards none := by
  have hfound : (r.assignment.stories.find? fun x => x.id = story.id) = some story := by
    cases hfind : r.assignment.stories.find? fun x => x.id = story.id with
    | none => simpa using List.find?_eq_none.mp hfind story hstory
    | some x =>
        have hid := List.find?_some hfind
        rw [decide_eq_true_eq] at hid
        rw [List.inj_on_of_nodup_map (hreads.writable hapart).nodup
          (List.mem_of_find?_eq_some hfind) hstory hid]
  have hmatched := find?_matched hreads hmint hdry hs
  rw [hfound] at hmatched
  unfold explainItem
  generalize ((r.minting mint).assignment.stories.find? fun x => x.id = s) = y at hmatched ⊢
  cases hmatched with
  | some hx =>
      obtain ⟨id, _, rfl⟩ := hx
      rfl

/-- The card of a linked story, and what a digest that shows the story renders of it. -/
theorem item_previews {table : StoryTable} {digest : DigestTable} {cluster : ClusterTable}
    {id s : Uuid} (hreads : r.Reads db.story) (hmint : MintsLater r.mint db.story)
    (hdry : MintsLater mint db.story) (hapart : StoriesApart db.story r.subscriber)
    {story : LinkedStory} (hstory : story ∈ r.assignment.stories)
    (hsame : SameStories (r.persist db.now db.story) table)
    (hshown : story.id ∈ digestStories digest id)
    (hs : SameStory db.story r.mint mint story.id s) :
    Option.Rel Previews
      (explainItem (r.minting mint) (explainCards (r.minting mint) cluster) s)
      (storyItem table digest cluster r.subscriber id story.id) := by
  obtain ⟨row, hown, hclusters⟩ := row_of_persisted hreads hapart hstory hsame
  have hcards : ∀ m ∈ story.clusters, (explainCards r cluster)[m.clusterId]? =
      (digestCards table digest cluster r.subscriber id)[m.clusterId]? := by
    intro m hm
    have hmember : m.clusterId ∈ story.members := List.mem_map_of_mem hm
    have hrow : m.clusterId ∈ row.members := by
      unfold StoryRow.members
      rw [hclusters]
      exact hmember
    exact clusterCards_getElem? (List.mem_flatMap.mpr ⟨story, hstory, hmember⟩)
      (mem_renderedMembers hshown hown hrow)
  rw [explainCards_matched hreads hmint hdry,
    explainItem_eq hreads hmint hdry hapart hstory hs]
  unfold storyItem
  rw [hown, Option.bind_some, hclusters]
  exact buildRenderItem_previews hcards _

/-- When the fire's digest is rendered, whatever was synthesized in the meantime, its items are the
cards the dry run shows of its selected rows, in the same order, but for the synthesized texts. -/
theorem explain_previews (h : DbRuns sha256 ts db) (hreads : r.Reads db.story)
    (hmint : MintsLater r.mint db.story) (hdry : MintsLater mint db.story) (fire : Fire F)
    (threads : ThreadStore F) (hnew : findDigest db.digest r.subscriber fire.windowEnd = none)
    {table : StoryTable} (hsame : SameStories (r.persist db.now db.story) table) (id : Uuid) :
    Forall₂ Previews
      (((explain (fire.threaded threads (r.minting mint)) (r.minting mint) db.digest
        db.cluster).filter (·.isSelected)).filterMap (·.item))
      (renderItems table (createWithItems db.digest id r.subscriber fire.windowEnd
        (frozenItems ((fire.threaded threads r).linkAndSelect r db.digest)))
        db.cluster r.subscriber id) := by
  have hdecisions := linkAndSelect_matched hreads hmint hdry fire threads
    fun s sh hs => DbRuns.shown_held h hs
  have hselected := rel_filter (fun d d' hd =>
    iff_of_eq (congrArg (· = true) (isSelected_matched hd))) hdecisions
  have horder : renderOrder (createWithItems db.digest id r.subscriber fire.windowEnd
      (frozenItems ((fire.threaded threads r).linkAndSelect r db.digest))) id =
      (((fire.threaded threads r).linkAndSelect r db.digest).filter (·.isSelected)).map (·.id) := by
    rw [renderOrder_created hnew]
    unfold frozenItems
    rw [List.map_map]
    rfl
  have hlinked : ∀ d ∈ ((fire.threaded threads r).linkAndSelect r db.digest).filter (·.isSelected),
      (∃ story ∈ r.assignment.stories, story.id = d.id) ∧
        d.id ∈ digestStories (createWithItems db.digest id r.subscriber fire.windowEnd
          (frozenItems ((fire.threaded threads r).linkAndSelect r db.digest))) id := by
    intro d hd
    refine ⟨exists_story_of_selected (List.mem_filter.mp hd).1, ?_⟩
    rw [← renderOrder_perm.mem_iff, horder]
    exact List.mem_map_of_mem hd
  rw [renderItems_eq, horder]
  unfold explain
  rw [List.filterMap_map, List.filter_map, List.filterMap_map]
  refine rel_filterMap ?_ (((List.forall₂_and_left _ _).mpr ⟨hlinked, hselected⟩).flip)
  rintro _ d ⟨⟨⟨story, hstory, hid⟩, hshown⟩, s, hs, rfl⟩
  rw [← hid] at hs hshown
  show Option.Rel Previews _ (storyItem _ _ _ _ _ d.id)
  rw [← hid]
  exact item_previews hreads hmint hdry (DbRuns.apart h r.subscriber) hstory hsame hshown hs

theorem explain_previews_second : Forall₂ Previews
    (((explain ((Fire.plain ℚ 20).threaded noThreads (secondLink.minting (mintFrom 300)))
      (secondLink.minting (mintFrom 300)) firstDb₃.digest firstDb₃.cluster).filter
        (·.isSelected)).filterMap (·.item))
    (renderItems (secondLink.persist firstDb₃.now firstDb₃.story)
      (createWithItems firstDb₃.digest 600 7 20 (frozenItems
        (((Fire.plain ℚ 20).threaded noThreads secondLink).linkAndSelect secondLink
          firstDb₃.digest))) firstDb₃.cluster 7 600) :=
  explain_previews firstRun_runs secondLink_reads secondLink_mints dryLink_mints (Fire.plain ℚ 20)
    noThreads (by decide +kernel) (SameStories.refl _) 600

end Shown

end Bulletin
