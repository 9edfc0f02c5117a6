import Mathlib.Data.List.Sort
import Bulletin.Cluster.Model
import Bulletin.Digest.Model
import Bulletin.Link.Store

/-! # The digest tables

Freezing a selection, marking it delivered, and the two reads that join digests
with stories: what was last shown, and the trail behind a story.
-/

namespace Bulletin

open Buckets

/-! ## Freezing and delivering -/

/-- The digest of a subscriber's window, if it was created. -/
def findDigest (digest : DigestTable) (sub : Uuid) (windowEnd : DateTime) :
    Option (Uuid × DigestRow) :=
  digest.toList.find? fun entry => entry.2.subscriberId = sub ∧ entry.2.windowEnd = windowEnd

/-- Create the digest of a window with its items, unless the window has one already. -/
def createWithItems (digest : DigestTable) (id sub : Uuid) (windowEnd : DateTime)
    (items : List FrozenItem) : DigestTable :=
  match findDigest digest sub windowEnd with
  | some _ => digest
  | none =>
      digest.insert id
        { subscriberId := sub
          windowEnd := windowEnd
          deliveredAt := none
          items := items.zipIdx.map fun item => item.1.row item.2 }

def DigestRow.deliver (now : DateTime) (row : DigestRow) : DigestRow :=
  { row with deliveredAt := row.deliveredAt.or (some now) }

def digestStories (digest : DigestTable) (id : Uuid) : List Uuid :=
  (digest[id]?.map fun row => row.items.map (·.storyId)).getD []

/-! ## What was last shown -/

def daysInterval (days : Int) : Int := days * 86400000000

/-- How far back stories are linked and remembered, in days. -/
def contextHorizonDays : Int := 30

/-- The digests `lastShown` reads, oldest window first. -/
def shownDigests (digest : DigestTable) (sub : Uuid) (windowEnd : DateTime) (horizonDays : Int) :
    List DigestRow :=
  ((digest.toList.map Prod.snd).filter fun row => row.subscriberId = sub ∧
    row.windowEnd < windowEnd ∧ windowEnd - daysInterval horizonDays ≤ row.windowEnd).insertionSort
      fun x y => x.windowEnd ≤ y.windowEnd

def snapshots (rows : List DigestRow) : List (Uuid × Shown) :=
  rows.flatMap fun row => row.items.filterMap fun item => item.shown.map fun s => (item.storyId, s)

/-- For each story, its newest snapshot before `windowEnd` and within the horizon. -/
def lastShown (digest : DigestTable) (sub : Uuid) (windowEnd : DateTime) (horizonDays : Int) :
    Std.ExtTreeMap Uuid Shown compare :=
  collect Prod.fst (fun _ item => item.2)
    (snapshots (shownDigests digest sub windowEnd horizonDays)) ∅

/-! ## The trail behind a story -/

def ownStory (table : StoryTable) (sub id : Uuid) : Option StoryRow :=
  table[id]?.filter fun row => row.subscriberId = sub

theorem ownStory_eq_some {table : StoryTable} {sub id : Uuid} {row : StoryRow} :
    ownStory table sub id = some row ↔ table[id]? = some row ∧ row.subscriberId = sub := by
  unfold ownStory
  rw [Option.filter_eq_some_iff, decide_eq_true_eq]

/-- The clusters of a story, or of the survivor its tombstone points to: one hop. -/
def timelineMembers (table : StoryTable) (sub id : Uuid) : List Uuid :=
  match ownStory table sub id with
  | none => []
  | some row =>
      let survivor := row.mergedInto.bind (ownStory table sub)
      ((survivor.map (·.clusters)).getD row.clusters).map (·.clusterId)

structure TimelineEntry where
  eventTime : DateTime
  source : SourceKind
  title : String
  link : Option String
deriving DecidableEq, Repr

def clusterEvents (cluster : ClusterTable) (event : List EventRow) (sub : Uuid) (ids : List Uuid) :
    List TimelineEntry :=
  let joined := (readClusters cluster sub ids).flatMap fun c =>
    event.filter fun e => e.key = c.2.key ∧ e.key.scope.visibleTo sub
  (joined.insertionSort fun x y => (compare x.eventTime y.eventTime).then (compare x.id y.id) ≠ .gt).map
    fun e => ⟨e.eventTime, e.key.source, e.title, e.links.head?⟩

def storyTimeline (table : StoryTable) (cluster : ClusterTable) (event : List EventRow)
    (sub id : Uuid) : List TimelineEntry :=
  match timelineMembers table sub id with
  | [] => []
  | members => clusterEvents cluster event sub members

end Bulletin
