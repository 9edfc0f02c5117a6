import Bulletin.Ingest.Append

/-! # RSS and Atom feeds

A feed is fetched behind its validators and read as RSS, or else as Atom. An item is named after
the first name it has, and an article is a cluster of its own.
-/

namespace Bulletin

open Text

/-! ## Text of a fragment -/

/-- Cut at the last space within the first `maxChars` characters. -/
def truncateOnWordBoundary (s : List Char) (maxChars : Nat) : List Char :=
  if s.length ≤ maxChars then s
  else
    let truncated := s.take maxChars
    let head := ((truncated.reverse.dropWhile (· != ' ')).drop 1).reverse
    if head = [] then truncated else head

/-- A fragment of markup as plain text; `html2text` renders the markup, if it can. -/
def renderHtml (html2text : List Char → Option (List Char)) (html : List Char)
    (maxHtmlChars maxChars : Nat) : Option (List Char) :=
  if splitWhitespace html = [] then none
  else
    (html2text (html.take maxHtmlChars)).bind fun rendered =>
      let tokens := (words (fun c => isWhitespace c || c == '[' || c == ']') rendered).filter
        fun tok => !tok.all (· == '#')
      let normalized := [' '].intercalate tokens
      if normalized = [] then none else some (truncateOnWordBoundary normalized maxChars)

/-! ## Items -/

structure RssItem where
  id : String
  title : String
  body : Option String
  link : Option String
  published : Option DateTime
deriving DecidableEq, Repr

structure ChannelItem where
  guid : Option String := none
  link : Option String := none
  title : Option String := none
  content : Option String := none
  description : Option String := none
  pubDate : Option String := none
deriving DecidableEq, Repr

/-- An entry of an Atom feed; the value of its content may be missing. -/
structure AtomEntry where
  id : String
  title : String
  content : Option (Option String) := none
  summary : Option String := none
  links : List String := []
  published : Option DateTime := none
  updated : DateTime
deriving DecidableEq, Repr

/-- The libraries that read a feed. -/
structure FeedReaders where
  channel : List UInt8 → Option (List ChannelItem)
  atom : List UInt8 → Except String (List AtomEntry)
  rfc2822 : String → Option DateTime
  html2text : List Char → Option (List Char)

inductive FeedEntry where
  | channel (item : ChannelItem)
  | atom (entry : AtomEntry)
deriving DecidableEq, Repr

def maxBodyChars : Nat := 2000

def maxBodyHtmlChars : Nat := 16000

section Parsing

variable (readers : FeedReaders)

def bodyText (html : String) : Option String :=
  (renderHtml readers.html2text html.toList maxBodyHtmlChars maxBodyChars).map String.ofList

def FeedEntry.item : FeedEntry → RssItem
  | .channel item =>
      let id := (item.guid.or (item.link.or item.title)).getD ""
      { id := id
        title := item.title.getD id
        body := (item.content.or item.description).bind (bodyText readers)
        link := item.link
        published := item.pubDate.bind readers.rfc2822 }
  | .atom entry =>
      { id := entry.id
        title := entry.title
        body := ((entry.content.bind id).or entry.summary).bind (bodyText readers)
        link := entry.links.head?
        published := entry.published.or (some entry.updated) }

def feedEntries (bytes : List UInt8) : Except SourceError (List FeedEntry) :=
  match readers.channel bytes with
  | some items => .ok (items.map .channel)
  | none => match readers.atom bytes with
    | .ok entries => .ok (entries.map .atom)
    | .error e => .error (.parse ("not valid RSS or Atom: " ++ e))

def parseFeed (bytes : List UInt8) : Except SourceError (List RssItem) :=
  (feedEntries readers bytes).map fun entries => entries.map (FeedEntry.item readers)

end Parsing

/-! ## The poll -/

structure RssCursor where
  etag : Option String := none
  lastModified : Option String := none
deriving DecidableEq, Repr

/-- What comes back for a request: the status as it is shown, the validators, and the body unless
its transfer fails. -/
inductive FeedAnswer where
  | unreachable (error : String)
  | answered (status : Nat) (shown : String) (etag lastModified : Option String)
      (body : Except String (List UInt8))

/-- One poll of a feed, from what its server answers to the validators of the cursor. -/
def pollFeed (readers : FeedReaders) (cursor : RssCursor) :
    FeedAnswer → Except SourceError (List RssItem × RssCursor)
  | .unreachable error => .error (.request error)
  | .answered status shown etag lastModified body =>
      if status = 304 then .ok ([], cursor)
      else if ¬ (200 ≤ status ∧ status < 300) then .error (.request ("HTTP " ++ shown))
      else
        match body with
        | .error error => .error (.request error)
        | .ok bytes => (parseFeed readers bytes).map fun items => (items, ⟨etag, lastModified⟩)

def RssItem.toEvents (now : DateTime) (item : RssItem) : List EventBuilder :=
  [{ source := .rss
     stableId := item.id
     eventTime := item.published.getD now
     title := item.title
     -- each article is its own cluster
     groupKey := item.id
     contentKind := if item.body.any fun body => trim body ≠ "" then .longform else .announcement
     links := item.link.toList
     body := item.body }]

/-! ## What an item is named after -/

def FeedEntry.names : FeedEntry → List String
  | .channel item => item.guid.toList ++ item.link.toList ++ item.title.toList
  | .atom entry => [entry.id]

def FeedEntry.firstName (entry : FeedEntry) : String := entry.names.head?.getD ""

def FeedEntry.link : FeedEntry → Option String
  | .channel item => item.link
  | .atom entry => entry.links.head?

def FeedEntry.title : FeedEntry → Option String
  | .channel item => item.title
  | .atom entry => some entry.title

/-- An entry in the feed of a URL. -/
structure FeedItem where
  feed : String
  entry : FeedEntry
deriving DecidableEq, Repr

namespace FeedItem

/-- The events of an item, from a connection of this owner. -/
def ingested (readers : FeedReaders) (sha256 : List UInt8 → List UInt8) (now : DateTime)
    (owner : Option Uuid) (connection : Uuid) (a : FeedItem) : List NewEvent :=
  ((a.entry.item readers).toEvents now).map fun b =>
    { b with connectionId := some connection }.finalize sha256 owner

/-- The items are in different feeds and differ in their link or their title. -/
def DifferentContent (a b : FeedItem) : Prop :=
  a.feed ≠ b.feed ∧ (a.entry.link ≠ b.entry.link ∨ a.entry.title ≠ b.entry.title)

instance (a b : FeedItem) : Decidable (DifferentContent a b) :=
  inferInstanceAs (Decidable (_ ∧ _))

def SameArticle (a b : FeedItem) : Prop := a.entry.link ≠ none ∧ a.entry.link = b.entry.link

end FeedItem

/-- Two events of two items have their own identities, they are in one group only if the items are
one article, and both are stored. -/
structure StoredApart (a b : FeedItem) (ev ev' : NewEvent) : Prop where
  fingerprint : ev.fingerprint ≠ ev'.fingerprint
  group : ev.key = ev'.key → a.SameArticle b
  rows : ∀ log : List Event, (∀ e ∈ log, e.fingerprint ≠ ev.fingerprint ∧
      e.fingerprint ≠ ev'.fingerprint) →
    ∀ (now now' : DateTime) (id id' : Uuid),
      (insertAll [(now, id, ev), (now', id', ev')] log).length = log.length + 2

section Names

variable {readers : FeedReaders} {sha256 : List UInt8 → List UInt8} {now : DateTime}
  {owner : Option Uuid} {connection : Uuid} {a : FeedItem} {ev : NewEvent}

theorem item_id (entry : FeedEntry) : (entry.item readers).id = entry.firstName := by
  cases entry with
  | atom entry => rfl
  | channel item =>
      obtain ⟨guid, link, title, _, _, _⟩ := item
      cases guid <;> cases link <;> cases title <;> rfl

theorem exists_ingested : ∃ ev, ev ∈ a.ingested readers sha256 now owner connection :=
  ⟨_, List.mem_singleton_self _⟩

theorem ingested_spec (h : ev ∈ a.ingested readers sha256 now owner connection) :
    ev.fingerprint = fingerprint sha256 .rss a.entry.firstName ∧
      ev.key = ⟨.ofPublic, .rss, a.entry.firstName⟩ := by
  obtain rfl := List.mem_singleton.mp h
  rw [← @item_id readers]
  exact ⟨rfl, rfl⟩

end Names

/-- Items of different feeds and different content are kept apart exactly when the first name each
of them has, its guid, else its link, else its title, is another. -/
theorem feed_items_apart_iff {readers : FeedReaders} {sha256 : List UInt8 → List UInt8}
    {now now' : DateTime} {owner owner' : Option Uuid} {connection connection' : Uuid}
    {a b : FeedItem}
    (hcollision : sha256 (framed SourceKind.rss.asStr ++ framed a.entry.firstName) =
      sha256 (framed SourceKind.rss.asStr ++ framed b.entry.firstName) →
        framed SourceKind.rss.asStr ++ framed a.entry.firstName =
          framed SourceKind.rss.asStr ++ framed b.entry.firstName) :
    (a.DifferentContent b → ∀ ev ∈ a.ingested readers sha256 now owner connection,
      ∀ ev' ∈ b.ingested readers sha256 now' owner' connection', StoredApart a b ev ev') ↔
    (a.DifferentContent b → a.entry.firstName ≠ b.entry.firstName) := by
  apply imp_congr_right
  intro _
  constructor
  · intro h heq
    obtain ⟨ev, hev⟩ := @exists_ingested readers sha256 now owner connection a
    obtain ⟨ev', hev'⟩ := @exists_ingested readers sha256 now' owner' connection' b
    apply (h ev hev ev' hev').fingerprint
    rw [(ingested_spec hev).1, (ingested_spec hev').1, heq]
  · intro hne ev hev ev' hev'
    obtain ⟨hfp, hkey⟩ := ingested_spec hev
    obtain ⟨hfp', hkey'⟩ := ingested_spec hev'
    have hapart : ev.fingerprint ≠ ev'.fingerprint := by
      rw [hfp, hfp']
      exact fingerprint_ne hcollision hne
    refine ⟨hapart, ?_, fun _ hlog => length_insertAll_pair hapart hlog⟩
    intro hsame
    rw [hkey, hkey'] at hsame
    exact absurd (GroupKey.mk.inj hsame).2.2 hne

/-! ## Two feeds that count their items -/

def firstPost : FeedItem where
  feed := "https://one.example/feed"
  entry := .channel { guid := some "1", link := some "https://one.example/a", title := some "A" }

def otherPost (guid : String) : FeedItem where
  feed := "https://two.example/feed"
  entry := .channel { guid := some guid, link := some "https://two.example/b", title := some "B" }

def postReaders : FeedReaders where
  channel := fun bytes =>
    if bytes = [1] then
      some [{ guid := some "1", link := some "https://one.example/a", title := some "A" }]
    else some [{ guid := some "1", link := some "https://two.example/b", title := some "B" }]
  atom := fun _ => .error ""
  rfc2822 := fun _ => none
  html2text := fun _ => none

def postAnswer (bytes : List UInt8) : FeedAnswer := .answered 200 "200 OK" none none (.ok bytes)

theorem feed_items_apart_iff_posts : firstPost.DifferentContent (otherPost "2") ∧
    ∀ ev ∈ firstPost.ingested postReaders id 5 none 1,
      ∀ ev' ∈ (otherPost "2").ingested postReaders id 6 none 2,
        StoredApart firstPost (otherPost "2") ev ev' := by
  have hdifferent : firstPost.DifferentContent (otherPost "2") := by decide +kernel
  have hnames : firstPost.entry.firstName ≠ (otherPost "2").entry.firstName := by decide +kernel
  have happly := @feed_items_apart_iff postReaders id 5 6 none none 1 2 firstPost (otherPost "2")
    fun h => h
  exact ⟨hdifferent, happly.mpr (fun _ => hnames) hdifferent⟩

/-- Both feeds name their first item 1: the second article is dropped, as an event of the first. -/
theorem first_items_collide : firstPost.DifferentContent (otherPost "1") ∧
    pollFeed postReaders {} (postAnswer [1]) = .ok ([firstPost.entry.item postReaders], {}) ∧
    pollFeed postReaders {} (postAnswer [2]) = .ok ([(otherPost "1").entry.item postReaders], {}) ∧
    ¬ firstPost.SameArticle (otherPost "1") ∧
    (firstPost.ingested postReaders id 5 none 1).map (·.key) =
      ((otherPost "1").ingested postReaders id 6 none 2).map (·.key) ∧
    ((insertAll ((firstPost.ingested postReaders id 5 none 1 ++
      (otherPost "1").ingested postReaders id 6 none 2).map fun ev => (7, 1, ev)) []).map (·.title)) =
        ["A"] ∧
    ¬ ∀ ev ∈ firstPost.ingested postReaders id 5 none 1,
      ∀ ev' ∈ (otherPost "1").ingested postReaders id 6 none 2,
        StoredApart firstPost (otherPost "1") ev ev' := by
  have hother : ¬ firstPost.SameArticle (otherPost "1") :=
    fun h => absurd h.2 (by decide +kernel)
  refine ⟨by decide +kernel, rfl, rfl, hother, by decide +kernel, by decide +kernel, ?_⟩
  intro h
  obtain ⟨ev, hev⟩ := @exists_ingested postReaders id 5 none 1 firstPost
  obtain ⟨ev', hev'⟩ := @exists_ingested postReaders id 6 none 2 (otherPost "1")
  refine hother ((h ev hev ev' hev').group ?_)
  rw [(ingested_spec hev).2, (ingested_spec hev').2]
  decide +kernel

end Bulletin
