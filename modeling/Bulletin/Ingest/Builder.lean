import Bulletin.Common.Entity
import Bulletin.Common.Text
import Bulletin.Ingest.Event

/-! # Finalizing an event

A connector hands in what it knows of an item. The scope comes from the owner of the
connection, the fingerprint from the source and the connector's id, and the entities that
all sources share from the text.
-/

namespace Bulletin

/-! ## Entities of a text -/

/-- A URL in its canonical form, and its domain. -/
def normalizeUrl (raw : List Char) : Option (List Char × List Char) :=
  (splitOnce "://".toList raw).bind fun (scheme, rest) =>
    let scheme := asciiLower scheme
    if scheme ≠ "http".toList ∧ scheme ≠ "https".toList then none
    else
      let inHost := fun c => c != '/' && c != '?' && c != '#'
      let host := asciiLower (rest.takeWhile inHost)
      if host = [] then none
      else
        let path := (rest.dropWhile inHost).takeWhile (· != '#')
        let url := trimEndMatches (· == '/') (scheme ++ "://".toList ++ host ++ path)
        let www := "www.".toList
        some (url, if www.isPrefixOf host then host.drop www.length else host)

/-- Marks that end a sentence or close a bracket around a link. -/
def isUrlTrailer (c : Char) : Bool := ".,;:)]\x7d\"\'>!?".toList.contains c

def urlEntities (candidate : List Char) : List String :=
  match normalizeUrl candidate with
  | none => []
  | some (url, domain) => ["url:" ++ String.ofList url, "domain:" ++ String.ofList domain]

/-- The length of a year and a sequence number of four digits or more each. -/
def cveTail (rest : List Char) : Option Nat :=
  let year := (rest.takeWhile Char.isDigit).length
  if year < 4 ∨ rest[year]? ≠ some '-' then none
  else
    let seq := ((rest.drop (year + 1)).takeWhile Char.isDigit).length
    if seq < 4 then none else some (year + 1 + seq)

/-- The ids in a text, with the character before it; an id is passed over once it is found. -/
def cveEntities (before : Option Char) (skip : Nat) : List Char → List String
  | [] => []
  | c :: cs =>
      match skip with
      | skip + 1 => cveEntities (some c) skip cs
      | 0 =>
          if "cve-".toList.isPrefixOf (asciiLower (c :: cs)) then
            match before.any Char.isAlphanum, cveTail ((c :: cs).drop 4) with
            | false, some tail =>
                ("cve:" ++ String.ofList (asciiUpper ((c :: cs).take (4 + tail)))) ::
                  cveEntities (some c) (3 + tail) cs
            | _, _ => cveEntities (some c) 3 cs
          else cveEntities (some c) 0 cs

/-- The tokens of the links, and of the title and the body. -/
def deriveEntities (title : String) (body : Option String) (links : List String) : List String :=
  sortDedup (links.flatMap (fun link => urlEntities link.toList) ++
    (title :: body.toList).flatMap fun text => cveEntities none 0 text.toList ++
      (splitWhitespace text.toList).flatMap fun token =>
        urlEntities (trimEndMatches isUrlTrailer token))

/-! ## Fingerprints -/

def SourceKind.asStr : SourceKind → String
  | rss => "rss"
  | github => "github"
  | slack => "slack"

def lengthBytes (n : Nat) : List UInt8 := (List.range 8).map fun i => (n / 256 ^ i).toUInt8

def framed (s : String) : List UInt8 := lengthBytes (utf8 s).length ++ utf8 s

def fingerprint (sha256 : List UInt8 → List UInt8) (source : SourceKind) (stableId : String) :
    List UInt8 :=
  sha256 (framed source.asStr ++ framed stableId)

theorem framed_injective : Function.Injective framed := by
  intro a b h
  have hlength : ∀ n, (lengthBytes n).length = 8 := by
    intro n
    simp [lengthBytes]
  have hbytes : utf8 a = utf8 b := by
    refine (List.append_inj h ?_).2
    rw [hlength, hlength]
  exact utf8_injective hbytes

/-- Without a collision on these two inputs, fingerprints of one source tell ids apart. -/
theorem fingerprint_ne {sha256 : List UInt8 → List UInt8} {source : SourceKind} {a b : String}
    (hcollision : sha256 (framed source.asStr ++ framed a) = sha256 (framed source.asStr ++ framed b) →
      framed source.asStr ++ framed a = framed source.asStr ++ framed b) (hne : a ≠ b) :
    fingerprint sha256 source a ≠ fingerprint sha256 source b := by
  intro heq
  exact hne (framed_injective (List.append_cancel_left (hcollision heq)))

/-! ## Builders -/

inductive SourceError where
  | request (text : String)
  | parse (text : String)
deriving DecidableEq, Repr

structure EventBuilder where
  source : SourceKind
  stableId : String
  eventTime : DateTime
  title : String
  groupKey : String
  contentKind : ContentKind := .longform
  body : Option String := none
  links : List String := []
  entities : List String := []
  severityHint : Option Int := none
  /-- The connector only tells whether the item is private, not whose it is. -/
  isPrivate : Bool := false
  connectionId : Option Uuid := none

/-- The scope of an item from a connection: its owner's if it is private and there is one. -/
def scopeFor (isPrivate : Bool) (owner : Option Uuid) : Scope :=
  match isPrivate, owner with
  | true, some subscriber => .ofPrivate subscriber
  | _, _ => .ofPublic

def EventBuilder.finalize (sha256 : List UInt8 → List UInt8) (owner : Option Uuid)
    (b : EventBuilder) : NewEvent where
  fingerprint := fingerprint sha256 b.source b.stableId
  key := ⟨scopeFor b.isPrivate owner, b.source, b.groupKey⟩
  eventTime := b.eventTime
  title := b.title
  body := b.body
  links := b.links
  contentKind := b.contentKind
  entities := sortDedup (b.entities ++ deriveEntities b.title b.body b.links)
  severityHint := b.severityHint
  connectionId := b.connectionId

end Bulletin
