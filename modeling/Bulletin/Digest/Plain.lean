import Bulletin.Digest.Prose
import Bulletin.Ingest.Builder
import Bulletin.Summarize.Client

/-! # The plain view of a digest

A numbered list of items. Whatever a feed or a model wrote goes through the same sanitizer before it
is printed, so the view is built unless one of these texts stops it.
-/

namespace Bulletin

open Text

structure ThreadTag where
  label : String
  delta : Option String
deriving DecidableEq, Repr

/-- An item with the captions of the view. -/
structure PlainItem extends RenderItem where
  thread : Option ThreadTag
  format : Format
  /-- Why it is shown. -/
  reason : String

/-- How times and links are printed; a link with an unsafe scheme is not. -/
structure PlainChrome where
  stamp : DateTime → String
  safeHref : String → Option String

def Format.asStr : Format → String
  | story => "story"
  | note => "note"

def isBlank (s : String) : Bool := trim s == ""

section Plain

variable (unicode : UnicodeTables) (chrome : PlainChrome)

/-- One text of the view. `none` is a panic. -/
def plainProse (s : String) : Option String :=
  (cleanProse unicode s.toList).map String.ofList

/-- An empty lead leaves no space behind the greeting. -/
def plainOpening (greeting lead : String) : Option String :=
  (plainProse unicode greeting).bind fun greeting =>
    if lead = "" then some greeting
    else (plainProse unicode lead).map fun lead => greeting ++ " " ++ lead

def plainThread (thread : Option ThreadTag) : Option String :=
  match thread.filter fun tag => !isBlank tag.label with
  | none => some ""
  | some tag =>
      (plainProse unicode tag.label).bind fun label =>
        match tag.delta.filter fun delta => !isBlank delta with
        | none => some ("   ~ " ++ label ++ "\n")
        | some delta => (plainProse unicode delta).map fun delta =>
            "   ~ " ++ label ++ " · " ++ delta ++ "\n"

def plainSummary (summary : String) : Option String :=
  if isBlank summary then some ""
  else (plainProse unicode summary).map fun summary => "   " ++ summary ++ "\n"

def plainLink (indent : String) (link : Option String) : String :=
  match link.bind chrome.safeHref with
  | none => ""
  | some link => indent ++ link ++ "\n"

def plainConnection (conn : Connection) : Option String :=
  (plainProse unicode conn.title).bind fun title =>
    let line := "   ↳ " ++ title ++ " [" ++ conn.source.asStr ++ "]"
    match conn.linkReason with
    | none => some (line ++ "\n" ++ plainLink chrome "     " conn.link)
    | some reason => (plainProse unicode reason).map fun reason =>
        line ++ " — " ++ reason ++ "\n" ++ plainLink chrome "     " conn.link

def plainItem (position : Nat) (item : PlainItem) : Option String :=
  (plainProse unicode item.headline).bind fun headline =>
    (plainThread unicode item.thread).bind fun thread =>
      (plainSummary unicode item.summary).bind fun summary =>
        (item.connections.mapM (plainConnection unicode chrome)).map fun connections =>
          toString (position + 1) ++ ". [" ++
            String.ofList (asciiUpper item.format.asStr.toList) ++ "] " ++ headline ++ "\n" ++ thread ++
            summary ++ plainLink chrome "   " item.link ++ "   " ++ item.source.asStr ++ " · " ++
            chrome.stamp item.lastEventTime ++ "\n" ++ "   why: " ++ item.reason ++ "\n" ++
            String.join connections ++ "\n"

def renderPlain (windowEnd : DateTime) (greeting lead : String) (items : List PlainItem) :
    Option String :=
  (plainOpening unicode greeting lead).bind fun opening =>
    (items.zipIdx.mapM fun entry => plainItem unicode chrome entry.2 entry.1).map fun bodies =>
      opening ++ "\n\nYour digest for the window ending " ++ chrome.stamp windowEnd ++ "\n\n" ++
        String.join bodies

end Plain

/-! ## What stops the view -/

def threadProse (thread : Option ThreadTag) : List String :=
  match thread.filter fun tag => !isBlank tag.label with
  | none => []
  | some tag => tag.label :: (tag.delta.filter fun delta => !isBlank delta).toList

/-- The texts of an item that are printed. -/
def PlainItem.prose (item : PlainItem) : List String :=
  [item.headline] ++ threadProse item.thread ++ [item.summary] ++
    item.connections.flatMap fun conn => conn.title :: conn.linkReason.toList

section Stops

variable {unicode : UnicodeTables} {chrome : PlainChrome} {s : String}

theorem isSome_bind_iff {α β : Type} {x : Option α} {f : α → Option β} {P : Prop}
    (h : ∀ a, (f a).isSome ↔ P) : (x.bind f).isSome ↔ x.isSome ∧ P := by
  cases x with
  | none => simp
  | some a => simpa using h a

theorem isSome_plainProse : (plainProse unicode s).isSome ↔ Trimmable unicode s.toList := by
  rw [plainProse, Option.isSome_map]
  exact isSome_cleanProse

theorem trimmable_of_isBlank (h : isBlank s = true) : Trimmable unicode s.toList := by
  have hwords : splitWhitespace s.toList = [] := trim_eq_empty.mp (eq_of_beq h)
  exact Or.inr (by simp [hwords])

theorem isSome_plainOpening {greeting lead : String} : (plainOpening unicode greeting lead).isSome ↔
    Trimmable unicode greeting.toList ∧ Trimmable unicode lead.toList := by
  unfold plainOpening
  rw [isSome_bind_iff (P := Trimmable unicode lead.toList), isSome_plainProse]
  intro greeting
  split
  · rename_i hempty
    have hblank : isBlank lead = true := by rw [hempty]; decide +kernel
    simpa using trimmable_of_isBlank hblank
  · rw [Option.isSome_map, isSome_plainProse]

theorem isSome_plainThread {thread : Option ThreadTag} : (plainThread unicode thread).isSome ↔
    ∀ text ∈ threadProse thread, Trimmable unicode text.toList := by
  unfold plainThread threadProse
  cases thread.filter fun tag => !isBlank tag.label with
  | none => simp
  | some tag =>
      dsimp only
      generalize tag.delta.filter (fun delta => !isBlank delta) = delta
      cases delta with
      | none => simp [isSome_bind_iff (P := True), isSome_plainProse]
      | some delta =>
          simp [isSome_bind_iff (P := Trimmable unicode delta.toList), isSome_plainProse]

theorem isSome_plainSummary : (plainSummary unicode s).isSome ↔ Trimmable unicode s.toList := by
  unfold plainSummary
  split
  · rename_i hblank
    simpa using trimmable_of_isBlank hblank
  · rw [Option.isSome_map, isSome_plainProse]

theorem isSome_plainConnection {conn : Connection} : (plainConnection unicode chrome conn).isSome ↔
    ∀ text ∈ conn.title :: conn.linkReason.toList, Trimmable unicode text.toList := by
  unfold plainConnection
  cases conn.linkReason with
  | none => simp [isSome_bind_iff (P := True), isSome_plainProse]
  | some reason =>
      simp [isSome_bind_iff (P := Trimmable unicode reason.toList), isSome_plainProse]

theorem isSome_connections {connections : List Connection} :
    (connections.mapM (plainConnection unicode chrome)).isSome ↔
      ∀ text ∈ connections.flatMap fun conn => conn.title :: conn.linkReason.toList,
        Trimmable unicode text.toList := by
  rw [isSome_mapM]
  simp only [isSome_plainConnection, List.mem_flatMap]
  exact ⟨fun h text ⟨conn, hconn, htext⟩ => h conn hconn text htext,
    fun h conn hconn text htext => h text ⟨conn, hconn, htext⟩⟩

theorem isSome_plainItem {position : Nat} {item : PlainItem} :
    (plainItem unicode chrome position item).isSome ↔
      ∀ text ∈ item.prose, Trimmable unicode text.toList := by
  unfold plainItem PlainItem.prose
  rw [isSome_bind_iff fun _ => isSome_bind_iff fun _ => isSome_bind_iff fun _ => by
    rw [Option.isSome_map, isSome_connections], isSome_plainProse, isSome_plainThread,
    isSome_plainSummary]
  simp only [List.forall_mem_append, List.forall_mem_singleton, and_assoc]

/-- The plain view is built unless a text of the digest stops the sanitizer. -/
theorem isSome_renderPlain {windowEnd : DateTime} {greeting lead : String}
    {items : List PlainItem} :
    (renderPlain unicode chrome windowEnd greeting lead items).isSome ↔
      ∀ text ∈ greeting :: lead :: items.flatMap PlainItem.prose,
        Trimmable unicode text.toList := by
  have hitems : (items.zipIdx.mapM fun entry => plainItem unicode chrome entry.2 entry.1).isSome ↔
      ∀ text ∈ items.flatMap PlainItem.prose, Trimmable unicode text.toList := by
    rw [isSome_mapM]
    simp only [isSome_plainItem, List.mem_flatMap]
    constructor
    · intro h text htext
      obtain ⟨item, hitem, hin⟩ := htext
      obtain ⟨position, hposition⟩ := List.mem_iff_getElem?.mp hitem
      exact h (item, position) (List.mk_mem_zipIdx_iff_getElem?.mpr hposition) text hin
    · intro h entry hentry text htext
      exact h text ⟨entry.1, List.fst_mem_of_mem_zipIdx hentry, htext⟩
  unfold renderPlain
  rw [isSome_bind_iff fun _ => by rw [Option.isSome_map, hitems], isSome_plainOpening]
  simp only [List.forall_mem_cons, and_assoc]

end Stops

/-- The path of untrusted text returns exactly on texts without a clickable word and on texts whose
words all have a letter or a digit: the rewriting itself, the two views of one text, the prose of a
summary, a digest, and a summarization attempt. -/
theorem untrusted_text_returns_iff (unicode : UnicodeTables) (html : HtmlEscape)
    (chrome : PlainChrome) (cfg : SummarizationConfig) :
    (∀ s, (defang unicode s).isSome ↔ Trimmable unicode s) ∧
    (∀ s, (escapeProse unicode html s).isSome ↔ Trimmable unicode s) ∧
    (∀ s, (cleanProse unicode s).isSome ↔ Trimmable unicode s) ∧
    (∀ summary : ClusterSummary, (summary.defangProse unicode).isSome ↔
      ∀ text ∈ summary.prose, Trimmable unicode text.toList) ∧
    (∀ windowEnd greeting lead items,
      (renderPlain unicode chrome windowEnd greeting lead items).isSome ↔
        ∀ text ∈ greeting :: lead :: items.flatMap PlainItem.prose,
          Trimmable unicode text.toList) ∧
    ∀ reply events, (summarizeCluster unicode cfg reply events).isSome ↔
      ∀ out, reply.output = .ok out →
        ∀ text ∈ (candidateSummary out).prose, Trimmable unicode text.toList :=
  ⟨fun _ => defang_isSome, fun _ => isSome_escapeProse, fun _ => isSome_cleanProse,
    fun _ => isSome_defangProse, fun _ _ _ _ => isSome_renderPlain, fun _ _ => isSome_summarize⟩

/-- A dash of its own beside a domain. -/
theorem lone_dash_panics : ¬ ∀ (unicode : UnicodeTables) (s : List Char),
    (defang unicode s).isSome = true := by
  intro h
  have hsome := h asciiTables "— see acme.com".toList
  revert hsome
  decide +kernel

end Bulletin
