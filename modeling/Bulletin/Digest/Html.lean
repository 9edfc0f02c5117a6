import Bulletin.Core.Markup
import Bulletin.Digest.Lines
import Bulletin.Digest.Runs
import Bulletin.Thread.Model

/-! # The HTML view of a digest

A card of fixed markup with the texts of feeds, models and subscribers in its holes. Every text goes
through the encoder of the place it is put in, so the tags of a view are those of its template.
-/

namespace Bulletin

open Text

/-! ## Templates -/

/-- A text of the program's own, which may stand between tags as it is. -/
structure PlainText where
  text : String
  plain : '<' ∉ text.toList

theorem plain_toString (n : Nat) : '<' ∉ (toString n).toList := by
  rw [Nat.toString_eq_ofList_toDigits, String.toList_ofList]
  intro hmem
  have hdigit : '<'.isDigit = true := Nat.isDigit_of_mem_toDigits (by decide) (by decide) hmem
  exact absurd hdigit (by decide)

def PlainText.ofNat (n : Nat) : PlainText := ⟨toString n, plain_toString n⟩

/-- A piece of a template, with how its text is put in. -/
inductive HtmlPart where
  | raw (s : String)
  | plain (s : PlainText)
  | escaped (s : String)
  | prose (s : String)
  /-- In a quoted value. -/
  | attr (s : String)
  /-- The runs of a summary. -/
  | runs (runs : List TldrRun)

/-- Encoders whose texts cannot leave the place they are put in. -/
structure HtmlEncoder extends HtmlEscape where
  encodeAttr : List Char → List Char
  encodeText_safe : ∀ s, '<' ∉ encodeText s
  encodeAttr_safe : ∀ s, '"' ∉ encodeAttr s

def encodeQuoted : List Char → List Char :=
  List.flatMap fun c => if c = '"' then "&quot;".toList else encodeEntities [c]

theorem encodeEntities_safe (s : List Char) : '<' ∉ encodeEntities s := by
  intro hmem
  obtain ⟨c, _, hin⟩ := List.mem_flatMap.mp hmem
  split at hin
  · exact absurd hin (by decide +kernel)
  · split at hin
    · exact absurd hin (by decide +kernel)
    · split at hin
      · exact absurd hin (by decide +kernel)
      · rename_i hlt _
        exact hlt (List.mem_singleton.mp hin).symm

theorem encodeQuoted_safe (s : List Char) : '"' ∉ encodeQuoted s := by
  intro hmem
  obtain ⟨c, _, hin⟩ := List.mem_flatMap.mp hmem
  split at hin
  · exact absurd hin (by decide +kernel)
  · rename_i hquote
    obtain ⟨d, hd, hchar⟩ := List.mem_flatMap.mp hin
    rw [List.mem_singleton.mp hd] at hchar
    split at hchar
    · exact absurd hchar (by decide +kernel)
    · split at hchar
      · exact absurd hchar (by decide +kernel)
      · split at hchar
        · exact absurd hchar (by decide +kernel)
        · exact hquote (List.mem_singleton.mp hchar).symm

def htmlEncoder : HtmlEncoder :=
  { htmlEntities with
    encodeAttr := encodeQuoted
    encodeText_safe := encodeEntities_safe
    encodeAttr_safe := encodeQuoted_safe }

section Pieces

variable (unicode : UnicodeTables) (html : HtmlEncoder)

def escapeAttr (s : List Char) : List Char := html.encodeAttr (clean s)

def HtmlNode.pieces : HtmlNode → List Markup.Piece
  | text s => [.hole .text s]
  | span style s =>
      [.raw "<span style=\"".toList, .hole .value style.toList, .raw "\">".toList, .hole .text s,
        .raw "</span>".toList]

/-- The document's pieces for a part; `none` is a panic. -/
def HtmlPart.pieces : HtmlPart → Option (List Markup.Piece)
  | raw s => some [.raw s.toList]
  | plain s => some [.hole .text s.text.toList]
  | escaped s => some [.hole .text (escape html.toHtmlEscape s.toList)]
  | prose s => (escapeProse unicode html.toHtmlEscape s.toList).map fun s => [.hole .text s]
  | attr s => some [.hole .value (escapeAttr html s.toList)]
  | runs rs => (renderSummaryRuns (escapeProse unicode html.toHtmlEscape) rs).map fun nodes =>
      nodes.flatMap HtmlNode.pieces

def partPieces (parts : List HtmlPart) : Option (List Markup.Piece) :=
  (parts.mapM (HtmlPart.pieces unicode html)).map List.flatten

end Pieces

/-! ## The card -/

section Card

open HtmlPart

def bg : String := "#fefbf3"

def surface : String := "#fffdf8"

def inkMuted : String := "#a0927b"

def border : String := "#ddd4c2"

def serif : String := "Georgia, 'Times New Roman', serif"

def mono : String :=
  "'SF Mono', 'SFMono-Regular', Menlo, Consolas, 'Liberation Mono', monospace"

def debugBg : String := "#fff8e1"

def debugBorder : String := "#e0a800"

def debugInk : String := "#7a5c00"

def mobileCss : List HtmlPart :=
  [raw "<style>\n",
    raw "@media only screen and (max-width:480px) \x7b\n",
    raw "  .bx \x7b padding-left:24px !important; padding-right:24px !important; \x7d\n",
    raw "  .lead \x7b font-size:18px !important; line-height:1.75 !important; \x7d\n",
    raw "  .headline \x7b font-size:22px !important; \x7d\n",
    raw "  .meta \x7b font-size:14px !important; \x7d\n",
    raw "  .related \x7b font-size:16px !important; \x7d\n",
    raw "\x7d\n",
    raw "</style>"]

/-- What a digest carries besides its items and its greeting. -/
structure DigestContent where
  brand : String := "Bulletin"
  title : String := "Your Digest"
  footer : String := "You're receiving this digest from Bulletin, " ++
    "gathered from the sources you subscribed to."

structure HtmlItem extends PlainItem where
  /-- How surely the thread is the item's. -/
  confidence : ConfidenceBand
  /-- With three decimals. -/
  priority : PlainText
  richness : String
  entities : List String
  richness_own : richness = "" ∨ richness ∈ richnessPhrases

theorem plain_richness {s : String} (h : s = "" ∨ s ∈ richnessPhrases) : '<' ∉ s.toList := by
  rcases h with rfl | h
  · simp
  · simp only [richnessPhrases, stillDeveloping, List.mem_cons, List.not_mem_nil, or_false] at h
    rcases h with rfl | rfl | rfl | rfl | rfl | rfl <;> simp

def HtmlItem.phrase (item : HtmlItem) : PlainText :=
  ⟨item.richness, plain_richness item.richness_own⟩

/-- How a day is printed. Times are printed without markup. -/
structure HtmlChrome extends PlainChrome where
  date : DateTime → String
  stamp_plain : ∀ t, '<' ∉ (stamp t).toList

def HtmlChrome.time (chrome : HtmlChrome) (t : DateTime) : PlainText :=
  ⟨chrome.stamp t, chrome.stamp_plain t⟩

def Band.asStr : Band → String
  | confirmed => "confirmed"
  | probable => "probable"
  | uncertain => "uncertain"

def ConfidenceBand.asStr : ConfidenceBand → String
  | confirmed => "confirmed"
  | probable => "probable"
  | uncertain => "uncertain"

theorem Band.plain_asStr (band : Band) : '<' ∉ band.asStr.toList := by
  cases band <;> simp [Band.asStr]

theorem ConfidenceBand.plain_asStr (band : ConfidenceBand) : '<' ∉ band.asStr.toList := by
  cases band <;> simp [ConfidenceBand.asStr]

def document (preheader masthead body : List HtmlPart) (content : DigestContent) : List HtmlPart :=
  [raw "<!DOCTYPE html>\n<html lang=\"en\">\n<head>\n<meta charset=\"utf-8\">\n",
   raw "<meta name=\"viewport\" content=\"width=device-width, initial-scale=1\">\n",
   raw "<meta name=\"color-scheme\" content=\"light\">\n",
   raw "<meta name=\"supported-color-schemes\" content=\"light\">\n",
   raw "<title>Bulletin digest</title>\n"] ++
  mobileCss ++
  [raw "\n</head>\n<body style=\"margin:0;padding:0;background-color:", raw bg,
   raw ";-webkit-text-size-adjust:100%;-ms-text-size-adjust:100%;\">\n",
   raw "<div style=\"display:none;max-height:0;overflow:hidden;opacity:0;mso-hide:all;\">"] ++
  preheader ++
  [raw "</div>\n",
   raw "<table role=\"presentation\" width=\"100%\" cellpadding=\"0\" cellspacing=\"0\" ",
   raw "border=\"0\" style=\"background-color:", raw bg,
   raw ";\">\n<tr>\n<td align=\"center\" style=\"padding:36px 12px;\">\n",
   raw "<table role=\"presentation\" width=\"600\" cellpadding=\"0\" cellspacing=\"0\" ",
   raw "border=\"0\" style=\"width:600px;max-width:100%;background-color:", raw surface,
   raw ";border:1px solid ", raw border, raw ";border-radius:4px;\">\n<tr>\n",
   raw "<td class=\"bx\" style=\"padding:52px 40px 0 40px;\">\n"] ++
  masthead ++
  [raw "</td>\n</tr>\n"] ++
  body ++
  [raw "<tr>\n<td class=\"bx\" style=\"padding:30px 40px 52px 40px;\">\n",
   raw "<div class=\"meta\" style=\"font-family:", raw sans,
   raw ";font-size:13px;line-height:1.7;color:", raw inkMuted, raw ";text-align:center;\">",
   escaped content.footer,
   raw "</div>\n</td>\n</tr>\n</table>\n</td>\n</tr>\n</table>\n</body>\n</html>\n"]

def softDivider : List HtmlPart :=
  [raw "<tr>\n<td align=\"center\" style=\"padding:6px 40px;\">\n",
   raw "<table role=\"presentation\" cellpadding=\"0\" cellspacing=\"0\" border=\"0\" ",
   raw "align=\"center\">\n<tr>\n",
   raw "<td width=\"44\" height=\"1\" style=\"width:44px;height:1px;line-height:1px;",
   raw "font-size:0;background-color:", raw border,
   raw ";\">&nbsp;</td>\n</tr>\n</table>\n</td>\n</tr>\n"]

def dateRule (date : String) : List HtmlPart :=
  [raw "<table role=\"presentation\" width=\"100%\" cellpadding=\"0\" cellspacing=\"0\" ",
   raw "border=\"0\" style=\"margin:0 0 8px 0;\">\n<tr>\n",
   raw "<td width=\"40%\" style=\"border-bottom:1px solid ", raw border,
   raw ";font-size:0;line-height:0;\">&nbsp;</td>\n",
   raw "<td style=\"padding:0 14px;white-space:nowrap;font-family:", raw sans,
   raw ";font-size:12px;letter-spacing:0.1em;text-transform:uppercase;color:", raw inkMuted,
   raw ";text-align:center;\">", escaped date,
   raw "</td>\n<td width=\"40%\" style=\"border-bottom:1px solid ", raw border,
   raw ";font-size:0;line-height:0;\">&nbsp;</td>\n</tr>\n</table>"]

def mastheadHead (content : DigestContent) (date : String) : List HtmlPart :=
  [raw "<div style=\"font-family:", raw sans,
   raw ";font-size:12px;font-weight:600;letter-spacing:0.12em;text-transform:uppercase;",
   raw "color:", raw inkMuted, raw ";text-align:center;\">", escaped content.brand,
   raw "</div>\n<h1 style=\"margin:18px 0 30px 0;font-family:", raw serif,
   raw ";font-size:34px;font-weight:700;line-height:1.25;color:", raw ink,
   raw ";text-align:center;\">", escaped content.title, raw "</h1>\n"] ++
  dateRule date ++
  [raw "\n"]

/-! ## The rows -/

/-- What stands only where there is something to show. -/
def optional {α : Type} (x : Option α) (parts : α → List HtmlPart) : List HtmlPart :=
  (x.map parts).getD []

/-- The delta of a thread, unless it is blank. -/
def ThreadTag.news (tag : ThreadTag) : Option String := tag.delta.filter fun delta => !isBlank delta

def eyebrowLine (qualifier : List HtmlPart) (tag : ThreadTag) : List HtmlPart :=
  [raw "<div class=\"meta\" style=\"font-family:", raw sans,
   raw ";font-size:12px;letter-spacing:0.02em;color:", raw inkMuted,
   raw ";white-space:nowrap;overflow:hidden;text-overflow:ellipsis;\">"] ++
  qualifier ++
  [raw "<span style=\"color:", raw accent, raw ";font-weight:600;\">", prose tag.label,
   raw "</span>"] ++
  optional tag.news (fun delta => [raw " &nbsp;&middot;&nbsp; ", prose delta]) ++
  [raw "</div>\n"]

/-- The thread of an item on one line; a doubtful one is left out. -/
def renderEyebrow (thread : Option ThreadTag) (confidence : ConfidenceBand) : List HtmlPart :=
  optional (thread.filter fun tag => !isBlank tag.label) fun tag =>
    match confidence with
    | .confirmed => eyebrowLine [] tag
    | .probable => eyebrowLine [raw "<span style=\"font-style:italic;\">possibly</span> "] tag
    | .uncertain => []

def sourceTag (source : String) : List HtmlPart :=
  [raw "<span style=\"color:", raw accent, raw ";\">", escaped source, raw "</span>"]

/-- The sources of an item, each once, in the order they come. -/
def PlainItem.sources (item : PlainItem) : List String :=
  (item.source.asStr :: item.connections.map fun conn => conn.source.asStr).eraseDups

def provenanceBody : List String → List HtmlPart
  | [] => []
  | [source] => sourceTag source
  | source :: more =>
      [raw "Across "] ++ sourceTag source ++
        more.flatMap fun source => [raw " &middot; "] ++ sourceTag source

def renderProvenance (chrome : HtmlChrome) (item : HtmlItem) : List HtmlPart :=
  [raw "<div class=\"meta\" style=\"margin-top:14px;font-family:", raw sans,
   raw ";font-size:12px;line-height:1.6;color:", raw inkMuted, raw ";\">"] ++
  provenanceBody item.sources ++
  [raw " &nbsp;&mdash;&nbsp; ", plain (chrome.time item.lastEventTime), raw "</div>\n"]

def storyHeadline (chrome : HtmlChrome) (item : HtmlItem) : List HtmlPart :=
  match item.link.bind chrome.safeHref with
  | some link =>
      [raw "<a class=\"headline\" href=\"", attr link,
       raw "\" style=\"display:block;margin-top:10px;font-family:", raw serif,
       raw ";font-size:22px;font-weight:700;line-height:1.32;color:", raw ink,
       raw ";text-decoration:none;\">", prose item.headline, raw "</a>"]
  | none =>
      [raw "<span class=\"headline\" style=\"display:block;margin-top:10px;font-family:",
       raw serif, raw ";font-size:22px;font-weight:700;line-height:1.32;color:", raw ink,
       raw ";\">", prose item.headline, raw "</span>"]

def storySummary (item : HtmlItem) : List HtmlPart :=
  if item.summaryRuns = [] then []
  else
    [raw "<div class=\"related\" style=\"margin-top:11px;font-family:", raw serif,
     raw ";font-size:17px;line-height:1.65;color:", raw inkBody, raw ";\">",
     runs item.summaryRuns, raw "</div>\n"]

def summaryOrigin (item : HtmlItem) : PlainText :=
  if item.summaryRuns = [] then ⟨"raw title (no summary)", by decide +kernel⟩
  else if item.synthesized then ⟨"story.summary cache", by decide +kernel⟩
  else if item.composed then ⟨"composed from members", by decide +kernel⟩
  else ⟨"cluster summary", by decide +kernel⟩

def summaryTrace (item : HtmlItem) : List HtmlPart :=
  [raw "<div style=\"margin-top:4px;\">summary <span style=\"font-weight:700;\">",
   plain (summaryOrigin item), raw "</span> &middot; band ",
   plain ⟨item.summaryBand.asStr, item.summaryBand.plain_asStr⟩,
   raw "</div>"]

def threadTrace (item : HtmlItem) : List HtmlPart :=
  optional item.thread fun tag =>
    [raw "<div style=\"margin-top:4px;\">thread <span style=\"font-weight:700;\">",
     prose tag.label, raw "</span> &middot; identity ",
     plain ⟨item.confidence.asStr, item.confidence.plain_asStr⟩] ++
    optional tag.news (fun delta => [raw " &middot; delta &ldquo;", prose delta, raw "&rdquo;"]) ++
    [raw "</div>"]

def spineTrace (item : HtmlItem) : List HtmlPart :=
  if item.entities = [] then []
  else
    [raw "<div style=\"margin-top:4px;word-break:break-word;\">entities ",
     escaped (String.intercalate ", " item.entities), raw "</div>"]

def relatedTrace (conn : Connection) : List HtmlPart :=
  [raw "<div style=\"margin-top:4px;word-break:break-word;\">&#8627; ", prose conn.title,
   raw " [", escaped conn.source.asStr, raw "]"] ++
  optional conn.linkReason (fun reason => [raw " &mdash; ", prose reason]) ++
  optional conn.link (fun link => [raw " &middot; ", escaped link]) ++
  [raw "</div>"]

def debugTraceBlock (chrome : HtmlChrome) (position : Nat) (item : HtmlItem) : List HtmlPart :=
  [raw "<!-- DEBUG: selection + summarization trace — debugging info, remove before launch ",
   raw "-->\n<div style=\"margin-top:16px;padding:9px 12px;background-color:", raw debugBg,
   raw ";border:1px dashed ", raw debugBorder, raw ";border-radius:3px;font-family:",
   raw mono, raw ";font-size:12px;line-height:1.6;color:", raw debugInk, raw ";\">\n",
   raw "<span style=\"display:inline-block;padding:1px 6px;margin-right:8px;",
   raw "background-color:", raw debugBorder, raw ";color:", raw debugBg,
   raw ";font-weight:700;text-transform:uppercase;letter-spacing:0.1em;border-radius:2px;\">",
   raw "debug</span>\n<span style=\"font-weight:700;\">selected #",
   plain (.ofNat (position + 1)), raw "</span> <span>by ",
   raw "priority ", plain item.priority, raw ", richness ", plain item.phrase,
   raw "</span>\n<div style=\"margin-top:4px;\">key ", plain (chrome.time item.lastEventTime),
   raw " &middot; source <span style=\"font-weight:700;\">", escaped item.source.asStr,
   raw "</span> &middot; related ", plain (.ofNat item.connections.length), raw "</div>\n"] ++
  summaryTrace item ++
  threadTrace item ++
  spineTrace item ++
  item.connections.flatMap relatedTrace ++
  [raw "<div style=\"margin-top:4px;word-break:break-all;\">link ", match item.link with
     | some link => escaped link
     | none => raw "—",
   raw "</div>\n</div>\n<!-- /DEBUG -->\n"]

def renderStoryRow (chrome : HtmlChrome) (position : Nat) (item : HtmlItem) : List HtmlPart :=
  [raw "<tr>\n<td class=\"bx\" style=\"padding:30px 40px;\">\n"] ++
  renderEyebrow item.thread item.confidence ++
  storyHeadline chrome item ++
  [raw "\n"] ++
  storySummary item ++
  renderProvenance chrome item ++
  [raw "\n"] ++
  debugTraceBlock chrome position item ++
  [raw "</td>\n</tr>\n"]

def noteHeadline (chrome : HtmlChrome) (item : HtmlItem) : List HtmlPart :=
  match item.link.bind chrome.safeHref with
  | some link =>
      [raw "<a href=\"", attr link, raw "\" style=\"display:block;margin-top:8px;font-family:",
       raw serif, raw ";font-size:17px;font-weight:700;line-height:1.4;color:", raw ink,
       raw ";text-decoration:none;\">", prose item.headline, raw "</a>"]
  | none =>
      [raw "<span style=\"display:block;margin-top:8px;font-family:", raw serif,
       raw ";font-size:17px;font-weight:700;line-height:1.4;color:", raw ink, raw ";\">",
       prose item.headline, raw "</span>"]

def renderNoteRow (chrome : HtmlChrome) (item : HtmlItem) : List HtmlPart :=
  [raw "<tr>\n<td class=\"bx\" style=\"padding:18px 40px;\">\n"] ++
  renderEyebrow item.thread item.confidence ++
  [raw "<span style=\"display:inline-block;margin-top:6px;font-family:", raw sans,
   raw ";font-size:11px;font-weight:700;letter-spacing:0.1em;text-transform:uppercase;color:",
   raw accent, raw ";\">Note</span>\n"] ++
  noteHeadline chrome item ++
  [raw "\n"] ++
  renderProvenance chrome item ++
  [raw "</td>\n</tr>\n"]

def htmlRow (chrome : HtmlChrome) (position : Nat) (item : HtmlItem) : List HtmlPart :=
  (if 0 < position then softDivider else []) ++
    match item.format with
    | .story => renderStoryRow chrome position item
    | .note => renderNoteRow chrome item

def plural (count : Nat) : PlainText :=
  if count = 1 then ⟨"", by decide +kernel⟩ else ⟨"s", by decide +kernel⟩

def htmlMasthead (chrome : HtmlChrome) (windowEnd : DateTime) (greeting lead : String) (count : Nat)
    (content : DigestContent) : List HtmlPart :=
  mastheadHead content (chrome.date windowEnd) ++
  [raw "<div style=\"font-family:", raw serif,
   raw ";font-size:15px;font-style:italic;font-weight:700;color:", raw accent,
   raw ";margin:34px 0 12px 0;\">The big picture</div>\n",
   raw "<!-- Lead: a time-of-day greeting (real) opens the paragraph, then the ",
   raw "deterministic big-picture summary composed from the selected items' headlines ",
   raw "(§2.4). -->\n<div class=\"lead\" style=\"font-family:", raw serif,
   raw ";font-size:17px;line-height:1.75;color:", raw inkBody,
   raw ";margin:0;\"><strong style=\"color:", raw ink, raw ";font-weight:700;\">",
   prose greeting, raw "</strong>"] ++
  (if lead = "" then [] else [raw " ", prose lead]) ++
  [raw "</div>\n<div style=\"font-family:", raw serif,
   raw ";font-size:15px;font-style:italic;font-weight:700;color:", raw accent,
   raw ";margin:40px 0 0 0;\">In this digest &middot; ", plain (.ofNat count), raw " item",
   plain (plural count), raw "</div>\n"]

def emptyMasthead (chrome : HtmlChrome) (windowEnd : DateTime) (salutation : String)
    (content : DigestContent) : List HtmlPart :=
  mastheadHead content (chrome.date windowEnd) ++
  [raw "<div style=\"text-align:center;padding:46px 8px 18px 8px;\">\n",
   raw "<div style=\"font-size:52px;line-height:1;\" aria-hidden=\"true\">&#x1F343;</div>\n",
   raw "<div style=\"margin:24px 0 0 0;font-family:", raw serif,
   raw ";font-size:28px;font-weight:700;line-height:1.3;color:", raw accent,
   raw ";\">You're all caught up</div>\n",
   raw "<div style=\"margin:14px auto 0 auto;max-width:360px;font-family:", raw serif,
   raw ";font-size:17px;font-style:italic;line-height:1.7;color:", raw inkBody, raw ";\">",
   prose salutation,
   raw ". No new notifications this time. Sit back and enjoy the calm.</div>\n</div>\n"]

def htmlParts (chrome : HtmlChrome) (windowEnd : DateTime) (greeting lead : String)
    (items : List HtmlItem) (content : DigestContent) : List HtmlPart :=
  let count := items.length
  let rows := items.zipIdx.flatMap fun entry => htmlRow chrome entry.2 entry.1
  document [plain (.ofNat count), raw " new item", plain (plural count), raw " in your digest"]
    (htmlMasthead chrome windowEnd greeting lead count content) (rows ++ softDivider) content

def emptyHtmlParts (chrome : HtmlChrome) (windowEnd : DateTime) (salutation : String)
    (content : DigestContent) : List HtmlPart :=
  document [raw "Nothing new — you're all caught up"]
    (emptyMasthead chrome windowEnd salutation content) softDivider content

end Card

section Views

variable (unicode : UnicodeTables) (html : HtmlEncoder) (chrome : HtmlChrome)

/-- `none` is a panic. -/
def renderHtmlView (windowEnd : DateTime) (greeting lead : String) (items : List HtmlItem)
    (content : DigestContent) : Option (List Char) :=
  (partPieces unicode html (htmlParts chrome windowEnd greeting lead items content)).map Markup.emit

def renderEmptyHtml (windowEnd : DateTime) (salutation : String) (content : DigestContent) :
    Option (List Char) :=
  (partPieces unicode html (emptyHtmlParts chrome windowEnd salutation content)).map Markup.emit

end Views

/-! ## What a template is read as -/

def HtmlPart.slot : HtmlPart → Markup.Piece
  | raw s => .raw s.toList
  | attr _ => .hole .value []
  | plain _ | escaped _ | prose _ | runs _ => .hole .text []

/-- A template from these open elements to those, whatever is put in it. -/
def Whole (parts : List HtmlPart) (before after : List String) : Prop :=
  Markup.Reads (parts.map HtmlPart.slot) (before.map String.toList) (after.map String.toList)

-- Reading a fixed piece goes as deep as the piece is long.
set_option maxRecDepth 10000

section Whole

variable {parts more : List HtmlPart} {before after stack : List String}

instance : Decidable (Whole parts before after) :=
  inferInstanceAs (Decidable (Markup.Reads (parts.map HtmlPart.slot) _ _))

theorem Whole.nil : Whole [] stack stack := rfl

theorem Whole.append (middle : List String) (h : Whole parts before middle)
    (hmore : Whole more middle after) : Whole (parts ++ more) before after := by
  rw [Whole, List.map_append]
  exact Markup.Reads.append h hmore

theorem Whole.anywhere (h : Whole parts [] []) : Whole parts stack stack :=
  Markup.Reads.anywhere h

theorem Whole.block (h : Whole parts before after) (hmore : Whole more [] []) :
    Whole (parts ++ more) before after :=
  h.append after hmore.anywhere

theorem whole_flatMap {α : Type} {f : α → List HtmlPart} {l : List α}
    (h : ∀ a ∈ l, Whole (f a) [] []) : Whole (l.flatMap f) [] [] := by
  rw [Whole, List.map_flatMap]
  exact Markup.reads_flatMap h

theorem whole_mobileCss : Whole mobileCss [] [] := by
  simp only [mobileCss, Whole, List.map_cons, List.map_nil, HtmlPart.slot, -String.reduceToList]
  repeat rw [String.toList_ofList]
  decide

theorem whole_document {preheader masthead body : List HtmlPart} {content : DigestContent}
    (hpreheader : Whole preheader [] []) (hmasthead : Whole masthead [] [])
    (hbody : Whole body [] []) : Whole (document preheader masthead body content) [] [] := by
  unfold document bg surface border sans inkMuted
  refine .append ["table", "td", "tr", "table", "body", "html"]
    (.block (.append ["td", "tr", "table", "td", "tr", "table", "body", "html"]
      (.block (.append ["div", "body", "html"]
        (.block (.append ["head", "html"] (.block ?_ whole_mobileCss) ?_) hpreheader) ?_)
        hmasthead) ?_) hbody) ?_
  all_goals
    simp only [Whole, List.map_cons, List.map_nil, HtmlPart.slot, -String.reduceToList]
    repeat rw [String.toList_ofList]
    decide

theorem whole_softDivider : Whole softDivider [] [] := by
  unfold softDivider border
  simp only [Whole, List.map_cons, List.map_nil, HtmlPart.slot, -String.reduceToList]
  repeat rw [String.toList_ofList]
  decide

theorem whole_dateRule {date : String} : Whole (dateRule date) [] [] := by
  unfold dateRule border sans inkMuted
  simp only [Whole, List.map_cons, List.map_nil, HtmlPart.slot, -String.reduceToList]
  repeat rw [String.toList_ofList]
  decide

theorem whole_mastheadHead {content : DigestContent} {date : String} :
    Whole (mastheadHead content date) [] [] := by
  unfold mastheadHead sans inkMuted serif ink
  refine .append [] (.block ?_ whole_dateRule) ?_
  all_goals
    simp only [Whole, List.map_cons, List.map_nil, HtmlPart.slot, -String.reduceToList]
    repeat rw [String.toList_ofList]
    decide

/-! ## The rows close what they open -/

theorem whole_optional {α : Type} {x : Option α} {f : α → List HtmlPart}
    (h : ∀ a, Whole (f a) [] []) : Whole (optional x f) [] [] := by
  cases x with
  | none => exact Whole.nil
  | some a => exact h a

theorem whole_eyebrowLine {qualifier : List HtmlPart} {tag : ThreadTag}
    (h : Whole qualifier [] []) : Whole (eyebrowLine qualifier tag) [] [] := by
  unfold eyebrowLine sans inkMuted accent
  refine .append ["div"] (.block (.append ["div"] (.block ?_ h) ?_)
    (whole_optional fun delta => ?_)) ?_
  all_goals
    simp only [Whole, List.map_cons, List.map_nil, HtmlPart.slot, -String.reduceToList]
    repeat rw [String.toList_ofList]
    decide

theorem whole_renderEyebrow {thread : Option ThreadTag} {confidence : ConfidenceBand} :
    Whole (renderEyebrow thread confidence) [] [] := by
  refine whole_optional fun tag => ?_
  cases confidence with
  | confirmed => exact whole_eyebrowLine Whole.nil
  | probable =>
      refine whole_eyebrowLine ?_
      decide
  | uncertain => exact Whole.nil

theorem whole_sourceTag {source : String} : Whole (sourceTag source) [] [] := by
  unfold sourceTag accent
  simp only [Whole, List.map_cons, List.map_nil, HtmlPart.slot, -String.reduceToList]
  repeat rw [String.toList_ofList]
  decide

theorem whole_provenanceBody {sources : List String} : Whole (provenanceBody sources) [] [] := by
  fun_cases provenanceBody sources with
  | case1 => exact Whole.nil
  | case2 source => exact whole_sourceTag
  | case3 source more hmore =>
      have hacross : Whole [.raw "Across "] [] [] := by decide
      have hmiddot : Whole [.raw " &middot; "] [] [] := by decide
      exact (hacross.block whole_sourceTag).block
        (whole_flatMap fun source _ => hmiddot.block whole_sourceTag)

variable {chrome : HtmlChrome} {item : HtmlItem} {position : Nat}

theorem whole_renderProvenance : Whole (renderProvenance chrome item) [] [] := by
  unfold renderProvenance sans inkMuted
  refine .append ["div"] (.block ?_ whole_provenanceBody) ?_
  all_goals
    simp only [Whole, List.map_cons, List.map_nil, HtmlPart.slot, -String.reduceToList]
    repeat rw [String.toList_ofList]
    decide

theorem whole_storyHeadline : Whole (storyHeadline chrome item) [] [] := by
  unfold storyHeadline serif ink
  split
  all_goals
    simp only [Whole, List.map_cons, List.map_nil, HtmlPart.slot, -String.reduceToList]
    repeat rw [String.toList_ofList]
    decide

theorem whole_storySummary : Whole (storySummary item) [] [] := by
  unfold storySummary serif inkBody
  split
  · exact Whole.nil
  · simp only [Whole, List.map_cons, List.map_nil, HtmlPart.slot, -String.reduceToList]
    repeat rw [String.toList_ofList]
    decide

theorem whole_summaryTrace : Whole (summaryTrace item) [] [] := by
  unfold summaryTrace
  simp only [Whole, List.map_cons, List.map_nil, HtmlPart.slot, -String.reduceToList]
  repeat rw [String.toList_ofList]
  decide

theorem whole_threadTrace : Whole (threadTrace item) [] [] := by
  refine whole_optional fun tag => ?_
  refine .append ["div"] (.block ?_ (whole_optional fun delta => ?_)) ?_
  all_goals
    simp only [Whole, List.map_cons, List.map_nil, HtmlPart.slot, -String.reduceToList]
    repeat rw [String.toList_ofList]
    decide

theorem whole_spineTrace : Whole (spineTrace item) [] [] := by
  unfold spineTrace
  split
  · exact Whole.nil
  · simp only [Whole, List.map_cons, List.map_nil, HtmlPart.slot, -String.reduceToList]
    repeat rw [String.toList_ofList]
    decide

theorem whole_relatedTrace {conn : Connection} : Whole (relatedTrace conn) [] [] := by
  unfold relatedTrace
  refine .append ["div"] (.block (.block ?_ (whole_optional fun reason => ?_))
    (whole_optional fun link => ?_)) ?_
  all_goals
    simp only [Whole, List.map_cons, List.map_nil, HtmlPart.slot, -String.reduceToList]
    repeat rw [String.toList_ofList]
    decide

theorem whole_debugTraceBlock : Whole (debugTraceBlock chrome position item) [] [] := by
  unfold debugTraceBlock debugBg debugBorder debugInk mono
  cases item.link
  all_goals
    refine .append ["div"] (.block (.block (.block (.block ?_
      whole_summaryTrace) whole_threadTrace) whole_spineTrace)
      (whole_flatMap fun conn _ => whole_relatedTrace)) ?_
  all_goals
    simp only [Whole, List.map_cons, List.map_nil, HtmlPart.slot, -String.reduceToList]
    repeat rw [String.toList_ofList]
    decide

theorem whole_renderStoryRow : Whole (renderStoryRow chrome position item) [] [] := by
  unfold renderStoryRow
  refine .append ["td", "tr"] (.block (.append ["td", "tr"] (.block (.block (.append ["td", "tr"]
    (.block (.block ?_ whole_renderEyebrow) whole_storyHeadline) ?_)
    whole_storySummary) whole_renderProvenance) ?_) whole_debugTraceBlock) ?_
  all_goals
    simp only [Whole, List.map_cons, List.map_nil, HtmlPart.slot, -String.reduceToList]
    repeat rw [String.toList_ofList]
    decide

theorem whole_noteHeadline : Whole (noteHeadline chrome item) [] [] := by
  unfold noteHeadline serif ink
  split
  all_goals
    simp only [Whole, List.map_cons, List.map_nil, HtmlPart.slot, -String.reduceToList]
    repeat rw [String.toList_ofList]
    decide

theorem whole_renderNoteRow : Whole (renderNoteRow chrome item) [] [] := by
  unfold renderNoteRow sans accent
  refine .append ["td", "tr"] (.block (.append ["td", "tr"] (.block (.append ["td", "tr"]
    (.block ?_ whole_renderEyebrow) ?_) whole_noteHeadline) ?_)
    whole_renderProvenance) ?_
  all_goals
    simp only [Whole, List.map_cons, List.map_nil, HtmlPart.slot, -String.reduceToList]
    repeat rw [String.toList_ofList]
    decide

theorem whole_htmlRow : Whole (htmlRow chrome position item) [] [] := by
  unfold htmlRow
  have hdivider : Whole (if 0 < position then softDivider else []) [] [] := by
    split
    · exact whole_softDivider
    · exact Whole.nil
  refine hdivider.block ?_
  cases item.format with
  | story => exact whole_renderStoryRow
  | note => exact whole_renderNoteRow

/-! ## The documents -/

theorem whole_htmlMasthead {windowEnd : DateTime} {greeting lead : String} {count : Nat}
    {content : DigestContent} :
    Whole (htmlMasthead chrome windowEnd greeting lead count content) [] [] := by
  have hlead : Whole (if lead = "" then [] else [.raw " ", .prose lead]) [] [] := by
    split
    · exact Whole.nil
    · exact (by decide : Whole [.raw " "] [] [])
  unfold htmlMasthead serif accent ink inkBody
  refine .append ["div"] (.block (whole_mastheadHead.append [] ?_) hlead) ?_
  all_goals
    simp only [Whole, List.map_cons, List.map_nil, HtmlPart.slot, -String.reduceToList]
    repeat rw [String.toList_ofList]
    decide

theorem whole_emptyMasthead {windowEnd : DateTime} {salutation : String}
    {content : DigestContent} :
    Whole (emptyMasthead chrome windowEnd salutation content) [] [] := by
  unfold emptyMasthead serif accent inkBody
  refine whole_mastheadHead.append [] ?_
  simp only [Whole, List.map_cons, List.map_nil, HtmlPart.slot, -String.reduceToList]
  repeat rw [String.toList_ofList]
  decide

theorem whole_htmlParts {windowEnd : DateTime} {greeting lead : String} {items : List HtmlItem}
    {content : DigestContent} :
    Whole (htmlParts chrome windowEnd greeting lead items content) [] [] := by
  refine whole_document ?_ whole_htmlMasthead
    ((whole_flatMap fun entry _ => whole_htmlRow).block whole_softDivider)
  simp only [Whole, List.map_cons, List.map_nil, HtmlPart.slot, -String.reduceToList]
  repeat rw [String.toList_ofList]
  decide

theorem whole_emptyHtmlParts {windowEnd : DateTime} {salutation : String}
    {content : DigestContent} :
    Whole (emptyHtmlParts chrome windowEnd salutation content) [] [] := by
  refine whole_document ?_ whole_emptyMasthead whole_softDivider
  decide

end Whole

/-! ## Texts in their places -/

section Places

variable {unicode : UnicodeTables} {html : HtmlEncoder} {parts : List HtmlPart}
  {pieces : List Markup.Piece} {nodes : List HtmlNode} {r r' : Markup.Reader}

def HtmlNode.Safe (node : HtmlNode) : Prop := ∀ p ∈ node.pieces, p.Safe

theorem HtmlNode.safe_text {s : List Char} (h : '<' ∉ s) : (HtmlNode.text s).Safe :=
  List.forall_mem_singleton.mpr h

theorem HtmlNode.safe_span {style : String} {s : List Char} (hstyle : '"' ∉ style.toList)
    (h : '<' ∉ s) : (HtmlNode.span style s).Safe := by
  intro p hp
  simp only [HtmlNode.pieces, List.mem_cons, List.not_mem_nil, or_false] at hp
  rcases hp with rfl | rfl | rfl | rfl | rfl
  · exact trivial
  · exact hstyle
  · exact trivial
  · exact h
  · exact trivial

theorem escape_safe (s : List Char) : '<' ∉ escape html.toHtmlEscape s :=
  html.encodeText_safe (clean s)

theorem escapeProse_safe {s out : List Char}
    (h : escapeProse unicode html.toHtmlEscape s = some out) : '<' ∉ out := by
  obtain ⟨inert, _, rfl⟩ := Option.map_eq_some_iff.mp h
  exact escape_safe inert

theorem renderEntityBadge_safe {entity : String} {s : List Char} (hs : '<' ∉ s) :
    (renderEntityBadge entity s).Safe := by
  unfold renderEntityBadge accent inkBody sans badgeCveBg badgeCveInk ink
  split
  case h_4 => exact HtmlNode.safe_text hs
  all_goals
    refine HtmlNode.safe_span ?_ hs
    simp only [String.toList_append, -String.reduceToList]
    repeat rw [String.toList_ofList]
    decide

theorem renderRun_safe {run : TldrRun} {node : HtmlNode}
    (h : renderRun (escapeProse unicode html.toHtmlEscape) run = some node) : node.Safe := by
  cases run with
  | text t =>
      obtain ⟨out, hout, rfl⟩ := Option.map_eq_some_iff.mp h
      exact HtmlNode.safe_text (escapeProse_safe hout)
  | ref entity surface =>
      obtain ⟨out, hout, rfl⟩ := Option.map_eq_some_iff.mp h
      exact renderEntityBadge_safe (escapeProse_safe hout)

theorem renderRunsLoop_safe {runs : List TldrRun} {prev : List Char}
    (h : renderRunsLoop (escapeProse unicode html.toHtmlEscape) prev runs = some nodes) :
    ∀ node ∈ nodes, node.Safe := by
  induction runs generalizing prev nodes with
  | nil =>
      cases h
      intro node hnode
      cases hnode
  | cons run runs ih =>
      obtain ⟨node, hnode, hrest⟩ := Option.bind_eq_some_iff.mp h
      obtain ⟨more, hmore, rfl⟩ := Option.map_eq_some_iff.mp hrest
      have hspace : (HtmlNode.text [' ']).Safe := HtmlNode.safe_text (by decide)
      intro n hn
      rcases List.mem_append.mp hn with hgap | hn
      · split at hgap
        · rw [List.mem_singleton.mp hgap]
          exact hspace
        · cases hgap
      · rcases List.mem_cons.mp hn with rfl | hn
        · exact renderRun_safe hnode
        · exact ih hmore n hn

theorem HtmlNode.reads (node : HtmlNode) : Markup.Reads node.pieces [] [] := by
  rw [Markup.Reads, ← Markup.walk_blank]
  cases node with
  | text s => rfl
  | span style s =>
      simp only [HtmlNode.pieces, List.map_cons, List.map_nil, Markup.Piece.blank]
      decide +kernel

theorem pieces_safe {part : HtmlPart} (h : part.pieces unicode html = some pieces) :
    ∀ p ∈ pieces, p.Safe := by
  cases part with
  | raw s =>
      cases h
      exact List.forall_mem_singleton.mpr trivial
  | plain s =>
      cases h
      exact List.forall_mem_singleton.mpr s.plain
  | escaped s =>
      cases h
      exact List.forall_mem_singleton.mpr (escape_safe s.toList)
  | prose s =>
      obtain ⟨out, hout, rfl⟩ := Option.map_eq_some_iff.mp h
      exact List.forall_mem_singleton.mpr (escapeProse_safe hout)
  | attr s =>
      cases h
      exact List.forall_mem_singleton.mpr (html.encodeAttr_safe _)
  | runs rs =>
      obtain ⟨nodes, hnodes, rfl⟩ := Option.map_eq_some_iff.mp h
      intro p hp
      obtain ⟨node, hnode, hin⟩ := List.mem_flatMap.mp hp
      exact renderRunsLoop_safe hnodes node hnode p hin

theorem walk_pieces {part : HtmlPart} (h : part.pieces unicode html = some pieces)
    (hslot : Markup.walk r [part.slot] = some r') : Markup.walk r pieces = some r' := by
  cases part with
  | raw s | plain s | escaped s | attr s =>
      cases h
      exact hslot
  | prose s =>
      obtain ⟨out, hout, rfl⟩ := Option.map_eq_some_iff.mp h
      exact hslot
  | runs rs =>
      obtain ⟨nodes, hnodes, rfl⟩ := Option.map_eq_some_iff.mp h
      obtain ⟨mode, stack⟩ := r
      cases mode with
      | text =>
          cases hslot
          exact (Markup.reads_flatMap fun node _ => node.reads).anywhere
      | name | inside | value | comment => cases hslot

theorem partPieces_cons {part : HtmlPart}
    (h : partPieces unicode html (part :: parts) = some pieces) :
    ∃ here rest, part.pieces unicode html = some here ∧
      partPieces unicode html parts = some rest ∧ pieces = here ++ rest := by
  unfold partPieces at h ⊢
  rw [List.mapM_cons] at h
  obtain ⟨lists, hlists, rfl⟩ := Option.map_eq_some_iff.mp h
  obtain ⟨here, hhere, hrest⟩ := Option.bind_eq_some_iff.mp hlists
  obtain ⟨rest, hmapM, heq⟩ := Option.bind_eq_some_iff.mp hrest
  cases heq
  refine ⟨here, rest.flatten, hhere, ?_, List.flatten_cons⟩
  rw [hmapM]
  rfl

theorem partPieces_safe (h : partPieces unicode html parts = some pieces) :
    ∀ p ∈ pieces, p.Safe := by
  induction parts generalizing pieces with
  | nil =>
      cases h
      exact List.forall_mem_nil _
  | cons part parts ih =>
      obtain ⟨here, rest, hhere, hrest, rfl⟩ := partPieces_cons h
      exact List.forall_mem_append.mpr ⟨pieces_safe hhere, ih hrest⟩

theorem walk_partPieces (h : partPieces unicode html parts = some pieces)
    (hslots : Markup.walk r (parts.map HtmlPart.slot) = some r') :
    Markup.walk r pieces = some r' := by
  induction parts generalizing r pieces with
  | nil =>
      cases h
      exact hslots
  | cons part parts ih =>
      obtain ⟨here, rest, hhere, hrest, rfl⟩ := partPieces_cons h
      rw [List.map_cons, ← List.singleton_append, Markup.walk_append] at hslots
      obtain ⟨middle, hmiddle, hafter⟩ := Option.bind_eq_some_iff.mp hslots
      rw [Markup.walk_append, walk_pieces hhere hmiddle, Option.bind_some]
      exact ih hrest hafter

theorem read_whole (hwhole : Whole parts [] []) (h : partPieces unicode html parts = some pieces) :
    Markup.read {} (Markup.emit pieces) = some {} ∧
      (∀ k, Markup.marked k {} (Markup.emit pieces) = Markup.parts k {} pieces) ∧
      Markup.marked .markup {} (Markup.emit pieces) =
        Markup.marked .markup {} (Markup.emit (pieces.map Markup.Piece.blank)) := by
  have hwalk : Markup.walk {} pieces = some {} := walk_partPieces h hwhole
  have hsafe := partPieces_safe h
  obtain ⟨hread, hmarked⟩ := Markup.walk_emit hsafe hwalk
  refine ⟨hread, hmarked, ?_⟩
  have hblank : ∀ p ∈ pieces.map Markup.Piece.blank, p.Safe := by
    intro p hp
    obtain ⟨q, _, rfl⟩ := List.mem_map.mp hp
    exact q.safe_blank
  rw [hmarked, (Markup.walk_emit hblank (Markup.walk_blank.trans hwalk)).2,
    Markup.parts_markup_blank hsafe]

def HtmlPart.proseTexts : HtmlPart → List String
  | prose s => [s]
  | runs rs => rs.map TldrRun.surface
  | raw _ | plain _ | escaped _ | attr _ => []

theorem isSome_renderRunsLoop {runs : List TldrRun} {prev : List Char} :
    (renderRunsLoop (escapeProse unicode html.toHtmlEscape) prev runs).isSome ↔
      ∀ text ∈ runs.map TldrRun.surface, Trimmable unicode text.toList := by
  induction runs generalizing prev with
  | nil => simp [renderRunsLoop]
  | cons run runs ih =>
      have hrun : (renderRun (escapeProse unicode html.toHtmlEscape) run).isSome ↔
          Trimmable unicode run.surface.toList := by
        cases run with
        | text t => rw [renderRun, Option.isSome_map, isSome_escapeProse]; rfl
        | ref entity surface => rw [renderRun, Option.isSome_map, isSome_escapeProse]; rfl
      rw [renderRunsLoop, isSome_bind_iff (fun node => by rw [Option.isSome_map, ih]), hrun,
        List.map_cons, List.forall_mem_cons]

theorem isSome_partPieces : (partPieces unicode html parts).isSome ↔
    ∀ text ∈ parts.flatMap HtmlPart.proseTexts, Trimmable unicode text.toList := by
  have hpart : ∀ part : HtmlPart, (part.pieces unicode html).isSome ↔
      ∀ text ∈ part.proseTexts, Trimmable unicode text.toList := by
    intro part
    cases part with
    | raw s | plain s | escaped s | attr s => simp [HtmlPart.pieces, HtmlPart.proseTexts]
    | prose s => simp [HtmlPart.pieces, HtmlPart.proseTexts, isSome_escapeProse]
    | runs rs =>
        rw [HtmlPart.pieces, Option.isSome_map]
        exact isSome_renderRunsLoop
  rw [partPieces, Option.isSome_map, isSome_mapM]
  simp only [hpart, List.mem_flatMap]
  exact ⟨fun h text ⟨part, hin, htext⟩ => h part hin text htext,
    fun h part hin text htext => h text ⟨part, hin, htext⟩⟩

end Places

/-- A view is a document of its template: its tags are those of the template with every text left
out, and what is put in is read as a text or as a value. -/
def ReadsAs (out : List Char) (pieces : List Markup.Piece) : Prop :=
  out = Markup.emit pieces ∧ Markup.read {} out = some {} ∧
    (∀ k, Markup.marked k {} out = Markup.parts k {} pieces) ∧
    Markup.marked .markup {} out =
      Markup.marked .markup {} (Markup.emit (pieces.map Markup.Piece.blank))

/-- Both views are built unless a text of theirs stops the sanitizer, and whatever their texts say,
every tag they open is a tag of the template and is closed. -/
theorem html_views_read (unicode : UnicodeTables) (html : HtmlEncoder) (chrome : HtmlChrome)
    (windowEnd : DateTime) (content : DigestContent) :
    (∀ greeting lead items,
      let parts := htmlParts chrome windowEnd greeting lead items content
      ((renderHtmlView unicode html chrome windowEnd greeting lead items content).isSome ↔
        ∀ text ∈ parts.flatMap HtmlPart.proseTexts, Trimmable unicode text.toList) ∧
      ∀ out, renderHtmlView unicode html chrome windowEnd greeting lead items content = some out →
        ∃ pieces, partPieces unicode html parts = some pieces ∧ ReadsAs out pieces) ∧
    ∀ salutation,
      let parts := emptyHtmlParts chrome windowEnd salutation content
      ((renderEmptyHtml unicode html chrome windowEnd salutation content).isSome ↔
        ∀ text ∈ parts.flatMap HtmlPart.proseTexts, Trimmable unicode text.toList) ∧
      ∀ out, renderEmptyHtml unicode html chrome windowEnd salutation content = some out →
        ∃ pieces, partPieces unicode html parts = some pieces ∧ ReadsAs out pieces := by
  constructor
  · intro greeting lead items
    refine ⟨by rw [renderHtmlView, Option.isSome_map, isSome_partPieces], fun out hout => ?_⟩
    obtain ⟨pieces, hpieces, rfl⟩ := Option.map_eq_some_iff.mp hout
    exact ⟨pieces, hpieces, rfl, read_whole whole_htmlParts hpieces⟩
  · intro salutation
    refine ⟨by rw [renderEmptyHtml, Option.isSome_map, isSome_partPieces], fun out hout => ?_⟩
    obtain ⟨pieces, hpieces, rfl⟩ := Option.map_eq_some_iff.mp hout
    exact ⟨pieces, hpieces, rfl, read_whole whole_emptyHtmlParts hpieces⟩

def taggedNote : HtmlItem where
  title := "<b>"
  link := none
  source := .rss
  lastEventTime := 0
  connections := []
  headline := "<script>alert(1)</script>"
  summary := ""
  summaryRuns := []
  summaryBand := .uncertain
  synthesized := false
  composed := false
  thread := none
  format := .note
  reason := "Note"
  confidence := .confirmed
  priority := ⟨"0.500", by decide +kernel⟩
  richness := "message"
  entities := []
  richness_own := Or.inr (by decide)

def secureHtmlChrome : HtmlChrome where
  toPlainChrome := secureChrome
  date := fun _ => "Wednesday, July 1, 2026"
  stamp_plain := by
    intro t
    change '<' ∉ "2026-07-01 09:00 UTC".toList
    decide

theorem html_views_read_tagged : ∃ out pieces,
    renderHtmlView asciiTables htmlEncoder secureHtmlChrome 0 "Good morning" "" [taggedNote] {} =
        some out ∧ ReadsAs out pieces := by
  obtain ⟨hbuilt, hread⟩ :=
    (html_views_read asciiTables htmlEncoder secureHtmlChrome 0 {}).1 "Good morning" "" [taggedNote]
  have htexts : (htmlParts secureHtmlChrome 0 "Good morning" "" [taggedNote] {}).flatMap
      HtmlPart.proseTexts = ["Good morning", "<script>alert(1)</script>"] := by
    rfl
  obtain ⟨out, hout⟩ := Option.isSome_iff_exists.mp (hbuilt.mpr (by
    rw [htexts]
    decide +kernel))
  obtain ⟨pieces, _, hreads⟩ := hread out hout
  exact ⟨out, pieces, hout, hreads⟩

end Bulletin
