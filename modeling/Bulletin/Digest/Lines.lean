import Bulletin.Core.Layout
import Bulletin.Digest.Generate
import Bulletin.Digest.Plain

/-! # The lines of the plain view

Nothing that a feed, a model or a subscriber wrote ends a line of the plain view or starts one.
Which lines there are and how each starts is a matter of the parts that are present.
-/

namespace Bulletin

open Layout Text

/-! ## Why an item is shown -/

def richnessPhrases : List String :=
  ["multi-source", "multi-event", "longform", "announcement", "message", stillDeveloping]

/-- The human-readable why; `fixed` prints a score with two places. -/
def reasonLine {F : Type} (fixed : F → String) (reason : ItemReason F) : String :=
  let format := match reason.format with
    | .story => "Story"
    | .note => "Note"
  let richness := if reason.richness = "" then "—" else reason.richness
  format ++ " · " ++ richness ++ " · relevance " ++ fixed reason.relevance

theorem richnessOf_mem_phrases (sourceDiversity eventCount : Int) (contentDepth : ContentKind) :
    (richnessOf sourceDiversity eventCount contentDepth).2 ∈ richnessPhrases := by
  unfold richnessOf richnessPhrases
  split
  · simp
  split
  · simp
  cases contentDepth <;> simp

theorem richness_mem_phrases {F : Type} [SelectScore F] {cs : List (Candidate F)}
    {cfg : ScoringConfig F} {maxItems : Nat} {now displayFloor : DateTime} {d : Decision F}
    (h : d ∈ select cs cfg maxItems now displayFloor) : d.richness ∈ richnessPhrases := by
  obtain ⟨c, _, hgate⟩ := mem_select h
  rcases hgate with hgate | ⟨_, v, rfl⟩
  · obtain ⟨cause, rfl⟩ := gate_eq_inl hgate
    exact richnessOf_mem_phrases _ _ _
  · show (if c.stale then stillDeveloping else (richness c).2) ∈ richnessPhrases
    split
    · simp [richnessPhrases]
    · exact richnessOf_mem_phrases _ _ _

/-! ## The template -/

/-- The optional parts of an item that are there: its thread, its summary, its link, and for each
connection the link. -/
structure ItemShape where
  thread : Bool
  summary : Bool
  link : Bool
  connectionLinks : List Bool
deriving DecidableEq, Repr

def plainShape (chrome : PlainChrome) (item : PlainItem) : ItemShape where
  thread := (item.thread.filter fun tag => !isBlank tag.label).isSome
  summary := !isBlank item.summary
  link := (item.link.bind chrome.safeHref).isSome
  connectionLinks := item.connections.map fun conn => (conn.link.bind chrome.safeHref).isSome

def optionalLine (present : Bool) (lead : String) : List String := if present then [lead] else []

def connectionTemplate (link : Bool) : List String := "   ↳ " :: optionalLine link "     "

def itemTemplate (position : Nat) (shape : ItemShape) : List String :=
  [toString (position + 1) ++ ". ["] ++ optionalLine shape.thread "   ~ " ++
    optionalLine shape.summary "   " ++ optionalLine shape.link "   " ++ ["   ", "   why: "] ++
    shape.connectionLinks.flatMap connectionTemplate ++ [""]

/-- How the lines of a digest start. -/
def plainTemplate (shapes : List ItemShape) : List String :=
  ["", "", "Your digest for the window ending ", ""] ++
    shapes.zipIdx.flatMap fun entry => itemTemplate entry.2 entry.1

/-! ## Calm texts -/

/-- ASCII without control characters, as serialized URLs, printed times and numbers are. -/
def Printable (s : String) : Prop := ∀ c ∈ s.toList, 0x20 ≤ c.toNat ∧ c.toNat < 0x7F

/-- Times and links are printable. -/
structure PlainChrome.Prints (chrome : PlainChrome) : Prop where
  stamp : ∀ t, Printable (chrome.stamp t)
  safeHref : ∀ link out, chrome.safeHref link = some out → Printable out

/-- The line of an item's why is the code's own. -/
def OwnReason {F : Type} (fixed : F → String) (item : PlainItem) : Prop :=
  ∃ reason : ItemReason F, item.reason = reasonLine fixed reason ∧
    (reason.richness = "" ∨ reason.richness ∈ richnessPhrases)

section Calm

variable {F : Type} {unicode : UnicodeTables} {chrome : PlainChrome} {fixed : F → String}
  {s out : String}

theorem Printable.calm (h : Printable s) : Calm isUnsafeChar s := by
  intro c hc
  obtain ⟨hlow, hhigh⟩ := h c hc
  simp only [isUnsafeChar, Bool.or_eq_false_iff, Bool.and_eq_false_iff, decide_eq_false_iff_not,
    beq_eq_false_iff_ne]
  omega

theorem calm_plainProse (h : plainProse unicode s = some out) : Calm isUnsafeChar out := by
  unfold plainProse cleanProse at h
  rw [Option.map_map] at h
  obtain ⟨text, _, rfl⟩ := Option.map_eq_some_iff.mp h
  intro c hc
  rw [Function.comp_apply, String.toList_ofList, clean_eq] at hc
  simpa using (List.mem_filter.mp hc).2

theorem calm_position (n : Nat) : Calm isUnsafeChar (toString n) := by
  refine Printable.calm fun c hc => ?_
  have hdigit : c.isDigit = true := by
    rw [show toString n = n.repr from rfl, Nat.toList_repr] at hc
    exact Nat.isDigit_of_mem_toDigits (by omega) (by omega) hc
  have hbounds : 48 ≤ c.toNat ∧ c.toNat ≤ 57 := by
    simpa [Char.isDigit, UInt32.le_iff_toNat_le] using hdigit
  omega

theorem calm_source (source : SourceKind) : Calm isUnsafeChar source.asStr := by
  cases source <;> simp [Calm, SourceKind.asStr, isUnsafeChar]

theorem calm_format (format : Format) :
    Calm isUnsafeChar (String.ofList (asciiUpper format.asStr.toList)) := by
  cases format <;> simp [Calm, Format.asStr, asciiUpper, isUnsafeChar]

theorem calm_richness (h : s = "" ∨ s ∈ richnessPhrases) : Calm isUnsafeChar s := by
  rcases h with rfl | h
  · exact calm_empty
  · simp only [richnessPhrases, stillDeveloping, List.mem_cons, List.not_mem_nil, or_false] at h
    rcases h with rfl | rfl | rfl | rfl | rfl | rfl <;> simp [Calm, isUnsafeChar]

theorem calm_reason {item : PlainItem} (hfixed : ∀ x, Printable (fixed x))
    (h : OwnReason fixed item) : Calm isUnsafeChar item.reason := by
  obtain ⟨reason, hreason, hrichness⟩ := h
  have hformat : Calm isUnsafeChar (match reason.format with
      | .story => "Story"
      | .note => "Note") := by
    cases reason.format <;> simp [Calm, isUnsafeChar]
  have hphrase : Calm isUnsafeChar (if reason.richness = "" then "—" else reason.richness) := by
    split
    · simp [Calm, isUnsafeChar]
    · exact calm_richness hrichness
  rw [hreason]
  exact (((hformat.append (by simp [Calm, isUnsafeChar])).append hphrase).append
    (by simp [Calm, isUnsafeChar])).append (hfixed reason.relevance).calm

end Calm

/-! ## The parts of the view -/

section Parts

variable {F : Type} {unicode : UnicodeTables} {chrome : PlainChrome} {fixed : F → String}
  {s out : String}

theorem laid_plainLink {indent : String} {link : Option String} (hchrome : chrome.Prints)
    (hindent : Calm isUnsafeChar indent) : Laid isUnsafeChar
      (optionalLine (link.bind chrome.safeHref).isSome indent) (plainLink chrome indent link) := by
  unfold plainLink
  cases hlink : link.bind chrome.safeHref with
  | none => exact Laid.nil
  | some t =>
      obtain ⟨raw, _, hsafe⟩ := Option.bind_eq_some_iff.mp hlink
      exact Laid.single hindent (hchrome.safeHref raw t hsafe).calm

theorem laid_plainSummary (h : plainSummary unicode s = some out) :
    Laid isUnsafeChar (optionalLine (!isBlank s) "   ") out := by
  unfold plainSummary at h
  split at h
  · rename_i hblank
    obtain rfl := Option.some.inj h
    rw [hblank]
    exact Laid.nil
  · rename_i hblank
    obtain ⟨text, htext, rfl⟩ := Option.map_eq_some_iff.mp h
    rw [Bool.eq_false_iff.mpr hblank]
    exact Laid.single (by simp [Calm, isUnsafeChar]) (calm_plainProse htext)

theorem laid_plainThread {thread : Option ThreadTag} (h : plainThread unicode thread = some out) :
    Laid isUnsafeChar
      (optionalLine (thread.filter fun tag => !isBlank tag.label).isSome "   ~ ") out := by
  have hlead : Calm isUnsafeChar "   ~ " := by simp [Calm, isUnsafeChar]
  have hdot : Calm isUnsafeChar " · " := by simp [Calm, isUnsafeChar]
  unfold plainThread at h
  revert h
  cases thread.filter fun tag => !isBlank tag.label with
  | none =>
      intro h
      obtain rfl := Option.some.inj h
      exact Laid.nil
  | some tag =>
      intro h
      obtain ⟨label, hlabel, h⟩ := Option.bind_eq_some_iff.mp h
      have hcalm := calm_plainProse hlabel
      revert h
      cases tag.delta.filter fun delta => !isBlank delta with
      | none =>
          intro h
          obtain rfl := Option.some.inj h
          exact Laid.single hlead hcalm
      | some delta =>
          intro h
          obtain ⟨delta, hdelta, rfl⟩ := Option.map_eq_some_iff.mp h
          have hline := Laid.single hlead ((hcalm.append hdot).append (calm_plainProse hdelta))
          simp only [String.append_assoc] at hline ⊢
          exact hline

theorem laid_plainConnection {conn : Connection} (hchrome : chrome.Prints)
    (h : plainConnection unicode chrome conn = some out) : Laid isUnsafeChar
      (connectionTemplate (conn.link.bind chrome.safeHref).isSome) out := by
  have hlead : Calm isUnsafeChar "   ↳ " := by simp [Calm, isUnsafeChar]
  have hlink : Laid isUnsafeChar _ (plainLink chrome "     " conn.link) :=
    laid_plainLink hchrome (by simp [Calm, isUnsafeChar])
  unfold plainConnection at h
  obtain ⟨title, htitle, h⟩ := Option.bind_eq_some_iff.mp h
  have hcaption : Calm isUnsafeChar (title ++ " [" ++ conn.source.asStr ++ "]") :=
    (((calm_plainProse htitle).append (by simp [Calm, isUnsafeChar])).append
      (calm_source _)).append (by simp [Calm, isUnsafeChar])
  revert h
  cases conn.linkReason with
  | none =>
      intro h
      obtain rfl := Option.some.inj h
      have hline := Laid.line hlead hcaption hlink
      simp only [String.append_assoc] at hline ⊢
      exact hline
  | some reason =>
      intro h
      obtain ⟨reason, hreason, rfl⟩ := Option.map_eq_some_iff.mp h
      have hwhy : Calm isUnsafeChar (" — " ++ reason) :=
        Calm.append (by simp [Calm, isUnsafeChar]) (calm_plainProse hreason)
      have hline := Laid.line hlead (hcaption.append hwhy) hlink
      simp only [String.append_assoc] at hline ⊢
      exact hline

theorem laid_plainItem {position : Nat} {item : PlainItem} (hchrome : chrome.Prints)
    (hreason : Calm isUnsafeChar item.reason)
    (h : plainItem unicode chrome position item = some out) :
    Laid isUnsafeChar (itemTemplate position (plainShape chrome item)) out := by
  unfold plainItem at h
  obtain ⟨headline, hheadline, h⟩ := Option.bind_eq_some_iff.mp h
  obtain ⟨thread, hthread, h⟩ := Option.bind_eq_some_iff.mp h
  obtain ⟨summary, hsummary, h⟩ := Option.bind_eq_some_iff.mp h
  obtain ⟨connections, hconnections, rfl⟩ := Option.map_eq_some_iff.mp h
  have hnumber : Calm isUnsafeChar (toString (position + 1) ++ ". [") :=
    (calm_position _).append (by simp [Calm, isUnsafeChar])
  have hbracket : Calm isUnsafeChar "] " := by simp [Calm, isUnsafeChar]
  have hindent : Calm isUnsafeChar "   " := by simp [Calm, isUnsafeChar]
  have hdot : Calm isUnsafeChar " · " := by simp [Calm, isUnsafeChar]
  have htitle := Laid.single hnumber
    (((calm_format item.format).append hbracket).append (calm_plainProse hheadline))
  have hlink : Laid isUnsafeChar _ (plainLink chrome "   " item.link) :=
    laid_plainLink hchrome hindent
  have hsource := Laid.single hindent
    (((calm_source item.source).append hdot).append (hchrome.stamp item.lastEventTime).calm)
  have hwhy : Laid isUnsafeChar ["   why: "] ("   why: " ++ item.reason ++ "\n") :=
    Laid.single (by simp [Calm, isUnsafeChar]) hreason
  have hfused : Laid isUnsafeChar _ (String.join connections) :=
    Laid.mapM (fun conn _ _ hs => laid_plainConnection hchrome hs) hconnections
  have hblank : Laid isUnsafeChar [""] "\n" := Laid.single calm_empty calm_empty
  have htop := (htitle.append (laid_plainThread hthread)).append (laid_plainSummary hsummary)
  have hparts := (((htop.append hlink).append (hsource.append hwhy)).append hfused).append hblank
  unfold itemTemplate plainShape
  rw [List.flatMap_map]
  simp only [String.append_assoc] at hparts ⊢
  exact hparts

theorem calm_plainOpening {greeting lead : String}
    (h : plainOpening unicode greeting lead = some out) : Calm isUnsafeChar out := by
  unfold plainOpening at h
  obtain ⟨greeting, hgreeting, h⟩ := Option.bind_eq_some_iff.mp h
  split at h
  · obtain rfl := Option.some.inj h
    exact calm_plainProse hgreeting
  · obtain ⟨lead, hlead, rfl⟩ := Option.map_eq_some_iff.mp h
    exact ((calm_plainProse hgreeting).append (by simp [Calm, isUnsafeChar])).append
      (calm_plainProse hlead)

theorem laid_renderPlain {windowEnd : DateTime} {greeting lead body : String}
    {items : List PlainItem} (hchrome : chrome.Prints)
    (hreasons : ∀ item ∈ items, Calm isUnsafeChar item.reason)
    (h : renderPlain unicode chrome windowEnd greeting lead items = some body) :
    Laid isUnsafeChar (plainTemplate (items.map (plainShape chrome))) body := by
  unfold renderPlain at h
  obtain ⟨opening, hopening, h⟩ := Option.bind_eq_some_iff.mp h
  obtain ⟨bodies, hbodies, rfl⟩ := Option.map_eq_some_iff.mp h
  have hitems : Laid isUnsafeChar
      (items.zipIdx.flatMap fun entry => itemTemplate entry.2 (plainShape chrome entry.1))
      (String.join bodies) := by
    refine Laid.mapM ?_ hbodies
    intro entry hentry s hs
    exact laid_plainItem hchrome (hreasons _ (List.fst_mem_of_mem_zipIdx hentry)) hs
  have hwindow : Calm isUnsafeChar (chrome.stamp windowEnd) := (hchrome.stamp windowEnd).calm
  have hcaption : Calm isUnsafeChar "Your digest for the window ending " := by
    simp [Calm, isUnsafeChar]
  have hblank : Laid isUnsafeChar [""] "\n" := Laid.single calm_empty calm_empty
  have hopened := (Laid.single calm_empty (calm_plainOpening hopening)).append hblank
  have hbody := ((hopened.append (Laid.single hcaption hwindow)).append hblank).append hitems
  unfold plainTemplate
  rw [List.zipIdx_map, List.flatMap_map]
  have hbreak : ("\n\nYour digest for the window ending " : String) =
      "\n" ++ ("\n" ++ "Your digest for the window ending ") := rfl
  have htwo : ("\n\n" : String) = "\n" ++ "\n" := rfl
  rw [hbreak, htwo]
  simp only [String.append_assoc, String.empty_append] at hbody ⊢
  exact hbody

end Parts

/-! ## No forged line -/

/-- The line breaks of a plain view are those of its template and no other unsafe character is in
it, and each line starts as the template has it, whatever its texts are. -/
theorem plain_lines_of_shape {F : Type} {unicode : UnicodeTables} {chrome : PlainChrome}
    {fixed : F → String} {windowEnd : DateTime} {greeting lead body : String}
    {items : List PlainItem} (hchrome : chrome.Prints) (hfixed : ∀ x, Printable (fixed x))
    (hreasons : ∀ item ∈ items, OwnReason fixed item)
    (h : renderPlain unicode chrome windowEnd greeting lead items = some body) :
    body.toList.filter isUnsafeChar =
        List.replicate (plainTemplate (items.map (plainShape chrome))).length '\n' ∧
      ∃ lines, body.toList.splitOnP (· == '\n') = lines ++ [[]] ∧
        List.Forall₂ (fun lead line => lead.toList <+: line)
          (plainTemplate (items.map (plainShape chrome))) lines := by
  have hlaid := laid_renderPlain hchrome (fun item hitem =>
    calm_reason hfixed (hreasons item hitem)) h
  have hbreak : isUnsafeChar '\n' = true := by decide
  exact ⟨hlaid.forbidden hbreak, hlaid.lines hbreak⟩

def secureChrome : PlainChrome where
  stamp := fun _ => "2026-07-01 09:00 UTC"
  safeHref := fun link =>
    if "https://".toList.isPrefixOf link.toList ∧
        link.toList.all (fun c => 0x20 ≤ c.toNat ∧ c.toNat < 0x7F) then some link
    else none

/-- An item whose texts would number a line, explain one and break one. -/
def forgingItem : PlainItem where
  title := "Patch out"
  link := some "https://acme.io/x"
  source := .rss
  lastEventTime := 0
  connections := [⟨"Pull\r\nrequest", some "javascript:x", .github, some "same\nfix"⟩]
  headline := "Patch out\n2. [STORY] forged"
  summary := "One\n   why: forged"
  summaryRuns := []
  summaryBand := .confirmed
  synthesized := false
  composed := false
  thread := some ⟨"Patches\n", some "\nnew"⟩
  format := .story
  reason := "Story · longform · relevance 0.50"

/-- All that item adds are the lines of its own parts. -/
theorem plain_lines_of_shape_forging :
    renderPlain asciiTables secureChrome 0 "Good morning,\nAda" "" [forgingItem] = some
      ("Good morning,Ada\n\nYour digest for the window ending 2026-07-01 09:00 UTC\n\n" ++
        "1. [STORY] Patch out2. [STORY] forged\n   ~ Patches · new\n   One   why: forged\n" ++
        "   https://acme.io/x\n   rss · 2026-07-01 09:00 UTC\n" ++
        "   why: Story · longform · relevance 0.50\n   ↳ Pullrequest [github] — samefix\n\n") ∧
      ∀ body, renderPlain asciiTables secureChrome 0 "Good morning,\nAda" ""
        [forgingItem] = some body →
        body.toList.filter isUnsafeChar =
            List.replicate (plainTemplate [plainShape secureChrome forgingItem]).length '\n' ∧
          ∃ lines, body.toList.splitOnP (· == '\n') = lines ++ [[]] ∧
            List.Forall₂ (fun lead line => lead.toList <+: line)
              (plainTemplate [plainShape secureChrome forgingItem]) lines := by
  have hstamp : Printable "2026-07-01 09:00 UTC" := by simp [Printable]
  have hchrome : secureChrome.Prints := by
    refine ⟨fun _ => hstamp, fun link out hout => ?_⟩
    unfold secureChrome at hout
    dsimp only at hout
    split at hout
    · rename_i hsafe
      obtain rfl := Option.some.inj hout
      exact fun c hc => of_decide_eq_true (List.all_eq_true.mp hsafe.2 c hc)
    · cases hout
  have hfixed : ∀ x : Nat, Printable ((fun _ => "0.50") x) := fun _ => by simp [Printable]
  have hreason : OwnReason (fun _ : Nat => "0.50") forgingItem :=
    ⟨⟨0, [], .story, "longform", 0⟩, rfl, Or.inr (by simp [richnessPhrases])⟩
  refine ⟨by decide +kernel, fun body hbody => ?_⟩
  exact plain_lines_of_shape hchrome hfixed (List.forall_mem_singleton.mpr hreason) hbody

end Bulletin
