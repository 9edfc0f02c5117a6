import Bulletin.Digest.Prose

/-! # The two views of a summary

The flat text decides on a space between two runs from all the text so far, the HTML view from the
previous run alone. A run without text makes the difference.
-/

namespace Bulletin

/-! ## The HTML of a run-list -/

def ink : String := "#2c1810"

def inkBody : String := "#3d2e22"

def accent : String := "#d35327"

def sans : String := "'Helvetica Neue', Helvetica, Arial, sans-serif"

def badgeCveBg : String := "#fbe6dd"

def badgeCveInk : String := "#b23c12"

/-- A piece of the rendered paragraph: text, or text in a styled span. -/
inductive HtmlNode where
  | text (s : List Char)
  | span (style : String) (s : List Char)
deriving DecidableEq, Repr

def HtmlNode.content : HtmlNode → List Char
  | text s => s
  | span _ s => s

def textContent (nodes : List HtmlNode) : List Char := nodes.flatMap HtmlNode.content

def namespaceOf (token : String) : Option (List Char × List Char) :=
  splitOnce ":".toList token.toList

def renderEntityBadge (entity : String) (s : List Char) : HtmlNode :=
  match (namespaceOf entity).map fun p => String.ofList p.1 with
  | some "repo" =>
      .span ("border-bottom:1px dotted " ++ accent ++ ";font-weight:600;color:" ++ inkBody ++ ";") s
  | some "cve" =>
      .span ("font-family:" ++ sans ++ ";font-size:13px;font-weight:600;background:" ++
        badgeCveBg ++ ";color:" ++ badgeCveInk ++ ";padding:1px 7px;border-radius:10px;") s
  | some "user" => .span ("font-weight:600;color:" ++ ink ++ ";") s
  | _ => .text s

/-- One run; `none` is a panic of the sanitizer. -/
def renderRun (sanitize : List Char → Option (List Char)) : TldrRun → Option HtmlNode
  | .text t => (sanitize t.toList).map .text
  | .ref e s => (sanitize s.toList).map (renderEntityBadge e)

/-- The runs one after the other, each with the visible text of the run before it. -/
def renderRunsLoop (sanitize : List Char → Option (List Char)) (prev : List Char) :
    List TldrRun → Option (List HtmlNode)
  | [] => some []
  | run :: rest =>
      let surface := run.surface.toList
      (renderRun sanitize run).bind fun node =>
        (renderRunsLoop sanitize surface rest).map fun more =>
          (if joinRunSpace prev surface then [.text [' ']] else []) ++ node :: more

def renderSummaryRuns (sanitize : List Char → Option (List Char)) (runs : List TldrRun) :
    Option (List HtmlNode) := renderRunsLoop sanitize [] runs

/-! ## Both views as texts -/

def besideText (prev : List Char) : List (List Char) → List Char
  | [] => []
  | s :: rest => joint prev s ++ (s ++ besideText s rest)

section Views

variable {left left' prev s out : List Char} {surfaces rest : List (List Char)}
  {runs : List TldrRun} {gap : Bool}

theorem content_renderEntityBadge {entity : String} :
    (renderEntityBadge entity s).content = s := by
  unfold renderEntityBadge
  split <;> rfl

theorem textContent_renderRunsLoop : (renderRunsLoop some prev runs).map textContent =
    some (besideText prev (runs.map fun run => run.surface.toList)) := by
  induction runs generalizing prev with
  | nil => rfl
  | cons run runs ih =>
      have hrun : ∃ node, renderRun some run = some node ∧ node.content = run.surface.toList := by
        cases run with
        | text t => exact ⟨_, rfl, rfl⟩
        | ref e s => exact ⟨_, rfl, content_renderEntityBadge⟩
      obtain ⟨node, hnode, hcontent⟩ := hrun
      obtain ⟨more, hmore, htext⟩ := Option.map_eq_some_iff.mp (@ih run.surface.toList)
      rw [renderRunsLoop, hnode, Option.bind_some, hmore, Option.map_some, Option.map_some,
        List.map_cons, besideText, ← htext, ← hcontent]
      unfold joint textContent
      split <;> rfl

theorem length_besideText_le (hprev : prev = left ∨ prev = []) :
    (besideText prev surfaces).length ≤ (spaced left surfaces).flatten.length := by
  induction surfaces generalizing prev left with
  | nil => exact Nat.le_refl 0
  | cons s rest ih =>
      have hjoint : (joint prev s).length ≤ (joint left s).length := by
        rcases hprev with rfl | rfl
        · exact Nat.le_refl _
        · exact Nat.zero_le _
      have hrest : (besideText s rest).length ≤
          (spaced (if s = [] then left else s) rest).flatten.length := by
        refine ih ?_
        split
        · rename_i hnil
          exact Or.inr hnil
        · exact Or.inl rfl
      simp only [besideText, spaced, List.flatten_cons, List.length_append]
      omega

/-- No space belongs between the text so far and the next surface with text, if a surface without
text comes before it; `gap` tells that one came already. -/
def CleanFrom (left : List Char) (gap : Bool) (surfaces : List (List Char)) : Prop :=
  ∀ empties s rest, surfaces = empties ++ s :: rest → (∀ e ∈ empties, e = []) →
    (gap = true ∨ empties ≠ []) → joint left s = []

/-- No space belongs between two surfaces that only surfaces without text stand between. -/
def NoGap (surfaces : List (List Char)) : Prop :=
  ∀ before a empties b after, surfaces = before ++ a :: (empties ++ b :: after) →
    empties ≠ [] → (∀ e ∈ empties, e = []) → joint a b = []

theorem cleanFrom_cons : CleanFrom left gap (s :: rest) ↔
    (gap = true → joint left s = []) ∧ (s = [] → CleanFrom left true rest) := by
  constructor
  · intro h
    refine ⟨fun hgap => h [] s rest rfl (by simp) (Or.inl hgap), ?_⟩
    rintro rfl empties t back rfl hempty _
    exact h ([] :: empties) t back rfl (by simpa using hempty) (Or.inr (List.cons_ne_nil _ _))
  · rintro ⟨hhere, hlater⟩ empties t back heq hempty hgap
    cases empties with
    | nil =>
        obtain ⟨rfl, rfl⟩ := List.cons.inj heq
        exact hhere (hgap.resolve_right fun h => h rfl)
    | cons e empties =>
        obtain ⟨rfl, rfl⟩ := List.cons.inj heq
        exact hlater (hempty s List.mem_cons_self) empties t back rfl
          (fun x hx => hempty x (List.mem_cons_of_mem s hx)) (Or.inl rfl)

theorem noGap_cons : NoGap (s :: rest) ↔ CleanFrom s false rest ∧ NoGap rest := by
  constructor
  · intro h
    refine ⟨fun empties b after heq hempty hgap => ?_, fun before a empties b after heq => ?_⟩
    · exact h [] s empties b after (by rw [heq]; rfl) (hgap.resolve_left (by simp)) hempty
    · exact h (s :: before) a empties b after (by rw [heq]; rfl)
  · rintro ⟨hhere, hlater⟩ before a empties b after heq hne hempty
    cases before with
    | nil =>
        obtain ⟨rfl, rfl⟩ := List.cons.inj heq
        exact hhere empties b after rfl hempty (Or.inr hne)
    | cons x before =>
        obtain ⟨rfl, rfl⟩ := List.cons.inj heq
        exact hlater before a empties b after rfl hne hempty

theorem besideText_eq_iff :
    besideText (if gap then [] else left) surfaces = (spaced left surfaces).flatten ↔
    CleanFrom left gap surfaces ∧ NoGap surfaces := by
  induction surfaces generalizing left gap with
  | nil =>
      refine iff_of_true rfl ⟨?_, ?_⟩
      · intro empties s rest heq
        simp at heq
      · intro before a empties b after heq
        simp at heq
  | cons s rest ih =>
      rw [cleanFrom_cons, noGap_cons, besideText, spaced, List.flatten_cons, List.flatten_cons]
      by_cases hs : s = []
      · have hrest := @ih left true
        subst hs
        have hclean : CleanFrom [] false rest := fun _ _ _ _ _ _ => joint_nil_left
        simpa [hclean] using hrest
      · have hrest := @ih s false
        have hle : (besideText s rest).length ≤ (spaced s rest).flatten.length :=
          length_besideText_le (Or.inl rfl)
        have hjoint : joint (if gap then [] else left) s = joint left s ↔
            (gap = true → joint left s = []) := by
          cases gap with
          | false => simp
          | true => simp [eq_comm]
        have hjointle : (joint (if gap then [] else left) s).length ≤ (joint left s).length := by
          cases gap with
          | false => exact Nat.le_refl _
          | true => exact Nat.zero_le _
        have hsplit : joint (if gap then [] else left) s ++ (s ++ besideText s rest) =
            joint left s ++ (s ++ (spaced s rest).flatten) ↔
              joint (if gap then [] else left) s = joint left s ∧
                besideText s rest = (spaced s rest).flatten := by
          refine ⟨fun heq => ?_, fun h => by rw [h.1, h.2]⟩
          -- neither part of the HTML view is the longer one
          have hlength := congrArg List.length heq
          simp only [List.length_append] at hlength
          obtain ⟨hfront, hback⟩ := List.append_inj heq (by omega)
          exact ⟨hfront, List.append_cancel_left hback⟩
        rw [if_neg hs, hsplit, hjoint,
          show besideText s rest = (spaced s rest).flatten ↔ _ from hrest]
        simp [hs]

theorem joint_eq_nil : joint left s = [] ↔ joinRunSpace left s = false := by
  unfold joint
  cases joinRunSpace left s <;> simp

theorem noGap_surfaces : NoGap (runs.map fun run => run.surface.toList) ↔
    ∀ before a empties b after,
      runs.map (·.surface) = before ++ a :: (empties ++ b :: after) → empties ≠ [] →
        (∀ e ∈ empties, e = "") → joinRunSpace a.toList b.toList = false := by
  have hlists : (runs.map fun run => run.surface.toList) =
      (runs.map (·.surface)).map String.toList := by
    rw [List.map_map]
    rfl
  rw [hlists]
  constructor
  · intro h before a empties b after heq hne hempty
    refine joint_eq_nil.mp (h (before.map String.toList) a.toList (empties.map String.toList)
      b.toList (after.map String.toList) ?_ (by simpa using hne) ?_)
    · rw [heq]
      simp
    · intro e he
      obtain ⟨text, htext, rfl⟩ := List.mem_map.mp he
      rw [hempty text htext]
      rfl
  · intro h before a empties b after heq hne hempty
    obtain ⟨before', tail, hruns, rfl, htail⟩ := List.map_eq_append_iff.mp heq
    obtain ⟨a', tail', rfl, rfl, htail'⟩ := List.map_eq_cons_iff.mp htail
    obtain ⟨empties', tail'', rfl, rfl, htail''⟩ := List.map_eq_append_iff.mp htail'
    obtain ⟨b', after', rfl, rfl, rfl⟩ := List.map_eq_cons_iff.mp htail''
    refine joint_eq_nil.mpr (h before' a' empties' b' after' hruns (by simpa using hne) ?_)
    intro e he
    exact String.toList_eq_nil_iff.mp (hempty e.toList (List.mem_map_of_mem he))

end Views

/-! ## Spacing -/

/-- The text of the HTML view is the flat text, exactly if no space belongs between two runs that
only runs without text stand between. -/
theorem summary_views_agree_iff {summary : ClusterSummary} :
    (renderSummaryRuns some summary.tldr).map textContent =
        some summary.rebuildTldrText.tldrText.toList ↔
      ∀ before a empties b after,
        summary.tldr.map (·.surface) = before ++ a :: (empties ++ b :: after) → empties ≠ [] →
          (∀ e ∈ empties, e = "") → joinRunSpace a.toList b.toList = false := by
  have hflat : summary.rebuildTldrText.tldrText.toList =
      (spaced [] (summary.tldr.map fun run => run.surface.toList)).flatten :=
    toList_rebuildTldrText
  have hclean : CleanFrom [] false (summary.tldr.map fun run => run.surface.toList) :=
    fun _ _ _ _ _ _ => joint_nil_left
  have hviews := @besideText_eq_iff [] (summary.tldr.map fun run => run.surface.toList) false
  unfold renderSummaryRuns
  rw [textContent_renderRunsLoop, hflat, Option.some_inj, show besideText [] _ = _ ↔ _ from hviews,
    and_iff_right hclean]
  exact noGap_surfaces

/-- An empty run between two words: the flat text parts them, the HTML view does not. -/
theorem empty_run_glues : ¬ ∀ runs : List TldrRun,
    (renderSummaryRuns some runs).map textContent =
      some (ClusterSummary.rebuildTldrText { tldr := runs }).tldrText.toList := by
  intro h
  have hviews := h [.text "a", .text "", .text "b"]
  revert hviews
  decide +kernel

end Bulletin
