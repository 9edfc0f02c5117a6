import Mathlib.Data.List.Forall2

/-! # Texts laid out in lines

A text follows a template if each of its lines starts as the template has it, and has no forbidden
character. What stands on the lines cannot add a line.
-/

namespace Layout

def Calm (bad : Char → Bool) (s : String) : Prop := ∀ c ∈ s.toList, bad c = false

/-- A line for each entry of the template, which it starts with. -/
inductive Laid (bad : Char → Bool) : List String → String → Prop
  | nil : Laid bad [] ""
  | line {lead text rest : String} {template : List String} (hlead : Calm bad lead)
      (htext : Calm bad text) (hrest : Laid bad template rest) :
      Laid bad (lead :: template) (lead ++ text ++ "\n" ++ rest)

section Lines

variable {bad : Char → Bool} {s t lead text : String} {template more : List String}

theorem Calm.append (hs : Calm bad s) (ht : Calm bad t) : Calm bad (s ++ t) := by
  intro c hc
  rw [String.toList_append] at hc
  rcases List.mem_append.mp hc with h | h
  · exact hs c h
  · exact ht c h

theorem calm_empty : Calm bad "" := by
  intro c hc
  cases hc

theorem Laid.single (hlead : Calm bad lead) (htext : Calm bad text) :
    Laid bad [lead] (lead ++ text ++ "\n") := by
  have hline := Laid.line hlead htext Laid.nil
  rwa [String.append_empty] at hline

theorem Laid.append (hs : Laid bad template s) (ht : Laid bad more t) :
    Laid bad (template ++ more) (s ++ t) := by
  induction hs with
  | nil => rwa [String.empty_append]
  | line hlead htext _ ih =>
      rw [String.append_assoc]
      exact Laid.line hlead htext ih

theorem Laid.mapM {α : Type} {f : α → Option String} {template : α → List String} {xs : List α}
    {out : List String} (hbuilt : ∀ x ∈ xs, ∀ s, f x = some s → Laid bad (template x) s)
    (hout : xs.mapM f = some out) : Laid bad (xs.flatMap template) (String.join out) := by
  induction xs generalizing out with
  | nil =>
      obtain rfl := Option.some.inj hout
      exact Laid.nil
  | cons x xs ih =>
      rw [List.mapM_cons] at hout
      obtain ⟨s, hs, hrest⟩ := Option.bind_eq_some_iff.mp hout
      obtain ⟨more, hmore, hjoin⟩ := Option.bind_eq_some_iff.mp hrest
      obtain rfl := Option.some.inj hjoin
      rw [List.flatMap_cons, String.join_cons]
      exact (hbuilt x List.mem_cons_self s hs).append
        (ih (fun y hy => hbuilt y (List.mem_cons_of_mem x hy)) hmore)

/-- The only forbidden characters are the ends of the lines. -/
theorem Laid.forbidden (hbad : bad '\n' = true) (h : Laid bad template s) :
    s.toList.filter bad = List.replicate template.length '\n' := by
  have hnone : ∀ {t : String}, Calm bad t → t.toList.filter bad = [] := by
    intro t ht
    exact List.filter_eq_nil_iff.mpr fun c hc => by simp [ht c hc]
  induction h with
  | nil => rfl
  | line hlead htext _ ih =>
      simp only [String.toList_append, List.filter_append, hnone hlead, hnone htext, ih,
        List.nil_append, List.length_cons, List.replicate_succ]
      simp [hbad]

theorem Laid.lines (hbad : bad '\n' = true) (h : Laid bad template s) :
    ∃ lines, s.toList.splitOnP (· == '\n') = lines ++ [[]] ∧
      List.Forall₂ (fun lead line => lead.toList <+: line) template lines := by
  induction h with
  | nil => exact ⟨[], rfl, List.Forall₂.nil⟩
  | @line lead text rest template hlead htext _ ih =>
      obtain ⟨lines, hlines, hleads⟩ := ih
      refine ⟨(lead ++ text).toList :: lines, ?_, List.Forall₂.cons ?_ hleads⟩
      · have hfree : ∀ c ∈ (lead ++ text).toList, (c == '\n') = false := by
          intro c hc
          refine beq_eq_false_iff_ne.mpr fun heq => ?_
          have hcalm := hlead.append htext c hc
          rw [heq, hbad] at hcalm
          cases hcalm
        have hcut : (lead ++ text ++ "\n" ++ rest).toList =
            (lead ++ text).toList ++ '\n' :: rest.toList := by
          simp [String.toList_append]
        rw [hcut, List.splitOnP_append_cons_of_forall_mem hfree '\n' (by rfl), hlines]
        rfl
      · rw [String.toList_append]
        exact List.prefix_append _ _

end Lines

end Layout
