import Bulletin.Common.Inert
import Bulletin.Summarize.Model

/-! # The prose of a summary

The flat text is put together from the runs, and the visible texts are rewritten before the gate
looks at them.
-/

namespace Bulletin

def defangText (unicode : UnicodeTables) (s : String) : Option String :=
  (defang unicode s.toList).map String.ofList

/-! ## The flat text -/

/-- Whether a space belongs between the text so far and the next run. -/
def joinRunSpace (left right : List Char) : Bool :=
  match left.getLast?, right.head? with
  | some l, some r =>
      !isWhitespace l && !isWhitespace r && !",.;:!?)]\x7d%'\"".toList.contains r &&
        !"([\x7b@#/'\"".toList.contains l
  | _, _ => false

def pushRun (out : List Char) (run : TldrRun) : List Char :=
  let surface := run.surface.toList
  (if joinRunSpace out surface then out ++ [' '] else out) ++ surface

def ClusterSummary.rebuildTldrText (summary : ClusterSummary) : ClusterSummary :=
  { summary with tldrText := String.ofList (summary.tldr.foldl pushRun []) }

def joint (left right : List Char) : List Char := if joinRunSpace left right then [' '] else []

/-- Some texts, each behind the space that parts it from the last text before it. -/
def spaced (left : List Char) : List (List Char) → List (List Char)
  | [] => []
  | s :: rest => joint left s :: s :: spaced (if s = [] then left else s) rest

@[simp] theorem joint_nil_left {s : List Char} : joint [] s = [] := rfl

@[simp] theorem joint_nil_right {left : List Char} : joint left [] = [] := by
  unfold joint joinRunSpace
  cases left.getLast? <;> rfl

/-- A space depends on the end of what stands before it and the start of what follows. -/
theorem joint_congr {left left' s s' : List Char} (hlast : left.getLast? = left'.getLast?)
    (hhead : s.head? = s'.head?) : joint left s = joint left' s' := by
  unfold joint joinRunSpace
  rw [hlast, hhead]

theorem foldl_pushRun {runs : List TldrRun} {out left : List Char}
    (hlast : out.getLast? = left.getLast?) : runs.foldl pushRun out =
      out ++ (spaced left (runs.map fun run => run.surface.toList)).flatten := by
  induction runs generalizing out left with
  | nil => simp [spaced]
  | cons run runs ih =>
      have hpush : pushRun out run =
          out ++ joint left run.surface.toList ++ run.surface.toList := by
        rw [← joint_congr hlast rfl]
        unfold pushRun joint
        dsimp only
        cases joinRunSpace out run.surface.toList <;> simp
      have hnext : (pushRun out run).getLast? =
          (if run.surface.toList = [] then left else run.surface.toList).getLast? := by
        rw [hpush]
        split
        · rename_i hnil
          rw [hnil, joint_nil_right]
          simpa using hlast
        · rename_i hne
          exact List.getLast?_append_of_ne_nil _ hne
      rw [List.foldl_cons, ih hnext, hpush, List.map_cons, spaced]
      simp

theorem toList_rebuildTldrText {summary : ClusterSummary} :
    summary.rebuildTldrText.tldrText.toList =
      (spaced [] (summary.tldr.map fun run => run.surface.toList)).flatten := by
  unfold ClusterSummary.rebuildTldrText
  rw [String.toList_ofList, foldl_pushRun rfl]
  rfl

theorem rebuildTldrText_blank {summary : ClusterSummary} :
    trim summary.rebuildTldrText.tldrText = "" ↔ ∀ run ∈ summary.tldr, trim run.surface = "" := by
  have hblank : ∀ s : String, trim s = "" ↔ ∀ c ∈ s.toList, isWhitespace c = true := by
    intro s
    rw [trim_eq_empty, splitWhitespace_eq_nil]
  have hfold : ∀ (runs : List TldrRun) (out : List Char),
      (∀ c ∈ runs.foldl pushRun out, isWhitespace c = true) ↔
        (∀ c ∈ out, isWhitespace c = true) ∧ ∀ run ∈ runs, trim run.surface = "" := by
    intro runs
    induction runs with
    | nil => simp
    | cons run runs ih =>
        intro out
        have hpush : (∀ c ∈ pushRun out run, isWhitespace c = true) ↔
            (∀ c ∈ out, isWhitespace c = true) ∧ trim run.surface = "" := by
          rw [hblank]
          -- the space that joins two runs is blank itself
          have hspace : isWhitespace ' ' = true := by decide
          unfold pushRun
          by_cases hjoin : joinRunSpace out run.surface.toList = true
          · simp only [if_pos hjoin, List.forall_mem_append,
              List.forall_mem_singleton, hspace, and_true]
          · simp only [if_neg hjoin, List.forall_mem_append]
        rw [List.foldl_cons, ih, hpush, List.forall_mem_cons, and_assoc]
  unfold ClusterSummary.rebuildTldrText
  rw [hblank, String.toList_ofList, hfold]
  simp

/-! ## The rewriting -/

/-- The visible text of a run is rewritten, the entity it names is not. -/
def TldrRun.defang (unicode : UnicodeTables) : TldrRun → Option TldrRun
  | .ref e s => (defangText unicode s).map (.ref e)
  | .text t => (defangText unicode t).map .text

/-- `none` is a panic. -/
def ClusterSummary.defangProse (unicode : UnicodeTables) (summary : ClusterSummary) :
    Option ClusterSummary :=
  (defangText unicode summary.headline).bind fun headline =>
    (summary.tldr.mapM (TldrRun.defang unicode)).map fun tldr =>
      ({ summary with headline := headline, tldr := tldr } : ClusterSummary).rebuildTldrText

section Prose

variable {unicode : UnicodeTables} {summary : ClusterSummary} {run : TldrRun} {s : String}

theorem isSome_defangText : (defangText unicode s).isSome ↔ Trimmable unicode s.toList := by
  unfold defangText
  rw [Option.isSome_map]
  exact defang_isSome

theorem isSome_defang_run : (run.defang unicode).isSome ↔ Trimmable unicode run.surface.toList := by
  cases run <;> rw [TldrRun.defang, Option.isSome_map] <;> exact isSome_defangText

theorem isSome_mapM {α β : Type} {f : α → Option β} {l : List α} :
    (l.mapM f).isSome ↔ ∀ a ∈ l, (f a).isSome := by
  induction l with
  | nil => simp
  | cons a l ih =>
      rw [List.mapM_cons, List.forall_mem_cons, ← ih]
      cases f a with
      | none => simp
      | some b => cases List.mapM f l <;> simp

def ClusterSummary.prose (summary : ClusterSummary) : List String :=
  summary.headline :: summary.tldr.map (·.surface)

theorem isSome_defangProse : (summary.defangProse unicode).isSome ↔
    ∀ text ∈ summary.prose, Trimmable unicode text.toList := by
  have hruns : (summary.tldr.mapM (TldrRun.defang unicode)).isSome ↔
      ∀ text ∈ summary.tldr.map (·.surface), Trimmable unicode text.toList := by
    rw [isSome_mapM, List.forall_mem_map]
    exact forall₂_congr fun run _ => isSome_defang_run
  unfold ClusterSummary.defangProse ClusterSummary.prose
  rw [List.forall_mem_cons, ← isSome_defangText, ← hruns]
  cases defangText unicode summary.headline with
  | none => simp
  | some headline => simp

end Prose

end Bulletin
