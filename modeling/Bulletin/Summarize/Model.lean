import Mathlib.Data.List.Basic
import Bulletin.Common.Text
import Bulletin.Common.Types

/-! # Summaries

The product of one summarization: a headline and a short text made of runs, with
the verdict of the faithfulness gate. The empty summary means that no pass has run.
-/

namespace Bulletin

/-- The verdict of the faithfulness gate; `uncertain` is the default of a unit
that was never summarized. -/
inductive Band where
  | confirmed
  | probable
  | uncertain
deriving DecidableEq, Repr

/-- One run of a summary text. -/
inductive TldrRun where
  | ref (entity surface : String)
  | text (text : String)
deriving DecidableEq, Repr

def TldrRun.surface : TldrRun → String
  | ref _ s => s
  | text t => t

structure ClusterSummary where
  headline : String := ""
  tldr : List TldrRun := []
  tldrText : String := ""
  band : Band := .uncertain
deriving DecidableEq, Repr

def ClusterSummary.isEmpty (summary : ClusterSummary) : Bool :=
  trim summary.headline == "" && trim summary.tldrText == ""

example : ({} : ClusterSummary).isEmpty := by decide +kernel

end Bulletin
