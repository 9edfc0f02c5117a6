import Bulletin.Digest.Plain
import Bulletin.Summarize.Phrase

/-! # The lead of a digest

A model writes the sentence a digest opens with from its first headlines and the names of its
threads. A draft that fails the gate is drawn again with another seed; a digest without a lead waits.
-/

namespace Bulletin

open Text

def leadMax : Nat := 320

def dominantCap : Nat := 3

def alsoCap : Nat := 3

def leadSeedRetries : Nat := 3

/-! ## What the model is shown -/

def leadTiers (items : List PlainItem) : List String × List String :=
  let ranked := (items.map fun item => trim item.headline).filter (· ≠ "")
  (ranked.take dominantCap, (ranked.drop dominantCap).take alsoCap)

/-- The threads of the items, each once, in the order they come. -/
def leadThreads (items : List PlainItem) : List String :=
  (((items.filterMap (·.thread)).map fun tag => trim tag.label).filter (· ≠ "")).eraseDups

def joinLines (parts : List String) : List Char := ['\n'].intercalate (parts.map String.toList)

/-- The text the numbers of a lead are looked up in; `total` counts the items of the digest. -/
def leadGrounding (dominant also threads : List String) (total : Nat) : List Char :=
  joinLines dominant ++ '\n' :: (joinLines also ++ '\n' :: (joinLines threads ++
    '\n' :: ((toString total).toList ++ ' ' :: (toString (total - 1)).toList)))

/-! ## Drawing a lead -/

inductive LeadOutcome where
  | ready (lead : String)
  | rejected
  | unavailable
deriving DecidableEq, Repr

section Draw

variable (unicode : UnicodeTables)

def cleanLead (raw : String) (grounding : List Char) : Option String :=
  (cleanPhrase unicode leadMax (trim raw)).filter fun s =>
    firstUngroundedNumber unicode s.toList grounding = none

def clientAuthoredLead (dominant also threads : List String) (total : Nat)
    (reply : Except Unit String) : LeadOutcome :=
  match reply with
  | .error _ => .unavailable
  | .ok raw =>
      match cleanLead unicode raw (leadGrounding dominant also threads total) with
      | some lead => .ready lead
      | none => .rejected

/-- The calls of a run; `ask` is what an attempt brings by the deadline. -/
def leadLoop (outcome : Except Unit String → LeadOutcome)
    (ask : Int → Option (Except Unit String)) : Nat → Int → Option String
  | 0, _ => none
  | retries + 1, attempt =>
      match (ask attempt).map outcome with
      | some (.ready lead) => some lead
      | some .rejected => leadLoop outcome ask retries (attempt + 1)
      | some .unavailable | none => none

/-- The first attempt of a run: saturating in 32 bits, then read as a signed number. -/
def leadSeedBase (jobAttempt : Nat) : Int :=
  (BitVec.ofNat 32 (min ((jobAttempt - 1) * leadSeedRetries) (2 ^ 32 - 1))).toInt

def authoredLead (ask : Int → Option (Except Unit String)) (items : List PlainItem)
    (jobAttempt : Nat) : Option String :=
  let (dominant, also) := leadTiers items
  if dominant = [] then none
  else
    leadLoop (clientAuthoredLead unicode dominant also (leadThreads items) items.length) ask
      leadSeedRetries (leadSeedBase jobAttempt)

/-- What a digest is held up without: a phrase that may be shown and has no number of its own. -/
structure Authored (sources : List String) (lead : String) : Prop
    extends Presentable unicode leadMax lead where
  grounded : ∀ tok ∈ tokenizeNumeric lead.toList, ∃ source ∈ sources,
    ∃ t ∈ tokenizeNumeric source.toList, unicode.toLowercase t = unicode.toLowercase tok

/-- What a lead may take its numbers from. -/
def leadSources (items : List PlainItem) : List String :=
  (leadTiers items).1 ++ (leadTiers items).2 ++ leadThreads items ++
    [toString items.length, toString (items.length - 1)]

end Draw

/-! ## What passes -/

section Gate

variable {unicode : UnicodeTables} {dominant also threads : List String} {total : Nat}
  {raw lead : String} {tok : List Char}

theorem tokenizeNumeric_newline {a b : List Char} :
    tokenizeNumeric (a ++ '\n' :: b) = tokenizeNumeric a ++ tokenizeNumeric b :=
  tokenizeNumeric_cut (by decide +kernel)

theorem tokenizeNumeric_joinLines {parts : List String} :
    tokenizeNumeric (joinLines parts) = parts.flatMap fun s => tokenizeNumeric s.toList := by
  unfold joinLines
  induction parts with
  | nil => rfl
  | cons a parts ih =>
      cases parts with
      | nil => simp
      | cons b parts =>
          rw [List.map_cons] at ih ⊢
          rw [List.map_cons, List.intercalate_cons_cons, List.append_assoc, List.singleton_append,
            tokenizeNumeric_newline, ih]
          rfl

theorem mem_leadGrounding : tok ∈ tokenizeNumeric (leadGrounding dominant also threads total) ↔
    ∃ source ∈ dominant ++ also ++ threads ++ [toString total, toString (total - 1)],
      tok ∈ tokenizeNumeric source.toList := by
  rw [leadGrounding, tokenizeNumeric_newline, tokenizeNumeric_newline, tokenizeNumeric_newline,
    tokenizeNumeric_space, tokenizeNumeric_joinLines, tokenizeNumeric_joinLines,
    tokenizeNumeric_joinLines]
  simp only [List.mem_append, List.mem_flatMap, List.mem_cons, List.not_mem_nil, or_false]
  constructor
  · rintro (⟨s, hs, h⟩ | ⟨s, hs, h⟩ | ⟨s, hs, h⟩ | h | h)
    · exact ⟨s, Or.inl (Or.inl (Or.inl hs)), h⟩
    · exact ⟨s, Or.inl (Or.inl (Or.inr hs)), h⟩
    · exact ⟨s, Or.inl (Or.inr hs), h⟩
    · exact ⟨_, Or.inr (Or.inl rfl), h⟩
    · exact ⟨_, Or.inr (Or.inr rfl), h⟩
  · rintro ⟨s, ((hs | hs) | hs) | rfl | rfl, h⟩
    · exact Or.inl ⟨s, hs, h⟩
    · exact Or.inr (Or.inl ⟨s, hs, h⟩)
    · exact Or.inr (Or.inr (Or.inl ⟨s, hs, h⟩))
    · exact Or.inr (Or.inr (Or.inr (Or.inl h)))
    · exact Or.inr (Or.inr (Or.inr (Or.inr h)))

theorem ungrounded_none_iff {output grounding : List Char} :
    firstUngroundedNumber unicode output grounding = none ↔ ∀ tok ∈ tokenizeNumeric output,
      ∃ t ∈ tokenizeNumeric grounding, unicode.toLowercase t = unicode.toLowercase tok := by
  simp [firstUngroundedNumber]

/-- The gate passes the trimmed draft, and exactly those that may open a digest. -/
theorem cleanLead_eq_some : cleanLead unicode raw (leadGrounding dominant also threads total) =
    some lead ↔ lead = trim raw ∧ Authored unicode
      (dominant ++ also ++ threads ++ [toString total, toString (total - 1)]) lead := by
  have hgrounded : firstUngroundedNumber unicode (trim raw).toList
      (leadGrounding dominant also threads total) = none ↔
        ∀ tok ∈ tokenizeNumeric (trim raw).toList,
          ∃ source ∈ dominant ++ also ++ threads ++ [toString total, toString (total - 1)],
            ∃ t ∈ tokenizeNumeric source.toList, unicode.toLowercase t = unicode.toLowercase tok := by
    rw [ungrounded_none_iff]
    refine forall₂_congr fun tok _ => ?_
    constructor
    · intro h
      obtain ⟨t, ht, heq⟩ := h
      obtain ⟨source, hsource, hin⟩ := mem_leadGrounding.mp ht
      exact ⟨source, hsource, t, hin, heq⟩
    · intro h
      obtain ⟨source, hsource, t, hin, heq⟩ := h
      exact ⟨t, mem_leadGrounding.mpr ⟨source, hsource, hin⟩, heq⟩
  rw [cleanLead, Option.filter_eq_some_iff, cleanPhrase_eq_some, decide_eq_true_eq]
  constructor
  · intro h
    obtain ⟨⟨rfl, hshown⟩, hnumbers⟩ := h
    exact ⟨rfl, hshown, hgrounded.mp hnumbers⟩
  · intro h
    obtain ⟨rfl, hlead⟩ := h
    exact ⟨⟨rfl, hlead.toPresentable⟩, hgrounded.mpr hlead.grounded⟩

end Gate

/-! ## What a run returns -/

section Runs

variable {unicode : UnicodeTables} {outcome : Except Unit String → LeadOutcome}
  {ask : Int → Option (Except Unit String)} {retries : Nat} {attempt : Int} {lead : String}

theorem leadLoop_eq_some : leadLoop outcome ask retries attempt = some lead ↔
    ∃ i < retries, (ask (attempt + i)).map outcome = some (.ready lead) ∧
      ∀ j < i, (ask (attempt + j)).map outcome = some .rejected := by
  induction retries generalizing attempt with
  | zero => simp [leadLoop]
  | succ retries ih =>
      have hstep : ∀ k : Nat, attempt + 1 + (k : Int) = attempt + (k + 1 : Nat) := by omega
      have hfirst : attempt + ((0 : Nat) : Int) = attempt := by omega
      rw [leadLoop]
      constructor
      · intro h
        split at h
        · rename_i found hready
          cases h
          refine ⟨0, Nat.zero_lt_succ retries, by rw [hfirst, hready], fun j hj => ?_⟩
          exact absurd hj (Nat.not_lt_zero j)
        · rename_i hrejected
          obtain ⟨i, hi, hready, hbefore⟩ := ih.mp h
          refine ⟨i + 1, Nat.succ_lt_succ hi, by rw [← hstep, hready], fun j hj => ?_⟩
          cases j with
          | zero => rw [hfirst, hrejected]
          | succ j => rw [← hstep, hbefore j (Nat.lt_of_succ_lt_succ hj)]
        · cases h
        · cases h
      · intro h
        obtain ⟨i, hi, hready, hbefore⟩ := h
        cases i with
        | zero =>
            rw [hfirst] at hready
            rw [hready]
        | succ i =>
            have hrejected := hbefore 0 (Nat.zero_lt_succ i)
            rw [hfirst] at hrejected
            rw [hrejected]
            refine ih.mpr ⟨i, Nat.lt_of_succ_lt_succ hi, by rw [hstep, hready], fun j hj => ?_⟩
            rw [hstep, hbefore (j + 1) (Nat.succ_lt_succ hj)]

section Items

variable {items : List PlainItem} {reply : Except Unit String}

/-- The outcome of a call with the headlines and the threads of some items. -/
def leadOutcome (unicode : UnicodeTables) (items : List PlainItem) :
    Except Unit String → LeadOutcome :=
  clientAuthoredLead unicode (leadTiers items).1 (leadTiers items).2 (leadThreads items) items.length

theorem leadOutcome_ready : leadOutcome unicode items reply = .ready lead ↔
    ∃ raw, reply = .ok raw ∧ lead = trim raw ∧ Authored unicode (leadSources items) lead := by
  unfold leadOutcome clientAuthoredLead leadSources
  cases reply with
  | error e => simp
  | ok raw =>
      simp only [Except.ok.injEq, exists_eq_left']
      rw [← cleanLead_eq_some]
      split
      · rename_i found hfound
        rw [hfound, LeadOutcome.ready.injEq, Option.some.injEq]
      · rename_i hnone
        simp [hnone]

theorem leadOutcome_rejected : leadOutcome unicode items reply = .rejected ↔
    ∃ raw, reply = .ok raw ∧ ¬ Authored unicode (leadSources items) (trim raw) := by
  unfold leadOutcome clientAuthoredLead leadSources
  cases reply with
  | error e => simp
  | ok raw =>
      simp only [Except.ok.injEq, exists_eq_left']
      split
      · rename_i found hfound
        obtain ⟨rfl, hlead⟩ := cleanLead_eq_some.mp hfound
        exact iff_of_false (fun h => LeadOutcome.noConfusion h) fun h => h hlead
      · rename_i hnone
        have hfails : ¬ Authored unicode ((leadTiers items).1 ++ (leadTiers items).2 ++
            leadThreads items ++ [toString items.length, toString (items.length - 1)])
              (trim raw) := by
          intro hlead
          rw [cleanLead_eq_some.mpr ⟨rfl, hlead⟩] at hnone
          cases hnone
        exact iff_of_true rfl hfails

theorem leadTiers_ne_nil : (leadTiers items).1 ≠ [] ↔ ∃ item ∈ items, trim item.headline ≠ "" := by
  unfold leadTiers dominantCap
  dsimp only
  rw [ne_eq, List.take_eq_nil_iff]
  simp [List.filter_eq_nil_iff]

end Items

theorem authoredLead_eq_some {items : List PlainItem} {jobAttempt : Nat} :
    authoredLead unicode ask items jobAttempt = some lead ↔
      (∃ item ∈ items, trim item.headline ≠ "") ∧
      ∃ i < leadSeedRetries,
        (∃ raw, ask (leadSeedBase jobAttempt + i) = some (.ok raw) ∧ lead = trim raw ∧
          Authored unicode (leadSources items) lead) ∧
        ∀ j < i, ∃ raw, ask (leadSeedBase jobAttempt + j) = some (.ok raw) ∧
          ¬ Authored unicode (leadSources items) (trim raw) := by
  have hloop : authoredLead unicode ask items jobAttempt =
      if (leadTiers items).1 = [] then none
      else leadLoop (leadOutcome unicode items) ask leadSeedRetries (leadSeedBase jobAttempt) := rfl
  have hcall : ∀ {attempt : Int} {outcome : LeadOutcome} {P : Option (Except Unit String) → Prop},
      (∀ reply, leadOutcome unicode items reply = outcome ↔ P (some reply)) → ¬ P none →
        ((ask attempt).map (leadOutcome unicode items) = some outcome ↔ P (ask attempt)) := by
    intro attempt outcome P hsome hnone
    cases ask attempt with
    | none => simpa using hnone
    | some reply => simpa using hsome reply
  rw [← leadTiers_ne_nil, hloop]
  split
  · rename_i hnone
    simp [hnone]
  · rename_i hsome
    rw [leadLoop_eq_some, and_iff_right hsome]
    refine exists_congr fun i => and_congr_right fun _ => and_congr ?_ ?_
    · refine hcall (P := fun reply => ∃ raw, reply = some (.ok raw) ∧ lead = trim raw ∧
        Authored unicode (leadSources items) lead) (fun reply => ?_) (by simp)
      rw [leadOutcome_ready]
      simp
    · refine forall₂_congr fun j _ => ?_
      refine hcall (P := fun reply => ∃ raw, reply = some (.ok raw) ∧
        ¬ Authored unicode (leadSources items) (trim raw)) (fun reply => ?_) (by simp)
      rw [leadOutcome_rejected]
      simp

end Runs

/-- A run returns the trimmed draft of its first attempt that passes the gate, if every attempt
before it brought a draft in time and the items have a headline; it returns nothing else. A lead
stops neither view of its digest, and both show it as it is written. -/
theorem authoredLead_iff (unicode : UnicodeTables) (html : HtmlEscape)
    (ask : Int → Option (Except Unit String)) (items : List PlainItem) (jobAttempt : Nat)
    (lead : String) :
    (authoredLead unicode ask items jobAttempt = some lead ↔
      (∃ item ∈ items, trim item.headline ≠ "") ∧
      ∃ i < leadSeedRetries,
        (∃ raw, ask (leadSeedBase jobAttempt + i) = some (.ok raw) ∧ lead = trim raw ∧
          Authored unicode (leadSources items) lead) ∧
        ∀ j < i, ∃ raw, ask (leadSeedBase jobAttempt + j) = some (.ok raw) ∧
          ¬ Authored unicode (leadSources items) (trim raw)) ∧
    (authoredLead unicode ask items jobAttempt = some lead →
      cleanProse unicode lead.toList = some (clean lead.toList) ∧
      escapeProse unicode html lead.toList = some (escape html lead.toList)) := by
  refine ⟨authoredLead_eq_some, fun h => ?_⟩
  obtain ⟨_, i, _, ⟨raw, _, _, hlead⟩, _⟩ := authoredLead_eq_some.mp h
  rw [cleanProse, escapeProse, defang_of_inert hlead.inert]
  exact ⟨rfl, rfl⟩

def relayItem : PlainItem where
  title := "Relay"
  link := none
  source := .rss
  lastEventTime := 0
  connections := []
  headline := "Relay back after 40m"
  summary := ""
  summaryRuns := []
  summaryBand := .confirmed
  synthesized := false
  composed := false
  thread := none
  format := .note
  reason := "Note"

def redrawn : Int → Option (Except Unit String)
  | 0 => some (.ok "Relay back!")
  | 1 => some (.ok "Relay back after 2h")
  | _ => some (.ok " Relay back after 40m ")

theorem authoredLead_iff_redrawn :
    cleanProse asciiTables "Relay back after 40m".toList =
        some (clean "Relay back after 40m".toList) ∧
      escapeProse asciiTables htmlEntities "Relay back after 40m".toList =
        some (escape htmlEntities "Relay back after 40m".toList) :=
  (authoredLead_iff asciiTables htmlEntities redrawn [relayItem] 1 "Relay back after 40m").2
    (by decide +kernel)

/-! ## Another draw -/

def seedStride : UInt32 := 0x9E3779B9

/-- The seed of an attempt; the first keeps the configured one. -/
def forAttempt (seed : UInt32) (attempt : Int) : UInt32 :=
  if attempt ≤ 0 then seed else seed + attempt.toNat.toUInt32 * seedStride

theorem forAttempt_eq {seed : UInt32} {attempt : Int} :
    forAttempt seed attempt = seed + attempt.toNat.toUInt32 * seedStride := by
  unfold forAttempt
  split
  · rename_i hfirst
    rw [Int.toNat_of_nonpos hfirst]
    simp
  · rfl

theorem forAttempt_inj {seed : UInt32} {a b : Int} (ha : 0 ≤ a) (hb : 0 ≤ b) (ha' : a < 2 ^ 32)
    (hb' : b < 2 ^ 32) (h : forAttempt seed a = forAttempt seed b) : a = b := by
  have hinverse : seedStride * 0x144CBC89 = 1 := by decide
  rw [forAttempt_eq, forAttempt_eq, UInt32.add_right_inj] at h
  have hscaled := congrArg (· * (0x144CBC89 : UInt32)) h
  simp only [UInt32.mul_assoc, hinverse, UInt32.mul_one] at hscaled
  have hnat := congrArg UInt32.toNat hscaled
  simp only [Nat.toUInt32, UInt32.toNat_ofNat'] at hnat
  omega

theorem leadSeedBase_eq {jobAttempt : Nat} (h : jobAttempt * 3 ≤ 2 ^ 31) :
    leadSeedBase jobAttempt = ((jobAttempt - 1) * 3 : Nat) := by
  unfold leadSeedBase leadSeedRetries
  have hsmall : (jobAttempt - 1) * 3 < 2 ^ 31 := by omega
  have htoNat : (BitVec.ofNat 32 ((jobAttempt - 1) * 3)).toNat = (jobAttempt - 1) * 3 := by
    rw [BitVec.toNat_ofNat]
    omega
  rw [Nat.min_eq_left (by omega), BitVec.toInt_eq_toNat_cond, htoNat, if_pos (by omega)]

/-- No two attempts share a seed, and neither do two draws of a lead, in one run or in two. -/
theorem draws_apart (seed : UInt32) :
    (∀ a b : Int, 0 ≤ a → 0 ≤ b → a < 2 ^ 31 → b < 2 ^ 31 →
      (forAttempt seed a = forAttempt seed b ↔ a = b)) ∧
    ∀ j j' i i' : Nat, 1 ≤ j → 1 ≤ j' → j * 3 ≤ 2 ^ 31 → j' * 3 ≤ 2 ^ 31 →
      i < leadSeedRetries → i' < leadSeedRetries →
        (forAttempt seed (leadSeedBase j + i) = forAttempt seed (leadSeedBase j' + i') ↔
          j = j' ∧ i = i') := by
  constructor
  · intro a b ha hb ha' hb'
    constructor
    · exact forAttempt_inj ha hb (by omega) (by omega)
    · intro h
      rw [h]
  · intro j j' i i' hj hj' hsmall hsmall' hi hi'
    unfold leadSeedRetries at hi hi'
    rw [leadSeedBase_eq hsmall, leadSeedBase_eq hsmall']
    constructor
    · intro h
      have hattempt := forAttempt_inj (by omega) (by omega) (by omega) (by omega) h
      omega
    · intro h
      rw [h.1, h.2]

/-- The last draw of a run and the first of the next. -/
theorem draws_apart_next : forAttempt 7 (leadSeedBase 1 + 2) ≠ forAttempt 7 (leadSeedBase 2 + 0) := by
  intro h
  have hsame := ((draws_apart 7).2 1 2 2 0 (by decide) (by decide) (by decide) (by decide)
    (by decide) (by decide)).mp h
  exact absurd hsame.1 (by decide)

end Bulletin
