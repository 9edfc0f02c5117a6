import Bulletin.Summarize.Gate

/-! # Numbers at the budget

The facts hold every number of the events whole, so a number the gate lets through without an event
that states it is what the budget leaves of a longer one.
-/

namespace Bulletin

open Text

/-! ## Accepted summaries -/

section Accepted

variable {unicode : UnicodeTables} {summary : ClusterSummary} {facts : Facts}
  {source output grounding t w : List Char} {events : List Event} {c : Char}

theorem faithful_eq_ok : faithful unicode summary facts source = .ok () ↔
    (summary.headline.length ≤ headlineMax ∧ summary.tldrText.length ≤ tldrMax) ∧
      summary.tldr.findSome? (ungroundedEntity facts) = none ∧
      firstUngroundedNumber unicode summary.output (groundingText facts source) = none ∧
      bannedWordIn unicode summary.output = none ∧
      firstLinkableToken unicode summary.output = none := by
  unfold faithful
  split
  · rename_i hlong
    simp only [reduceCtorEq, false_iff]
    omega
  · rename_i hshort
    have hfits : summary.headline.length ≤ headlineMax ∧ summary.tldrText.length ≤ tldrMax := by
      omega
    cases summary.tldr.findSome? (ungroundedEntity facts) with
    | some entity => simp
    | none =>
        cases firstUngroundedNumber unicode summary.output (groundingText facts source) with
        | some tok => simp
        | none =>
            cases bannedWordIn unicode summary.output with
            | some word => simp
            | none =>
                cases firstLinkableToken unicode summary.output with
                | some tok => simp
                | none => simp [hfits]

/-! Numeric characters are ASCII and no letters. -/

theorem numericChar_spec (h : isNumericChar c = true) :
    c.toNat < 128 ∧ c.toLower = c ∧ c.isAlpha = false := by
  have hmarks : ∀ x ∈ "%.,:-/+".toList, x.toNat < 128 ∧ x.toLower = x ∧ x.isAlpha = false := by
    simp
  have hcases : c.isDigit = true ∨ c ∈ "%.,:-/+".toList := by
    simpa only [isNumericChar, Bool.or_eq_true, List.contains_iff_mem] using h
  rcases hcases with hdigit | hmark
  · have hrange : 48 ≤ c.val.toNat ∧ c.val.toNat ≤ 57 := by
      simpa [Char.isDigit, UInt32.le_iff_toNat_le] using hdigit
    have hlower : c.toLower = c := by
      refine toLower_of_not_upper ?_
      intro hupper
      have hlow : 65 ≤ c.val.toNat := hupper.1
      omega
    have hletter : c.isAlpha = false := by
      show (decide (c.val ≥ 'A'.val ∧ c.val ≤ 'Z'.val) ||
        (decide (c.val ≥ 'a'.val) && decide (c.val ≤ 'z'.val))) = false
      simp only [Bool.or_eq_false_iff, Bool.and_eq_false_iff, decide_eq_false_iff_not,
        UInt32.le_iff_toNat_le, ge_iff_le]
      have hupper : 'A'.val.toNat = 65 := rfl
      have hsmall : 'a'.val.toNat = 97 := rfl
      omega
    refine ⟨?_, hlower, hletter⟩
    unfold Char.toNat
    omega
  · exact hmarks c hmark

theorem asciiLower_numeric (h : ∀ c ∈ t, isNumericChar c = true) : asciiLower t = t := by
  unfold asciiLower
  conv_rhs => rw [← List.map_id t]
  exact List.map_congr_left fun c hc => (numericChar_spec (h c hc)).2.1

theorem toLowercase_token (h : t ∈ tokenizeNumeric w) : unicode.toLowercase t = t := by
  obtain ⟨_, _, _, hchars⟩ := mem_tokenizeNumeric h
  rw [unicode.ascii_lower t fun c hc => (numericChar_spec (hchars c hc)).1]
  exact asciiLower_numeric hchars

theorem firstUngroundedNumber_eq_none : firstUngroundedNumber unicode output grounding = none ↔
    ∀ t ∈ tokenizeNumeric output, t ∈ tokenizeNumeric grounding := by
  have hlower : (tokenizeNumeric grounding).map unicode.toLowercase =
      tokenizeNumeric grounding := by
    conv_rhs => rw [← List.map_id (tokenizeNumeric grounding)]
    exact List.map_congr_left fun t ht => toLowercase_token ht
  unfold firstUngroundedNumber
  rw [hlower, List.find?_eq_none]
  refine forall₂_congr fun t ht => ?_
  rw [toLowercase_token ht]
  simp

/-! An output that is a number and nothing else. -/

theorem containsWordFrom_eq_false {needle s : List Char} {lead : Char} {skip : Nat}
    {prev : Option Char} (h : lead ∉ s) :
    containsWordFrom unicode (lead :: needle) skip prev s = false := by
  induction s generalizing skip prev with
  | nil => cases skip <;> rfl
  | cons c s ih =>
      rw [List.mem_cons, not_or] at h
      cases skip with
      | zero =>
          have hlead : (lead == c) = false := by simpa using h.1
          simp [containsWordFrom, List.isPrefixOf, hlead, ih h.2]
      | succ skip => exact ih h.2

theorem bannedWordIn_numeric (h : ∀ c ∈ output, isNumericChar c = true ∨ c = ' ') :
    bannedWordIn unicode output = none := by
  have hspec : ∀ c ∈ output, c.toNat < 128 ∧ c.toLower = c ∧ c.isAlpha = false := by
    intro c hc
    rcases h c hc with hnumeric | rfl
    · exact numericChar_spec hnumeric
    · decide
  have hlower : unicode.toLowercase output = output := by
    rw [unicode.ascii_lower output fun c hc => (hspec c hc).1]
    unfold asciiLower
    conv_rhs => rw [← List.map_id output]
    exact List.map_congr_left fun c hc => (hspec c hc).2.1
  have hfirst : ∀ word ∈ bannedWords, word.head?.any Char.isAlpha = true := by decide +kernel
  have hnone : bannedWords.find? (containsWord unicode output) = none := by
    rw [List.find?_eq_none]
    intro word hword
    obtain ⟨lead, rest, rfl⟩ : ∃ lead rest, word = lead :: rest := by
      cases word with
      | nil => cases hfirst [] hword
      | cons lead rest => exact ⟨lead, rest, rfl⟩
    have hletter : lead.isAlpha = true := hfirst _ hword
    have hout : lead ∉ output := fun hin => by simp [(hspec lead hin).2.2] at hletter
    simp [containsWord, containsWordFrom_eq_false hout]
  have hmark : output.contains '!' = false := by
    rw [Bool.eq_false_iff]
    intro hin
    rcases h '!' (by simpa using hin) with hnumeric | hspace
    · exact absurd hnumeric (by decide)
    · exact absurd hspace (by decide)
  unfold bannedWordIn
  rw [hlower, hnone, hmark]
  rfl

theorem startsWith_numeric {lead : Char} {rest : List Char} (h : ∀ c ∈ t, isNumericChar c = true)
    (hlead : lead.isAlpha = true) : startsWithIgnoreCase (lead :: rest) t = false := by
  by_contra hstarts
  have hlower : asciiLower (t.take (lead :: rest).length) = lead :: rest :=
    eq_of_beq (by simpa [startsWithIgnoreCase] using hstarts)
  have hnumeric : ∀ c ∈ t.take (lead :: rest).length, isNumericChar c = true :=
    fun c hc => h c (List.mem_of_mem_take hc)
  rw [asciiLower_numeric hnumeric] at hlower
  have hin := hnumeric lead (by rw [hlower]; exact List.mem_cons_self)
  simp [(numericChar_spec hin).2.2] at hlead

theorem looksLikeHost_numeric (h : ∀ c ∈ t, isNumericChar c = true) : looksLikeHost t = false := by
  by_contra hhost
  simp only [looksLikeHost, Bool.not_eq_false, Bool.and_eq_true, decide_eq_true_eq] at hhost
  obtain ⟨⟨_, hbytes⟩, hletters⟩ := hhost
  cases hlast : ((hostOf t).splitOnP (· == '.')).getLast? with
  | none =>
      rw [hlast] at hbytes
      exact absurd hbytes (by decide)
  | some last =>
      rw [hlast, Option.getD_some] at hbytes hletters
      have hne : last ≠ [] := by
        intro hnil
        rw [hnil] at hbytes
        exact absurd hbytes (by decide)
      have hword : last ∈ words (· == '.') (hostOf t) :=
        List.mem_filter.mpr ⟨List.mem_of_getLast? hlast, by simpa using hne⟩
      obtain ⟨c, rest, rfl⟩ := List.exists_cons_of_ne_nil hne
      have hin := ((mem_words hword).2 c List.mem_cons_self).2
      have hnumeric := h c ((hostOf_within t).subset hin)
      have hletter := List.all_eq_true.mp hletters c List.mem_cons_self
      simp [(numericChar_spec hnumeric).2.2] at hletter

/-- A numeric text is clickable only through the marker of a scheme. -/
theorem isLinkableToken_numeric (h : ∀ c ∈ t, isNumericChar c = true) :
    isLinkableToken t = occursIn "://".toList t := by
  have hwww : startsWithIgnoreCase "www.".toList t = false := startsWith_numeric h (by decide)
  have hmail : startsWithIgnoreCase "mailto:".toList t = false := startsWith_numeric h (by decide)
  unfold isLinkableToken
  rw [hwww, hmail, looksLikeHost_numeric h, Bool.or_false, Bool.or_false, Bool.or_false]

theorem isClickable_of_within (ht : ∀ c ∈ t, isNumericChar c = true)
    (hclick : isClickable unicode t = true) (hin : t <:+: w) : isClickable unicode w = true := by
  obtain ⟨lead, core, trail, rfl, hlead, htrail, hne, hcore, _⟩ := exists_clickable_core hclick
  have hmark : "://".toList <:+: core := by
    rw [isClickable, coreToken_cut hlead htrail hne hcore, Bool.and_eq_true] at hclick
    rw [← occursIn_iff, ← isLinkableToken_numeric fun c hc => ht c (by simp [hc])]
    exact hclick.2
  have hwithin : core <:+: coreToken unicode w :=
    infix_trimMatches hne hcore (List.IsInfix.trans ⟨lead, trail, rfl⟩ hin)
  have hlink : isLinkableToken (coreToken unicode w) = true := by
    unfold isLinkableToken
    rw [occursIn_iff.mpr (hmark.trans hwithin)]
    rfl
  have hkept : coreToken unicode w ≠ [] := by
    intro hnil
    rw [hnil] at hwithin
    exact hne (List.infix_nil.mp hwithin)
  unfold isClickable
  simp [hkept, hlink]

theorem exists_word_of_token (ht : t ∈ tokenizeNumeric output) :
    ∃ w ∈ splitWhitespace output, t <:+: w := by
  have hbreaks : ∀ c, isWhitespace c = true → isNumericBreak c = true :=
    fun _ => isNumericBreak_of_isWhitespace
  rw [tokenizeNumeric_eq] at ht
  obtain ⟨run, hrun, rfl⟩ := List.mem_map.mp ht
  obtain ⟨hword, hdigit⟩ := List.mem_filter.mp hrun
  rw [words_refine hbreaks, List.mem_flatMap] at hword
  obtain ⟨w, hw, hin⟩ := hword
  obtain ⟨lead, token, trail, rfl, _, _, htrim, _⟩ := exists_token hdigit
  rw [htrim]
  exact ⟨w, hw, List.IsInfix.trans ⟨lead, trail, rfl⟩ (words_within hin)⟩

theorem not_isClickable_of_accepted (h : firstLinkableToken unicode output = none)
    (ht : t ∈ tokenizeNumeric output) : isClickable unicode t = false := by
  obtain ⟨w, hw, hin⟩ := exists_word_of_token ht
  obtain ⟨_, _, _, hchars⟩ := mem_tokenizeNumeric ht
  rw [Bool.eq_false_iff]
  intro hclick
  have hfree := firstLinkableToken_eq_none.mp h w hw
  rw [isClickable_of_within hchars hclick hin] at hfree
  cases hfree

end Accepted

/-! ## Numbers no event states -/

section Ungrounded

variable {unicode : UnicodeTables} {summary : ClusterSummary} {events : List Event}
  {maxChars : Nat} {t : List Char}

def ClusterSummary.numerics (summary : ClusterSummary) : List (List Char) :=
  tokenizeNumeric summary.headline.toList ++ tokenizeNumeric summary.tldrText.toList

theorem numerics_eq : summary.numerics = tokenizeNumeric summary.output :=
  tokenizeNumeric_space.symm

/-- An accepted summary has no other number than those of the events and what the budget leaves of
one it cuts. -/
theorem mem_numerics_of_accepted
    (h : faithful unicode summary (extractFacts events) (sourceCorpus events maxChars) = .ok ())
    (ht : t ∈ summary.numerics) :
    Stated events t ∨ cutToken (corpusText events) maxChars = some t := by
  obtain ⟨_, _, hnumbers, _, _⟩ := faithful_eq_ok.mp h
  rw [numerics_eq] at ht
  have hgrounded := firstUngroundedNumber_eq_none.mp hnumbers t ht
  rcases mem_groundingText.mp hgrounded with hstated | hsource
  · exact Or.inl hstated
  · exact mem_sourceCorpus hsource

/-- A number within the budget of a text that is no link can be all of an accepted summary. -/
theorem accepted_of_token {source : List Char} {facts : Facts}
    (ht : t ∈ tokenizeNumeric (groundingText facts source)) (hshort : t.length ≤ tldrMax)
    (hclick : isClickable unicode t = false) :
    faithful unicode { tldrText := String.ofList t } facts source = .ok () := by
  obtain ⟨hne, _, _, hchars⟩ := mem_tokenizeNumeric ht
  have houtput : ClusterSummary.output { tldrText := String.ofList t } = ' ' :: t := by
    simp [ClusterSummary.output]
  have htokens : tokenizeNumeric (' ' :: t) = [t] := by
    have hspace : tokenizeNumeric ([] ++ ' ' :: t) = tokenizeNumeric [] ++ tokenizeNumeric t :=
      tokenizeNumeric_space
    rwa [tokenizeNumeric_token ht] at hspace
  have hwords : splitWhitespace (' ' :: t) = [t] := by
    have hspace : words isWhitespace ([' '] ++ t) = words isWhitespace t :=
      words_space (by simp [isWhitespace])
    have hfree : ∀ c ∈ t, isWhitespace c = false := by
      intro c hc
      by_contra hspace
      have hbreak := isNumericBreak_of_isWhitespace (by simpa using hspace : isWhitespace c = true)
      simp [isNumericBreak, hchars c hc] at hbreak
    rw [splitWhitespace_eq]
    refine hspace.trans ?_
    rw [words_whole hfree, if_neg hne]
  refine faithful_eq_ok.mpr ⟨⟨by simp, by simpa using hshort⟩, rfl, ?_, ?_, ?_⟩
  · rw [houtput, firstUngroundedNumber_eq_none, htokens]
    simpa using ht
  · rw [houtput]
    refine bannedWordIn_numeric ?_
    intro c hc
    rcases List.mem_cons.mp hc with rfl | hin
    · exact Or.inr rfl
    · exact Or.inl (hchars c hin)
  · rw [houtput, firstLinkableToken_eq_none, hwords]
    simpa using hclick

theorem length_of_mem_numerics (hheadline : summary.headline.length ≤ headlineMax)
    (htldr : summary.tldrText.length ≤ tldrMax) (ht : t ∈ summary.numerics) :
    t.length ≤ tldrMax := by
  have hwithin : ∀ s : String, t ∈ tokenizeNumeric s.toList → t.length ≤ s.length := by
    intro s hs
    rw [tokenizeNumeric_eq] at hs
    obtain ⟨run, hrun, rfl⟩ := List.mem_map.mp hs
    obtain ⟨hword, hdigit⟩ := List.mem_filter.mp hrun
    obtain ⟨lead, token, trail, rfl, _, _, htrim, _⟩ := exists_token hdigit
    rw [htrim]
    exact (List.IsInfix.trans ⟨lead, trail, rfl⟩ (words_within hword)).length_le
  rcases List.mem_append.mp ht with hin | hin
  · have hroom := hwithin _ hin
    unfold headlineMax at hheadline
    unfold tldrMax
    omega
  · exact (hwithin _ hin).trans htldr

/-- The gate grounds every number unless the budget cuts one to a number that no event states, short
enough for a summary and no link. -/
theorem numbers_grounded_iff : (∀ summary : ClusterSummary,
    faithful unicode summary (extractFacts events) (sourceCorpus events maxChars) = .ok () →
      ∀ t ∈ summary.numerics, Stated events t) ↔
    ∀ t, cutToken (corpusText events) maxChars = some t →
      Stated events t ∨ tldrMax < t.length ∨ isClickable unicode t = true := by
  constructor
  · intro h t ht
    by_cases hlong : tldrMax < t.length
    · exact Or.inr (Or.inl hlong)
    · by_cases hclick : isClickable unicode t = true
      · exact Or.inr (Or.inr hclick)
      · -- the number alone makes a summary the gate accepts
        have hin : t ∈ tokenizeNumeric (groundingText (extractFacts events)
            (sourceCorpus events maxChars)) := by
          rw [mem_groundingText, sourceCorpus_eq]
          exact Or.inr (mem_of_cutToken ht)
        have haccepted := @accepted_of_token unicode t (sourceCorpus events maxChars)
          (extractFacts events) hin (not_lt.mp hlong) (by simpa using hclick)
        refine Or.inl (h _ haccepted t ?_)
        simp [ClusterSummary.numerics, tokenizeNumeric_token hin]
  · intro h summary haccepted t ht
    rcases mem_numerics_of_accepted haccepted ht with hstated | hcut
    · exact hstated
    · obtain ⟨⟨hheadline, htldr⟩, _, _, _, hlinks⟩ := faithful_eq_ok.mp haccepted
      rcases h t hcut with hstated | hlong | hclick
      · exact hstated
      · have hroom := length_of_mem_numerics hheadline htldr ht
        omega
      · rw [numerics_eq] at ht
        rw [not_isClickable_of_accepted hlinks ht] at hclick
        cases hclick

end Ungrounded

def lossEvent : Event :=
  { fingerprint := [], key := ⟨.ofPublic, .rss, "loss"⟩, eventTime := 0, title := "Loss of 4000",
    id := 1, ingestTime := 1 }

/-- A budget of ten characters cuts the number to one that the gate then lets through. -/
theorem cut_number_accepted :
    faithful asciiTables { headline := "Loss of 40" } (extractFacts [lossEvent])
        (sourceCorpus [lossEvent] 10) = .ok () ∧
      "40".toList ∈ ({ headline := "Loss of 40" } : ClusterSummary).numerics ∧
      ¬ Stated [lossEvent] "40".toList := by
  have haccepted : faithful asciiTables { headline := "Loss of 40" } (extractFacts [lossEvent])
      (sourceCorpus [lossEvent] 10) = .ok () := by decide +kernel
  have hnumerics : lossEvent.numerics = ["4000".toList] := by decide +kernel
  refine ⟨haccepted, by decide +kernel, ?_⟩
  intro hstated
  obtain ⟨e, he, htok⟩ := hstated
  rw [List.mem_singleton.mp he, hnumerics] at htok
  simp at htok

end Bulletin
