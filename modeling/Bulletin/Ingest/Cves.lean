import Bulletin.Common.Ascii
import Bulletin.Core.Scan
import Bulletin.Ingest.Builder

/-! # Mining CVE ids

The search runs over the bytes of a lower case copy and cuts the ids out of the text itself. It goes
on behind what it matched, where no other id can start, since an id starts with a letter that the
rest of one does not have.
-/

namespace Bulletin

open Text Scan

/-! ## The search on bytes -/

def cveTailBytes (rest : List UInt8) : Option Nat :=
  let isDigit := fun b => (byteChar b).isDigit
  let year := (rest.takeWhile isDigit).length
  if year < 4 ∨ rest[year]? ≠ some 45 then none
  else
    let seq := ((rest.drop (year + 1)).takeWhile isDigit).length
    if seq < 4 then none else some (year + 1 + seq)

def bytesFrom (bytes : List UInt8) (start : Nat) : Option (List UInt8) :=
  if start ≤ bytes.length then some (bytes.drop start) else none

/-- Whether no letter or digit stands before an offset. -/
def precededOk (bytes : List UInt8) (start : Nat) : Option Bool :=
  if start = 0 then some true else bytes[start - 1]?.map fun b => !(byteChar b).isAlphanum

/-- Search from a byte offset; each round takes a character at least. `none` is a panic. -/
def pushCvesLoop (text : List Char) : Nat → Nat → Option (List String)
  | 0, _ => none
  | fuel + 1, searchFrom =>
      let bytes := encode text
      let lower := asciiLower text
      (byteSlice lower searchFrom (byteLen lower)).bind fun rest =>
        match find "cve-".toList rest with
        | none => some []
        | some rel =>
            let start := searchFrom + rel
            (precededOk bytes start).bind fun preceded =>
              (bytesFrom bytes (start + 4)).bind fun tail =>
                match preceded, cveTailBytes tail with
                | true, some stop =>
                    (byteSlice text start (start + 4 + stop)).bind fun id =>
                      (pushCvesLoop text fuel (start + 4 + stop)).map fun more =>
                        ("cve:" ++ String.ofList (asciiUpper id)) :: more
                | _, _ => pushCvesLoop text fuel (start + 4)

def pushCves (text : List Char) : Option (List String) := pushCvesLoop text (text.length + 1) 0

/-! ## Tails -/

section Tails

variable {s : List Char} {n : Nat}

theorem cveTail_eq_some : cveTail s = some n ↔ ∃ year seq rest,
    s = year ++ '-' :: (seq ++ rest) ∧ (∀ c ∈ year, c.isDigit = true) ∧ 4 ≤ year.length ∧
      (∀ c ∈ seq, c.isDigit = true) ∧ 4 ≤ seq.length ∧ rest.head?.any Char.isDigit = false ∧
        n = year.length + 1 + seq.length := by
  have hcut : ∀ {a b : List Char}, (∀ c ∈ a, c.isDigit = true) →
      b.head?.any Char.isDigit = false → (a ++ b).takeWhile Char.isDigit = a := by
    intro a b ha hb
    refine takeWhile_lead ha fun c hc => ?_
    rw [hc] at hb
    exact hb
  constructor
  · intro h
    unfold cveTail at h
    dsimp only at h
    split at h
    · cases h
    · rename_i hyear
      rw [not_or, not_lt, not_not] at hyear
      split at h
      · cases h
      · rename_i hseq
        obtain ⟨hfour, hdash⟩ := hyear
        have hsplit : s.takeWhile Char.isDigit ++ s.dropWhile Char.isDigit = s :=
          List.takeWhile_append_dropWhile
        generalize hy : s.takeWhile Char.isDigit = year at *
        generalize s.dropWhile Char.isDigit = back at hsplit
        subst hsplit
        rw [List.getElem?_append_right (Nat.le_refl _), Nat.sub_self] at hdash
        obtain ⟨x, back, rfl⟩ := List.exists_cons_of_ne_nil (l := back) (by
          rintro rfl
          simp at hdash)
        obtain rfl : x = '-' := by simpa using hdash
        have hdrop : (year ++ '-' :: back).drop (year.length + 1) = back := by simp
        rw [hdrop] at h hseq
        refine ⟨year, back.takeWhile Char.isDigit, back.dropWhile Char.isDigit, ?_, ?_, hfour, ?_,
          not_lt.mp hseq, ?_, (Option.some.inj h).symm⟩
        · rw [List.takeWhile_append_dropWhile]
        · intro c hc
          rw [← hy] at hc
          exact List.mem_takeWhile_imp hc
        · exact fun c hc => List.mem_takeWhile_imp hc
        · cases hrest : back.dropWhile Char.isDigit with
          | nil => rfl
          | cons c rest => exact head_dropWhile hrest
  · rintro ⟨year, seq, rest, rfl, hyear, hfour, hseq, hlong, hrest, rfl⟩
    have hfirst : (year ++ '-' :: (seq ++ rest)).takeWhile Char.isDigit = year := hcut hyear rfl
    have hsecond : (seq ++ rest).takeWhile Char.isDigit = seq := hcut hseq hrest
    have hdrop : (year ++ '-' :: (seq ++ rest)).drop (year.length + 1) = seq ++ rest := by simp
    unfold cveTail
    dsimp only
    rw [hfirst, hdrop, hsecond, if_neg, if_neg (by omega)]
    rw [not_or, not_not]
    exact ⟨by omega, by simp⟩

theorem exists_cveTail (h : cveTail s = some n) : ∃ id rest, s = id ++ rest ∧ id.length = n ∧
    ∀ c ∈ id, c.toNat < 128 := by
  obtain ⟨year, seq, rest, rfl, hyear, _, hseq, _, _, rfl⟩ := cveTail_eq_some.mp h
  refine ⟨year ++ '-' :: seq, rest, by simp, ?_, ?_⟩
  · simp only [List.length_append, List.length_cons]
    omega
  · intro c hc
    simp only [List.mem_append, List.mem_cons] at hc
    rcases hc with hc | rfl | hc
    · exact isDigit_asciiOnly c (hyear c hc)
    · decide
    · exact isDigit_asciiOnly c (hseq c hc)

theorem cveTailBytes_encode : cveTailBytes (encode s) = cveTail s := by
  have hlength : ∀ s : List Char, ((encode s).takeWhile fun b => (byteChar b).isDigit).length =
      (s.takeWhile Char.isDigit).length := fun s => length_takeWhile_encode isDigit_asciiOnly
  have hsplit : s.takeWhile Char.isDigit ++ s.dropWhile Char.isDigit = s :=
    List.takeWhile_append_dropWhile
  have hbytes : byteLen (s.takeWhile Char.isDigit) = (s.takeWhile Char.isDigit).length :=
    byteLen_ascii fun c hc => isDigit_asciiOnly c (List.mem_takeWhile_imp hc)
  unfold cveTailBytes cveTail
  dsimp only
  rw [hlength]
  generalize s.takeWhile Char.isDigit = year at hsplit hbytes
  generalize s.dropWhile Char.isDigit = back at hsplit
  subst hsplit
  have hdash : (encode (year ++ back))[year.length]? = some 45 ↔ back.head? = some '-' := by
    rw [← hbytes]
    exact getElem?_encode (x := '-') (by decide)
  have hchar : (year ++ back)[year.length]? = back.head? := by
    rw [List.getElem?_append_right (Nat.le_refl _), Nat.sub_self, List.head?_eq_getElem?]
  simp only [ne_eq, hdash, hchar]
  by_cases hyear : year.length < 4 ∨ ¬ back.head? = some '-'
  · rw [if_pos hyear, if_pos hyear]
  · rw [if_neg hyear, if_neg hyear]
    rw [not_or, not_not] at hyear
    obtain ⟨rest, rfl⟩ : ∃ rest, back = '-' :: rest := by
      cases back with
      | nil => simp at hyear
      | cons x rest => exact ⟨rest, by simpa using hyear.2⟩
    have hrest : (encode (year ++ '-' :: rest)).drop (year.length + 1) = encode rest := by
      have hfront : byteLen (year ++ ['-']) = year.length + 1 := by
        rw [byteLen_append, hbytes]
        rfl
      have hjoin : year ++ '-' :: rest = (year ++ ['-']) ++ rest := by simp
      rw [hjoin, ← hfront, drop_encode]
    have hdrop : (year ++ '-' :: rest).drop (year.length + 1) = rest := by simp
    rw [hrest, hdrop, hlength]

end Tails

/-! ## Every position -/

section Positions

variable {prev : Option Char} {s text : List Char} {token : String} {skip : Nat}

/-- The id that starts a text with `prev` before it. -/
def cveAt (prev : Option Char) (s : List Char) : Option String :=
  if "cve-".toList.isPrefixOf (asciiLower s) && !prev.any Char.isAlphanum then
    (cveTail (s.drop 4)).map fun tail => "cve:" ++ String.ofList (asciiUpper (s.take (4 + tail)))
  else none

/-- A marker that no ASCII letter or digit precedes, two numbers of four digits or more with a dash
between them, and no digit behind. -/
def IsCve (prev : Option Char) (s : List Char) (token : String) : Prop :=
  ∃ marker year seq rest, s = marker ++ (year ++ '-' :: (seq ++ rest)) ∧
    asciiLower marker = "cve-".toList ∧ prev.any Char.isAlphanum = false ∧
      (∀ c ∈ year, c.isDigit = true) ∧ 4 ≤ year.length ∧ (∀ c ∈ seq, c.isDigit = true) ∧
        4 ≤ seq.length ∧ rest.head?.any Char.isDigit = false ∧
          token = "cve:CVE-" ++ String.ofList (year ++ '-' :: seq)

def cveProbe (prev : Option Char) (s : List Char) : Option String × Nat :=
  if "cve-".toList.isPrefixOf (asciiLower s) then
    match prev.any Char.isAlphanum, cveTail (s.drop 4) with
    | false, some tail =>
        (some ("cve:" ++ String.ofList (asciiUpper (s.take (4 + tail)))), 3 + tail)
    | _, _ => (none, 3)
  else (none, 0)

theorem cveEntities_eq : cveEntities prev skip s = scan cveProbe skip prev s := by
  induction s generalizing skip prev with
  | nil => cases skip <;> rfl
  | cons c s ih =>
      cases skip with
      | succ skip => exact ih
      | zero =>
          rw [cveEntities, scan, cveProbe]
          split
          · cases prev.any Char.isAlphanum with
            | true => exact ih
            | false =>
                cases cveTail ((c :: s).drop 4) with
                | none => exact ih
                | some tail => exact congrArg (List.cons _) ih
          · exact ih

theorem cveProbe_fst : (cveProbe prev s).1 = cveAt prev s := by
  unfold cveProbe cveAt
  cases "cve-".toList.isPrefixOf (asciiLower s) with
  | false => rfl
  | true =>
      cases prev.any Char.isAlphanum with
      | true => rfl
      | false => cases cveTail (s.drop 4) <;> rfl

theorem marker_iff : "cve-".toList.isPrefixOf (asciiLower s) = true ↔
    ∃ marker rest, s = marker ++ rest ∧ asciiLower marker = "cve-".toList := by
  rw [List.isPrefixOf_iff_prefix]
  constructor
  · rintro ⟨rest, hrest⟩
    obtain ⟨a, b, rfl, ha, _⟩ := List.map_eq_append_iff.mp hrest.symm
    exact ⟨a, b, rfl, ha⟩
  · rintro ⟨marker, rest, rfl, hmarker⟩
    exact ⟨asciiLower rest, by rw [← hmarker, asciiLower_append]⟩

theorem length_marker {marker : List Char} (h : asciiLower marker = "cve-".toList) :
    marker.length = 4 := by
  simpa [asciiLower] using congrArg List.length h

theorem asciiUpper_id {marker year seq rest : List Char}
    (hmarker : asciiLower marker = "cve-".toList)
    (hyear : ∀ c ∈ year, c.isDigit = true) (hseq : ∀ c ∈ seq, c.isDigit = true) :
    "cve:" ++ String.ofList (asciiUpper ((marker ++ (year ++ '-' :: (seq ++ rest))).take
      (4 + (year.length + 1 + seq.length)))) =
        "cve:CVE-" ++ String.ofList (year ++ '-' :: seq) := by
  have hjoin : marker ++ (year ++ '-' :: (seq ++ rest)) =
      marker ++ (year ++ '-' :: seq) ++ rest := by
    simp
  have hlength : (marker ++ (year ++ '-' :: seq)).length = 4 + (year.length + 1 + seq.length) := by
    simp only [List.length_append, List.length_cons, length_marker hmarker]
    omega
  have hupper : asciiUpper marker = "CVE-".toList := by
    rw [← asciiUpper_asciiLower, hmarker]
    decide +kernel
  have htail : asciiUpper (year ++ '-' :: seq) = year ++ '-' :: seq := by
    have hdash : asciiUpper ('-' :: seq) = '-' :: seq :=
      congrArg (List.cons '-') (asciiUpper_digits hseq)
    rw [asciiUpper_append, asciiUpper_digits hyear, hdash]
  rw [hjoin, ← hlength, List.take_left, asciiUpper_append, hupper, htail, String.ofList_append,
    String.ofList_toList, ← String.append_assoc]
  rfl

theorem cveAt_eq_some : cveAt prev s = some token ↔ IsCve prev s token := by
  unfold cveAt
  constructor
  · intro h
    split at h
    · rename_i hhere
      rw [Bool.and_eq_true, Bool.not_eq_true'] at hhere
      obtain ⟨marker, back, rfl, hmarker⟩ := marker_iff.mp hhere.1
      have hfour := length_marker hmarker
      obtain ⟨tail, htail, rfl⟩ := Option.map_eq_some_iff.mp h
      rw [← hfour, List.drop_left] at htail
      obtain ⟨year, seq, rest, rfl, hyear, hlong, hseq, hlast, hrest, rfl⟩ :=
        cveTail_eq_some.mp htail
      exact ⟨marker, year, seq, rest, rfl, hmarker, hhere.2, hyear, hlong, hseq, hlast, hrest,
        asciiUpper_id hmarker hyear hseq⟩
    · cases h
  · rintro ⟨marker, year, seq, rest, rfl, hmarker, hprev, hyear, hlong, hseq, hlast, hrest, rfl⟩
    have hhere := marker_iff.mpr ⟨marker, year ++ '-' :: (seq ++ rest), rfl, hmarker⟩
    have htail := cveTail_eq_some.mpr ⟨year, seq, rest, rfl, hyear, hlong, hseq, hlast, hrest, rfl⟩
    have hdrop : (marker ++ (year ++ '-' :: (seq ++ rest))).drop 4 =
        year ++ '-' :: (seq ++ rest) := by
      rw [← length_marker hmarker, List.drop_left]
    rw [hhere, hprev, hdrop, htail]
    exact congrArg some (asciiUpper_id hmarker hyear hseq)

theorem IsCve.ne_nil (h : IsCve prev s token) : s ≠ [] := by
  obtain ⟨marker, year, seq, rest, rfl, _⟩ := h
  simp

theorem IsCve.head {c : Char} (h : IsCve prev (c :: s) token) : c.toLower = 'c' := by
  obtain ⟨marker, year, seq, rest, heq, hmarker, _⟩ := h
  cases marker with
  | nil => simp [asciiLower] at hmarker
  | cons x marker =>
      obtain ⟨rfl, _⟩ := List.cons.inj heq
      have hhead := congrArg List.head? hmarker
      simpa [asciiLower] using hhead

theorem cveProbe_skip {c : Char} : ∃ front back, s = front ++ back ∧
    (cveProbe prev (c :: s)).2 ≤ front.length ∧ ∀ x ∈ front, x.toLower ≠ 'c' := by
  unfold cveProbe
  split
  · rename_i hhere
    obtain ⟨marker, back, heq, hmarker⟩ := marker_iff.mp hhere
    cases marker with
    | nil => simp [asciiLower] at hmarker
    | cons x marker =>
        obtain ⟨rfl, hs⟩ := List.cons.inj heq
        obtain rfl : s = marker ++ back := hs
        have hfour := length_marker hmarker
        have hrest : asciiLower marker = ['v', 'e', '-'] := by
          have htail := congrArg List.tail hmarker
          simpa [asciiLower] using htail
        have hmark : ∀ y ∈ marker, y.toLower ≠ 'c' := by
          intro y hy
          have hin : y.toLower ∈ ['v', 'e', '-'] := by
            rw [← hrest]
            exact List.mem_map_of_mem hy
          intro hc
          rw [hc] at hin
          simp at hin
        rw [List.length_cons] at hfour
        split
        · rename_i tail _ htail
          have hdrop : (c :: (marker ++ back)).drop 4 = back := by
            rw [← hfour, List.drop_succ_cons, List.drop_left]
          rw [hdrop] at htail
          obtain ⟨year, seq, rest, rfl, hyear, _, hseq, _, _, rfl⟩ := cveTail_eq_some.mp htail
          have hdigits : ∀ y : Char, y.isDigit = true → y.toLower ≠ 'c' := by
            intro y hy hc
            have hdigit := (toLower_spec y).2.1
            rw [hc, hy] at hdigit
            cases hdigit
          refine ⟨marker ++ (year ++ '-' :: seq), rest, by simp, ?_, ?_⟩
          · simp only [List.length_append, List.length_cons]
            omega
          · intro y hy
            simp only [List.mem_append, List.mem_cons] at hy
            rcases hy with hy | hy | rfl | hy
            · exact hmark y hy
            · exact hdigits y (hyear y hy)
            · decide
            · exact hdigits y (hseq y hy)
        · exact ⟨marker, back, rfl, by dsimp only; omega, hmark⟩
  · exact ⟨[], s, rfl, Nat.le_refl 0, by simp⟩

theorem cveProbe_passesNothing : PassesNothing cveProbe := by
  intro prev c s a d t hs hshort
  refine Option.eq_none_iff_forall_ne_some.mpr fun token hfound => ?_
  have hlater : IsCve (a.getLast?.or (some c)) (d :: t) token :=
    cveAt_eq_some.mp (cveProbe_fst.symm.trans hfound)
  obtain ⟨front, back, rfl, hskip, hfront⟩ := @cveProbe_skip prev s c
  have hinside : d ∈ front := by
    have hat : (front ++ back)[a.length]? = some d := by
      rw [hs, List.getElem?_append_right (Nat.le_refl _), Nat.sub_self]
      rfl
    rw [List.getElem?_append_left (by omega)] at hat
    exact List.mem_of_getElem? hat
  exact hfront d hinside hlater.head

theorem cveEntities_eq_everyHit : cveEntities prev 0 s = everyHit cveAt prev s := by
  have hhit : (fun prev s => (cveProbe prev s).1) = cveAt := by
    funext prev s
    exact cveProbe_fst
  rw [cveEntities_eq, scan_eq_everyHit cveProbe_passesNothing quiet_zero, hhit]

theorem cveTail_asciiLower : cveTail (asciiLower s) = cveTail s := by
  have hdigits : ∀ s : List Char, ((asciiLower s).takeWhile Char.isDigit).length =
      (s.takeWhile Char.isDigit).length := by
    intro s
    have hlower : Char.isDigit ∘ Char.toLower = Char.isDigit := by
      funext c
      exact (toLower_spec c).2.1
    unfold asciiLower
    rw [List.takeWhile_map, List.length_map, hlower]
  have hdash : ∀ n : Nat, (asciiLower s)[n]? = some '-' ↔ s[n]? = some '-' := by
    intro n
    unfold asciiLower
    rw [List.getElem?_map]
    cases s[n]? with
    | none => simp
    | some c =>
        rw [Option.map_some, Option.some_inj, Option.some_inj]
        refine ⟨fun h => eq_of_toLower h (by decide), ?_⟩
        rintro rfl
        decide
  have hdrop : ∀ n : Nat, (asciiLower s).drop n = asciiLower (s.drop n) := by
    intro n
    exact List.map_drop.symm
  unfold cveTail
  simp only [ne_eq, hdigits, hdash, hdrop]

theorem cveAt_asciiLower : cveAt (prev.map Char.toLower) (asciiLower s) = cveAt prev s := by
  have hprev : (prev.map Char.toLower).any Char.isAlphanum = prev.any Char.isAlphanum := by
    cases prev with
    | none => rfl
    | some c => exact (toLower_spec c).1
  have hdrop : (asciiLower s).drop 4 = asciiLower (s.drop 4) := List.map_drop.symm
  have htake : ∀ n : Nat, asciiUpper ((asciiLower s).take n) = asciiUpper (s.take n) := by
    intro n
    unfold asciiLower
    rw [← List.map_take]
    exact asciiUpper_asciiLower
  unfold cveAt
  rw [asciiLower_asciiLower, hprev, hdrop, cveTail_asciiLower]
  simp only [htake]

theorem everyHit_cveAt_asciiLower :
    everyHit cveAt (prev.map Char.toLower) (asciiLower s) = everyHit cveAt prev s := by
  induction s generalizing prev with
  | nil => rfl
  | cons c s ih =>
      have hhere := @cveAt_asciiLower prev (c :: s)
      have hrest := @ih (some c)
      unfold everyHit
      exact congrArg₂ (fun a b => Option.toList a ++ b) hhere hrest

end Positions

/-! ## The bytes and the positions -/

section Loop

variable {prev : Option Char} {a s x y text : List Char} {token : String} {fuel : Nat}

theorem precededOk_encode : precededOk (encode (a ++ s)) (byteLen a) =
    some (!a.getLast?.any Char.isAlphanum) := by
  unfold precededOk
  rcases List.eq_nil_or_concat' a with rfl | ⟨front, c, rfl⟩
  · rfl
  · have hne : byteLen (front ++ [c]) ≠ 0 := by
      have hpos := byteLen_pos (s := front ++ [c]) (by simp)
      omega
    have hlast : (encode (front ++ [c] ++ s))[byteLen (front ++ [c]) - 1]? =
        (encode (front ++ [c])).getLast? := by
      rw [encode_append, List.getElem?_append_left, List.getLast?_eq_getElem?, length_encode]
      rw [length_encode]
      omega
    have hclass := @getLast?_encode Char.isAlphanum (front ++ [c]) isAlphanum_asciiOnly
    rw [if_neg hne, hlast]
    cases hbytes : (encode (front ++ [c])).getLast? with
    | none =>
        rw [List.getLast?_eq_none_iff, ← List.length_eq_zero_iff, length_encode] at hbytes
        exact absurd hbytes hne
    | some b =>
        rw [hbytes, Option.any_some] at hclass
        rw [Option.map_some, hclass]

theorem bytesFrom_encode : bytesFrom (encode (a ++ s)) (byteLen a) = some (encode s) := by
  unfold bytesFrom
  rw [if_pos, drop_encode]
  rw [length_encode, byteLen_append]
  omega

theorem scan_cve_quiet (h : ∀ u t, asciiLower x = u ++ t → t ≠ [] →
    ¬ "cve-".toList <+: t ++ asciiLower y) :
    scan cveProbe 0 prev (x ++ y) = scan cveProbe 0 (x.getLast?.or prev) y := by
  refine scan_quiet fun u t hx hne prev => ?_
  unfold cveProbe
  rw [if_neg]
  rw [List.isPrefixOf_iff_prefix, asciiLower_append]
  refine h (asciiLower u) (asciiLower t) ?_ ?_
  · rw [hx, asciiLower_append]
  · simpa [asciiLower] using hne

theorem scan_marker_miss {marker : List Char} (hmarker : asciiLower marker = "cve-".toList)
    (h : prev.any Char.isAlphanum = true ∨ cveTail y = none) :
    scan cveProbe 0 prev (marker ++ y) = scan cveProbe 0 marker.getLast? y := by
  have hfour := length_marker hmarker
  have hprobe : cveProbe prev (marker ++ y) = (none, 3) := by
    unfold cveProbe
    rw [if_pos (marker_iff.mpr ⟨marker, y, rfl, hmarker⟩), ← hfour, List.drop_left]
    rcases h with hprev | htail
    · rw [hprev]
    · rw [htail]
      cases prev.any Char.isAlphanum <;> rfl
  cases marker with
  | nil => simp at hfour
  | cons c marker =>
      rw [List.length_cons] at hfour
      obtain hthree : marker.length = 3 := by omega
      rw [List.cons_append] at hprobe ⊢
      rw [scan, hprobe, ← hthree]
      dsimp only
      rw [scan_pass, ← @getLast?_cons_or _ none, Option.or_none]
      rfl

theorem scan_marker_hit {marker id : List Char} (hmarker : asciiLower marker = "cve-".toList)
    (hprev : prev.any Char.isAlphanum = false) (htail : cveTail (id ++ y) = some id.length) :
    scan cveProbe 0 prev (marker ++ (id ++ y)) =
      ("cve:" ++ String.ofList (asciiUpper (marker ++ id))) ::
        scan cveProbe 0 (marker ++ id).getLast? y := by
  have hfour := length_marker hmarker
  have htake : (marker ++ (id ++ y)).take (4 + id.length) = marker ++ id := by
    rw [← hfour, ← List.append_assoc, ← List.length_append, List.take_left]
  have hprobe : cveProbe prev (marker ++ (id ++ y)) =
      (some ("cve:" ++ String.ofList (asciiUpper (marker ++ id))), 3 + id.length) := by
    have hdrop : (marker ++ (id ++ y)).drop 4 = id ++ y := by rw [← hfour, List.drop_left]
    unfold cveProbe
    rw [if_pos (marker_iff.mpr ⟨marker, id ++ y, rfl, hmarker⟩), hdrop, hprev, htail, ← htake]
  cases marker with
  | nil => simp at hfour
  | cons c marker =>
      rw [List.length_cons] at hfour
      have hlength : (marker ++ id).length = 3 + id.length := by
        rw [List.length_append]
        omega
      rw [List.cons_append] at hprobe
      rw [List.cons_append, scan, hprobe, ← hlength, ← List.append_assoc]
      dsimp only
      rw [scan_pass, ← @getLast?_cons_or _ none, Option.or_none]
      rfl

/-- Every slice is on a boundary, and the search of bytes finds what the search of characters
finds. -/
theorem pushCvesLoop_eq (hfuel : s.length < fuel) :
    pushCvesLoop (a ++ s) fuel (byteLen a) = some (cveEntities a.getLast? 0 s) := by
  rw [cveEntities_eq]
  induction fuel generalizing a s with
  | zero => omega
  | succ fuel ih =>
      have hrest : byteSlice (asciiLower (a ++ s)) (byteLen a) (byteLen (asciiLower (a ++ s))) =
          some (asciiLower s) := by
        have hmid := @byteSlice_mid (asciiLower a) (asciiLower s) []
        rwa [List.append_nil, ← byteLen_append, ← asciiLower_append, byteLen_asciiLower] at hmid
      unfold pushCvesLoop
      dsimp only
      rw [hrest, Option.bind_some]
      cases hfind : find "cve-".toList (asciiLower s) with
      | none =>
          have hmissing := find_eq_none hfind
          have hquiet : scan cveProbe 0 a.getLast? (s ++ []) =
              scan cveProbe 0 (s.getLast?.or a.getLast?) [] := by
            refine scan_cve_quiet fun u t hs _ => ?_
            rw [show asciiLower [] = [] from rfl, List.append_nil]
            exact hmissing u t hs
          rw [List.append_nil] at hquiet
          rw [hquiet]
          rfl
      | some rel =>
          obtain ⟨x', y', hcut, hpos, hfirst⟩ := find_eq_some hfind
          obtain ⟨x, back, rfl, rfl, hback⟩ := List.map_eq_append_iff.mp hcut
          obtain ⟨marker, y, rfl, hmarker, rfl⟩ := List.map_eq_append_iff.mp hback
          have hfour : byteLen marker = 4 := by
            have hlen := @byteLen_asciiLower marker
            rw [show asciiLower marker = "cve-".toList from hmarker] at hlen
            rw [← hlen]
            decide +kernel
          obtain rfl : byteLen x = rel := by
            rw [← hpos]
            exact byteLen_asciiLower.symm
          have hjoin : a ++ (x ++ (marker ++ y)) = (a ++ x) ++ (marker ++ y) := by simp
          have hquiet : scan cveProbe 0 a.getLast? (x ++ (marker ++ y)) =
              scan cveProbe 0 (a ++ x).getLast? (marker ++ y) := by
            rw [List.getLast?_append]
            refine scan_cve_quiet fun u t hx hne => ?_
            rw [asciiLower_append, show asciiLower marker = "cve-".toList from hmarker]
            exact hfirst u t hx hne
          have hbytes : bytesFrom (encode (a ++ x ++ (marker ++ y))) (byteLen (a ++ x) + 4) =
              some (encode y) := by
            have hfrom := @bytesFrom_encode (a ++ x ++ marker) y
            rwa [byteLen_append (b := marker), hfour, List.append_assoc (a ++ x)] at hfrom
          have hmore := @ih (a ++ x ++ marker) y (by
            have hlen := length_marker hmarker
            rw [List.length_append, List.length_append] at hfuel
            omega)
          have hlast : (a ++ x ++ marker).getLast? = marker.getLast? := by
            refine List.getLast?_append_of_ne_nil _ fun hnil => ?_
            simp [hnil] at hfour
          rw [byteLen_append (b := marker), hfour, List.append_assoc (a ++ x), hlast] at hmore
          dsimp only
          rw [hquiet, hjoin, ← byteLen_append, precededOk_encode, Option.bind_some, hbytes,
            Option.bind_some, cveTailBytes_encode]
          cases hprev : (a ++ x).getLast?.any Char.isAlphanum with
          | true =>
              rw [scan_marker_miss hmarker (Or.inl hprev)]
              exact hmore
          | false =>
              cases htail : cveTail y with
              | none =>
                  rw [scan_marker_miss hmarker (Or.inr htail)]
                  exact hmore
              | some stop =>
                  obtain ⟨id, rest, rfl, rfl, hascii⟩ := exists_cveTail htail
                  have hstop : byteLen (marker ++ id) = 4 + id.length := by
                    rw [byteLen_append, hfour, byteLen_ascii hascii]
                  have hid : byteSlice (a ++ x ++ (marker ++ (id ++ rest))) (byteLen (a ++ x))
                      (byteLen (a ++ x) + 4 + id.length) = some (marker ++ id) := by
                    have hmid := @byteSlice_mid (a ++ x) (marker ++ id) rest
                    rwa [hstop, ← Nat.add_assoc, List.append_assoc (a ++ x),
                      List.append_assoc marker] at hmid
                  have hrest := @ih (a ++ x ++ (marker ++ id)) rest (by
                    have hlen := length_marker hmarker
                    rw [List.length_append, List.length_append, List.length_append] at hfuel
                    omega)
                  have hend : (a ++ x ++ (marker ++ id)).getLast? = (marker ++ id).getLast? := by
                    refine List.getLast?_append_of_ne_nil _ fun hnil => ?_
                    simp [(List.append_eq_nil_iff.mp hnil).1] at hfour
                  rw [byteLen_append (b := marker ++ id), hstop, ← Nat.add_assoc,
                    List.append_assoc (a ++ x), List.append_assoc marker, hend] at hrest
                  rw [scan_marker_hit hmarker hprev htail]
                  simp only [Bool.not_false, hid, Option.bind_some, hrest, Option.map_some]

theorem pushCves_eq : pushCves text = some (cveEntities none 0 text) :=
  pushCvesLoop_eq (a := []) (Nat.lt_succ_self _)

/-- The search does not panic. It adds the id of each position that has one and nothing else, and
the case of letters does not matter to it. -/
theorem push_cves_exact : pushCves text = some (everyHit cveAt none text) ∧
    (∀ prev s token, cveAt prev s = some token ↔ IsCve prev s token) ∧
      (∀ token, (∃ found, pushCves text = some found ∧ token ∈ found) ↔
        ∃ before rest, text = before ++ rest ∧ IsCve before.getLast? rest token) ∧
      ∀ other, asciiLower other = asciiLower text → pushCves other = pushCves text := by
  have hall : ∀ text, pushCves text = some (everyHit cveAt none text) := fun text => by
    rw [pushCves_eq, cveEntities_eq_everyHit]
  refine ⟨hall text, fun _ _ _ => cveAt_eq_some, fun token => ?_, fun other hcase => ?_⟩
  · rw [hall text]
    simp only [Option.some_inj, exists_eq_left', mem_everyHit, Option.or_none, cveAt_eq_some]
    constructor
    · rintro ⟨before, c, rest, heq, hcve⟩
      exact ⟨before, c :: rest, heq, hcve⟩
    · rintro ⟨before, rest, heq, hcve⟩
      obtain ⟨c, rest, rfl⟩ := List.exists_cons_of_ne_nil hcve.ne_nil
      exact ⟨before, c, rest, heq, hcve⟩
  · have hlower : ∀ text, pushCves text = some (everyHit cveAt none (asciiLower text)) :=
      fun text => by
        have hsame := @everyHit_cveAt_asciiLower none text
        rw [Option.map_none] at hsame
        rw [hall, hsame]
    rw [hlower, hlower, hcase]

end Loop

example : pushCves "xCVE-2026-1234, cve-1-cVe-2026-12345é".toList =
    some ["cve:CVE-2026-12345"] := by decide +kernel

end Bulletin
