import Bulletin.Core.Framing
import Bulletin.Core.Scan
import Bulletin.Core.Utf8

/-! # Searches for ASCII in UTF-8

A search that compares bytes without regard to case finds the first occurrence of an ASCII needle
among the characters, at a boundary between them.
-/

namespace Text

open Framing

def lowerByte (b : UInt8) : UInt8 := if 65 ≤ b ∧ b ≤ 90 then b + 32 else b

def eqIgnoreAsciiCase (x y : List UInt8) : Bool := x.map lowerByte == y.map lowerByte

/-- The first offset at which the needle stands; `none` is a slice out of range. -/
def findAsciiCi (haystack needle : List UInt8) : Option (Option Nat) :=
  if needle.isEmpty || haystack.length < needle.length then some none
  else
    (List.range (haystack.length - needle.length + 1)).findM? fun i => do
      let window ← slice haystack i (i + needle.length)
      return eqIgnoreAsciiCase window needle

/-! ## Searching bytes -/

def findBytes (pat : List UInt8) : List UInt8 → Option Nat
  | [] => if pat = [] then some 0 else none
  | b :: bytes => if pat.isPrefixOf (b :: bytes) then some 0 else (findBytes pat bytes).map (· + 1)

section Bytes

variable {pat bytes needle haystack : List UInt8}

theorem findM?_eq_find? {α : Type} {f : α → Option Bool} {g : α → Bool} {l : List α}
    (h : ∀ a ∈ l, f a = some (g a)) : l.findM? f = some (l.find? g) := by
  induction l with
  | nil => rfl
  | cons a l ih =>
      have hrest := ih fun b hb => h b (List.mem_cons_of_mem a hb)
      rw [List.findM?, h a List.mem_cons_self, hrest, List.find?_cons]
      cases g a <;> rfl

theorem findBytes_short (h : bytes.length < pat.length) : findBytes pat bytes = none := by
  induction bytes with
  | nil =>
      have hne : pat ≠ [] := List.ne_nil_of_length_pos (Nat.lt_of_le_of_lt (Nat.zero_le _) h)
      simp [findBytes, hne]
  | cons b bytes ih =>
      have hpre : ¬ pat.isPrefixOf (b :: bytes) = true := by
        intro hprefix
        have hle := (List.isPrefixOf_iff_prefix.mp hprefix).length_le
        omega
      rw [findBytes, if_neg hpre, ih (by simp at h; omega), Option.map_none]

theorem find?_range_eq (hne : pat ≠ []) :
    (List.range (bytes.length - pat.length + 1)).find?
      (fun i => (bytes.drop i).take pat.length == pat) = findBytes pat bytes := by
  induction bytes with
  | nil => simp [findBytes, hne]
  | cons b bytes ih =>
      have hhere : (((b :: bytes).drop 0).take pat.length == pat) =
          pat.isPrefixOf (b :: bytes) := by
        rw [Bool.eq_iff_iff, beq_iff_eq, List.isPrefixOf_iff_prefix, List.drop_zero,
          List.prefix_iff_eq_take]
        exact eq_comm
      rw [List.range_succ_eq_map, List.find?_cons, hhere, findBytes]
      by_cases hpre : pat.isPrefixOf (b :: bytes) = true
      · rw [hpre, if_pos rfl]
      · rw [if_neg hpre, Bool.eq_false_iff.mpr hpre, List.find?_map]
        dsimp only
        by_cases hshort : bytes.length < pat.length
        · -- no later offset has room
          have hzero : (b :: bytes).length - pat.length = 0 := by
            rw [List.length_cons]
            omega
          rw [hzero, findBytes_short hshort]
          rfl
        · have hlength : (b :: bytes).length - pat.length = bytes.length - pat.length + 1 := by
            rw [List.length_cons]
            omega
          rw [hlength, ← ih]
          rfl

theorem findAsciiCi_eq (hne : needle ≠ []) :
    findAsciiCi haystack needle =
      some (findBytes (needle.map lowerByte) (haystack.map lowerByte)) := by
  unfold findAsciiCi
  have hempty : needle.isEmpty = false := List.isEmpty_eq_false_iff.mpr hne
  by_cases hshort : haystack.length < needle.length
  · rw [findBytes_short (by rw [List.length_map, List.length_map]; exact hshort)]
    simp [hshort]
  · have hprobe : ∀ i ∈ List.range (haystack.length - needle.length + 1),
        (do
          let window ← slice haystack i (i + needle.length)
          return eqIgnoreAsciiCase window needle) =
        some (((haystack.map lowerByte).drop i).take (needle.map lowerByte).length ==
          needle.map lowerByte) := by
      intro i hi
      have hroom : i + needle.length ≤ haystack.length := by
        have hlt := List.mem_range.mp hi
        omega
      rw [slice_of_le hroom, List.length_map, ← List.map_drop, ← List.map_take]
      rfl
    have hmapped : needle.map lowerByte ≠ [] := by simpa using hne
    rw [hempty, Bool.false_or, decide_eq_false hshort, if_neg Bool.false_ne_true,
      findM?_eq_find? hprobe, ← find?_range_eq hmapped, List.length_map, List.length_map]

end Bytes

/-! ## Searching characters -/

def StartsCi (needle s : List Char) : Prop := needle.map Char.toLower <+: s.map Char.toLower

/-- The first occurrence of the needle, in some case, is at the start of `rest`. -/
structure FirstAt (needle s front rest : List Char) : Prop where
  split : s = front ++ rest
  starts : StartsCi needle rest
  first : ∀ a t, front = a ++ t → t ≠ [] → ¬ StartsCi needle (t ++ rest)

section Chars

variable {pat needle s front rest : List Char} {c : Char}

theorem StartsCi.exists_append (h : StartsCi needle s) :
    ∃ t rest, s = t ++ rest ∧ t.map Char.toLower = needle.map Char.toLower := by
  obtain ⟨y, hy⟩ := h
  obtain ⟨t, rest, rfl, ht, -⟩ := List.map_eq_append_iff.mp hy.symm
  exact ⟨t, rest, rfl, ht⟩

theorem ascii_toLower (hc : c.toNat < 128) :
    String.utf8EncodeChar c.toLower = (String.utf8EncodeChar c).map lowerByte := by
  have hall : ∀ n : Fin 128, String.utf8EncodeChar (Char.ofNat n).toLower =
      (String.utf8EncodeChar (Char.ofNat n)).map lowerByte := by decide +kernel
  have hchar := hall ⟨c.toNat, hc⟩
  rwa [Char.ofNat_toNat] at hchar

theorem high_toLower (hc : 128 ≤ c.toNat) :
    String.utf8EncodeChar c.toLower = (String.utf8EncodeChar c).map lowerByte := by
  have hbytes : (String.utf8EncodeChar c).map lowerByte = String.utf8EncodeChar c := by
    refine (List.map_congr_left fun x hx => ?_).trans (List.map_id _)
    have hhigh := encodeChar_high hc x hx
    have hnot : ¬ (65 ≤ x ∧ x ≤ 90) := by
      rintro ⟨-, hle⟩
      have hnat : x.toNat ≤ 90 := UInt8.le_iff_toNat_le.mp hle
      omega
    rw [lowerByte, if_neg hnot]
    rfl
  have hchar : c.toLower = c := by
    refine dif_neg ?_
    rintro ⟨-, hle⟩
    have hnat : c.val.toNat ≤ 'Z'.val.toNat := UInt32.le_iff_toNat_le.mp hle
    have hz : 'Z'.val.toNat = 90 := rfl
    have hc' : c.toNat = c.val.toNat := rfl
    omega
  rw [hchar, hbytes]

theorem encode_toLower : (encode s).map lowerByte = encode (s.map Char.toLower) := by
  induction s with
  | nil => rfl
  | cons c s ih =>
      have hc : (String.utf8EncodeChar c).map lowerByte = String.utf8EncodeChar c.toLower := by
        by_cases hascii : c.toNat < 128
        · exact (ascii_toLower hascii).symm
        · exact (high_toLower (not_lt.mp hascii)).symm
      rw [encode_cons, List.map_append, ih, hc, List.map_cons, encode_cons]

theorem byteLen_toLower : byteLen (s.map Char.toLower) = byteLen s := by
  rw [← length_encode, ← encode_toLower, List.length_map, length_encode]

theorem isPrefixOf_encode (hpat : ∀ c ∈ pat, c.toNat < 128) :
    (encode pat).isPrefixOf (encode s) = pat.isPrefixOf s := by
  induction pat generalizing s with
  | nil => simp [encode]
  | cons p pat ih =>
      have hp := hpat p List.mem_cons_self
      have hrest := fun c hc => hpat c (List.mem_cons_of_mem p hc)
      rw [encode_cons, (encodeChar_ascii hp).1, List.singleton_append]
      cases s with
      | nil => rfl
      | cons c s =>
          by_cases hc : c.toNat < 128
          · have hsame : (UInt8.ofNat p.toNat == UInt8.ofNat c.toNat) = (p == c) := by
              rw [Bool.eq_iff_iff, beq_iff_eq, beq_iff_eq]
              constructor
              · intro h
                rw [← (encodeChar_ascii hp).2, h, (encodeChar_ascii hc).2]
              · rintro rfl
                rfl
            rw [encode_cons, (encodeChar_ascii hc).1, List.singleton_append,
              List.isPrefixOf_cons_cons, List.isPrefixOf_cons_cons, ih hrest, hsame]
          · have hne : (p == c) = false := by
              refine beq_eq_false_iff_ne.mpr ?_
              rintro rfl
              exact hc hp
            rw [List.isPrefixOf_cons_cons, hne, Bool.false_and, encode_cons]
            cases hbytes : String.utf8EncodeChar c with
            | nil => exact absurd hbytes String.utf8EncodeChar_ne_nil
            | cons x bytes =>
                have hx := encodeChar_high (not_lt.mp hc) x (hbytes ▸ List.mem_cons_self)
                have hfirst : (UInt8.ofNat p.toNat == x) = false := by
                  refine beq_eq_false_iff_ne.mpr ?_
                  rintro rfl
                  rw [UInt8.toNat_ofNat'] at hx
                  omega
                rw [List.cons_append, List.isPrefixOf_cons_cons, hfirst, Bool.false_and]

theorem findBytes_high {x : List UInt8} {bytes : List UInt8} (hx : ∀ b ∈ x, 128 ≤ b.toNat)
    (hpat : ∀ c ∈ pat, c.toNat < 128) (hne : pat ≠ []) :
    findBytes (encode pat) (x ++ bytes) = (findBytes (encode pat) bytes).map (x.length + ·) := by
  obtain ⟨p, pat, rfl⟩ := List.exists_cons_of_ne_nil hne
  have hp := hpat p List.mem_cons_self
  induction x with
  | nil => simp
  | cons b x ih =>
      have hb := hx b List.mem_cons_self
      have hpre : ¬ (encode (p :: pat)).isPrefixOf (b :: (x ++ bytes)) = true := by
        rw [encode_cons, (encodeChar_ascii hp).1, List.singleton_append, List.isPrefixOf_cons_cons,
          Bool.and_eq_true, beq_iff_eq]
        rintro ⟨rfl, -⟩
        rw [UInt8.toNat_ofNat'] at hb
        omega
      rw [List.cons_append, findBytes, if_neg hpre, ih fun y hy => hx y (List.mem_cons_of_mem b hy),
        Option.map_map]
      congr 1
      funext n
      simp only [Function.comp_apply, List.length_cons]
      omega

theorem findBytes_encode (hpat : ∀ c ∈ pat, c.toNat < 128) (hne : pat ≠ []) :
    findBytes (encode pat) (encode s) = find pat s := by
  induction s with
  | nil =>
      have hbytes : encode pat ≠ [] := by
        intro h
        have hlength := congrArg List.length h
        rw [length_encode, List.length_nil] at hlength
        exact absurd hlength (Nat.pos_iff_ne_zero.mp (byteLen_pos hne))
      rw [find, if_neg hne]
      exact if_neg hbytes
  | cons c s ih =>
      by_cases hc : c.toNat < 128
      · have hone : c.utf8Size = 1 := by
          rw [← String.length_utf8EncodeChar, (encodeChar_ascii hc).1]
          rfl
        have hpre := isPrefixOf_encode (s := c :: s) hpat
        rw [encode_cons, (encodeChar_ascii hc).1, List.singleton_append] at hpre ⊢
        rw [findBytes, hpre, ih, find, hone]
        congr 2
        funext n
        exact Nat.add_comm n 1
      · have hpre : ¬ pat.isPrefixOf (c :: s) = true := by
          obtain ⟨p, pat, rfl⟩ := List.exists_cons_of_ne_nil hne
          rw [List.isPrefixOf_cons_cons, Bool.and_eq_true, beq_iff_eq]
          rintro ⟨rfl, -⟩
          exact hc (hpat p List.mem_cons_self)
        rw [encode_cons, findBytes_high (encodeChar_high (not_lt.mp hc)) hpat hne, ih, find,
          if_neg hpre, String.length_utf8EncodeChar]

def findCi (needle s : List Char) : Option Nat :=
  find (needle.map Char.toLower) (s.map Char.toLower)

theorem toLower_ascii (hc : c.toNat < 128) : c.toLower.toNat < 128 := by
  have hall : ∀ n : Fin 128, (Char.ofNat n).toLower.toNat < 128 := by decide +kernel
  have hchar := hall ⟨c.toNat, hc⟩
  rwa [Char.ofNat_toNat] at hchar

/-- The search over the bytes of a text slices in range and finds the first occurrence. -/
theorem findAsciiCi_encode (hneedle : ∀ c ∈ needle, c.toNat < 128) (hne : needle ≠ []) :
    findAsciiCi (encode s) (encode needle) = some (findCi needle s) := by
  have hbytes : encode needle ≠ [] := by
    intro h
    have hlength := congrArg List.length h
    rw [length_encode, List.length_nil] at hlength
    exact absurd hlength (Nat.pos_iff_ne_zero.mp (byteLen_pos hne))
  have hlower : ∀ c ∈ needle.map Char.toLower, c.toNat < 128 := by
    intro c hc
    obtain ⟨d, hd, rfl⟩ := List.mem_map.mp hc
    exact toLower_ascii (hneedle d hd)
  rw [findAsciiCi_eq hbytes, encode_toLower, encode_toLower,
    findBytes_encode hlower (by simpa using hne), findCi]

theorem FirstAt.le {u t : List Char} (h : FirstAt needle s front rest) (hs : s = u ++ t)
    (hstarts : StartsCi needle t) : ∃ v, u = front ++ v ∧ rest = v ++ t := by
  rcases List.append_eq_append_iff.mp (h.split.symm.trans hs) with ⟨v, hu, hrest⟩ | ⟨v, hfront, ht⟩
  · exact ⟨v, hu, hrest⟩
  · by_cases hnil : v = []
    · subst hnil
      exact ⟨[], by rw [hfront, List.append_nil, List.append_nil], ht.symm⟩
    · exact absurd (ht ▸ hstarts) (h.first u v hfront hnil)

theorem FirstAt.unique {front' rest' : List Char} (h : FirstAt needle s front rest)
    (h' : FirstAt needle s front' rest') : front = front' ∧ rest = rest' := by
  obtain ⟨v, hv, -⟩ := h.le h'.split h'.starts
  obtain ⟨w, hw, -⟩ := h'.le h.split h.starts
  have hnil : v ++ w = [] := by
    rw [hv, List.append_assoc] at hw
    exact List.append_right_eq_self.mp hw.symm
  have hfront : front = front' := by rw [hv, (List.append_eq_nil_iff.mp hnil).1, List.append_nil]
  subst hfront
  exact ⟨rfl, List.append_cancel_left (h.split.symm.trans h'.split)⟩

theorem findCi_eq_none : findCi needle s = none ↔ ∀ a t, s = a ++ t → ¬ StartsCi needle t := by
  constructor
  · rintro h a t rfl hstarts
    exact find_eq_none h (a.map Char.toLower) (t.map Char.toLower) List.map_append hstarts
  · intro h
    cases hfound : findCi needle s with
    | none => rfl
    | some n =>
        obtain ⟨x, y, hs, -, -⟩ := find_eq_some hfound
        obtain ⟨front, rest, rfl, -, hrest⟩ := List.map_eq_append_iff.mp hs
        exact absurd ⟨y, hrest.symm⟩ (h front rest rfl)

theorem findCi_eq_some {n : Nat} :
    findCi needle s = some n ↔ ∃ front rest, FirstAt needle s front rest ∧ byteLen front = n := by
  have hspec : ∀ {n}, findCi needle s = some n →
      ∃ front rest, FirstAt needle s front rest ∧ byteLen front = n := by
    intro n h
    obtain ⟨x, y, hs, hlength, hfirst⟩ := find_eq_some h
    obtain ⟨front, rest, rfl, rfl, hrest⟩ := List.map_eq_append_iff.mp hs
    refine ⟨front, rest, ⟨rfl, ⟨y, hrest.symm⟩, ?_⟩, by rw [← byteLen_toLower, hlength]⟩
    rintro a t rfl hne hstarts
    refine hfirst (a.map Char.toLower) (t.map Char.toLower) List.map_append (by simpa using hne) ?_
    rwa [← hrest, ← List.map_append]
  refine ⟨hspec, ?_⟩
  rintro ⟨front, rest, h, rfl⟩
  cases hfound : findCi needle s with
  | none => exact absurd h.starts (findCi_eq_none.mp hfound front rest h.split)
  | some m =>
      obtain ⟨front', rest', h', rfl⟩ := hspec hfound
      rw [(h.unique h').1]

end Chars

/-! ## Boundaries -/

section Boundaries

variable {a b a' b' s : List Char} {c : Char}

theorem append_inj_byteLen (h : a ++ b = a' ++ b') (hlength : byteLen a = byteLen a') :
    a = a' ∧ b = b' := by
  have hsplit := @splitAtByte_byteLen a b
  rw [h, hlength, splitAtByte_byteLen] at hsplit
  obtain ⟨ha, hb⟩ := Prod.mk.inj (Option.some.inj hsplit)
  exact ⟨ha.symm, hb.symm⟩

theorem byteSlice_suffix : byteSlice (a ++ b) (byteLen a) (byteLen (a ++ b)) = some b := by
  have hmid := @byteSlice_mid a b []
  rwa [List.append_nil, ← byteLen_append] at hmid

theorem find_singleton_eq_none (h : find [c] s = none) : c ∉ s := by
  intro hc
  obtain ⟨x, y, rfl⟩ := List.append_of_mem hc
  exact find_eq_none h x (c :: y) rfl ⟨y, rfl⟩

theorem find_singleton_eq_some {n : Nat} (h : find [c] s = some n) :
    ∃ x y, s = x ++ c :: y ∧ c ∉ x ∧ byteLen x = n := by
  obtain ⟨x, y, hs, hlength, hfirst⟩ := find_eq_some h
  refine ⟨x, y, hs, fun hc => ?_, hlength⟩
  obtain ⟨u, v, rfl⟩ := List.append_of_mem hc
  exact hfirst u (c :: v) rfl (List.cons_ne_nil c v) ⟨v ++ c :: y, by simp⟩

end Boundaries

end Text
