import Bulletin.Core.Text

/-! # Texts as bytes

What a search for ASCII characters sees of a text in UTF-8: each of them is one byte, and the bytes
of all other characters lie above.
-/

namespace Text

def encode (s : List Char) : List UInt8 := s.flatMap String.utf8EncodeChar

def byteChar (b : UInt8) : Char := Char.ofNat b.toNat

/-- A property that only ASCII characters have. -/
def AsciiOnly (p : Char → Bool) : Prop := ∀ c, p c = true → c.toNat < 128

section Encode

variable {p : Char → Bool} {a b s : List Char} {c : Char}

theorem encode_cons : encode (c :: s) = String.utf8EncodeChar c ++ encode s := rfl

theorem encode_append : encode (a ++ b) = encode a ++ encode b := List.flatMap_append

theorem length_encode : (encode s).length = byteLen s := by
  simp [encode, byteLen, List.length_flatMap]

theorem drop_encode : (encode (a ++ b)).drop (byteLen a) = encode b := by
  rw [encode_append, ← length_encode, List.drop_left]

theorem encodeChar_ascii (hc : c.toNat < 128) :
    String.utf8EncodeChar c = [UInt8.ofNat c.toNat] ∧ byteChar (UInt8.ofNat c.toNat) = c := by
  have hval : c.val.toNat ≤ 127 := by
    have hnat : c.toNat = c.val.toNat := rfl
    omega
  refine ⟨?_, ?_⟩
  · unfold String.utf8EncodeChar
    rw [if_pos hval]
    rfl
  · have hbyte : (UInt8.ofNat c.toNat).toNat = c.toNat := by
      rw [UInt8.toNat_ofNat']
      omega
    unfold byteChar
    rw [hbyte, Char.ofNat_toNat]

theorem encodeChar_high (hc : 128 ≤ c.toNat) :
    ∀ x ∈ String.utf8EncodeChar c, 128 ≤ x.toNat := by
  have hval : ¬ c.val.toNat ≤ 127 := by
    have hnat : c.toNat = c.val.toNat := rfl
    omega
  intro x hx
  unfold String.utf8EncodeChar at hx
  rw [if_neg hval] at hx
  split at hx
  · simp only [List.mem_cons, List.not_mem_nil, or_false] at hx
    rcases hx with rfl | rfl <;> rw [UInt8.toNat_ofNat'] <;> omega
  · split at hx
    · simp only [List.mem_cons, List.not_mem_nil, or_false] at hx
      rcases hx with rfl | rfl | rfl <;> rw [UInt8.toNat_ofNat'] <;> omega
    · simp only [List.mem_cons, List.not_mem_nil, or_false] at hx
      rcases hx with rfl | rfl | rfl | rfl <;> rw [UInt8.toNat_ofNat'] <;> omega

/-- A byte of a character is in an ASCII class exactly if the character is. -/
theorem byteChar_encodeChar (hp : AsciiOnly p) {x : UInt8} (hx : x ∈ String.utf8EncodeChar c) :
    p (byteChar x) = p c := by
  by_cases hc : c.toNat < 128
  · obtain ⟨hbytes, hchar⟩ := encodeChar_ascii hc
    rw [hbytes, List.mem_singleton] at hx
    rw [hx, hchar]
  · have hhigh := encodeChar_high (not_lt.mp hc) x hx
    have hnot : p c = false := Bool.eq_false_iff.mpr fun h => hc (hp c h)
    have hbyte : p (byteChar x) = false := by
      refine Bool.eq_false_iff.mpr fun h => ?_
      have hsmall := hp _ h
      have hsize : x.toNat < 256 := x.toNat_lt
      have hnumber : (byteChar x).toNat = x.toNat := by
        unfold byteChar Char.ofNat
        rw [dif_pos (Or.inl (by omega))]
        rfl
      omega
    rw [hnot, hbyte]

theorem byteLen_ascii (h : ∀ c ∈ s, c.toNat < 128) : byteLen s = s.length := by
  induction s with
  | nil => rfl
  | cons c s ih =>
      have hc : (String.utf8EncodeChar c).length = 1 := by
        rw [(encodeChar_ascii (h c List.mem_cons_self)).1]
        rfl
      rw [String.length_utf8EncodeChar] at hc
      have hrest := ih fun x hx => h x (List.mem_cons_of_mem c hx)
      simp only [byteLen, List.map_cons, List.sum_cons, List.length_cons] at hrest ⊢
      omega

theorem takeWhile_encode (hp : AsciiOnly p) :
    ((encode s).takeWhile fun x => p (byteChar x)) = encode (s.takeWhile p) := by
  induction s with
  | nil => rfl
  | cons c s ih =>
      rw [encode_cons]
      by_cases hc : p c = true
      · rw [List.takeWhile_append_of_pos, ih, List.takeWhile_cons_of_pos hc, encode_cons]
        intro x hx
        rw [byteChar_encodeChar hp hx, hc]
      · rw [List.takeWhile_cons_of_neg hc]
        cases hbytes : String.utf8EncodeChar c with
        | nil => exact absurd hbytes String.utf8EncodeChar_ne_nil
        | cons x bytes =>
            have hx : x ∈ String.utf8EncodeChar c := by simp [hbytes]
            rw [List.cons_append, List.takeWhile_cons_of_neg]
            · rfl
            · rw [byteChar_encodeChar hp hx]
              exact hc

theorem length_takeWhile_encode (hp : AsciiOnly p) :
    ((encode s).takeWhile fun x => p (byteChar x)).length = (s.takeWhile p).length := by
  rw [takeWhile_encode hp, length_encode, byteLen_ascii]
  exact fun c hc => hp c (List.mem_takeWhile_imp hc)

theorem getElem?_encode {x : Char} (hx : x.toNat < 128) :
    (encode (a ++ b))[byteLen a]? = some (UInt8.ofNat x.toNat) ↔ b.head? = some x := by
  rw [← List.head?_drop, drop_encode]
  cases b with
  | nil => simp [encode]
  | cons c b =>
      rw [encode_cons, List.head?_append_of_ne_nil _ String.utf8EncodeChar_ne_nil]
      by_cases hc : c.toNat < 128
      · rw [(encodeChar_ascii hc).1, List.head?_cons, List.head?_cons, Option.some_inj,
          Option.some_inj]
        constructor
        · intro h
          rw [← (encodeChar_ascii hc).2, h, (encodeChar_ascii hx).2]
        · rintro rfl
          rfl
      · refine iff_of_false ?_ ?_
        · intro h
          have hhigh := encodeChar_high (not_lt.mp hc) _ (List.mem_of_mem_head? h)
          rw [UInt8.toNat_ofNat'] at hhigh
          omega
        · rintro ⟨rfl⟩
          exact hc hx

/-- The last byte of a text is in an ASCII class exactly if its last character is. -/
theorem getLast?_encode (hp : AsciiOnly p) :
    ((encode s).getLast?.any fun x => p (byteChar x)) = s.getLast?.any p := by
  rcases List.eq_nil_or_concat' s with rfl | ⟨s, c, rfl⟩
  · rfl
  · have hsingle : encode [c] = String.utf8EncodeChar c := List.append_nil _
    rw [encode_append, hsingle, List.getLast?_append_of_ne_nil _ String.utf8EncodeChar_ne_nil,
      List.getLast?_concat]
    cases hlast : (String.utf8EncodeChar c).getLast? with
    | none => exact absurd (List.getLast?_eq_none_iff.mp hlast) String.utf8EncodeChar_ne_nil
    | some x => exact byteChar_encodeChar hp (List.mem_of_getLast? hlast)

end Encode

end Text
