import Bulletin.Common.Text
import Bulletin.Core.Utf8

/-! # ASCII letters in either case

Changing the case of ASCII letters keeps the bytes of a text apart from those letters.
-/

namespace Bulletin

open Text

section Ascii

variable {c : Char} {s a b : List Char}

theorem forall_ascii {p : Char → Prop} (h : ∀ n < 128, p (Char.ofNat n)) (hc : c.toNat < 128) :
    p c := by
  have hchar := h c.toNat hc
  rwa [Char.ofNat_toNat] at hchar

theorem toLower_high (hc : 128 ≤ c.toNat) : c.toLower = c := by
  refine toLower_of_not_upper ?_
  intro hbounds
  have hle : c.val.toNat ≤ 90 := hbounds.2
  unfold Char.toNat at hc
  omega

theorem eq_of_toLower {x : Char} (h : c.toLower = x) (hx : x.toNat < 97) : c = x := by
  by_cases hupper : c.val ≥ 'A'.val ∧ c.val ≤ 'Z'.val
  · have hle : c.val.toNat ≤ 90 := hupper.2
    have hge : 65 ≤ c.val.toNat := hupper.1
    have hshift : ('a'.val - 'A'.val).toNat = 32 := rfl
    rw [← h] at hx
    simp only [Char.toNat, toLower_val_of_upper hupper, UInt32.toNat_add] at hx
    omega
  · exact (toLower_of_not_upper hupper).symm.trans h

theorem toLower_spec (c : Char) : c.toLower.isAlphanum = c.isAlphanum ∧
    c.toLower.isDigit = c.isDigit ∧ c.toLower.toUpper = c.toUpper ∧
      c.toLower.utf8Size = c.utf8Size ∧ c.toLower.toLower = c.toLower := by
  by_cases hc : c.toNat < 128
  · refine forall_ascii (p := fun c => c.toLower.isAlphanum = c.isAlphanum ∧
      c.toLower.isDigit = c.isDigit ∧ c.toLower.toUpper = c.toUpper ∧
        c.toLower.utf8Size = c.utf8Size ∧ c.toLower.toLower = c.toLower) ?_ hc
    decide +kernel
  · simp [toLower_high (not_lt.mp hc)]

theorem asciiLower_append : asciiLower (a ++ b) = asciiLower a ++ asciiLower b := List.map_append

@[simp] theorem byteLen_asciiLower : byteLen (asciiLower s) = byteLen s := by
  unfold byteLen asciiLower
  rw [List.map_map]
  exact congrArg List.sum (List.map_congr_left fun c _ => (toLower_spec c).2.2.2.1)

theorem asciiLower_asciiLower : asciiLower (asciiLower s) = asciiLower s := by
  unfold asciiLower
  rw [List.map_map]
  exact List.map_congr_left fun c _ => (toLower_spec c).2.2.2.2

theorem asciiUpper_asciiLower : asciiUpper (asciiLower s) = asciiUpper s := by
  unfold asciiUpper asciiLower
  rw [List.map_map]
  exact List.map_congr_left fun c _ => (toLower_spec c).2.2.1

theorem isAlphanum_asciiOnly : AsciiOnly Char.isAlphanum := fun c hc => by
  have hrange := toNat_of_isAlphanum hc
  omega

theorem isDigit_asciiOnly : AsciiOnly Char.isDigit := fun c hc =>
  isAlphanum_asciiOnly c (by simp [Char.isAlphanum, hc])

theorem asciiUpper_append : asciiUpper (a ++ b) = asciiUpper a ++ asciiUpper b := List.map_append

theorem asciiUpper_digits (h : ∀ c ∈ s, c.isDigit = true) : asciiUpper s = s := by
  have hdigit : ∀ c : Char, c.isDigit = true → c.toUpper = c := by
    intro c hc
    have hcheck : ∀ n < 128, (Char.ofNat n).isDigit = true →
        (Char.ofNat n).toUpper = Char.ofNat n := by decide +kernel
    exact forall_ascii (p := fun c => c.isDigit = true → c.toUpper = c) hcheck
      (isDigit_asciiOnly c hc) hc
  unfold asciiUpper
  conv_rhs => rw [← List.map_id s]
  exact List.map_congr_left fun c hc => hdigit c (h c hc)

end Ascii

end Bulletin
