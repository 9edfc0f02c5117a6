import Bulletin.Core.Utf8

/-! # Bytes as text

Bytes in hexadecimal digits, and bytes read as UTF-8 with a replacement for what is none. A decoder
of UTF-8 holds at most one character that is not complete; a byte that does not go on with it starts
anew.
-/

namespace Octets

/-! ## Hexadecimal digits -/

def digitValue (c : Char) : Option Nat :=
  if '0' ≤ c ∧ c ≤ '9' then some (c.toNat - 48)
  else if 'a' ≤ c ∧ c ≤ 'f' then some (c.toNat - 87)
  else if 'A' ≤ c ∧ c ≤ 'F' then some (c.toNat - 55)
  else none

def hexDecode : List Char → Option (List UInt8)
  | [] => some []
  | [_] => none
  | high :: low :: rest =>
      match digitValue high, digitValue low with
      | some h, some l => (hexDecode rest).map (UInt8.ofNat (16 * h + l) :: ·)
      | _, _ => none

def digit (n : Nat) : Char := if n < 10 then Char.ofNat (48 + n) else Char.ofNat (87 + n)

def hexEncode (bytes : List UInt8) : List Char :=
  bytes.flatMap fun b => [digit (b.toNat / 16), digit (b.toNat % 16)]

theorem digitValue_digit : ∀ n < 16, digitValue (digit n) = some n := by decide

theorem hexDecode_hexEncode (bytes : List UInt8) : hexDecode (hexEncode bytes) = some bytes := by
  induction bytes with
  | nil => rfl
  | cons b bytes ih =>
      have hbyte := b.toNat_lt
      have hsplit : 16 * (b.toNat / 16) + b.toNat % 16 = b.toNat := by omega
      show hexDecode (digit (b.toNat / 16) :: digit (b.toNat % 16) :: hexEncode bytes) = _
      unfold hexDecode
      rw [digitValue_digit _ (by omega), digitValue_digit _ (by omega), ih]
      dsimp only
      rw [hsplit, UInt8.ofNat_toNat, Option.map_some]

/-! ## UTF-8 -/

/-- A character of which bytes are missing, and the range of the next of them. -/
structure Pending where
  missing : Nat
  lower : Nat
  upper : Nat
  point : Nat

def replacement : Char := '\uFFFD'

/-- A byte at the start of a character. -/
def lead (b : Nat) : List Char × Option Pending :=
  if b < 0x80 then ([Char.ofNat b], none)
  else if 0xC2 ≤ b ∧ b ≤ 0xDF then ([], some ⟨0, 0x80, 0xBF, b - 0xC0⟩)
  else if 0xE0 ≤ b ∧ b ≤ 0xEF then
    ([], some ⟨1, if b = 0xE0 then 0xA0 else 0x80, if b = 0xED then 0x9F else 0xBF, b - 0xE0⟩)
  else if 0xF0 ≤ b ∧ b ≤ 0xF4 then
    ([], some ⟨2, if b = 0xF0 then 0x90 else 0x80, if b = 0xF4 then 0x8F else 0xBF, b - 0xF0⟩)
  else ([replacement], none)

/-- The characters a byte completes, and what is pending behind it. -/
def take (pending : Option Pending) (b : Nat) : List Char × Option Pending :=
  match pending with
  | none => lead b
  | some p =>
      if p.lower ≤ b ∧ b ≤ p.upper then
        let point := p.point * 64 + (b - 0x80)
        match p.missing with
        | 0 => ([Char.ofNat point], none)
        | missing + 1 => ([], some ⟨missing, 0x80, 0xBF, point⟩)
      else (replacement :: (lead b).1, (lead b).2)

def decodeFrom : Option Pending → List UInt8 → List Char
  | none, [] => []
  | some _, [] => [replacement]
  | pending, b :: bytes =>
      (take pending b.toNat).1 ++ decodeFrom (take pending b.toNat).2 bytes

/-- The text of some bytes; what is no character is replaced, once for each stretch that could have
begun one. -/
def decodeLossy (bytes : List UInt8) : List Char := decodeFrom none bytes

section Decode

variable {c : Char} {bytes rest : List UInt8} {b missing lower upper point : Nat}

theorem decodeFrom_cons {pending : Option Pending} {b : UInt8} :
    decodeFrom pending (b :: bytes) =
      (take pending b.toNat).1 ++ decodeFrom (take pending b.toNat).2 bytes := by
  cases pending <;> rfl

theorem toNat_byte {n : Nat} (h : n < 256) : (UInt8.ofNat n).toNat = n := by
  rw [UInt8.toNat_ofNat']
  exact Nat.mod_eq_of_lt h

theorem decodeFrom_last (hlower : lower ≤ b) (hupper : b ≤ upper) (hb : b < 256) :
    decodeFrom (some ⟨0, lower, upper, point⟩) (UInt8.ofNat b :: bytes) =
      Char.ofNat (point * 64 + (b - 0x80)) :: decodeFrom none bytes := by
  rw [decodeFrom_cons, toNat_byte hb]
  unfold take
  dsimp only
  rw [if_pos ⟨hlower, hupper⟩]
  rfl

theorem decodeFrom_more (hlower : lower ≤ b) (hupper : b ≤ upper) (hb : b < 256) :
    decodeFrom (some ⟨missing + 1, lower, upper, point⟩) (UInt8.ofNat b :: bytes) =
      decodeFrom (some ⟨missing, 0x80, 0xBF, point * 64 + (b - 0x80)⟩) bytes := by
  rw [decodeFrom_cons, toNat_byte hb]
  unfold take
  dsimp only
  rw [if_pos ⟨hlower, hupper⟩]
  rfl

theorem decodeFrom_lead {p : Pending} (hb : b < 256) (hlead : lead b = ([], some p)) :
    decodeFrom none (UInt8.ofNat b :: bytes) = decodeFrom (some p) bytes := by
  rw [decodeFrom_cons, toNat_byte hb]
  unfold take
  dsimp only
  rw [hlead]
  rfl

theorem decodeFrom_char : decodeFrom none (String.utf8EncodeChar c ++ rest) =
    c :: decodeFrom none rest := by
  have hvalid : c.val.toNat < 0xD800 ∨ (0xDFFF < c.val.toNat ∧ c.val.toNat < 0x110000) := c.valid
  have hchar : ∀ n, n = c.val.toNat → Char.ofNat n = c := by
    rintro n rfl
    exact Char.ofNat_toNat c
  unfold String.utf8EncodeChar
  generalize c.val.toNat = v at hvalid hchar
  dsimp only
  -- by the number of bytes: in each case the numbers in the bytes make the one of the character
  split
  · rename_i hone
    have hlead : lead v = ([Char.ofNat v], none) := if_pos (by omega)
    rw [List.cons_append, List.nil_append, decodeFrom_cons, toNat_byte (by omega)]
    unfold take
    dsimp only
    rw [hlead, hchar v rfl]
    rfl
  · split
    · have hlead : lead (v / 64 % 0x20 + 0xc0) =
          ([], some ⟨0, 0x80, 0xBF, v / 64 % 0x20 + 0xc0 - 0xC0⟩) := by
        unfold lead
        rw [if_neg (by omega), if_pos (by omega)]
      rw [List.cons_append, List.cons_append, List.nil_append, decodeFrom_lead (by omega) hlead,
        decodeFrom_last (by omega) (by omega) (by omega), hchar _ (by omega)]
    · split
      · have hlead : lead (v / 4096 % 0x10 + 0xe0) = ([], some ⟨1,
            if v / 4096 % 0x10 + 0xe0 = 0xE0 then 0xA0 else 0x80,
            if v / 4096 % 0x10 + 0xe0 = 0xED then 0x9F else 0xBF,
            v / 4096 % 0x10 + 0xe0 - 0xE0⟩) := by
          unfold lead
          rw [if_neg (by omega), if_neg (by omega), if_pos (by omega)]
        rw [List.cons_append, List.cons_append, List.cons_append, List.nil_append,
          decodeFrom_lead (by omega) hlead, decodeFrom_more ?_ ?_ (by omega),
          decodeFrom_last (by omega) (by omega) (by omega), hchar _ (by omega)]
        · split <;> omega
        · split <;> omega
      · have hlead : lead (v / 262144 % 0x08 + 0xf0) = ([], some ⟨2,
            if v / 262144 % 0x08 + 0xf0 = 0xF0 then 0x90 else 0x80,
            if v / 262144 % 0x08 + 0xf0 = 0xF4 then 0x8F else 0xBF,
            v / 262144 % 0x08 + 0xf0 - 0xF0⟩) := by
          unfold lead
          rw [if_neg (by omega), if_neg (by omega), if_neg (by omega), if_pos (by omega)]
        rw [List.cons_append, List.cons_append, List.cons_append, List.cons_append,
          List.nil_append, decodeFrom_lead (by omega) hlead, decodeFrom_more ?_ ?_ (by omega),
          decodeFrom_more (by omega) (by omega) (by omega),
          decodeFrom_last (by omega) (by omega) (by omega), hchar _ (by omega)]
        · split <;> omega
        · split <;> omega

theorem decodeLossy_encode (s : List Char) : decodeLossy (Text.encode s) = s := by
  unfold decodeLossy
  induction s with
  | nil => rfl
  | cons c s ih => rw [Text.encode_cons, decodeFrom_char, ih]

end Decode

end Octets
