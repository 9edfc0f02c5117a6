import Mathlib.Data.List.TakeDrop

/-! # Base64

The standard alphabet with padding: three bytes are four symbols of six bits. Decoding takes
canonical texts only.
-/

namespace Base64

def alphabet : List Char :=
  "ABCDEFGHIJKLMNOPQRSTUVWXYZabcdefghijklmnopqrstuvwxyz0123456789+/".toList

def symbol (n : Nat) : Char := alphabet.getD (n % 64) 'A'

def value (c : Char) : Option Nat := alphabet.idxOf? c

def encode : List UInt8 → List Char
  | [] => []
  | [a] =>
      let n := a.toNat * 16
      [symbol (n / 64), symbol n, '=', '=']
  | [a, b] =>
      let n := (a.toNat * 256 + b.toNat) * 4
      [symbol (n / 4096), symbol (n / 64), symbol n, '=']
  | a :: b :: c :: rest =>
      let n := (a.toNat * 256 + b.toNat) * 256 + c.toNat
      symbol (n / 262144) :: symbol (n / 4096) :: symbol (n / 64) :: symbol n :: encode rest

/-- The number that symbols stand for, highest first. -/
def digits (symbols : List Char) : Option Nat :=
  symbols.foldlM (fun n c => (value c).map fun v => n * 64 + v) 0

def decode : List Char → Option (List UInt8)
  | [] => some []
  | c₀ :: c₁ :: c₂ :: c₃ :: rest =>
      if c₂ = '=' ∧ c₃ = '=' ∧ rest = [] then
        (digits [c₀, c₁]).bind fun n =>
          if n % 16 = 0 then some [UInt8.ofNat (n / 16)] else none
      else if c₃ = '=' ∧ rest = [] then
        (digits [c₀, c₁, c₂]).bind fun n =>
          if n % 4 = 0 then some [UInt8.ofNat (n / 1024), UInt8.ofNat (n / 4)] else none
      else
        (digits [c₀, c₁, c₂, c₃]).bind fun n => (decode rest).map fun tail =>
          UInt8.ofNat (n / 65536) :: UInt8.ofNat (n / 256) :: UInt8.ofNat n :: tail
  | _ => none

theorem value_symbol (n : Nat) : value (symbol n) = some (n % 64) := by
  have hall : ∀ i : Fin 64, value (alphabet.getD i 'A') = some i.val := by decide +kernel
  exact hall ⟨n % 64, Nat.mod_lt n (by decide)⟩

theorem symbol_ne_pad (n : Nat) : symbol n ≠ '=' := by
  intro h
  have hvalue := value_symbol n
  rw [h] at hvalue
  exact absurd hvalue (by simp [show value '=' = none by decide +kernel])

theorem digits_symbols (m n p q : Nat) :
    digits [symbol m, symbol n] = some (m % 64 * 64 + n % 64) ∧
      digits [symbol m, symbol n, symbol p] = some ((m % 64 * 64 + n % 64) * 64 + p % 64) ∧
      digits [symbol m, symbol n, symbol p, symbol q] =
        some (((m % 64 * 64 + n % 64) * 64 + p % 64) * 64 + q % 64) := by
  simp [digits, value_symbol]

theorem ofNat_eq {a : UInt8} {n : Nat} (h : n % 256 = a.toNat) : UInt8.ofNat n = a := by
  rw [← UInt8.toNat_inj, UInt8.toNat_ofNat', h]

theorem decode_encode (bytes : List UInt8) : decode (encode bytes) = some bytes := by
  fun_induction encode bytes with
  | case1 => rfl
  | case2 a n =>
      have ha := a.toNat_lt
      have hn : n = a.toNat * 16 := rfl
      have hdigits : n / 64 % 64 * 64 + n % 64 = n := by omega
      rw [decode, if_pos ⟨rfl, rfl, rfl⟩, (digits_symbols _ _ 0 0).1, hdigits, Option.bind_some,
        if_pos (by omega), @ofNat_eq a _ (by omega)]
  | case3 a b n =>
      have ha := a.toNat_lt
      have hb := b.toNat_lt
      have hn : n = (a.toNat * 256 + b.toNat) * 4 := rfl
      have hdigits : (n / 4096 % 64 * 64 + n / 64 % 64) * 64 + n % 64 = n := by omega
      rw [decode, if_neg fun h => symbol_ne_pad _ h.1, if_pos ⟨rfl, rfl⟩,
        (digits_symbols _ _ _ 0).2.1, hdigits, Option.bind_some, if_pos (by omega),
        @ofNat_eq a _ (by omega), @ofNat_eq b _ (by omega)]
  | case4 a b c rest n ih =>
      have ha := a.toNat_lt
      have hb := b.toNat_lt
      have hc := c.toNat_lt
      have hn : n = (a.toNat * 256 + b.toNat) * 256 + c.toNat := rfl
      have hdigits : ((n / 262144 % 64 * 64 + n / 4096 % 64) * 64 + n / 64 % 64) * 64 + n % 64 =
          n := by
        omega
      rw [decode, if_neg fun h => symbol_ne_pad _ h.1, if_neg fun h => symbol_ne_pad _ h.1,
        (digits_symbols _ _ _ _).2.2, hdigits, Option.bind_some, ih, Option.map_some,
        @ofNat_eq a _ (by omega), @ofNat_eq b _ (by omega), @ofNat_eq c _ (by omega)]

theorem symbol_mem (n : Nat) : symbol n ∈ '=' :: alphabet := by
  have hlt : n % 64 < alphabet.length := Nat.mod_lt n (by decide)
  rw [symbol, List.getD_eq_getElem?_getD, List.getElem?_eq_getElem hlt, Option.getD_some]
  exact List.mem_cons_of_mem _ (List.getElem_mem hlt)

theorem mem_encode {bytes : List UInt8} {c : Char} (hc : c ∈ encode bytes) :
    c ∈ '=' :: alphabet := by
  fun_induction encode bytes with
  | case1 => cases hc
  | case2 a n =>
      simp only [List.mem_cons, List.not_mem_nil, or_false] at hc
      rcases hc with rfl | rfl | rfl | rfl
      · exact symbol_mem _
      · exact symbol_mem _
      · exact List.mem_cons_self
      · exact List.mem_cons_self
  | case3 a b n =>
      simp only [List.mem_cons, List.not_mem_nil, or_false] at hc
      rcases hc with rfl | rfl | rfl | rfl
      · exact symbol_mem _
      · exact symbol_mem _
      · exact symbol_mem _
      · exact List.mem_cons_self
  | case4 a b c' rest n ih =>
      simp only [List.mem_cons] at hc
      rcases hc with rfl | rfl | rfl | rfl | hc
      · exact symbol_mem _
      · exact symbol_mem _
      · exact symbol_mem _
      · exact symbol_mem _
      · exact ih hc

end Base64
