import Mathlib.Data.List.TakeDrop
import Bulletin.Common.Text
import Bulletin.Core.Base64
import Bulletin.Core.Framing

/-! # Sealed secrets

A secret is encrypted under a key of its own, and that key under the master key. Both
ciphertexts and their nonces stand in one envelope at fixed offsets. The cipher, the base64 text
form and the random draws are handed in.
-/

namespace Bulletin

open Framing

def keyLen : Nat := 32
def nonceLen : Nat := 24
def tagLen : Nat := 16
def wrappedDekLen : Nat := keyLen + tagLen
def envelopeVersion : UInt8 := 1

def minEnvelopeLen : Nat := 1 + nonceLen + wrappedDekLen + nonceLen + tagLen

abbrev Bytes (n : Nat) := { bytes : List UInt8 // bytes.length = n }

/-- A slice of a list as an array, if it has the length. -/
def Bytes.fromSlice (n : Nat) (slice : List UInt8) : Option (Bytes n) :=
  if h : slice.length = n then some ⟨slice, h⟩ else none

@[simp] theorem Bytes.fromSlice_val {n : Nat} (bytes : Bytes n) :
    Bytes.fromSlice n bytes.val = some bytes := by
  simp [Bytes.fromSlice, bytes.property]

theorem Bytes.fromSlice_eq_some {n : Nat} {slice : List UInt8} {bytes : Bytes n} :
    Bytes.fromSlice n slice = some bytes ↔ bytes.val = slice := by
  constructor
  · intro h
    obtain ⟨_, hbytes⟩ := Option.dite_none_right_eq_some.mp h
    rw [← Option.some.inj hbytes]
  · rintro rfl
    exact Bytes.fromSlice_val bytes

/-- What went wrong with a secret. -/
inductive SecretError where
  | encoding (text : String)
  | format (text : String)
  | decrypt
deriving DecidableEq, Repr

def SecretError.display : SecretError → String
  | encoding m => "secret encoding error: " ++ m
  | format m => "malformed sealed secret: " ++ m
  | decrypt => "secret decryption failed (wrong key or tampered)"

def orDecrypt {α : Type} (x : Option α) : Except SecretError α := x.elim (.error .decrypt) .ok

theorem orDecrypt_eq_ok {α : Type} {x : Option α} {a : α} : orDecrypt x = .ok a ↔ x = some a := by
  cases x <;> simp [orDecrypt]

/-! ## Parameters -/

structure Cipher where
  encrypt : Bytes keyLen → Bytes nonceLen → List UInt8 → Option (List UInt8)
  decrypt : Bytes keyLen → Bytes nonceLen → List UInt8 → Option (List UInt8)

/-- Every text is encrypted, to its length and a tag. Decryption succeeds on the ciphertexts of
the encryptions that were made under this key and nonce, and on nothing else. -/
structure Cipher.Ideal (cipher : Cipher)
    (made : Bytes keyLen → Bytes nonceLen → List UInt8 → Prop) : Prop where
  encrypts : ∀ key nonce plaintext, ∃ ciphertext,
    cipher.encrypt key nonce plaintext = some ciphertext
  length : ∀ {key nonce plaintext ciphertext},
    cipher.encrypt key nonce plaintext = some ciphertext →
      ciphertext.length = plaintext.length + tagLen
  decrypt_iff : ∀ {key nonce plaintext ciphertext},
    cipher.decrypt key nonce ciphertext = some plaintext ↔
      made key nonce plaintext ∧ cipher.encrypt key nonce plaintext = some ciphertext

structure Engine where
  encode : List UInt8 → String
  decode : String → Except String (List UInt8)

/-- Texts decode to what they were made from, and hold no white space. -/
structure Engine.Lossless (b64 : Engine) : Prop where
  decode_encode : ∀ bytes, b64.decode (b64.encode bytes) = .ok bytes
  plain : ∀ bytes, ∀ c ∈ (b64.encode bytes).toList, isWhitespace c = false

/-! ## Keys -/

structure MasterKey where
  key : Bytes keyLen
deriving DecidableEq

def MasterKey.fromBase64 (b64 : Engine) (s : String) : Except SecretError MasterKey := do
  let raw ← (b64.decode (trim s)).mapError .encoding
  match Bytes.fromSlice keyLen raw with
  | some bytes => .ok ⟨bytes⟩
  | none => .error (.encoding ("master key must be " ++ toString keyLen ++ " bytes"))

def MasterKey.toBase64 (b64 : Engine) (master : MasterKey) : String := b64.encode master.key.val

/-! ## Envelopes -/

structure SealedSecret where
  envelope : List UInt8
deriving DecidableEq, Repr

def SealedSecret.encode (b64 : Engine) (sealed : SealedSecret) : String :=
  b64.encode sealed.envelope

def SealedSecret.decode (b64 : Engine) (s : String) : Except SecretError SealedSecret := do
  let envelope ← (b64.decode (trim s)).mapError .encoding
  return ⟨envelope⟩

structure SealDraws where
  dek : Bytes keyLen
  payloadNonce : Bytes nonceLen
  wrapNonce : Bytes nonceLen
deriving DecidableEq

def MasterKey.seal (cipher : Cipher) (draws : SealDraws) (master : MasterKey)
    (plaintext : List UInt8) : Except SecretError SealedSecret := do
  let payload ← orDecrypt (cipher.encrypt draws.dek draws.payloadNonce plaintext)
  let wrappedDek ← orDecrypt (cipher.encrypt master.key draws.wrapNonce draws.dek.val)
  return ⟨envelopeVersion :: (draws.wrapNonce.val ++ wrappedDek ++ draws.payloadNonce.val ++
    payload)⟩

/-- `none` is an index out of range. -/
def MasterKey.unseal (cipher : Cipher) (master : MasterKey) (sealed : SealedSecret) :
    Option (Except SecretError (List UInt8)) := do
  let env := sealed.envelope
  if env.length < minEnvelopeLen then
    return .error (.format "envelope too short")
  let version ← env[0]?
  if version ≠ envelopeVersion then
    return .error (.format ("unsupported envelope version " ++ toString version))
  let off := 1
  let wrapNonce ← Bytes.fromSlice nonceLen (← slice env off (off + nonceLen))
  let off := off + nonceLen
  let wrappedDek ← slice env off (off + wrappedDekLen)
  let off := off + wrappedDekLen
  let payloadNonce ← Bytes.fromSlice nonceLen (← slice env off (off + nonceLen))
  let off := off + nonceLen
  let payload ← slice env off env.length
  return do
    let dek ← orDecrypt (cipher.decrypt master.key wrapNonce wrappedDek)
    let dekKey ← orDecrypt (Bytes.fromSlice keyLen dek)
    orDecrypt (cipher.decrypt dekKey payloadNonce payload)

/-! ## Frames -/

/-- What stands at the offsets of an envelope of sufficient length. -/
structure Frame where
  version : UInt8
  wrapNonce : Bytes nonceLen
  wrappedDek : Bytes wrappedDekLen
  payloadNonce : Bytes nonceLen
  payload : List UInt8
  tagged : tagLen ≤ payload.length

def Frame.bytes (f : Frame) : List UInt8 :=
  f.version :: (f.wrapNonce.val ++ f.wrappedDek.val ++ f.payloadNonce.val ++ f.payload)

theorem Frame.length_bytes (f : Frame) :
    f.bytes.length = 1 + nonceLen + wrappedDekLen + nonceLen + f.payload.length := by
  simp only [Frame.bytes, List.length_cons, List.length_append, f.wrapNonce.property,
    f.wrappedDek.property, f.payloadNonce.property]
  omega

theorem Frame.exists_bytes {env : List UInt8} (h : minEnvelopeLen ≤ env.length) :
    ∃ f : Frame, f.bytes = env := by
  cases env with
  | nil => cases h
  | cons version env =>
      have hlength : nonceLen + wrappedDekLen + nonceLen + tagLen ≤ env.length := by
        simp only [minEnvelopeLen, List.length_cons] at h
        omega
      refine ⟨⟨version, ⟨env.take nonceLen, ?_⟩, ⟨(env.drop nonceLen).take wrappedDekLen, ?_⟩,
        ⟨(env.drop (nonceLen + wrappedDekLen)).take nonceLen, ?_⟩,
        env.drop (nonceLen + wrappedDekLen + nonceLen), ?_⟩, ?_⟩
      · rw [List.length_take]
        omega
      · rw [List.length_take, List.length_drop]
        omega
      · rw [List.length_take, List.length_drop]
        omega
      · rw [List.length_drop]
        omega
      · simp only [Frame.bytes, List.cons.injEq, true_and]
        simp only [List.append_assoc, ← List.drop_drop, List.take_append_drop]

variable {cipher : Cipher} {master : MasterKey}

/-- What unsealing does with a frame of this version. -/
def Frame.decrypt (cipher : Cipher) (master : MasterKey) (f : Frame) :
    Except SecretError (List UInt8) := do
  let dek ← orDecrypt (cipher.decrypt master.key f.wrapNonce f.wrappedDek.val)
  let dekKey ← orDecrypt (Bytes.fromSlice keyLen dek)
  orDecrypt (cipher.decrypt dekKey f.payloadNonce f.payload)

theorem MasterKey.unseal_short {env : List UInt8} (h : env.length < minEnvelopeLen) :
    master.unseal cipher ⟨env⟩ = some (.error (.format "envelope too short")) := by
  simp [MasterKey.unseal, h]

theorem MasterKey.unseal_bytes (f : Frame) : master.unseal cipher ⟨f.bytes⟩ =
    if f.version ≠ envelopeVersion then
      some (.error (.format ("unsupported envelope version " ++ toString f.version)))
    else some (f.decrypt cipher master) := by
  have hlong : ¬ f.bytes.length < minEnvelopeLen := by
    have htagged := f.tagged
    rw [Frame.length_bytes, minEnvelopeLen]
    omega
  have hsplit : f.bytes = [f.version] ++ (f.wrapNonce.val ++ (f.wrappedDek.val ++
      (f.payloadNonce.val ++ f.payload))) := by
    simp [Frame.bytes]
  have hwrapNonce : slice f.bytes 1 (1 + nonceLen) = some f.wrapNonce.val := by
    rw [hsplit]
    exact slice_eq rfl (by rw [f.wrapNonce.property])
  have hwrappedDek : slice f.bytes (1 + nonceLen) (1 + nonceLen + wrappedDekLen) =
      some f.wrappedDek.val := by
    rw [hsplit, ← List.append_assoc]
    refine slice_eq ?_ (by rw [f.wrappedDek.property])
    rw [List.length_append, f.wrapNonce.property, List.length_singleton]
  have hpayloadNonce : slice f.bytes (1 + nonceLen + wrappedDekLen)
      (1 + nonceLen + wrappedDekLen + nonceLen) = some f.payloadNonce.val := by
    rw [hsplit, ← List.append_assoc, ← List.append_assoc]
    refine slice_eq ?_ (by rw [f.payloadNonce.property])
    simp only [List.length_append, f.wrapNonce.property, f.wrappedDek.property,
      List.length_singleton]
  have hpayload : slice f.bytes (1 + nonceLen + wrappedDekLen + nonceLen) f.bytes.length =
      some f.payload := by
    rw [Frame.length_bytes, hsplit, ← List.append_assoc, ← List.append_assoc, ← List.append_assoc]
    have hall := @slice_eq _ ([f.version] ++ f.wrapNonce.val ++ f.wrappedDek.val ++
      f.payloadNonce.val) f.payload [] _ _ rfl rfl
    simp only [List.length_append, f.wrapNonce.property, f.wrappedDek.property,
      f.payloadNonce.property, List.length_singleton, List.append_nil] at hall
    exact hall
  simp only [MasterKey.unseal, hlong, if_false, hwrapNonce, hwrappedDek, hpayloadNonce, hpayload]
  by_cases hversion : f.version = envelopeVersion
  · simp [hversion, Frame.bytes, Frame.decrypt]
  · simp [hversion, Frame.bytes]

theorem MasterKey.unseal_ne_none (cipher : Cipher) (master : MasterKey) (sealed : SealedSecret) :
    master.unseal cipher sealed ≠ none := by
  obtain ⟨env⟩ := sealed
  by_cases hshort : env.length < minEnvelopeLen
  · rw [MasterKey.unseal_short hshort]
    exact Option.some_ne_none _
  · obtain ⟨f, rfl⟩ := Frame.exists_bytes (Nat.le_of_not_lt hshort)
    rw [MasterKey.unseal_bytes]
    by_cases hversion : f.version = envelopeVersion <;> simp [hversion]

/-! ## Opening what was sealed -/

theorem bind_eq_ok {ε α β : Type} {x : Except ε α} {f : α → Except ε β} {b : β} :
    (x >>= f) = .ok b ↔ ∃ a, x = .ok a ∧ f a = .ok b := by
  cases x with
  | error e => exact ⟨fun h => (nomatch h), fun ⟨_, h, _⟩ => (nomatch h)⟩
  | ok a => exact ⟨fun h => ⟨a, rfl, h⟩, fun ⟨_, ha, h⟩ => Except.ok.inj ha ▸ h⟩

theorem MasterKey.seal_eq_ok {draws : SealDraws} {plaintext : List UInt8} {sealed : SealedSecret} :
    MasterKey.seal cipher draws master plaintext = .ok sealed ↔
      ∃ payload wrappedDek, cipher.encrypt draws.dek draws.payloadNonce plaintext = some payload ∧
        cipher.encrypt master.key draws.wrapNonce draws.dek.val = some wrappedDek ∧
        sealed.envelope = envelopeVersion :: (draws.wrapNonce.val ++ wrappedDek ++
          draws.payloadNonce.val ++ payload) := by
  simp only [MasterKey.seal, bind_eq_ok, orDecrypt_eq_ok]
  constructor
  · rintro ⟨payload, hpayload, wrappedDek, hwrapped, hsealed⟩
    exact ⟨payload, wrappedDek, hpayload, hwrapped, by rw [← Except.ok.inj hsealed]⟩
  · rintro ⟨payload, wrappedDek, hpayload, hwrapped, hsealed⟩
    exact ⟨payload, hpayload, wrappedDek, hwrapped, congrArg Except.ok (by rw [← hsealed])⟩

section Ideal

variable {made : Bytes keyLen → Bytes nonceLen → List UInt8 → Prop} {sealed : SealedSecret}
  {plaintext : List UInt8}

theorem Frame.decrypt_eq_ok (hideal : cipher.Ideal made) {f : Frame} :
    f.decrypt cipher master = .ok plaintext ↔ ∃ dek : Bytes keyLen,
      (made master.key f.wrapNonce dek.val ∧
        cipher.encrypt master.key f.wrapNonce dek.val = some f.wrappedDek.val) ∧
      made dek f.payloadNonce plaintext ∧
      cipher.encrypt dek f.payloadNonce plaintext = some f.payload := by
  simp only [Frame.decrypt, bind_eq_ok, orDecrypt_eq_ok, hideal.decrypt_iff,
    Bytes.fromSlice_eq_some]
  constructor
  · rintro ⟨dek, hwrapped, dekKey, rfl, hpayload⟩
    exact ⟨dekKey, hwrapped, hpayload⟩
  · rintro ⟨dek, hwrapped, hpayload⟩
    exact ⟨dek.val, hwrapped, dek, rfl, hpayload⟩

theorem MasterKey.unseal_eq_ok (hideal : cipher.Ideal made) :
    master.unseal cipher sealed = some (.ok plaintext) ↔ ∃ draws : SealDraws,
      MasterKey.seal cipher draws master plaintext = .ok sealed ∧
      made master.key draws.wrapNonce draws.dek.val ∧
      made draws.dek draws.payloadNonce plaintext := by
  constructor
  · intro h
    obtain ⟨env⟩ := sealed
    by_cases hshort : env.length < minEnvelopeLen
    · rw [MasterKey.unseal_short hshort] at h
      cases h
    obtain ⟨f, rfl⟩ := Frame.exists_bytes (Nat.le_of_not_lt hshort)
    rw [MasterKey.unseal_bytes] at h
    by_cases hversion : f.version = envelopeVersion
    · rw [if_neg (not_not_intro hversion), Option.some_inj, Frame.decrypt_eq_ok hideal] at h
      obtain ⟨dek, ⟨hwrap, hwrapped⟩, hmade, hpayload⟩ := h
      refine ⟨⟨dek, f.payloadNonce, f.wrapNonce⟩, ?_, hwrap, hmade⟩
      exact MasterKey.seal_eq_ok.mpr ⟨_, _, hpayload, hwrapped, by rw [← hversion]; rfl⟩
    · rw [if_pos hversion] at h
      cases h
  · rintro ⟨draws, hseal, hwrap, hmade⟩
    obtain ⟨payload, wrappedDek, hpayload, hwrapped, henv⟩ := MasterKey.seal_eq_ok.mp hseal
    have hwrappedLength : wrappedDek.length = wrappedDekLen := by
      rw [hideal.length hwrapped, draws.dek.property, wrappedDekLen]
    have htagged : tagLen ≤ payload.length := by
      rw [hideal.length hpayload]
      exact Nat.le_add_left _ _
    let f : Frame := ⟨envelopeVersion, draws.wrapNonce, ⟨wrappedDek, hwrappedLength⟩,
      draws.payloadNonce, payload, htagged⟩
    obtain ⟨env⟩ := sealed
    have hf : env = f.bytes := henv
    rw [hf, MasterKey.unseal_bytes, if_neg (not_not_intro rfl), Option.some_inj,
      Frame.decrypt_eq_ok hideal]
    exact ⟨draws.dek, ⟨hwrap, hwrapped⟩, hmade, hpayload⟩

end Ideal

/-! ## Histories -/

structure Sealing where
  master : MasterKey
  draws : SealDraws
  plaintext : List UInt8
deriving DecidableEq

def Sealing.result (cipher : Cipher) (s : Sealing) : Except SecretError SealedSecret :=
  MasterKey.seal cipher s.draws s.master s.plaintext

/-- The encryptions of these calls: the key of each secret, and the secret. -/
def Made (history : List Sealing) (key : Bytes keyLen) (nonce : Bytes nonceLen)
    (plaintext : List UInt8) : Prop :=
  ∃ s ∈ history,
    (s.master.key = key ∧ s.draws.wrapNonce = nonce ∧ s.draws.dek.val = plaintext) ∨
      (s.draws.dek = key ∧ s.draws.payloadNonce = nonce ∧ s.plaintext = plaintext)

instance (history : List Sealing) (key : Bytes keyLen) (nonce : Bytes nonceLen)
    (plaintext : List UInt8) : Decidable (Made history key nonce plaintext) :=
  inferInstanceAs (Decidable (∃ s ∈ history, _))

/-- No two calls drew one key, and none drew a master key. -/
structure FreshKeys (history : List Sealing) (master : MasterKey) : Prop where
  distinct : ∀ s ∈ history, ∀ t ∈ history, s.draws.dek = t.draws.dek → s = t
  apart : ∀ s ∈ history, ∀ t ∈ history, s.draws.dek ≠ t.master.key
  unsealing : ∀ s ∈ history, s.draws.dek ≠ master.key

section History

variable {history : List Sealing} {b64 : Engine}

theorem Sealing.opens (hideal : cipher.Ideal (Made history)) {s : Sealing} (hs : s ∈ history) :
    ∃ sealed, s.result cipher = .ok sealed ∧
      s.master.unseal cipher sealed = some (.ok s.plaintext) := by
  obtain ⟨payload, hpayload⟩ := hideal.encrypts s.draws.dek s.draws.payloadNonce s.plaintext
  obtain ⟨wrapped, hwrapped⟩ := hideal.encrypts s.master.key s.draws.wrapNonce s.draws.dek.val
  have hresult : s.result cipher = .ok ⟨envelopeVersion :: (s.draws.wrapNonce.val ++ wrapped ++
      s.draws.payloadNonce.val ++ payload)⟩ :=
    MasterKey.seal_eq_ok.mpr ⟨payload, wrapped, hpayload, hwrapped, rfl⟩
  refine ⟨_, hresult, (MasterKey.unseal_eq_ok hideal).mpr ⟨s.draws, hresult, ?_, ?_⟩⟩
  · exact ⟨s, hs, Or.inl ⟨rfl, rfl, rfl⟩⟩
  · exact ⟨s, hs, Or.inr ⟨rfl, rfl, rfl⟩⟩

theorem FreshKeys.genuine (hfresh : FreshKeys history master)
    (hideal : cipher.Ideal (Made history)) {sealed : SealedSecret} {plaintext : List UInt8}
    (hopen : master.unseal cipher sealed = some (.ok plaintext)) :
    ∃ s ∈ history, s.master = master ∧ s.result cipher = .ok sealed ∧ s.plaintext = plaintext := by
  obtain ⟨draws, hseal, ⟨s, hs, hwrap⟩, t, ht, hpayload⟩ := (MasterKey.unseal_eq_ok hideal).mp hopen
  rcases hwrap with ⟨hmaster, hnonce, hdek⟩ | ⟨hdek, -, -⟩
  · rcases hpayload with ⟨hkey, -, -⟩ | ⟨hkey, hpnonce, hplain⟩
    · -- a master key as the key of a secret
      exact absurd ((Subtype.ext hdek).trans hkey.symm) (hfresh.apart s hs t ht)
    · -- the header and the payload are of one call
      obtain rfl := hfresh.distinct s hs t ht ((Subtype.ext hdek).trans hkey.symm)
      have hsame : s.master = master := congrArg MasterKey.mk hmaster
      have hdraws : s.draws = draws := by
        obtain ⟨dek, payloadNonce, wrapNonce⟩ := draws
        obtain ⟨_, sdraws, _⟩ := s
        cases sdraws
        exact SealDraws.mk.injEq .. ▸ ⟨hkey, hpnonce, hnonce⟩
      exact ⟨s, hs, hsame, by rw [Sealing.result, hsame, hdraws, hplain, hseal], hplain⟩
  · exact absurd hdek (hfresh.unsealing s hs)

theorem trim_eq_self {s : String} (h : ∀ c ∈ s.toList, isWhitespace c = false) : trim s = s := by
  have hfirst : s.toList.dropWhile isWhitespace = s.toList := by
    refine List.dropWhile_eq_self_iff.mpr fun hpos => ?_
    simpa using h _ (List.getElem_mem hpos)
  have hlast : s.toList.reverse.dropWhile isWhitespace = s.toList.reverse := by
    refine List.dropWhile_eq_self_iff.mpr fun hpos => ?_
    simpa using h _ (List.mem_reverse.mp (List.getElem_mem hpos))
  rw [trim, hfirst, hlast, List.reverse_reverse, String.ofList_toList]

theorem SealedSecret.decode_encode (hb64 : b64.Lossless) (sealed : SealedSecret) :
    SealedSecret.decode b64 (sealed.encode b64) = .ok sealed := by
  rw [SealedSecret.decode, SealedSecret.encode, trim_eq_self (hb64.plain _), hb64.decode_encode]
  rfl

theorem MasterKey.fromBase64_toBase64 (hb64 : b64.Lossless) (master : MasterKey) :
    MasterKey.fromBase64 b64 (master.toBase64 b64) = .ok master := by
  rw [MasterKey.fromBase64, MasterKey.toBase64, trim_eq_self (hb64.plain _), hb64.decode_encode]
  simp [Except.mapError, Except.bind, bind]

/-- An envelope that does not open is an error, never a panic. -/
theorem MasterKey.unseal_error {sealed : SealedSecret}
    (h : ∀ plaintext, master.unseal cipher sealed ≠ some (.ok plaintext)) :
    ∃ e, master.unseal cipher sealed = some (.error e) := by
  obtain ⟨result, hresult⟩ := Option.ne_none_iff_exists'.mp
    (MasterKey.unseal_ne_none cipher master sealed)
  cases result with
  | error e => exact ⟨e, hresult⟩
  | ok plaintext => exact absurd hresult (h plaintext)

/-- Envelopes open to what was sealed, also from their text form; whatever no seal under the
master key can make is an error; with fresh keys, whatever no seal has made is one too. -/
theorem sealed_authentic (hideal : cipher.Ideal (Made history)) (hb64 : b64.Lossless) :
    (∀ s ∈ history, ∃ sealed, s.result cipher = .ok sealed ∧
      s.master.unseal cipher sealed = some (.ok s.plaintext) ∧
      ∃ decoded, SealedSecret.decode b64 (sealed.encode b64) = .ok decoded ∧
        s.master.unseal cipher decoded = some (.ok s.plaintext)) ∧
    (∀ (master : MasterKey) (sealed : SealedSecret),
      (¬ ∃ draws plaintext, MasterKey.seal cipher draws master plaintext = .ok sealed) →
        ∃ e, master.unseal cipher sealed = some (.error e)) ∧
    (∀ (master : MasterKey) (sealed : SealedSecret), FreshKeys history master →
      (¬ ∃ s ∈ history, s.master = master ∧ s.result cipher = .ok sealed) →
        ∃ e, master.unseal cipher sealed = some (.error e)) ∧
    ∀ (other : Cipher) (master : MasterKey) (sealed : SealedSecret),
      master.unseal other sealed ≠ none := by
  refine ⟨?_, ?_, ?_, MasterKey.unseal_ne_none⟩
  · intro s hs
    obtain ⟨sealed, hresult, hopens⟩ := Sealing.opens hideal hs
    exact ⟨sealed, hresult, hopens, sealed, SealedSecret.decode_encode hb64 sealed, hopens⟩
  · intro master sealed hnone
    refine MasterKey.unseal_error fun plaintext hopen => hnone ?_
    obtain ⟨draws, hseal, -⟩ := (MasterKey.unseal_eq_ok hideal).mp hopen
    exact ⟨draws, plaintext, hseal⟩
  · intro master sealed hfresh hnone
    refine MasterKey.unseal_error fun plaintext hopen => hnone ?_
    obtain ⟨s, hs, hmaster, hresult, -⟩ := hfresh.genuine hideal hopen
    exact ⟨s, hs, hmaster, hresult⟩

end History

/-! ## An ideal cipher -/

def zeroTag : List UInt8 := List.replicate tagLen 0

/-- The cipher that looks up what was encrypted. -/
def lookupCipher (history : List Sealing) : Cipher where
  encrypt _ _ plaintext := some (plaintext ++ zeroTag)
  decrypt key nonce ciphertext :=
    let plaintext := ciphertext.take (ciphertext.length - tagLen)
    if Made history key nonce plaintext ∧ plaintext ++ zeroTag = ciphertext then some plaintext
    else none

theorem lookupCipher_ideal (history : List Sealing) :
    (lookupCipher history).Ideal (Made history) where
  encrypts _ _ plaintext := ⟨plaintext ++ zeroTag, rfl⟩
  length h := by
    rw [← Option.some.inj h, List.length_append]
    rfl
  decrypt_iff := by
    intro key nonce plaintext ciphertext
    constructor
    · intro h
      obtain ⟨⟨hmade, htag⟩, htake⟩ := Option.ite_none_right_eq_some.mp h
      rw [Option.some.inj htake] at hmade htag
      exact ⟨hmade, congrArg some htag⟩
    · rintro ⟨hmade, htag⟩
      obtain rfl := Option.some.inj htag
      have htake : (plaintext ++ zeroTag).take ((plaintext ++ zeroTag).length - tagLen) =
          plaintext := by
        rw [List.length_append, zeroTag, List.length_replicate, Nat.add_sub_cancel, List.take_left]
      exact Option.ite_none_right_eq_some.mpr ⟨htake.symm ▸ ⟨hmade, rfl⟩, congrArg some htake⟩

/-- The standard text form. Every text it does not take fails in one way here. -/
def standardEngine : Engine where
  encode bytes := String.ofList (Base64.encode bytes)
  decode s := (Base64.decode s.toList).elim (.error "invalid base64") .ok

theorem standardEngine_lossless : standardEngine.Lossless where
  decode_encode bytes := by
    simp [standardEngine, Base64.decode_encode]
  plain bytes c hc := by
    have hall : (('=' :: Base64.alphabet).all fun c => !isWhitespace c) = true := by decide +kernel
    have hmem : c ∈ '=' :: Base64.alphabet :=
      @Base64.mem_encode bytes c (by simpa [standardEngine] using hc)
    simpa using List.all_eq_true.mp hall c hmem

section TwoSecrets

def keyOf (b : UInt8) : Bytes keyLen := ⟨List.replicate keyLen b, List.length_replicate⟩

def nonceOf (b : UInt8) : Bytes nonceLen := ⟨List.replicate nonceLen b, List.length_replicate⟩

def twoSecrets : List Sealing :=
  [⟨⟨keyOf 1⟩, ⟨keyOf 2, nonceOf 3, nonceOf 4⟩, [7]⟩,
    ⟨⟨keyOf 1⟩, ⟨keyOf 5, nonceOf 3, nonceOf 4⟩, [8, 8]⟩]

/-- The header of the first envelope before the payload of the second. -/
def spliced : SealedSecret :=
  ⟨envelopeVersion :: ((nonceOf 4).val ++ ((keyOf 2).val ++ zeroTag) ++ (nonceOf 3).val ++
    ([8, 8] ++ zeroTag))⟩

theorem twoSecrets_fresh : FreshKeys twoSecrets ⟨keyOf 1⟩ where
  distinct := by decide +kernel
  apart := by decide +kernel
  unsealing := by decide +kernel

/-- Both secrets open from the text forms of the key and of their envelopes, the splice does not. -/
theorem sealed_authentic_spliced :
    MasterKey.fromBase64 standardEngine ((MasterKey.mk (keyOf 1)).toBase64 standardEngine) =
      .ok ⟨keyOf 1⟩ ∧
    (∀ s ∈ twoSecrets, ∃ sealed, s.result (lookupCipher twoSecrets) = .ok sealed ∧
      ∃ decoded, SealedSecret.decode standardEngine (sealed.encode standardEngine) = .ok decoded ∧
        s.master.unseal (lookupCipher twoSecrets) decoded = some (.ok s.plaintext)) ∧
    ∃ e, (MasterKey.mk (keyOf 1)).unseal (lookupCipher twoSecrets) spliced = some (.error e) := by
  have hauthentic := sealed_authentic (lookupCipher_ideal twoSecrets) standardEngine_lossless
  refine ⟨MasterKey.fromBase64_toBase64 standardEngine_lossless _, fun s hs => ?_,
    hauthentic.2.2.1 _ _ twoSecrets_fresh (by decide +kernel)⟩
  obtain ⟨sealed, hresult, -, hdecoded⟩ := hauthentic.1 s hs
  exact ⟨sealed, hresult, hdecoded⟩

end TwoSecrets

end Bulletin
