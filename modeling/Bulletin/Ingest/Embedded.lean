import Bulletin.Ingest.Fetch

/-! # Addresses inside addresses

The standard ways to write an IPv4 address as an IPv6 address, octet by octet, and what the check
of addresses makes of them.
-/

namespace Bulletin

/-! ## Octets -/

def segmentOctets (s : UInt16) : List UInt8 := [(s >>> 8).toUInt8, (s &&& 0xff).toUInt8]

theorem segmentOctets_toNat (s : UInt16) :
    (s >>> 8).toUInt8.toNat = s.toNat / 256 ∧ (s &&& 0xff).toUInt8.toNat = s.toNat % 256 := by
  have hsize := s.toNat_lt
  constructor
  · have hshift : (s >>> 8).toNat = s.toNat / 256 := by
      rw [UInt16.toNat_shiftRight]
      exact Nat.shiftRight_eq_div_pow _ 8
    rw [UInt16.toNat_toUInt8, hshift]
    omega
  · have hmask : (s &&& 0xff).toNat = s.toNat % 256 := by
      rw [UInt16.toNat_and]
      exact Nat.and_two_pow_sub_one_eq_mod _ 8
    rw [UInt16.toNat_toUInt8, hmask]
    omega

theorem segmentOctets_inj {s t : UInt16} : segmentOctets s = segmentOctets t ↔ s = t := by
  refine ⟨fun h => ?_, fun h => h ▸ rfl⟩
  obtain ⟨hhi, hlo⟩ : (s >>> 8).toUInt8 = (t >>> 8).toUInt8 ∧
      (s &&& 0xff).toUInt8 = (t &&& 0xff).toUInt8 := by simpa [segmentOctets] using h
  have hs := segmentOctets_toNat s
  have ht := segmentOctets_toNat t
  rw [hhi, hlo] at hs
  exact UInt16.toNat_inj.mp (by omega)

/-- A text of segments starts another one if the segments and what follows them do. -/
theorem segmentOctets_prefix {segments rest : List UInt16} {tail : List UInt8}
    (hlen : segments.length ≤ rest.length)
    (h : segments.flatMap segmentOctets ++ tail <+: rest.flatMap segmentOctets) :
    segments <+: rest ∧ tail <+: (rest.drop segments.length).flatMap segmentOctets := by
  induction segments generalizing rest with
  | nil => exact ⟨List.nil_prefix, h⟩
  | cons s segments ih =>
      cases rest with
      | nil => cases hlen
      | cons t rest =>
          rw [List.flatMap_cons, List.flatMap_cons, List.append_assoc] at h
          obtain ⟨more, hmore⟩ := h
          rw [List.append_assoc] at hmore
          obtain ⟨hhead, htail⟩ := List.append_inj hmore rfl
          obtain ⟨hsegments, hrest⟩ := ih (Nat.le_of_succ_le_succ hlen) ⟨more, htail⟩
          exact ⟨List.cons_prefix_cons.mpr ⟨segmentOctets_inj.mp hhead, hsegments⟩, hrest⟩

namespace Ipv4Addr

def octets (ip : Ipv4Addr) : List UInt8 := [ip.o0, ip.o1, ip.o2, ip.o3]

theorem eq_ofSegments {a : Ipv4Addr} {hi lo : UInt16} {rest : List UInt16}
    (h : a.octets <+: (hi :: lo :: rest).flatMap segmentOctets) : ofSegments hi lo = a := by
  obtain ⟨more, hmore⟩ := h
  have hsplit : a.octets ++ more = (ofSegments hi lo).octets ++ rest.flatMap segmentOctets := hmore
  obtain ⟨hoctets, _⟩ := List.append_inj hsplit rfl
  cases a
  simpa [octets, ofSegments, eq_comm] using hoctets

end Ipv4Addr

namespace Ipv6Addr

def segments (ip : Ipv6Addr) : List UInt16 :=
  [ip.s0, ip.s1, ip.s2, ip.s3, ip.s4, ip.s5, ip.s6, ip.s7]

def octets (ip : Ipv6Addr) : List UInt8 := ip.segments.flatMap segmentOctets

end Ipv6Addr

/-! ## Embeddings -/

/-- The standard ways to carry an IPv4 address. -/
inductive Embedding where
  | mapped
  | compatible
  /-- The well-known prefix of translators, 64:ff9b::/96. -/
  | nat64
  /-- The local-use prefix of translators, 64:ff9b:1::/48. -/
  | localNat64
  | sixToFour
deriving DecidableEq, Repr

namespace Embedding

def start : Embedding → List UInt16
  | mapped => [0, 0, 0, 0, 0, 0xffff]
  | compatible => [0, 0, 0, 0, 0, 0]
  | nat64 => [0x64, 0xff9b, 0, 0, 0, 0]
  | localNat64 => [0x64, 0xff9b, 1]
  | sixToFour => [0x2002]

/-- The octets behind them, up to the last one of the IPv4 address: after a prefix of 48 bits
octet 8 is reserved and stands between its halves. -/
def carrier (a : Ipv4Addr) : Embedding → List UInt8
  | localNat64 => [a.o0, a.o1, 0, a.o2, a.o3]
  | mapped | compatible | nat64 | sixToFour => a.octets

/-- `ip` carries `a`, whatever octets are left. -/
def Carries (e : Embedding) (ip : Ipv6Addr) (a : Ipv4Addr) : Prop :=
  e.start.flatMap segmentOctets ++ e.carrier a <+: ip.octets

instance (e : Embedding) (ip : Ipv6Addr) (a : Ipv4Addr) : Decidable (e.Carries ip a) :=
  inferInstanceAs (Decidable (_ <+: _))

variable {e : Embedding} {ip : Ipv6Addr} {a : Ipv4Addr}

theorem Carries.segments (h : e.Carries ip a) :
    e.start <+: ip.segments ∧
      e.carrier a <+: (ip.segments.drop e.start.length).flatMap segmentOctets := by
  refine segmentOctets_prefix ?_ h
  cases e <;> simp [start, Ipv6Addr.segments]

/-- All the embeddings but one are taken apart where they carry the address. -/
theorem Carries.found (h : e.Carries ip a) (he : e ≠ localNat64) :
    ip.toIpv4 = some a ∨ embeddedV4 ip = some a := by
  obtain ⟨hstart, hcarrier⟩ := h.segments
  cases e with
  | localNat64 => exact absurd rfl he
  | mapped =>
      left
      simp only [start, Ipv6Addr.segments, List.cons_prefix_cons, List.nil_prefix,
        and_true] at hstart
      rw [Ipv6Addr.toIpv4, if_pos (by simp [← hstart]), Ipv4Addr.eq_ofSegments hcarrier]
  | compatible =>
      left
      simp only [start, Ipv6Addr.segments, List.cons_prefix_cons, List.nil_prefix,
        and_true] at hstart
      rw [Ipv6Addr.toIpv4, if_pos (by simp [← hstart]), Ipv4Addr.eq_ofSegments hcarrier]
  | nat64 =>
      right
      simp only [start, Ipv6Addr.segments, List.cons_prefix_cons, List.nil_prefix,
        and_true] at hstart
      rw [embeddedV4, if_pos (by simp [← hstart]), Ipv4Addr.eq_ofSegments hcarrier]
  | sixToFour =>
      right
      simp only [start, Ipv6Addr.segments, List.cons_prefix_cons, List.nil_prefix,
        and_true] at hstart
      rw [embeddedV4, if_neg (by simp [← hstart]), if_pos hstart.symm,
        Ipv4Addr.eq_ofSegments hcarrier]

/-- Behind the local-use prefix only the last two segments are looked at. -/
theorem Carries.localNat64_eq (h : localNat64.Carries ip a) :
    isDisallowedIp (.v6 ip) = isDisallowedV4 (.ofSegments ip.s6 ip.s7) := by
  obtain ⟨hstart, _⟩ := h.segments
  simp only [start, Ipv6Addr.segments, List.cons_prefix_cons] at hstart
  obtain ⟨h0, h1, _⟩ := hstart
  have hmapped : ip.toIpv4 = none := by simp [Ipv6Addr.toIpv4, ← h0]
  have hembedded : embeddedV4 ip = some (.ofSegments ip.s6 ip.s7) := by
    simp [embeddedV4, ← h0, ← h1]
  have hown : isDisallowedV6 ip = false := by
    have hmasks : (0x64 &&& 0xfe00 : UInt16) ≠ 0xfc00 ∧ (0x64 &&& 0xffc0 : UInt16) ≠ 0xfe80 ∧
        (0x64 &&& 0xff00 : UInt16) ≠ 0xff00 := by decide
    simp [isDisallowedV6, Ipv6Addr.isUnspecified, Ipv6Addr.isLoopback, Ipv6Addr.zeroPrefix, ← h0,
      hmasks]
  simp [isDisallowedIp, hmapped, hembedded, hown]

end Embedding

open Bulletin.Embedding

/-- A form of a blocked address is blocked exactly unless it has the local-use prefix of translators
and its last 32 bits, which are not where that prefix carries an address, are not blocked. -/
theorem embedded_blocked_iff {e : Embedding} {ip : Ipv6Addr} {a : Ipv4Addr} (h : e.Carries ip a)
    (ha : isDisallowedV4 a = true) : isDisallowedIp (.v6 ip) = true ↔
      ¬ (e = localNat64 ∧ isDisallowedV4 (.ofSegments ip.s6 ip.s7) = false) := by
  by_cases he : e = localNat64
  · subst he
    rw [h.localNat64_eq]
    simp
  · simp only [he, false_and, not_false_iff, iff_true]
    exact isDisallowedIp_of_carries (h.found he) ha

/-- The loopback address behind the local-use prefix, with a public address for a suffix. -/
def localLoopback : Ipv6Addr := ⟨0x64, 0xff9b, 1, 0x7f00, 0, 0x0100, 0x0808, 0x0808⟩

theorem embedded_blocked_iff_loopback : isDisallowedIp (.v6 localLoopback) = true ↔
    ¬ (localNat64 = localNat64 ∧ isDisallowedV4 ⟨8, 8, 8, 8⟩ = false) :=
  embedded_blocked_iff (a := ⟨127, 0, 0, 1⟩) (by decide) (by decide)

theorem local_loopback_allowed : ∃ (e : Embedding) (ip : Ipv6Addr) (a : Ipv4Addr),
    isDisallowedV4 a = true ∧ e.Carries ip a ∧ isDisallowedIp (.v6 ip) = false :=
  ⟨localNat64, localLoopback, ⟨127, 0, 0, 1⟩, by decide, by decide, by decide⟩

end Bulletin
