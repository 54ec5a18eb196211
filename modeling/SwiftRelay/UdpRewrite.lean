/-
**UDP checksums of whole packets.**

A UDP datagram says in its header how long it is, and its checksum covers that many bytes.  The
rewriting takes the datagram to be as long as the packet says, so that bytes behind the datagram are
added to the new checksum, and their number to the length in the pseudo-header.  The receiver does
not add them.

Main definitions:

* `overhang` — what the bytes behind the datagram add.

Main results:

* `udp_checksum_survives_iff` — when the new checksum verifies;
* `udp_checksum_lost_behind_padding` — a packet with two bytes behind its datagram.
-/

import SwiftRelay.AddressRewrite

set_option autoImplicit false

namespace SwiftRelay

open OnesComplement (Verifies wrap)

/-! ### Bytes behind a datagram -/

/-- What the bytes behind a datagram of `len` bytes add to the sum of the whole segment: their
number, and their words, which are shifted by a byte if `len` is odd. -/
def overhang (data : List UInt8) (len : ℕ) : ℕ :=
  data.length - len + sumWords (if len % 2 = 0 then data.drop len else 0 :: data.drop len)

theorem transportSum_eq_add_overhang (src dst : Ipv4Addr) (protocol : UInt8) {data : List UInt8}
    {len : ℕ} (hle : len ≤ data.length) (hlt : data.length < 65536) :
    transportSum src dst protocol data.length data =
      transportSum src dst protocol len (data.take len) + overhang data len := by
  have hsplit := sumWords_append (data.take len) (data.drop len)
  rw [List.take_append_drop, List.length_take, Nat.min_eq_left hle] at hsplit
  rw [transportSum_eq, transportSum_eq, hsplit, overhang]
  omega

/-- If the sum of the whole segment verifies, then that of the datagram does when the bytes behind
it add nothing. -/
theorem verifies_take_iff {src dst : Ipv4Addr} {data : List UInt8} {len : ℕ}
    (hle : len ≤ data.length) (hlt : data.length < 65536)
    (h : Verifies 65536 (transportSum src dst 17 data.length data)) :
    Verifies 65536 (transportSum src dst 17 len (data.take len)) ↔ 65535 ∣ overhang data len := by
  have hpos : 0 < transportSum src dst 17 len (data.take len) := by
    have hprotocol : (17 : UInt8).toNat = 17 := rfl
    rw [transportSum_eq]
    omega
  rw [verifies_iff_dvd, transportSum_eq_add_overhang src dst 17 hle hlt] at h
  rw [verifies_iff_dvd]
  constructor
  · rintro ⟨-, hdvd⟩
    exact (Nat.dvd_add_right hdvd).1 h.2
  · intro hdvd
    exact ⟨hpos, (Nat.dvd_add_left hdvd).1 h.2⟩

/-! ### The recalculated checksum -/

section Recalculate

variable {packet : List UInt8}

/-- The checksum that is written for `c`: zero has another representation. -/
def nonzeroChecksum (c : UInt16) : UInt16 := if c = 0 then 0xFFFF else c

theorem nonzeroChecksum_ne_zero (c : UInt16) : nonzeroChecksum c ≠ 0 := by
  unfold nonzeroChecksum
  split
  · decide
  · assumption

theorem nonzeroChecksum_mod (c : UInt16) :
    (nonzeroChecksum c).toNat % 65535 = c.toNat % 65535 := by
  unfold nonzeroChecksum
  split
  · next hzero =>
      subst hzero
      rfl
  · rfl

theorem recalculateUdpChecksum_eq (h : Trim packet) (hudp : ihlOf packet + 8 ≤ packet.length)
    (hused : u16At packet (ihlOf packet + 6) ≠ 0) :
    recalculateUdpChecksum packet = putU16 packet (ihlOf packet + 6)
      (nonzeroChecksum (transportChecksum (putU16 packet (ihlOf packet + 6) 0) 17 (ihlOf packet)
        (packet.length - ihlOf packet))) := by
  have hlength := h.length_ge
  simp only [recalculateUdpChecksum, h.totalLen]
  rw [if_neg (by omega), if_neg (by omega), if_neg (by simp; omega), if_neg (by omega),
    if_neg hused, putU16_putU16]
  rfl

theorem recalculateUdpChecksum_of_zero (hzero : u16At packet (ihlOf packet + 6) = 0) :
    recalculateUdpChecksum packet = packet := by
  simp only [recalculateUdpChecksum, hzero, if_true]
  split_ifs <;> rfl

end Recalculate

/-! ### Every UDP packet that the parser hands on -/

section Parsed

variable {policy : DestPolicy} {packet raw payload : List UInt8} {stats : DestStats}
  {gameAddr : SocketAddr} {info : OriginalPacketInfo}

theorem whole_of_parse_udp
    (h : (parseIpPacketFull policy packet stats).1 = some (.udp gameAddr payload info raw)) :
    Whole raw 17 udpHeaderSize ∧ udpHeaderSize ≤ udpLenOf (segmentOf raw) ∧
      udpLenOf (segmentOf raw) ≤ (segmentOf raw).length := by
  have htrim := trim_of_parse h rfl
  obtain ⟨hmore, hoffset, hprotocol, hudp⟩ := parseUdp_of_parse h
  obtain ⟨hmin, hlen, -⟩ := parseUdp_inv hudp
  rw [← ihlOf_trimmed (parsedBy_of_parse h).1] at hmin hlen
  rw [← raw_of_parse h rfl] at hmore hoffset hprotocol hmin hlen
  have hudpLen : udpLenOf (segmentOf raw) = (u16At raw (ihlOf raw + 4)).toNat := by
    rw [udpLenOf, htrim.segmentOf_eq, u16At_drop]
  refine ⟨⟨htrim, hprotocol, hmore, hoffset, by omega⟩, by rwa [hudpLen], ?_⟩
  rw [hudpLen, htrim.segmentOf_eq, List.length_drop]
  omega

/-- The transport bytes of a whole UDP packet after rewriting. -/
theorem Whole.segmentOf_rewrite_udp (h : Whole raw 17 udpHeaderSize) (field : AddrField)
    (newIp : Ipv4Addr) :
    (u16At (segmentOf raw) 6 = 0 ∧ segmentOf (field.rewrite raw newIp) = segmentOf raw) ∨
    u16At (segmentOf raw) 6 ≠ 0 ∧
      ∃ v, v ≠ 0 ∧ segmentOf (field.rewrite raw newIp) = putU16 (segmentOf raw) 6 v ∧
      Verifies 65536 (transportSum (srcIpOf (field.rewrite raw newIp))
        (dstIpOf (field.rewrite raw newIp)) 17 (segmentOf raw).length
        (segmentOf (field.rewrite raw newIp))) := by
  have htrim : Trim (readdress field raw newIp) := trim_readdress h.toTrim
  have hlen : ihlOf raw + 8 ≤ raw.length := h.header_le
  have hrewrite : field.rewrite raw newIp = recalculateUdpChecksum (readdress field raw newIp) :=
    h.rewrite_eq field newIp
  have hsegment : segmentOf (field.rewrite raw newIp) =
      (field.rewrite raw newIp).drop (ihlOf raw) := by
    rw [(trim_rewrite h.toTrim).segmentOf_eq, ihlOf_rewrite h.toTrim]
  have hfield : u16At (readdress field raw newIp) (ihlOf raw + 6) = u16At (segmentOf raw) 6 := by
    rw [h.segmentOf_eq, ← drop_readdress h.toTrim, u16At_drop]
  by_cases hzero : u16At (segmentOf raw) 6 = 0
  · left
    refine ⟨hzero, ?_⟩
    rw [hsegment, hrewrite, recalculateUdpChecksum_of_zero (by rwa [ihlOf_readdress, hfield]),
      drop_readdress h.toTrim, h.segmentOf_eq]
  · right
    have heq := recalculateUdpChecksum_eq htrim (by simpa using hlen)
      (by rwa [ihlOf_readdress, hfield])
    rw [ihlOf_readdress, length_readdress] at heq
    have hput := congrArg (List.drop (ihlOf raw)) (hrewrite.trans heq)
    rw [drop_putU16, drop_readdress h.toTrim, ← h.segmentOf_eq, ← hsegment] at hput
    have hverifies := verifies_recalculate (o := 6) htrim (by decide : 0 < (17 : UInt8).toNat) rfl
      (by simp; omega) (nonzeroChecksum_mod _)
    have hlength : (segmentOf raw).length = raw.length - ihlOf raw := by
      rw [h.segmentOf_eq, List.length_drop]
    rw [ihlOf_readdress, length_readdress, ← heq, ← hrewrite, ← hsegment,
      ← srcIpOf_rewrite h.toTrim, ← dstIpOf_rewrite h.toTrim, ← hlength] at hverifies
    exact ⟨hzero, _, nonzeroChecksum_ne_zero _, hput, hverifies⟩

/-- **When a UDP checksum survives.**  A checksum that was omitted stays omitted.  One that verified
does so after rewriting exactly if the bytes behind the datagram, with their number, add up to
nothing. -/
theorem udp_checksum_survives_iff
    (h : (parseIpPacketFull policy packet stats).1 = some (.udp gameAddr payload info raw))
    (field : AddrField) (newIp : Ipv4Addr) :
    (u16At (segmentOf raw) 6 = 0 → u16At (segmentOf (field.rewrite raw newIp)) 6 = 0) ∧
    (u16At (segmentOf raw) 6 ≠ 0 → UdpVerifies (srcIpOf raw) (dstIpOf raw) (segmentOf raw) →
      (u16At (segmentOf (field.rewrite raw newIp)) 6 ≠ 0 ∧
        UdpVerifies (srcIpOf (field.rewrite raw newIp)) (dstIpOf (field.rewrite raw newIp))
          (segmentOf (field.rewrite raw newIp)) ↔
        65535 ∣ overhang (segmentOf raw) (udpLenOf (segmentOf raw)))) := by
  obtain ⟨hwhole, hmin, hlen⟩ := whole_of_parse_udp h
  have hsize : udpHeaderSize = 8 := rfl
  have htotal : (segmentOf raw).length < 65536 := by
    have hlt : totalLenOf raw < 65536 := (u16At raw 2).toNat_lt
    rw [hwhole.segmentOf_eq, List.length_drop, ← hwhole.totalLen]
    omega
  obtain ⟨hzero, hsame⟩ | ⟨hused, v, hv, hsegment, hverifies⟩ :=
    hwhole.segmentOf_rewrite_udp field newIp
  · refine ⟨fun _ => by rwa [hsame], fun hne => absurd hzero hne⟩
  · have hfield : u16At (segmentOf (field.rewrite raw newIp)) 6 = v := by
      rw [hsegment, u16At_putU16_self (by omega)]
    have hlength : (segmentOf (field.rewrite raw newIp)).length = (segmentOf raw).length := by
      rw [hsegment, length_putU16]
    have hudpLen : udpLenOf (segmentOf (field.rewrite raw newIp)) = udpLenOf (segmentOf raw) := by
      rw [hsegment, udpLenOf, u16At, byteAt_putU16_of_outside (by omega),
        byteAt_putU16_of_outside (by omega)]
      rfl
    have hoverhang : overhang (segmentOf (field.rewrite raw newIp)) (udpLenOf (segmentOf raw)) =
        overhang (segmentOf raw) (udpLenOf (segmentOf raw)) := by
      have hdrop : (segmentOf (field.rewrite raw newIp)).drop (udpLenOf (segmentOf raw)) =
          (segmentOf raw).drop (udpLenOf (segmentOf raw)) := by
        rw [hsegment]
        exact drop_putBytes_of_le (by simp; omega)
      rw [overhang, overhang, hlength, hdrop]
    refine ⟨fun hzero => absurd hzero hused, fun _ _ => ?_⟩
    rw [← hlength] at hverifies
    rw [hfield, UdpVerifies, hudpLen, verifies_take_iff (by omega) (by omega) hverifies, hoverhang]
    exact and_iff_right hv

/-- A UDP packet with three bytes of payload. -/
def sampleUdpPacket : List UInt8 :=
  [0x45, 0, 0, 31, 0, 9, 0x40, 0, 64, 17, 0, 0, 10, 0, 0, 2, 128, 116, 1, 1,
    0xC0, 0, 0xC3, 0x50, 0, 11, 0xED, 0x0D, 1, 2, 3]

theorem udp_checksum_survives_iff_sample :
    (parseIpPacketFull samplePolicy sampleUdpPacket .new).1 =
      some (.udp ⟨⟨128, 116, 1, 1⟩, 50000⟩ [1, 2, 3] (originalInfoOf sampleUdpPacket 20)
        sampleUdpPacket) ∧
    UdpVerifies ⟨10, 0, 0, 2⟩ ⟨128, 116, 1, 1⟩ (segmentOf sampleUdpPacket) ∧
    UdpVerifies (srcIpOf (rewriteSrcIp sampleUdpPacket ⟨10, 200, 42, 7⟩))
      (dstIpOf (rewriteSrcIp sampleUdpPacket ⟨10, 200, 42, 7⟩))
      (segmentOf (rewriteSrcIp sampleUdpPacket ⟨10, 200, 42, 7⟩)) := by
  have hparse : (parseIpPacketFull samplePolicy sampleUdpPacket .new).1 =
      some (.udp ⟨⟨128, 116, 1, 1⟩, 50000⟩ [1, 2, 3] (originalInfoOf sampleUdpPacket 20)
        sampleUdpPacket) := by decide +kernel
  have hvalid : UdpVerifies ⟨10, 0, 0, 2⟩ ⟨128, 116, 1, 1⟩ (segmentOf sampleUdpPacket) :=
    verifies_iff_dvd.2 (by decide +kernel)
  obtain ⟨-, hsurvives⟩ := udp_checksum_survives_iff hparse .src ⟨10, 200, 42, 7⟩
  exact ⟨hparse, hvalid, ((hsurvives (by decide +kernel) hvalid).2 (by decide +kernel)).2⟩

/-- A UDP packet without payload and two zero bytes behind its datagram. -/
def paddedUdpPacket : List UInt8 :=
  [0x45, 0, 0, 30, 0, 9, 0x40, 0, 64, 17, 0, 0, 10, 0, 0, 2, 128, 116, 1, 1,
    0xC0, 0, 0xC3, 0x50, 0, 8, 0xF1, 0x15, 0, 0]

/-- **A valid checksum is lost behind padding.** -/
theorem udp_checksum_lost_behind_padding :
    (parseIpPacketFull samplePolicy paddedUdpPacket .new).1 =
      some (.udp ⟨⟨128, 116, 1, 1⟩, 50000⟩ [] (originalInfoOf paddedUdpPacket 20)
        paddedUdpPacket) ∧
    u16At (segmentOf paddedUdpPacket) 6 ≠ 0 ∧
    UdpVerifies ⟨10, 0, 0, 2⟩ ⟨128, 116, 1, 1⟩ (segmentOf paddedUdpPacket) ∧
    srcIpOf (rewriteSrcIp paddedUdpPacket ⟨10, 200, 42, 7⟩) = ⟨10, 200, 42, 7⟩ ∧
    dstIpOf (rewriteSrcIp paddedUdpPacket ⟨10, 200, 42, 7⟩) = ⟨128, 116, 1, 1⟩ ∧
    ¬ UdpVerifies ⟨10, 200, 42, 7⟩ ⟨128, 116, 1, 1⟩
      (segmentOf (rewriteSrcIp paddedUdpPacket ⟨10, 200, 42, 7⟩)) := by
  refine ⟨by decide +kernel, by decide +kernel, verifies_iff_dvd.2 (by decide +kernel),
    by decide +kernel, by decide +kernel, fun h => ?_⟩
  exact absurd (verifies_iff_dvd.1 h) (by decide +kernel)

end Parsed

end SwiftRelay
