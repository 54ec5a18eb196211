/-
**Response packets are encoded alike and read back.**

Both encoders of a response write the same bytes in the same order, one into a fresh vector of zeros
and one into the front of a buffer that earlier packets have left dirty.  Every byte of the packet
is written, so what was there before does not show; and nothing behind the packet is touched.  The
parser for client packets reads the result back: the payload, the type of service and the endpoints,
exchanged.

Main definitions:

* `stampResponse` — the writes of the encoders;
* `writeResponseIpPacketIntoWithTos` — the encoder for a buffer;
* `mayForwardUdp` — the destinations of whole UDP packets that the relay forwards.

Main results:

* `stampResponse_eq` — what was in the packet before does not show;
* `writeResponse_eq_into` — the datapath sends what the encoder for a buffer has written;
* `headerVerifies_response` — the header checksum verifies;
* `parse_response` — the parser reads a response back;
* `response_encoders_agree_and_decode` — all of it for either encoder.
-/

import SwiftRelay.Checksum

set_option autoImplicit false

namespace SwiftRelay

open OnesComplement (Verifies wrap)

/-! ### Writing at a position -/

section Writes

variable (front old bytes : List UInt8) {rest : List UInt8} {o : ℕ}

theorem putBytes_replace (hfront : front.length = o) (h : old.length = bytes.length) :
    putBytes (front ++ (old ++ rest)) o bytes = front ++ (bytes ++ rest) := by
  induction bytes generalizing front old o with
  | nil => rw [List.length_eq_zero_iff.1 h, putBytes]
  | cons b bs ih =>
      cases old with
      | nil => cases h
      | cons a old =>
          have hnext : (front ++ [a]).length = o + 1 := by simp [hfront]
          have hsplit : front ++ (a :: old ++ rest) = (front ++ [a]) ++ (old ++ rest) := by simp
          rw [putBytes, hsplit, ih _ _ hnext (Nat.succ.inj h), ← hfront]
          simp

/-- A packet is overwritten from the front, piece by piece. -/
theorem putBytes_next (packet : List UInt8) {n : ℕ} (hfront : front.length = n)
    (h : n + bytes.length ≤ packet.length) :
    putBytes (front ++ packet.drop n) n bytes =
      (front ++ bytes) ++ packet.drop (n + bytes.length) := by
  have hold : ((packet.drop n).take bytes.length).length = bytes.length := by
    rw [List.length_take_of_le]
    rw [List.length_drop]
    omega
  conv_lhs => rw [← List.take_append_drop bytes.length (packet.drop n)]
  rw [putBytes_replace front _ bytes hfront hold, List.append_assoc, List.drop_drop]

end Writes

/-! ### The encoders -/

section Encoders

variable (packet udpPayload : List UInt8) (original : OriginalPacketInfo) (tos : UInt8)

/-- The writes of the encoders to the IPv4 header, in their order. -/
def stampIpHeader (totalLen : ℕ) : List UInt8 :=
  let packet := putBytes packet 0
    [0x45, tos, highByte totalLen, lowByte totalLen, 0, 0, 0x40, 0, 64, 17, 0, 0]
  let packet := putBytes packet 12 original.dstIp.octets
  let packet := putBytes packet 16 original.srcIp.octets
  putU16 packet 10 (calculateIpChecksum (packet.take ipHeaderMin))

/-- The writes of the encoders to a packet of the right length, in their order. -/
def stampResponse : List UInt8 :=
  let udpLen := udpHeaderSize + udpPayload.length
  let totalLen := ipHeaderMin + udpLen
  let packet := stampIpHeader packet original tos totalLen
  let udpStart := ipHeaderMin
  let packet := putU16 packet udpStart original.dstPort
  let packet := putU16 packet (udpStart + 2) original.srcPort
  let packet := putBytes packet (udpStart + 4) [highByte udpLen, lowByte udpLen, 0, 0]
  putBytes packet (udpStart + udpHeaderSize) udpPayload

/-- Write a response to the front of a buffer, if it fits: its length, and the buffer. -/
def writeResponseIpPacketIntoWithTos (dst : List UInt8) : Option ℕ × List UInt8 :=
  let totalLen := ipHeaderMin + (udpHeaderSize + udpPayload.length)
  if totalLen > dst.length then (none, dst)
  else
    (some totalLen, stampResponse (dst.take totalLen) udpPayload original tos ++ dst.drop totalLen)

end Encoders

section Agree

variable {packet udpPayload : List UInt8} {original : OriginalPacketInfo} {tos : UInt8}

variable (original) in
/-- The addresses of the header behind its first twelve bytes. -/
theorem putBytes_addresses (start : List UInt8) (hstart : start.length = 12)
    (h : 20 ≤ packet.length) :
    putBytes (putBytes (putBytes packet 0 start) 12 original.dstIp.octets) 16
      original.srcIp.octets =
    start ++ original.dstIp.octets ++ original.srcIp.octets ++ packet.drop 20 := by
  have hfirst : putBytes packet 0 start = start ++ packet.drop 12 := by
    have hnext := putBytes_next [] start packet (n := 0) rfl (by omega)
    rwa [hstart] at hnext
  rw [hfirst, putBytes_next start _ _ hstart (by simp [Ipv4Addr.octets]; omega)]
  exact putBytes_next (start ++ original.dstIp.octets) _ _ (by simp [hstart, Ipv4Addr.octets])
    (by simp [Ipv4Addr.octets]; omega)

theorem stampIpHeader_eq {totalLen : ℕ} (h : 20 ≤ packet.length) :
    stampIpHeader packet original tos totalLen = responseIpHeader totalLen original tos
      (calculateIpChecksum (responseIpHeader totalLen original tos 0)) ++ packet.drop 20 := by
  have hplain := putBytes_addresses original
    [0x45, tos, highByte totalLen, lowByte totalLen, 0, 0, 0x40, 0, 64, 17, 0, 0] rfl h
  have htake : (responseIpHeader totalLen original tos 0 ++ packet.drop 20).take ipHeaderMin =
      responseIpHeader totalLen original tos 0 := List.take_left' rfl
  unfold stampIpHeader
  simp only
  rw [hplain]
  change putU16 (responseIpHeader totalLen original tos 0 ++ packet.drop 20) 10
    (calculateIpChecksum ((responseIpHeader totalLen original tos 0 ++
      packet.drop 20).take ipHeaderMin)) = _
  rw [htake]
  exact putBytes_replace [0x45, tos, highByte totalLen, lowByte totalLen, 0, 0, 0x40, 0, 64, 17]
    [0, 0] _ rfl rfl

theorem stampResponse_eq
    (h : packet.length = ipHeaderMin + (udpHeaderSize + udpPayload.length)) :
    stampResponse packet udpPayload original tos =
      buildResponseIpPacketWithTos udpPayload original tos := by
  simp only [ipHeaderMin, udpHeaderSize] at h
  unfold stampResponse buildResponseIpPacketWithTos
  simp only
  rw [stampIpHeader_eq (by omega)]
  generalize hheader : responseIpHeader _ original tos (calculateIpChecksum _) = header
  have hlen : header.length = 20 := by rw [← hheader]; rfl
  -- the ports, the length and the checksum, and then the payload
  have hports (dstPort srcPort lengths : List UInt8) (hdst : dstPort.length = 2)
      (hsrc : srcPort.length = 2) (hlengths : lengths.length = 4) :
      putBytes (putBytes (putBytes (putBytes (header ++ packet.drop 20) 20 dstPort) 22 srcPort) 24
        lengths) 28 udpPayload = header ++ dstPort ++ srcPort ++ lengths ++ udpPayload := by
    rw [putBytes_next header _ _ hlen (by omega), hdst,
      putBytes_next (header ++ dstPort) _ _ (by simp [hlen, hdst]) (by omega), hsrc,
      putBytes_next (header ++ dstPort ++ srcPort) _ _ (by simp [hlen, hdst, hsrc]) (by omega),
      hlengths, putBytes_next (header ++ dstPort ++ srcPort ++ lengths) _ _
        (by simp [hlen, hdst, hsrc, hlengths]) (by omega),
      List.drop_eq_nil_of_le (by omega), List.append_nil]
  rw [putU16, putU16]
  refine (hports _ _ _ rfl rfl rfl).trans ?_
  simp [responseUdpHeader]

/-- Where the packet fits, the front of the buffer is the packet and the rest is as it was. -/
theorem writeResponseInto_of_le {dst : List UInt8}
    (h : ipHeaderMin + (udpHeaderSize + udpPayload.length) ≤ dst.length) :
    writeResponseIpPacketIntoWithTos udpPayload original tos dst =
      (some (ipHeaderMin + (udpHeaderSize + udpPayload.length)),
        buildResponseIpPacketWithTos udpPayload original tos ++
          dst.drop (ipHeaderMin + (udpHeaderSize + udpPayload.length))) := by
  rw [writeResponseIpPacketIntoWithTos, if_neg (Nat.not_lt.2 h),
    stampResponse_eq (List.length_take_of_le h)]

/-- What the datapath reads from the buffer afterwards. -/
theorem writeResponse_eq_into (dst : List UInt8) :
    writeResponseIpPacketWithTos dst.length udpPayload original tos =
      (writeResponseIpPacketIntoWithTos udpPayload original tos dst).1.map fun total =>
        (writeResponseIpPacketIntoWithTos udpPayload original tos dst).2.take total := by
  unfold writeResponseIpPacketWithTos
  split
  · next h => rw [writeResponseIpPacketIntoWithTos, if_pos h, Option.map_none]
  · next h =>
      rw [writeResponseInto_of_le (Nat.not_lt.1 h), Option.map_some]
      exact congrArg some (List.take_left' (length_buildResponse ..)).symm

end Agree

/-! ### Reading a response back -/

theorem toNat_u16At_of_bytes {l : List UInt8} {i n : ℕ} (hhigh : byteAt l i = highByte n)
    (hlow : byteAt l (i + 1) = lowByte n) (h : n < 65536) : (u16At l i).toNat = n := by
  rw [toNat_u16At, hhigh, hlow, toNat_lowByte, highByte, UInt8.toNat_ofNat']
  omega

theorem u16At_of_bytes {l : List UInt8} {i : ℕ} {v : UInt16}
    (hhigh : byteAt l i = highByte v.toNat) (hlow : byteAt l (i + 1) = lowByte v.toNat) :
    u16At l i = v :=
  UInt16.toNat_inj.1 (toNat_u16At_of_bytes hhigh hlow v.toNat_lt)

/-- The destinations of whole UDP packets that the relay forwards. -/
def mayForwardUdp (policy : DestPolicy) (dst : SocketAddr) : Bool :=
  !isForbiddenDst dst.ip && !isForbiddenDstPort dst.port && policy.allows 17 dst.ip (some dst.port)

/-- The answer for a whole UDP packet of a sound length. -/
theorem parseUdp_fst (policy : DestPolicy) {packet : List UInt8} (stats : DestStats) (start : ℕ)
    (hprotocol : protocolOf packet = 17)
    (hmin : udpHeaderSize ≤ (u16At packet (start + 4)).toNat)
    (hfit : start + (u16At packet (start + 4)).toNat ≤ packet.length) :
    (parseUdp policy packet start stats).1 =
      some (if mayForwardUdp policy ⟨dstIpOf packet, u16At packet (start + 2)⟩ then
        .udp ⟨dstIpOf packet, u16At packet (start + 2)⟩
          ((packet.take (start + (u16At packet (start + 4)).toNat)).drop (start + udpHeaderSize))
          (originalInfoOf packet start) packet
      else .forbiddenDst) := by
  have hlen : ¬ ((decide ((u16At packet (start + 4)).toNat < udpHeaderSize) ||
      decide (start + (u16At packet (start + 4)).toNat > packet.length)) = true) := by
    rw [Bool.or_eq_true, decide_eq_true_eq, decide_eq_true_eq]
    omega
  rw [parseUdp, if_neg (by omega)]
  simp only
  rw [if_neg hlen, mayForwardUdp]
  cases isForbiddenDst (dstIpOf packet) with
  | true => rfl
  | false =>
      cases isForbiddenDstPort (u16At packet (start + 2)) with
      | true => rfl
      | false => exact (ifPermitted_fst).trans (by rw [hprotocol]; rfl)

section Decode

variable {udpPayload : List UInt8} {original : OriginalPacketInfo} {tos : UInt8}

theorem byteAt_zero_response :
    byteAt (buildResponseIpPacketWithTos udpPayload original tos) 0 = 0x45 := rfl

theorem ihlOf_response : ihlOf (buildResponseIpPacketWithTos udpPayload original tos) = 20 := by
  rw [ihlOf, byteAt_zero_response]
  decide

theorem headerVerifies_response :
    HeaderVerifies (buildResponseIpPacketWithTos udpPayload original tos) := by
  generalize htotal : ipHeaderMin + (udpHeaderSize + udpPayload.length) = totalLen
  have hsum (checksum : UInt16) : sumWords (responseIpHeader totalLen original tos checksum) =
      sumWords (responseIpHeader totalLen original tos 0) + checksum.toNat := by
    have hput : responseIpHeader totalLen original tos checksum =
        putU16 (responseIpHeader totalLen original tos 0) 10 checksum := rfl
    have hzero : (u16At (responseIpHeader totalLen original tos 0) 10).toNat = 0 :=
      toNat_u16At_of_bytes rfl rfl (by decide)
    have hwords := sumWords_putU16 (l := responseIpHeader totalLen original tos 0) (o := 10)
      (v := checksum) rfl (Nat.le_of_ble_eq_true rfl)
    rw [hput]
    omega
  have hlt : sumWords (responseIpHeader totalLen original tos 0) < 2 ^ 32 := by
    have hle := sumWords_le (responseIpHeader totalLen original tos 0)
    have hlen : (responseIpHeader totalLen original tos 0).length = 20 := rfl
    omega
  have hheader : (buildResponseIpPacketWithTos udpPayload original tos).take
      (ihlOf (buildResponseIpPacketWithTos udpPayload original tos)) =
      responseIpHeader totalLen original tos
        (calculateIpChecksum (responseIpHeader totalLen original tos 0)) := by
    rw [ihlOf_response, ← htotal, buildResponseIpPacketWithTos]
    simp only [List.append_assoc]
    exact List.take_left' rfl
  rw [HeaderVerifies, hheader, hsum, calculateIpChecksum, Nat.mod_eq_of_lt hlt,
    toNat_not_foldCarries hlt]
  exact OnesComplement.verifies_add_complement (by decide) _

variable (original tos) in
/-- A response is a well-formed packet without padding. -/
theorem wellFormed_response (h : ipHeaderMin + (udpHeaderSize + udpPayload.length) ≤ 65535) :
    WellFormed (buildResponseIpPacketWithTos udpPayload original tos) ∧
      trimmed (buildResponseIpPacketWithTos udpPayload original tos) =
        buildResponseIpPacketWithTos udpPayload original tos := by
  have htotal : totalLenOf (buildResponseIpPacketWithTos udpPayload original tos) =
      ipHeaderMin + (udpHeaderSize + udpPayload.length) :=
    toNat_u16At_of_bytes rfl rfl (by omega)
  refine ⟨⟨?_, ?_, ?_, ?_⟩, ?_⟩
  · rw [versionOf, byteAt_zero_response]
    decide
  · exact Nat.le_of_eq ihlOf_response.symm
  · rw [htotal, ihlOf_response]
    exact Nat.le_add_right 20 _
  · rw [htotal, length_buildResponse]
  · rw [trimmed, htotal, List.take_of_length_le (Nat.le_of_eq (length_buildResponse ..))]

/-- A response goes from the far endpoint to the original source. -/
theorem originalInfoOf_response :
    originalInfoOf (buildResponseIpPacketWithTos udpPayload original tos) 20 =
      ⟨tos, original.dstIp, original.dstPort, original.srcIp, original.srcPort⟩ := by
  rw [originalInfoOf, u16At_of_bytes (v := original.dstPort) rfl rfl,
    u16At_of_bytes (v := original.srcPort) rfl rfl]
  rfl

/-- The parser for client packets reads a response back. -/
theorem parse_response (policy : DestPolicy) (stats : DestStats)
    (h : ipHeaderMin + (udpHeaderSize + udpPayload.length) ≤ 65535) :
    (parseIpPacketFull policy (buildResponseIpPacketWithTos udpPayload original tos) stats).1 =
      some (if mayForwardUdp policy ⟨original.srcIp, original.srcPort⟩ then
        .udp ⟨original.srcIp, original.srcPort⟩ udpPayload
          ⟨tos, original.dstIp, original.dstPort, original.srcIp, original.srcPort⟩
          (buildResponseIpPacketWithTos udpPayload original tos)
      else .forbiddenDst) := by
  obtain ⟨hwell, htrim⟩ := wellFormed_response original tos h
  have hlength := length_buildResponse udpPayload original tos
  -- what the parser finds in the header
  have hbits : fragmentBitsOf (buildResponseIpPacketWithTos udpPayload original tos) = 0x4000 :=
    UInt16.toNat_inj.1 (toNat_u16At_of_bytes (n := 0x4000) rfl rfl (by decide))
  have hprotocol : protocolOf (buildResponseIpPacketWithTos udpPayload original tos) = 17 := rfl
  have hmore : moreFragmentsOf (buildResponseIpPacketWithTos udpPayload original tos) = false := by
    rw [moreFragmentsOf, hbits]
    decide
  have hoffset : fragmentOffsetOf (buildResponseIpPacketWithTos udpPayload original tos) = 0 := by
    rw [fragmentOffsetOf, hbits]
    decide
  have hudpLen : (u16At (buildResponseIpPacketWithTos udpPayload original tos) (20 + 4)).toNat =
      udpHeaderSize + udpPayload.length := toNat_u16At_of_bytes rfl rfl (by omega)
  have hdstPort : u16At (buildResponseIpPacketWithTos udpPayload original tos) (20 + 2) =
      original.srcPort := u16At_of_bytes rfl rfl
  have hpayload : ((buildResponseIpPacketWithTos udpPayload original tos).take
      (20 + (udpHeaderSize + udpPayload.length))).drop (20 + udpHeaderSize) = udpPayload := by
    have hwhole : (buildResponseIpPacketWithTos udpPayload original tos).take
        (20 + (udpHeaderSize + udpPayload.length)) =
        buildResponseIpPacketWithTos udpPayload original tos :=
      List.take_of_length_le (Nat.le_of_eq hlength)
    rw [hwhole]
    exact List.drop_left' rfl
  have hudp := parseUdp_fst policy stats 20 hprotocol
    (by rw [hudpLen]; exact Nat.le_add_right _ _) (by rw [hudpLen, hlength]; exact Nat.le_refl _)
  rw [hudpLen, hdstPort, originalInfoOf_response, hpayload] at hudp
  rw [parseIpPacketFull_of_wellFormed hwell, htrim, ihlOf_response, hmore, hoffset, hprotocol]
  exact hudp

/-- **The two response encoders agree and decode back.**  Where the packet fits into the buffer,
both encoders make the same packet and the rest of the buffer is as it was; where it does not, the
buffer is unchanged.  The header checksum of the packet verifies, and the parser reads back the
payload, the type of service and the exchanged endpoints if it may forward to the original source.
-/
theorem response_encoders_agree_and_decode (policy : DestPolicy) (stats : DestStats)
    (udpPayload dst : List UInt8) (original : OriginalPacketInfo) (tos : UInt8)
    (h : 28 + udpPayload.length ≤ 65535) :
    let total := 28 + udpPayload.length
    let packet := buildResponseIpPacketWithTos udpPayload original tos
    let written := writeResponseIpPacketIntoWithTos udpPayload original tos dst
    (total ≤ dst.length → written.1 = some total ∧ written.2.take total = packet ∧
      written.2.drop total = dst.drop total) ∧
    (dst.length < total → written = (none, dst)) ∧
    HeaderVerifies packet ∧
    (parseIpPacketFull policy packet stats).1 =
      some (if mayForwardUdp policy ⟨original.srcIp, original.srcPort⟩ then
        .udp ⟨original.srcIp, original.srcPort⟩ udpPayload
          ⟨tos, original.dstIp, original.dstPort, original.srcIp, original.srcPort⟩ packet
      else .forbiddenDst) := by
  intro total packet written
  have htotal : ipHeaderMin + (udpHeaderSize + udpPayload.length) = total := by
    simp only [ipHeaderMin, udpHeaderSize, total]
    omega
  have hlength : packet.length = total := (length_buildResponse ..).trans htotal
  refine ⟨fun hfits => ?_, fun hfull => ?_, headerVerifies_response, ?_⟩
  · have hwritten : written = (some total, packet ++ dst.drop total) := by
      rw [← htotal] at hfits ⊢
      exact writeResponseInto_of_le hfits
    rw [hwritten]
    exact ⟨rfl, List.take_left' hlength, List.drop_left' hlength⟩
  · exact if_pos (htotal ▸ hfull)
  · exact parse_response policy stats (htotal ▸ h)

/-- A client with a public address that sent to a game server. -/
def sampleOriginal : OriginalPacketInfo := ⟨0, ⟨8, 8, 8, 8⟩, 4000, ⟨9, 9, 9, 9⟩, 5000⟩

theorem response_encoders_agree_and_decode_sample :
    let policy : DestPolicy := ⟨.off, ⟨[]⟩, ⟨[]⟩, [], 16⟩
    (writeResponseIpPacketIntoWithTos [1, 2, 3] sampleOriginal 7 (List.replicate 40 9)).1 =
      some 31 ∧
    (parseIpPacketFull policy (buildResponseIpPacketWithTos [1, 2, 3] sampleOriginal 7) .new).1 =
      some (.udp ⟨⟨8, 8, 8, 8⟩, 4000⟩ [1, 2, 3] ⟨7, ⟨9, 9, 9, 9⟩, 5000, ⟨8, 8, 8, 8⟩, 4000⟩
        (buildResponseIpPacketWithTos [1, 2, 3] sampleOriginal 7)) := by
  intro policy
  obtain ⟨hfits, -, -, hparse⟩ := response_encoders_agree_and_decode policy .new [1, 2, 3]
    (List.replicate 40 9) sampleOriginal 7 (by decide)
  exact ⟨(hfits (by decide)).1, hparse⟩

end Decode

end SwiftRelay
