/-
**Rewriting the addresses of a packet.**

Packets that go through the TUN device carry the address that the session was given there.  On the
way in the source address is rewritten, on the way out the destination address, and with it the
checksums that cover it: that of the IPv4 header, and that of the TCP or UDP header with its
pseudo-header.  A fragment does not hold the whole segment, so there the transport checksum is
adjusted by the difference, and only where the fragment carries it.

Main definitions:

* `putBytes`, `putU16` — writing into a packet;
* `recalculateIpChecksum`, `recalculateTcpChecksum`, `recalculateUdpChecksum` — checksums of whole
  packets;
* `updateFragmentTcpChecksum`, `updateFragmentUdpChecksum` — those of first fragments;
* `rewriteIpField`, `rewriteSrcIp`, `rewriteDstIp`.

Main results:

* `srcIpOf_rewriteSrcIp` — the rewritten packet carries the new source address;
* `headerComplete_of_parse` — the packets that the parser hands out are rewritten so.
-/

import SwiftRelay.ResponsePacket

set_option autoImplicit false

namespace SwiftRelay

/-! ### Writing into a packet -/

/-- Overwrite the bytes from position `offset` on. -/
def putBytes (packet : List UInt8) (offset : ℕ) : List UInt8 → List UInt8
  | [] => packet
  | b :: bs => (putBytes packet (offset + 1) bs).set offset b

/-- Write a 16-bit number at position `offset`, high byte first. -/
def putU16 (packet : List UInt8) (offset : ℕ) (value : UInt16) : List UInt8 :=
  putBytes packet offset [highByte value.toNat, lowByte value.toNat]

@[simp] theorem length_putBytes (packet : List UInt8) (offset : ℕ) (bytes : List UInt8) :
    (putBytes packet offset bytes).length = packet.length := by
  induction bytes generalizing offset with
  | nil => rfl
  | cons b bs ih => rw [putBytes, List.length_set, ih]

@[simp] theorem length_putU16 (packet : List UInt8) (offset : ℕ) (value : UInt16) :
    (putU16 packet offset value).length = packet.length :=
  length_putBytes packet offset _

variable {packet : List UInt8}

theorem byteAt_set_of_ne {i j : ℕ} (b : UInt8) (h : i ≠ j) :
    byteAt (packet.set i b) j = byteAt packet j := by
  simp [byteAt, List.getD_eq_getElem?_getD, List.getElem?_set_ne h]

theorem byteAt_set_self {i : ℕ} (b : UInt8) (h : i < packet.length) :
    byteAt (packet.set i b) i = b := by
  simp [byteAt, List.getD_eq_getElem?_getD, h]

/-- What lies before or behind the bytes that are written stays. -/
theorem byteAt_putBytes_of_outside {offset j : ℕ} {bytes : List UInt8}
    (h : j < offset ∨ offset + bytes.length ≤ j) :
    byteAt (putBytes packet offset bytes) j = byteAt packet j := by
  induction bytes generalizing offset with
  | nil => rfl
  | cons b bs ih =>
      rw [List.length_cons] at h
      rw [putBytes, byteAt_set_of_ne b (by omega), ih (by omega)]

theorem byteAt_putU16_of_outside {offset j : ℕ} {value : UInt16} (h : j < offset ∨ offset + 2 ≤ j) :
    byteAt (putU16 packet offset value) j = byteAt packet j :=
  byteAt_putBytes_of_outside h

/-! ### Checksums of whole packets -/

def recalculateIpChecksum (packet : List UInt8) : List UInt8 :=
  if packet.length < ipHeaderMin then packet
  else
    let ihl := ihlOf packet
    if ihl < ipHeaderMin || packet.length < ihl then packet
    else
      -- the field counts as zero in the sum
      let packet := putU16 packet 10 0
      putU16 packet 10 (calculateIpChecksum (packet.take ihl))

/-- What a transport checksum covers besides the segment: addresses, protocol and length. -/
def pseudoHeader (packet : List UInt8) (protocol : UInt8) (len : ℕ) : List UInt8 :=
  (packet.take 20).drop 12 ++ [0, protocol, highByte len, lowByte len]

/-- The checksum of the segment of `len` bytes at `offset`. -/
def transportChecksum (packet : List UInt8) (protocol : UInt8) (offset len : ℕ) : UInt16 :=
  ~~~ UInt16.ofNat (foldCarries
    (sumWords (pseudoHeader packet protocol len) + sumWords ((packet.drop offset).take len)))

/-- The header length is taken as it is here; a whole packet passed the parser with a complete
header. -/
def recalculateTcpChecksum (packet : List UInt8) : List UInt8 :=
  if packet.length < ipHeaderMin then packet
  else
    let ihl := ihlOf packet
    if packet.length < ihl then packet
    else
      let totalLen := totalLenOf packet
      if totalLen < ihl || packet.length < totalLen then packet
      else
        let tcpLen := totalLen - ihl
        if tcpLen < 20 then packet
        else
          let packet := putU16 packet (ihl + 16) 0
          putU16 packet (ihl + 16) (transportChecksum packet 6 ihl tcpLen)

/-- A checksum that was omitted stays omitted, and one that comes out as zero is sent as its other
representation. -/
def recalculateUdpChecksum (packet : List UInt8) : List UInt8 :=
  if packet.length < ipHeaderMin then packet
  else
    let ihl := ihlOf packet
    if packet.length < ihl then packet
    else
      let totalLen := totalLenOf packet
      if totalLen < ihl + 8 || packet.length < totalLen then packet
      else
        let udpLen := totalLen - ihl
        if udpLen < 8 then packet
        else if u16At packet (ihl + 6) = 0 then packet
        else
          let packet := putU16 packet (ihl + 6) 0
          let checksum := transportChecksum packet 17 ihl udpLen
          putU16 packet (ihl + 6) (if checksum = 0 then 0xFFFF else checksum)

/-! ### Checksums of fragments -/

def ipv4FragmentOffset (packet : List UInt8) : Option UInt16 :=
  if packet.length < ipHeaderMin then none
  else if ihlOf packet < ipHeaderMin || packet.length < ihlOf packet then none
  else some (fragmentBitsOf packet &&& 0x1FFF)

def ipv4IsFragment (packet : List UInt8) : Bool :=
  (ipv4FragmentOffset packet).any fun offset =>
    fragmentBitsOf packet &&& 0x2000 ≠ 0 || offset ≠ 0

/-- The checksum after the address `oldIp` in what it covers became `newIp`. -/
def adjustChecksumForIpv4AddrChange (checksum : UInt16) (oldIp newIp : Ipv4Addr) : UInt16 :=
  let oldHi := u16At oldIp.octets 0
  let oldLo := u16At oldIp.octets 2
  let newHi := u16At newIp.octets 0
  let newLo := u16At newIp.octets 2
  ~~~ UInt16.ofNat (foldCarries ((~~~ checksum).toNat + (~~~ oldHi).toNat + newHi.toNat +
    (~~~ oldLo).toNat + newLo.toNat))

def updateFragmentTcpChecksum (packet : List UInt8) (oldIp newIp : Ipv4Addr) : List UInt8 :=
  let ihl := ihlOf packet
  if ihl < ipHeaderMin || packet.length < ihl + 18 then packet
  else
    putU16 packet (ihl + 16)
      (adjustChecksumForIpv4AddrChange (u16At packet (ihl + 16)) oldIp newIp)

def updateFragmentUdpChecksum (packet : List UInt8) (oldIp newIp : Ipv4Addr) : List UInt8 :=
  let ihl := ihlOf packet
  if ihl < ipHeaderMin || packet.length < ihl + 8 then packet
  else
    let checksum := u16At packet (ihl + 6)
    if checksum = 0 then packet
    else
      let adjusted := adjustChecksumForIpv4AddrChange checksum oldIp newIp
      putU16 packet (ihl + 6) (if adjusted = 0 then 0xFFFF else adjusted)

/-! ### Rewriting -/

def ipSrcOffset : ℕ := 12

def ipDstOffset : ℕ := 16

/-- The address at a position of the packet. -/
def ipAt (packet : List UInt8) (offset : ℕ) : Ipv4Addr :=
  ⟨byteAt packet offset, byteAt packet (offset + 1), byteAt packet (offset + 2),
    byteAt packet (offset + 3)⟩

/-- The transport checksum after the address at some position was changed from `oldIp` to `newIp`.
-/
def fixTransportChecksum (packet : List UInt8) (oldIp newIp : Ipv4Addr) : List UInt8 :=
  if ipv4IsFragment packet then
    if ipv4FragmentOffset packet = some 0 then
      if protocolOf packet = 6 then updateFragmentTcpChecksum packet oldIp newIp
      else if protocolOf packet = 17 then updateFragmentUdpChecksum packet oldIp newIp
      else packet
    else packet
  else if protocolOf packet = 6 then recalculateTcpChecksum packet
  else if protocolOf packet = 17 then recalculateUdpChecksum packet
  else packet

def rewriteIpField (packet : List UInt8) (offset : ℕ) (newIp : Ipv4Addr) : List UInt8 :=
  if packet.length < ipHeaderMin || packet.length < offset + 4 then packet
  else
    let oldIp := ipAt packet offset
    let packet := putBytes packet offset newIp.octets
    fixTransportChecksum (recalculateIpChecksum packet) oldIp newIp

def rewriteSrcIp (packet : List UInt8) (newSrc : Ipv4Addr) : List UInt8 :=
  rewriteIpField packet ipSrcOffset newSrc

def rewriteDstIp (packet : List UInt8) (newDst : Ipv4Addr) : List UInt8 :=
  rewriteIpField packet ipDstOffset newDst

/-! ### The new address is in the packet -/

/-- The checksum of the header is all that changes when it is recalculated. -/
theorem byteAt_recalculateIpChecksum {j : ℕ} (h : j < 10 ∨ 12 ≤ j) :
    byteAt (recalculateIpChecksum packet) j = byteAt packet j := by
  unfold recalculateIpChecksum
  split
  · rfl
  · simp only
    split
    · rfl
    · rw [byteAt_putU16_of_outside h, byteAt_putU16_of_outside h]

@[simp] theorem length_recalculateIpChecksum (packet : List UInt8) :
    (recalculateIpChecksum packet).length = packet.length := by
  simp only [recalculateIpChecksum]
  split_ifs <;> simp only [length_putU16]

theorem ihlOf_recalculateIpChecksum (packet : List UInt8) :
    ihlOf (recalculateIpChecksum packet) = ihlOf packet := by
  rw [ihlOf, byteAt_recalculateIpChecksum (by omega), ihlOf]

/-- With a complete header, nothing in the first twenty bytes changes with the transport checksum.
-/
theorem byteAt_fixTransportChecksum {oldIp newIp : Ipv4Addr} {j : ℕ}
    (hihl : ipHeaderMin ≤ ihlOf packet) (hj : j < ipHeaderMin) :
    byteAt (fixTransportChecksum packet oldIp newIp) j = byteAt packet j := by
  have hout : ∀ k, j < ihlOf packet + k := fun k => by omega
  have htcp : byteAt (recalculateTcpChecksum packet) j = byteAt packet j := by
    simp only [recalculateTcpChecksum]
    split_ifs <;> simp only [byteAt_putU16_of_outside (Or.inl (hout _))]
  have hudp : byteAt (recalculateUdpChecksum packet) j = byteAt packet j := by
    simp only [recalculateUdpChecksum]
    split_ifs <;> simp only [byteAt_putU16_of_outside (Or.inl (hout _))]
  have htcpFragment : byteAt (updateFragmentTcpChecksum packet oldIp newIp) j =
      byteAt packet j := by
    simp only [updateFragmentTcpChecksum]
    split_ifs <;> simp only [byteAt_putU16_of_outside (Or.inl (hout _))]
  have hudpFragment : byteAt (updateFragmentUdpChecksum packet oldIp newIp) j =
      byteAt packet j := by
    simp only [updateFragmentUdpChecksum]
    split_ifs <;> simp only [byteAt_putU16_of_outside (Or.inl (hout _))]
  unfold fixTransportChecksum
  split_ifs <;> first | assumption | rfl

theorem ipAt_putBytes_octets {offset : ℕ} (ip : Ipv4Addr) (h : offset + 4 ≤ packet.length) :
    ipAt (putBytes packet offset ip.octets) offset = ip := by
  have hlen : ∀ bs i, (putBytes packet i bs).length = packet.length :=
    fun bs i => length_putBytes packet i bs
  simp only [ipAt, Ipv4Addr.octets, putBytes]
  rw [byteAt_set_self _ (by simp; omega), byteAt_set_of_ne _ (by omega),
    byteAt_set_self _ (by simp; omega), byteAt_set_of_ne _ (by omega),
    byteAt_set_of_ne _ (by omega),
    byteAt_set_self _ (by simp; omega), byteAt_set_of_ne _ (by omega),
    byteAt_set_of_ne _ (by omega),
    byteAt_set_of_ne _ (by omega), byteAt_set_self _ (by omega)]

/-- **The rewritten packet carries the new source address**, if its header is complete.  With a
shorter header length the UDP checksum would be written into the address. -/
theorem srcIpOf_rewriteSrcIp (newSrc : Ipv4Addr) (hihl : ipHeaderMin ≤ ihlOf packet)
    (hlength : ipHeaderMin ≤ packet.length) : srcIpOf (rewriteSrcIp packet newSrc) = newSrc := by
  have hmin : ipHeaderMin = 20 := rfl
  have hoffset : ipSrcOffset = 12 := rfl
  have hput : ipAt (putBytes packet ipSrcOffset newSrc.octets) ipSrcOffset = newSrc :=
    ipAt_putBytes_octets newSrc (by omega)
  have hihl' : ipHeaderMin ≤
      ihlOf (recalculateIpChecksum (putBytes packet ipSrcOffset newSrc.octets)) := by
    rw [ihlOf_recalculateIpChecksum, ihlOf, byteAt_putBytes_of_outside (by omega)]
    exact hihl
  have hguard : ¬ (packet.length < ipHeaderMin || packet.length < ipSrcOffset + 4) = true := by
    simp only [Bool.or_eq_true, decide_eq_true_eq]
    omega
  rw [rewriteSrcIp, rewriteIpField, if_neg hguard]
  simp only [srcIpOf]
  rw [byteAt_fixTransportChecksum hihl' (by omega), byteAt_fixTransportChecksum hihl' (by omega),
    byteAt_fixTransportChecksum hihl' (by omega), byteAt_fixTransportChecksum hihl' (by omega),
    byteAt_recalculateIpChecksum (by omega), byteAt_recalculateIpChecksum (by omega),
    byteAt_recalculateIpChecksum (by omega), byteAt_recalculateIpChecksum (by omega)]
  exact hput

/-- The packet that is handed on with a parsed packet. -/
def ParsedPacket.rawIpPacket : ParsedPacket → Option (List UInt8)
  | .udp _ _ _ raw | .tcp _ raw | .fragment _ _ raw => some raw
  | .forbiddenDst => none

section Parse

variable {policy : DestPolicy} {packet raw : List UInt8} {stats : DestStats}
  {parsed : ParsedPacket}

theorem not_forbidden_of_raw (hraw : parsed.rawIpPacket = some raw) : parsed ≠ .forbiddenDst := by
  rintro rfl
  cases hraw

/-- What the parser hands on is the packet without its padding. -/
theorem raw_of_parse (h : (parseIpPacketFull policy packet stats).1 = some parsed)
    (hraw : parsed.rawIpPacket = some raw) : raw = trimmed packet := by
  cases (parsedBy_of_parse h).2 with
  | fragment _ h =>
      obtain ⟨_, -, rfl | ⟨rfl, -⟩⟩ := parseFragment_inv h <;> cases hraw
      rfl
  | udp _ _ _ h =>
      obtain ⟨-, -, rfl | ⟨rfl, -⟩⟩ := parseUdp_inv h <;> cases hraw
      rfl
  | tcp _ _ _ h =>
      obtain ⟨-, rfl | ⟨rfl, -⟩⟩ := parseTcp_inv h <;> cases hraw
      rfl

/-- **The packets that the parser hands on have a complete header**, so that rewriting them puts the
new address in place. -/
theorem headerComplete_of_parse (h : (parseIpPacketFull policy packet stats).1 = some parsed)
    (hraw : parsed.rawIpPacket = some raw) :
    ipHeaderMin ≤ ihlOf raw ∧ ihlOf raw ≤ raw.length := by
  obtain ⟨hform, -⟩ := Accepted.wellFormed_judged ⟨stats, parsed, h, not_forbidden_of_raw hraw⟩
  obtain ⟨-, hge, hle, htotal⟩ := hform
  have hmin : ipHeaderMin = 20 := rfl
  have hihl : ihlOf (trimmed packet) = ihlOf packet := by
    rw [ihlOf, trimmed, byteAt_take (by omega), ihlOf]
  rw [raw_of_parse h hraw, hihl, trimmed, List.length_take]
  omega

end Parse

end SwiftRelay
