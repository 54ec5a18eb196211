/-
**IPv4 packets of clients.**

After the session identifier a data frame carries an IPv4 packet.  `parse_ip_packet_full` reads it
in one pass: it checks the header, trims the packet to its total length, judges the destination and
classifies the packet as a whole UDP packet, a whole TCP segment or a fragment.  Bytes are read with
`byteAt`, which is total; every read of the parser stands behind a length check.

Main definitions:

* `byteAt`, `u16At` — reading a packet;
* `ihlOf`, `totalLenOf`, … — the header fields;
* `parseIpPacketFull` — the parser;
* `Accepted` — the packets that it lets through;
* `ParsedBy` — the branch of the parser that answered.

Main results:

* `parsedBy_of_parse` — what an answer says about the packet;
* `judged_of_parseFragment`, `judged_of_parseUdp`, `judged_of_parseTcp` — what each branch of the
  parser checks of the destination;
* `Accepted.wellFormed_judged` — an accepted packet is well formed and was judged.
-/

import SwiftRelay.DestPolicy

set_option autoImplicit false

namespace SwiftRelay

/-! ### Reading a packet -/

def ipHeaderMin : ℕ := 20

def udpHeaderSize : ℕ := 8

def byteAt (bytes : List UInt8) (i : ℕ) : UInt8 := bytes.getD i 0

/-- The big-endian 16-bit number at position `i`. -/
def u16At (bytes : List UInt8) (i : ℕ) : UInt16 :=
  UInt16.ofNat (fromBeBytes [byteAt bytes i, byteAt bytes (i + 1)])

variable {bytes : List UInt8} {policy : DestPolicy} {packet : List UInt8}

theorem byteAt_of_getElem? {i : ℕ} {b : UInt8} (h : bytes[i]? = some b) : byteAt bytes i = b := by
  simp [byteAt, List.getD_eq_getElem?_getD, h]

theorem byteAt_take {n i : ℕ} (h : i < n) : byteAt (bytes.take n) i = byteAt bytes i := by
  simp [byteAt, List.getD_eq_getElem?_getD, h]

theorem u16At_take {n i : ℕ} (h : i + 1 < n) : u16At (bytes.take n) i = u16At bytes i := by
  rw [u16At, u16At, byteAt_take h, byteAt_take (by omega)]

def versionOf (packet : List UInt8) : UInt8 := (byteAt packet 0 >>> 4) &&& 0x0F

/-- The header length in bytes. -/
def ihlOf (packet : List UInt8) : ℕ := (byteAt packet 0 &&& 0x0F).toNat * 4

def totalLenOf (packet : List UInt8) : ℕ := (u16At packet 2).toNat

def identificationOf (packet : List UInt8) : UInt16 := u16At packet 4

def fragmentBitsOf (packet : List UInt8) : UInt16 := u16At packet 6

def moreFragmentsOf (packet : List UInt8) : Bool := fragmentBitsOf packet &&& 0x2000 ≠ 0

/-- The fragment offset, in units of eight bytes. -/
def fragmentOffsetOf (packet : List UInt8) : UInt16 := fragmentBitsOf packet &&& 0x1FFF

def protocolOf (packet : List UInt8) : UInt8 := byteAt packet 9

def srcIpOf (packet : List UInt8) : Ipv4Addr :=
  ⟨byteAt packet 12, byteAt packet 13, byteAt packet 14, byteAt packet 15⟩

def dstIpOf (packet : List UInt8) : Ipv4Addr :=
  ⟨byteAt packet 16, byteAt packet 17, byteAt packet 18, byteAt packet 19⟩

/-! ### The parser -/

/-- What is kept of a client packet to address the responses to it. -/
structure OriginalPacketInfo where
  tos : UInt8
  srcIp : Ipv4Addr
  srcPort : UInt16
  dstIp : Ipv4Addr
  dstPort : UInt16
  deriving DecidableEq, Repr

inductive ParsedPacket
  | udp (gameAddr : SocketAddr) (payload : List UInt8) (originalInfo : OriginalPacketInfo)
      (rawIpPacket : List UInt8)
  | tcp (originalInfo : OriginalPacketInfo) (rawIpPacket : List UInt8)
  | fragment (protocol : UInt8) (srcIp : Ipv4Addr) (rawIpPacket : List UInt8)
  | forbiddenDst
  deriving DecidableEq

def tcpHeaderMin : ℕ := 20

/-- The destination port of a fragment: the first fragment of a TCP or UDP datagram must carry it,
and the outer `none` refuses one that does not. -/
def fragmentDstPort (packet : List UInt8) (ihl : ℕ) : Option (Option UInt16) :=
  if fragmentOffsetOf packet = 0 && (protocolOf packet = 6 || protocolOf packet = 17) then
    if packet.length < ihl + 4 then none
    else some (some (u16At packet (ihl + 2)))
  else some none

/-- Answer `accepted`, unless the destination policy refuses. -/
def ifPermitted (policy : DestPolicy) (protocol : UInt8) (dst : Ipv4Addr)
    (dstPort : Option UInt16) (stats : DestStats) (accepted : ParsedPacket) :
    Option ParsedPacket × DestStats :=
  let (permitted, stats) := policy.permits protocol dst dstPort stats
  if permitted then (some accepted, stats) else (some .forbiddenDst, stats)

/-- The branch of the parser for fragments.  The packet is trimmed to its total length. -/
def parseFragment (policy : DestPolicy) (packet : List UInt8) (ihl : ℕ) (stats : DestStats) :
    Option ParsedPacket × DestStats :=
  let protocol := protocolOf packet
  let dstIp := dstIpOf packet
  match fragmentDstPort packet ihl with
  | none => (none, stats)
  | some dstPort =>
      if isForbiddenDst dstIp || (protocol = 17 && dstPort.any isForbiddenDstPort) then
        (some .forbiddenDst, stats)
      else
        ifPermitted policy protocol dstIp dstPort stats
          (.fragment protocol (srcIpOf packet) packet)

/-- The addresses and ports of a whole packet whose transport header starts at `start`. -/
def originalInfoOf (packet : List UInt8) (start : ℕ) : OriginalPacketInfo :=
  { tos := byteAt packet 1
    srcIp := srcIpOf packet
    srcPort := u16At packet start
    dstIp := dstIpOf packet
    dstPort := u16At packet (start + 2) }

/-- The branch of the parser for whole UDP packets. -/
def parseUdp (policy : DestPolicy) (packet : List UInt8) (udpStart : ℕ) (stats : DestStats) :
    Option ParsedPacket × DestStats :=
  if packet.length < udpStart + udpHeaderSize then (none, stats)
  else
    let dstIp := dstIpOf packet
    let dstPort := u16At packet (udpStart + 2)
    let udpLen := (u16At packet (udpStart + 4)).toNat
    if udpLen < udpHeaderSize || udpStart + udpLen > packet.length then (none, stats)
    else
      let payload := (packet.take (udpStart + udpLen)).drop (udpStart + udpHeaderSize)
      if isForbiddenDst dstIp || isForbiddenDstPort dstPort then (some .forbiddenDst, stats)
      else
        ifPermitted policy (protocolOf packet) dstIp (some dstPort) stats
          (.udp ⟨dstIp, dstPort⟩ payload (originalInfoOf packet udpStart) packet)

/-- The branch of the parser for whole TCP segments.  The port list is a rule for UDP only. -/
def parseTcp (policy : DestPolicy) (packet : List UInt8) (tcpStart : ℕ) (stats : DestStats) :
    Option ParsedPacket × DestStats :=
  if packet.length < tcpStart + tcpHeaderMin then (none, stats)
  else
    let dstIp := dstIpOf packet
    let dstPort := u16At packet (tcpStart + 2)
    let tcpHeaderLen := (byteAt packet (tcpStart + 12) >>> 4).toNat * 4
    if tcpHeaderLen < tcpHeaderMin || packet.length < tcpStart + tcpHeaderLen then (none, stats)
    else if isForbiddenDst dstIp then (some .forbiddenDst, stats)
    else
      ifPermitted policy (protocolOf packet) dstIp (some dstPort) stats
        (.tcp (originalInfoOf packet tcpStart) packet)

def parseIpPacketFull (policy : DestPolicy) (packet : List UInt8) (stats : DestStats) :
    Option ParsedPacket × DestStats :=
  if packet.length < ipHeaderMin then (none, stats)
  else if versionOf packet ≠ 4 then (none, stats)
  else
    let ihl := ihlOf packet
    if ihl < ipHeaderMin || packet.length < ihl then (none, stats)
    else
      let totalLen := totalLenOf packet
      if totalLen < ihl || totalLen > packet.length then (none, stats)
      else
        let packet := packet.take totalLen
        if moreFragmentsOf packet || fragmentOffsetOf packet ≠ 0 then
          parseFragment policy packet ihl stats
        else if protocolOf packet = 17 then parseUdp policy packet ihl stats
        else if protocolOf packet = 6 then parseTcp policy packet ihl stats
        else (none, stats)

/-! ### What the parser lets through -/

/-- The parser answers `Udp`, `Tcp` or `Fragment`. -/
def Accepted (policy : DestPolicy) (packet : List UInt8) : Prop :=
  ∃ stats parsed, (parseIpPacketFull policy packet stats).1 = some parsed ∧ parsed ≠ .forbiddenDst

/-- The packet without the padding behind its total length. -/
def trimmed (packet : List UInt8) : List UInt8 := packet.take (totalLenOf packet)

/-- The header of the packet is complete, and the packet is at least as long as it says. -/
structure WellFormed (packet : List UInt8) : Prop where
  version : versionOf packet = 4
  ihl_ge : ipHeaderMin ≤ ihlOf packet
  ihl_le : ihlOf packet ≤ totalLenOf packet
  totalLen_le : totalLenOf packet ≤ packet.length

section Trimmed

variable {packet : List UInt8} (h : WellFormed packet)
include h

theorem WellFormed.byteAt_trimmed {i : ℕ} (hi : i < ipHeaderMin) :
    byteAt (trimmed packet) i = byteAt packet i := by
  have hge := h.ihl_ge
  have hle := h.ihl_le
  exact byteAt_take (by omega)

theorem dstIpOf_trimmed : dstIpOf (trimmed packet) = dstIpOf packet := by
  simp only [dstIpOf]
  rw [h.byteAt_trimmed (by decide), h.byteAt_trimmed (by decide), h.byteAt_trimmed (by decide),
    h.byteAt_trimmed (by decide)]

theorem srcIpOf_trimmed : srcIpOf (trimmed packet) = srcIpOf packet := by
  simp only [srcIpOf]
  rw [h.byteAt_trimmed (by decide), h.byteAt_trimmed (by decide), h.byteAt_trimmed (by decide),
    h.byteAt_trimmed (by decide)]

theorem protocolOf_trimmed : protocolOf (trimmed packet) = protocolOf packet :=
  h.byteAt_trimmed (by decide)

theorem fragmentOffsetOf_trimmed :
    fragmentOffsetOf (trimmed packet) = fragmentOffsetOf packet := by
  simp only [fragmentOffsetOf, fragmentBitsOf, u16At]
  rw [h.byteAt_trimmed (by decide), h.byteAt_trimmed (by decide)]

end Trimmed

/-- What is checked of the destination of a trimmed packet with a header of `ihl` bytes: its port
only where the transport header starts in this packet. -/
structure Judged (policy : DestPolicy) (packet : List UInt8) (ihl : ℕ) : Prop where
  address : isForbiddenDst (dstIpOf packet) = false
  network : policy.allows (protocolOf packet) (dstIpOf packet) none = true
  carriesPort : fragmentOffsetOf packet = 0 → protocolOf packet = 6 ∨ protocolOf packet = 17 →
    ihl + 4 ≤ packet.length
  port : fragmentOffsetOf packet = 0 → protocolOf packet = 6 ∨ protocolOf packet = 17 →
    (protocolOf packet = 17 → isForbiddenDstPort (u16At packet (ihl + 2)) = false) ∧
    policy.allows (protocolOf packet) (dstIpOf packet) (some (u16At packet (ihl + 2))) = true

/-- The branch of the parser that answered. -/
inductive ParsedBy (policy : DestPolicy) (packet : List UInt8) (stats : DestStats)
    (parsed : ParsedPacket) : Prop
  | fragment (hfragment : moreFragmentsOf (trimmed packet) = true ∨
        fragmentOffsetOf (trimmed packet) ≠ 0)
      (h : (parseFragment policy (trimmed packet) (ihlOf packet) stats).1 = some parsed)
  | udp (hmore : moreFragmentsOf (trimmed packet) = false)
      (hoffset : fragmentOffsetOf (trimmed packet) = 0)
      (hprotocol : protocolOf (trimmed packet) = 17)
      (h : (parseUdp policy (trimmed packet) (ihlOf packet) stats).1 = some parsed)
  | tcp (hmore : moreFragmentsOf (trimmed packet) = false)
      (hoffset : fragmentOffsetOf (trimmed packet) = 0)
      (hprotocol : protocolOf (trimmed packet) = 6)
      (h : (parseTcp policy (trimmed packet) (ihlOf packet) stats).1 = some parsed)

/-- The parser answers for well-formed packets only, in one of its branches. -/
theorem parsedBy_of_parse {stats : DestStats} {parsed : ParsedPacket}
    (h : (parseIpPacketFull policy packet stats).1 = some parsed) :
    WellFormed packet ∧ ParsedBy policy packet stats parsed := by
  unfold parseIpPacketFull at h
  split at h
  · cases h
  split at h
  · cases h
  next hversion =>
  simp only at h
  split at h
  · cases h
  next hihl =>
  split at h
  · cases h
  next htotal =>
  simp only [Bool.or_eq_true, decide_eq_true_eq, not_or] at hihl htotal
  refine ⟨⟨not_not.1 hversion, by omega, by omega, by omega⟩, ?_⟩
  split at h
  · next hfragment => exact .fragment (by simpa [trimmed] using hfragment) h
  next hwhole =>
  simp only [Bool.or_eq_true, decide_eq_true_eq, not_or, Bool.not_eq_true, not_not] at hwhole
  split at h
  · next hprotocol => exact .udp hwhole.1 hwhole.2 hprotocol h
  split at h
  · next hprotocol => exact .tcp hwhole.1 hwhole.2 hprotocol h
  · cases h

/-- A well-formed packet comes to one of the branches. -/
theorem parseIpPacketFull_of_wellFormed {stats : DestStats} (h : WellFormed packet) :
    parseIpPacketFull policy packet stats =
      if moreFragmentsOf (trimmed packet) || fragmentOffsetOf (trimmed packet) ≠ 0 then
        parseFragment policy (trimmed packet) (ihlOf packet) stats
      else if protocolOf (trimmed packet) = 17 then
        parseUdp policy (trimmed packet) (ihlOf packet) stats
      else if protocolOf (trimmed packet) = 6 then
        parseTcp policy (trimmed packet) (ihlOf packet) stats
      else (none, stats) := by
  have hge := h.ihl_ge
  have hle := h.ihl_le
  have htotal := h.totalLen_le
  have hihl : ¬ ((decide (ihlOf packet < ipHeaderMin) || decide (packet.length < ihlOf packet)) =
      true) := by
    rw [Bool.or_eq_true, decide_eq_true_eq, decide_eq_true_eq]
    omega
  have hlen : ¬ ((decide (totalLenOf packet < ihlOf packet) ||
      decide (totalLenOf packet > packet.length)) = true) := by
    rw [Bool.or_eq_true, decide_eq_true_eq, decide_eq_true_eq]
    omega
  rw [parseIpPacketFull, if_neg (by omega), if_neg (not_not.2 h.version)]
  simp only
  rw [if_neg hihl, if_neg hlen]
  rfl

section Branches

variable {policy : DestPolicy} {packet : List UInt8} {ihl : ℕ} {stats : DestStats}
  {parsed : ParsedPacket}

theorem ifPermitted_fst {protocol : UInt8} {dst : Ipv4Addr} {dstPort : Option UInt16}
    {accepted : ParsedPacket} :
    (ifPermitted policy protocol dst dstPort stats accepted).1 =
      some (if policy.allows protocol dst dstPort then accepted else .forbiddenDst) := by
  rw [← DestPolicy.permits_fst policy protocol dst dstPort stats]
  unfold ifPermitted
  simp only
  split <;> rfl

/-- An answer of the policy: the packet as it was accepted, if the policy allows it. -/
theorem ifPermitted_inv {protocol : UInt8} {dst : Ipv4Addr} {dstPort : Option UInt16}
    {accepted : ParsedPacket}
    (h : (ifPermitted policy protocol dst dstPort stats accepted).1 = some parsed) :
    parsed = .forbiddenDst ∨ parsed = accepted ∧ policy.allows protocol dst dstPort = true := by
  rw [ifPermitted_fst] at h
  split at h
  · next hallows => exact .inr ⟨(Option.some_inj.1 h).symm, hallows⟩
  · exact .inl (Option.some_inj.1 h).symm

theorem parseFragment_inv (h : (parseFragment policy packet ihl stats).1 = some parsed) :
    ∃ dstPort, fragmentDstPort packet ihl = some dstPort ∧
      (parsed = .forbiddenDst ∨
        parsed = .fragment (protocolOf packet) (srcIpOf packet) packet ∧
        isForbiddenDst (dstIpOf packet) = false ∧
        (protocolOf packet = 17 → dstPort.any isForbiddenDstPort = false) ∧
        policy.allows (protocolOf packet) (dstIpOf packet) dstPort = true) := by
  unfold parseFragment at h
  simp only at h
  split at h
  · cases h
  next dstPort hdst =>
  refine ⟨dstPort, hdst, ?_⟩
  split at h
  · exact .inl (Option.some_inj.1 h).symm
  next hrefused =>
  simp only [Bool.or_eq_true, Bool.and_eq_true, decide_eq_true_eq, not_or, not_and,
    Bool.not_eq_true] at hrefused
  obtain hforbidden | ⟨haccepted, hallows⟩ := ifPermitted_inv h
  · exact .inl hforbidden
  · exact .inr ⟨haccepted, hrefused.1, hrefused.2, hallows⟩

theorem parseUdp_inv (h : (parseUdp policy packet ihl stats).1 = some parsed) :
    udpHeaderSize ≤ (u16At packet (ihl + 4)).toNat ∧
      ihl + (u16At packet (ihl + 4)).toNat ≤ packet.length ∧
      (parsed = .forbiddenDst ∨
        parsed = .udp ⟨dstIpOf packet, u16At packet (ihl + 2)⟩
          ((packet.take (ihl + (u16At packet (ihl + 4)).toNat)).drop (ihl + udpHeaderSize))
          (originalInfoOf packet ihl) packet ∧
        isForbiddenDst (dstIpOf packet) = false ∧
        isForbiddenDstPort (u16At packet (ihl + 2)) = false ∧
        policy.allows (protocolOf packet) (dstIpOf packet) (some (u16At packet (ihl + 2))) =
          true) := by
  unfold parseUdp at h
  split at h
  · cases h
  simp only at h
  split at h
  · cases h
  next hlen =>
  simp only [Bool.or_eq_true, decide_eq_true_eq, not_or, Nat.not_lt] at hlen
  refine ⟨hlen.1, hlen.2, ?_⟩
  split at h
  · exact .inl (Option.some_inj.1 h).symm
  next hrefused =>
  simp only [Bool.or_eq_true, not_or, Bool.not_eq_true] at hrefused
  obtain hforbidden | ⟨haccepted, hallows⟩ := ifPermitted_inv h
  · exact .inl hforbidden
  · exact .inr ⟨haccepted, hrefused.1, hrefused.2, hallows⟩

theorem parseTcp_inv (h : (parseTcp policy packet ihl stats).1 = some parsed) :
    ihl + tcpHeaderMin ≤ packet.length ∧
      (parsed = .forbiddenDst ∨
        parsed = .tcp (originalInfoOf packet ihl) packet ∧
        isForbiddenDst (dstIpOf packet) = false ∧
        policy.allows (protocolOf packet) (dstIpOf packet) (some (u16At packet (ihl + 2))) =
          true) := by
  unfold parseTcp at h
  split at h
  · cases h
  next hheader =>
  refine ⟨Nat.not_lt.1 hheader, ?_⟩
  simp only at h
  split at h
  · cases h
  split at h
  · exact .inl (Option.some_inj.1 h).symm
  next hrefused =>
  obtain hforbidden | ⟨haccepted, hallows⟩ := ifPermitted_inv h
  · exact .inl hforbidden
  · exact .inr ⟨haccepted, by simpa using hrefused, hallows⟩

/-- A whole packet of protocol 6 or 17 that was judged with the port behind its header. -/
theorem Judged.of_port (haddress : isForbiddenDst (dstIpOf packet) = false)
    (hlength : ihl + 4 ≤ packet.length)
    (hport : protocolOf packet = 17 → isForbiddenDstPort (u16At packet (ihl + 2)) = false)
    (hallows : policy.allows (protocolOf packet) (dstIpOf packet)
      (some (u16At packet (ihl + 2))) = true) : Judged policy packet ihl :=
  ⟨haddress, DestPolicy.allows_none hallows, fun _ _ => hlength, fun _ _ => ⟨hport, hallows⟩⟩

theorem judged_of_parseFragment (h : (parseFragment policy packet ihl stats).1 = some parsed)
    (hparsed : parsed ≠ .forbiddenDst) : Judged policy packet ihl := by
  obtain ⟨dstPort, hdst, hforbidden | ⟨-, haddress, hport, hallows⟩⟩ := parseFragment_inv h
  · exact absurd hforbidden hparsed
  -- either the fragment was judged with its port, or it is not a first fragment with ports
  unfold fragmentDstPort at hdst
  split at hdst
  · split at hdst
    · cases hdst
    · next hlength =>
        cases hdst
        exact .of_port haddress (by omega) (fun h17 => by simpa using hport h17) hallows
  · next hlater =>
      cases hdst
      have hno : fragmentOffsetOf packet = 0 →
          ¬ (protocolOf packet = 6 ∨ protocolOf packet = 17) := by
        intro hfirst hproto
        exact hlater (by simpa [hfirst] using hproto)
      exact ⟨haddress, hallows, fun hfirst hproto => absurd hproto (hno hfirst),
        fun hfirst hproto => absurd hproto (hno hfirst)⟩

theorem judged_of_parseUdp (h : (parseUdp policy packet ihl stats).1 = some parsed)
    (hparsed : parsed ≠ .forbiddenDst) : Judged policy packet ihl := by
  obtain ⟨hmin, hlen, hforbidden | ⟨-, haddress, hport, hallows⟩⟩ := parseUdp_inv h
  · exact absurd hforbidden hparsed
  · have hsize : udpHeaderSize = 8 := rfl
    exact .of_port haddress (by omega) (fun _ => hport) hallows

theorem judged_of_parseTcp (htcp : protocolOf packet = 6)
    (h : (parseTcp policy packet ihl stats).1 = some parsed)
    (hparsed : parsed ≠ .forbiddenDst) : Judged policy packet ihl := by
  obtain ⟨hlen, hforbidden | ⟨-, haddress, hallows⟩⟩ := parseTcp_inv h
  · exact absurd hforbidden hparsed
  · have hsize : tcpHeaderMin = 20 := rfl
    refine .of_port haddress (by omega) (fun h17 => ?_) hallows
    rw [htcp] at h17
    cases h17

end Branches

/-! ### What the parser answers -/

section Answer

variable {policy : DestPolicy} {packet raw payload : List UInt8} {stats : DestStats}
  {gameAddr : SocketAddr} {info : OriginalPacketInfo}

/-- A UDP answer comes from the branch for whole UDP packets. -/
theorem parseUdp_of_parse
    (h : (parseIpPacketFull policy packet stats).1 = some (.udp gameAddr payload info raw)) :
    moreFragmentsOf (trimmed packet) = false ∧ fragmentOffsetOf (trimmed packet) = 0 ∧
      protocolOf (trimmed packet) = 17 ∧
      (parseUdp policy (trimmed packet) (ihlOf packet) stats).1 =
        some (.udp gameAddr payload info raw) := by
  cases (parsedBy_of_parse h).2 with
  | fragment _ h =>
      obtain ⟨_, -, heq | ⟨heq, -⟩⟩ := parseFragment_inv h <;> cases heq
  | udp hmore hoffset hprotocol h => exact ⟨hmore, hoffset, hprotocol, h⟩
  | tcp _ _ _ h =>
      obtain ⟨-, heq | ⟨heq, -⟩⟩ := parseTcp_inv h <;> cases heq

/-- A TCP answer comes from the branch for whole TCP segments. -/
theorem parseTcp_of_parse
    (h : (parseIpPacketFull policy packet stats).1 = some (.tcp info raw)) :
    moreFragmentsOf (trimmed packet) = false ∧ fragmentOffsetOf (trimmed packet) = 0 ∧
      protocolOf (trimmed packet) = 6 ∧
      (parseTcp policy (trimmed packet) (ihlOf packet) stats).1 = some (.tcp info raw) := by
  cases (parsedBy_of_parse h).2 with
  | fragment _ h =>
      obtain ⟨_, -, heq | ⟨heq, -⟩⟩ := parseFragment_inv h <;> cases heq
  | udp _ _ _ h =>
      obtain ⟨-, -, heq | ⟨heq, -⟩⟩ := parseUdp_inv h <;> cases heq
  | tcp hmore hoffset hprotocol h => exact ⟨hmore, hoffset, hprotocol, h⟩

/-- The payload of a UDP packet is a part of the packet. -/
theorem payload_le_of_parse
    (h : (parseIpPacketFull policy packet stats).1 = some (.udp gameAddr payload info raw)) :
    payload.length ≤ packet.length := by
  obtain ⟨-, -, heq | ⟨heq, -⟩⟩ := parseUdp_inv (parseUdp_of_parse h).2.2.2
  · cases heq
  · cases heq
    have htrimmed : (trimmed packet).length ≤ packet.length := List.length_take_le' _ _
    rw [List.length_drop, List.length_take]
    omega

end Answer

/-- **An accepted packet is well formed and was judged.** -/
theorem Accepted.wellFormed_judged (h : Accepted policy packet) :
    WellFormed packet ∧ Judged policy (trimmed packet) (ihlOf packet) := by
  obtain ⟨stats, parsed, h, hparsed⟩ := h
  obtain ⟨hform, hby⟩ := parsedBy_of_parse h
  refine ⟨hform, ?_⟩
  cases hby with
  | fragment _ h => exact judged_of_parseFragment h hparsed
  | udp _ _ _ h => exact judged_of_parseUdp h hparsed
  | tcp _ _ htcp h => exact judged_of_parseTcp htcp h hparsed

end SwiftRelay
