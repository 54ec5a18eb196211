/-
**What the receive loop reads of its buffer.**

All clients share the one buffer of the receive loop.  A datagram of `len` bytes overwrites its
front, and behind it stands what earlier datagrams have left.  Some parsers get the slice of the
datagram, others the whole buffer and the length.  They are written down here once more, access by
access, as programs that read slices.  No access of any of them goes beyond the datagram: so none of
them fails, and what the loop derives from a datagram does not depend on what was in the buffer
before.

Main definitions:

* `readIpPacketFull`, `readAuthHelloToken`, `readResolveRequest`, `readPing`, … — the parsers as
  programs;
* `readDatagram`, `Datagram.derived` — all that is derived from a datagram.

Main results:

* `readIpPacketFull_uses`, `readResolveRequest_uses`, … — the bounds of their accesses;
* `value_readIpPacketFull`, `value_readResolveRequest`, … — their results;
* `no_residue_of_earlier_datagrams` — nothing that the receive loop derives depends on what lies
  behind the datagram.
-/

import SwiftRelay.Ingress
import SwiftRelay.Slices

set_option autoImplicit false

namespace SwiftRelay

open Conc Slices

/-! ### Numbers and addresses -/

def readU16 (s : Slice) (i : ℕ) : Read UInt8 UInt16 := do
  let high ← index s i
  let low ← index s (i + 1)
  return .ofNat (fromBeBytes [high, low])

def readIpv4 (s : Slice) (i : ℕ) : Read UInt8 Ipv4Addr := do
  let a ← index s i
  let b ← index s (i + 1)
  let c ← index s (i + 2)
  let d ← index s (i + 3)
  return ⟨a, b, c, d⟩

section Numbers

variable {s : Slice} {i n : ℕ} {buf : List UInt8}

theorem index_uses (h : i < s.len) (hn : s.lo + i < n) :
    (index s i : Read UInt8 UInt8).Uses (InBounds n) :=
  ⟨⟨h, hn⟩, fun _ => trivial⟩

theorem readU16_uses (h : i + 1 < s.len) (hn : s.lo + i + 1 < n) :
    (readU16 s i).Uses (InBounds n) :=
  ⟨⟨by omega, by omega⟩, fun _ => ⟨⟨h, hn⟩, fun _ => trivial⟩⟩

theorem readIpv4_uses (h : i + 3 < s.len) (hn : s.lo + i + 3 < n) :
    (readIpv4 s i).Uses (InBounds n) :=
  ⟨⟨by omega, by omega⟩, fun _ => ⟨⟨by omega, by omega⟩, fun _ => ⟨⟨by omega, by omega⟩,
    fun _ => ⟨⟨h, hn⟩, fun _ => trivial⟩⟩⟩⟩

theorem copy_uses (hs : s.hi ≤ n) (h : s.lo ≤ s.hi) :
    (copy s : Read UInt8 (List UInt8)).Uses (InBounds n) :=
  ⟨⟨h, hs⟩, fun _ => trivial⟩

@[simp] theorem value_index : value buf (index s i) = byteAt (s.of buf) i := rfl

@[simp] theorem value_readU16 : value buf (readU16 s i) = u16At (s.of buf) i := rfl

end Numbers

/-! ### IPv4 packets -/

section IpPacket

variable (policy : DestPolicy) (stats : DestStats)

/-- The destination port of a fragment. -/
def readFragmentDstPort (packet : Slice) (ihl : ℕ) (protocol : UInt8) (fragmentOffset : UInt16) :
    Read UInt8 (Option (Option UInt16)) := do
  if fragmentOffset = 0 && (protocol = 6 || protocol = 17) then
    if packet.len < ihl + 4 then return none
    let dstPort ← readU16 packet (ihl + 2)
    return some (some dstPort)
  return some none

def readFragment (packet : Slice) (ihl : ℕ) (protocol : UInt8) (srcIp dstIp : Ipv4Addr)
    (fragmentOffset : UInt16) : Read UInt8 (Option ParsedPacket × DestStats) := do
  match ← readFragmentDstPort packet ihl protocol fragmentOffset with
  | none => return (none, stats)
  | some dstPort =>
      if isForbiddenDst dstIp || (protocol = 17 && dstPort.any isForbiddenDstPort) then
        return (some .forbiddenDst, stats)
      let rawIpPacket ← copy packet
      return ifPermitted policy protocol dstIp dstPort stats (.fragment protocol srcIp rawIpPacket)

/-- The payload of a UDP packet, which may be empty. -/
def readPayload (packet : Slice) (payloadStart payloadEnd : ℕ) : Read UInt8 (List UInt8) := do
  if payloadEnd > payloadStart then
    let payload ← range packet payloadStart payloadEnd
    copy payload
  else return []

def readUdp (packet : Slice) (udpStart : ℕ) (protocol : UInt8) (srcIp dstIp : Ipv4Addr) :
    Read UInt8 (Option ParsedPacket × DestStats) := do
  if packet.len < udpStart + udpHeaderSize then return (none, stats)
  let srcPort ← readU16 packet udpStart
  let dstPort ← readU16 packet (udpStart + 2)
  let udpLen ← readU16 packet (udpStart + 4)
  if udpLen.toNat < udpHeaderSize || udpStart + udpLen.toNat > packet.len then
    return (none, stats)
  let payload ← readPayload packet (udpStart + udpHeaderSize) (udpStart + udpLen.toNat)
  let tos ← index packet 1
  if isForbiddenDst dstIp || isForbiddenDstPort dstPort then return (some .forbiddenDst, stats)
  let rawIpPacket ← copy packet
  return ifPermitted policy protocol dstIp (some dstPort) stats
    (.udp ⟨dstIp, dstPort⟩ payload ⟨tos, srcIp, srcPort, dstIp, dstPort⟩ rawIpPacket)

def readTcp (packet : Slice) (tcpStart : ℕ) (protocol : UInt8) (srcIp dstIp : Ipv4Addr) :
    Read UInt8 (Option ParsedPacket × DestStats) := do
  if packet.len < tcpStart + tcpHeaderMin then return (none, stats)
  let srcPort ← readU16 packet tcpStart
  let dstPort ← readU16 packet (tcpStart + 2)
  let dataOffset ← index packet (tcpStart + 12)
  let tcpHeaderLen := (dataOffset >>> 4).toNat * 4
  if tcpHeaderLen < tcpHeaderMin || packet.len < tcpStart + tcpHeaderLen then
    return (none, stats)
  let tos ← index packet 1
  if isForbiddenDst dstIp then return (some .forbiddenDst, stats)
  let rawIpPacket ← copy packet
  return ifPermitted policy protocol dstIp (some dstPort) stats
    (.tcp ⟨tos, srcIp, srcPort, dstIp, dstPort⟩ rawIpPacket)

/-- The packet, trimmed to its total length. -/
def readTrimmed (packet : Slice) (ihl : ℕ) : Read UInt8 (Option ParsedPacket × DestStats) := do
  let protocol ← index packet 9
  let srcIp ← readIpv4 packet 12
  let dstIp ← readIpv4 packet 16
  let fragmentBits ← readU16 packet 6
  if fragmentBits &&& 0x2000 ≠ 0 || fragmentBits &&& 0x1FFF ≠ 0 then
    readFragment policy stats packet ihl protocol srcIp dstIp (fragmentBits &&& 0x1FFF)
  else if protocol = 17 then readUdp policy stats packet ihl protocol srcIp dstIp
  else if protocol = 6 then readTcp policy stats packet ihl protocol srcIp dstIp
  else return (none, stats)

def readIpPacketFull (packet : Slice) : Read UInt8 (Option ParsedPacket × DestStats) := do
  if packet.len < ipHeaderMin then return (none, stats)
  let first ← index packet 0
  if (first >>> 4) &&& 0x0F ≠ 4 then return (none, stats)
  let ihl := (first &&& 0x0F).toNat * 4
  if ihl < ipHeaderMin || packet.len < ihl then return (none, stats)
  let totalLen ← readU16 packet 2
  if totalLen.toNat < ihl || totalLen.toNat > packet.len then return (none, stats)
  let packet ← range packet 0 totalLen.toNat
  readTrimmed policy stats packet ihl

end IpPacket

section IpPacketBounds

variable {policy : DestPolicy} {stats : DestStats} {packet : Slice} {n ihl : ℕ} {protocol : UInt8}
  {srcIp dstIp : Ipv4Addr} (hs : packet.hi ≤ n)
include hs

theorem readFragment_uses (hlo : packet.lo ≤ packet.hi) {fragmentOffset : UInt16} :
    (readFragment policy stats packet ihl protocol srcIp dstIp fragmentOffset).Uses
      (InBounds n) := by
  have hlen : packet.len = packet.hi - packet.lo := rfl
  have hport : (readFragmentDstPort packet ihl protocol fragmentOffset).Uses (InBounds n) := by
    refine Prog.uses_ite.2 ⟨fun _ => Prog.uses_ite.2 ⟨fun _ => trivial, fun hlen => ?_⟩,
      fun _ => trivial⟩
    exact Prog.uses_bind (readU16_uses (by omega) (by omega)) fun _ => trivial
  refine Prog.uses_bind hport fun dstPort => ?_
  cases dstPort with
  | none => trivial
  | some dstPort =>
      refine .ite trivial ?_
      exact Prog.uses_bind (copy_uses hs hlo) fun _ => trivial

theorem readPayload_uses {a b : ℕ} (hb : b ≤ packet.len) :
    (readPayload packet a b).Uses (InBounds n) := by
  have hlen : packet.len = packet.hi - packet.lo := rfl
  refine Prog.uses_ite.2 ⟨fun hab => ?_, fun _ => trivial⟩
  refine ⟨⟨Nat.le_of_lt hab, hb⟩, fun _ => copy_uses ?_ ?_⟩
  · change packet.lo + b ≤ n
    omega
  · exact Nat.add_le_add_left (Nat.le_of_lt hab) _

theorem readUdp_uses (hmin : ipHeaderMin ≤ packet.len) :
    (readUdp policy stats packet ihl protocol srcIp dstIp).Uses (InBounds n) := by
  have hsize : udpHeaderSize = 8 := rfl
  have hip : ipHeaderMin = 20 := rfl
  have hlen : packet.len = packet.hi - packet.lo := rfl
  refine Prog.uses_ite.2 ⟨fun _ => trivial, fun hheader => ?_⟩
  refine Prog.uses_bind (readU16_uses (by omega) (by omega)) fun srcPort => ?_
  refine Prog.uses_bind (readU16_uses (by omega) (by omega)) fun dstPort => ?_
  refine Prog.uses_bind (readU16_uses (by omega) (by omega)) fun udpLen => ?_
  refine Prog.uses_ite.2 ⟨fun _ => trivial, fun hfit => ?_⟩
  simp only [Bool.or_eq_true, decide_eq_true_eq, not_or] at hfit
  refine Prog.uses_bind (readPayload_uses hs (by omega)) fun payload => ?_
  refine Prog.uses_bind (index_uses (by omega) (by omega)) fun tos => ?_
  refine .ite trivial ?_
  exact Prog.uses_bind (copy_uses hs (by omega)) fun _ => trivial

theorem readTcp_uses (hmin : ipHeaderMin ≤ packet.len) :
    (readTcp policy stats packet ihl protocol srcIp dstIp).Uses (InBounds n) := by
  have hsize : tcpHeaderMin = 20 := rfl
  have hip : ipHeaderMin = 20 := rfl
  have hlen : packet.len = packet.hi - packet.lo := rfl
  refine Prog.uses_ite.2 ⟨fun _ => trivial, fun hheader => ?_⟩
  refine Prog.uses_bind (readU16_uses (by omega) (by omega)) fun srcPort => ?_
  refine Prog.uses_bind (readU16_uses (by omega) (by omega)) fun dstPort => ?_
  refine Prog.uses_bind (index_uses (by omega) (by omega)) fun dataOffset => ?_
  refine .ite trivial ?_
  refine Prog.uses_bind (index_uses (by omega) (by omega)) fun tos => ?_
  refine .ite trivial ?_
  exact Prog.uses_bind (copy_uses hs (by omega)) fun _ => trivial

theorem readTrimmed_uses (hmin : ipHeaderMin ≤ packet.len) :
    (readTrimmed policy stats packet ihl).Uses (InBounds n) := by
  have hip : ipHeaderMin = 20 := rfl
  have hlen : packet.len = packet.hi - packet.lo := rfl
  refine Prog.uses_bind (index_uses (by omega) (by omega)) fun protocol => ?_
  refine Prog.uses_bind (readIpv4_uses (by omega) (by omega)) fun srcIp => ?_
  refine Prog.uses_bind (readIpv4_uses (by omega) (by omega)) fun dstIp => ?_
  refine Prog.uses_bind (readU16_uses (by omega) (by omega)) fun fragmentBits => ?_
  refine .ite (readFragment_uses hs (by omega)) ?_
  refine .ite (readUdp_uses hs hmin) ?_
  exact .ite (readTcp_uses hs hmin) trivial

theorem readIpPacketFull_uses : (readIpPacketFull policy stats packet).Uses (InBounds n) := by
  have hip : ipHeaderMin = 20 := rfl
  have hlen : packet.len = packet.hi - packet.lo := rfl
  refine Prog.uses_ite.2 ⟨fun _ => trivial, fun hheader => ?_⟩
  refine Prog.uses_bind (index_uses (by omega) (by omega)) fun first => ?_
  refine .ite trivial ?_
  refine Prog.uses_ite.2 ⟨fun _ => trivial, fun hihl => ?_⟩
  refine Prog.uses_bind (readU16_uses (by omega) (by omega)) fun totalLen => ?_
  refine Prog.uses_ite.2 ⟨fun _ => trivial, fun htotal => ?_⟩
  simp only [Bool.or_eq_true, decide_eq_true_eq, not_or] at hihl htotal
  refine ⟨⟨Nat.zero_le _, by omega⟩, fun _ => readTrimmed_uses ?_ ?_⟩
  · change packet.lo + totalLen.toNat ≤ n
    omega
  · rw [Slice.len_sub]
    omega

end IpPacketBounds

section IpPacketValue

variable {policy : DestPolicy} {stats : DestStats} {packet : Slice} {ihl : ℕ} {buf : List UInt8}

theorem value_readPayload {a b : ℕ} (hb : b ≤ packet.len) :
    value buf (readPayload packet a b) = ((packet.of buf).take b).drop a := by
  have hlen : packet.len = packet.hi - packet.lo := rfl
  unfold readPayload
  split
  · next hab => exact Slice.of_sub (by omega) buf
  · next hab =>
      have hnil : ((packet.of buf).take b).drop a = [] :=
        List.drop_eq_nil_of_le (Nat.le_trans (List.length_take_le _ _) (Nat.not_lt.1 hab))
      rw [hnil]
      rfl

variable (hs : packet.hi ≤ buf.length)
include hs

theorem value_readFragment :
    value buf (readFragment policy stats packet ihl (protocolOf (packet.of buf))
      (srcIpOf (packet.of buf)) (dstIpOf (packet.of buf)) (fragmentOffsetOf (packet.of buf))) =
    parseFragment policy (packet.of buf) ihl stats := by
  have hport : value buf (readFragmentDstPort packet ihl (protocolOf (packet.of buf))
      (fragmentOffsetOf (packet.of buf))) = fragmentDstPort (packet.of buf) ihl := by
    rw [fragmentDstPort, Slice.length_of hs]
    exact value_ite (fun _ => value_ite (fun _ => rfl) fun _ => rfl) fun _ => rfl
  rw [readFragment, value_bind, hport, parseFragment]
  cases fragmentDstPort (packet.of buf) ihl with
  | none => rfl
  | some dstPort => exact value_ite (fun _ => rfl) fun _ => rfl

theorem value_readUdp :
    value buf (readUdp policy stats packet ihl (protocolOf (packet.of buf))
      (srcIpOf (packet.of buf)) (dstIpOf (packet.of buf))) =
    parseUdp policy (packet.of buf) ihl stats := by
  rw [parseUdp, Slice.length_of hs]
  refine value_ite (fun _ => rfl) fun _ => ?_
  refine value_ite (fun _ => rfl) fun hfit => ?_
  have hfit : ¬ ((decide ((u16At (packet.of buf) (ihl + 4)).toNat < udpHeaderSize) ||
      decide (ihl + (u16At (packet.of buf) (ihl + 4)).toNat > packet.len)) = true) := hfit
  rw [Bool.or_eq_true, decide_eq_true_eq, decide_eq_true_eq, not_or] at hfit
  rw [value_bind, ← value_readPayload (Nat.not_lt.1 hfit.2)]
  exact value_ite (fun _ => rfl) fun _ => rfl

theorem value_readTcp :
    value buf (readTcp policy stats packet ihl (protocolOf (packet.of buf))
      (srcIpOf (packet.of buf)) (dstIpOf (packet.of buf))) =
    parseTcp policy (packet.of buf) ihl stats := by
  rw [parseTcp, Slice.length_of hs]
  refine value_ite (fun _ => rfl) fun _ => ?_
  simp only [value_bind, value_readU16, value_index]
  exact value_ite (fun _ => rfl) fun _ => value_ite (fun _ => rfl) fun _ => rfl

theorem value_readTrimmed :
    value buf (readTrimmed policy stats packet ihl) =
      if moreFragmentsOf (packet.of buf) || fragmentOffsetOf (packet.of buf) ≠ 0 then
        parseFragment policy (packet.of buf) ihl stats
      else if protocolOf (packet.of buf) = 17 then parseUdp policy (packet.of buf) ihl stats
      else if protocolOf (packet.of buf) = 6 then parseTcp policy (packet.of buf) ihl stats
      else (none, stats) := by
  unfold readTrimmed
  simp only [value_bind, value_readU16, value_index]
  refine value_ite (fun _ => value_readFragment hs) fun _ => ?_
  exact value_ite (fun _ => value_readUdp hs) fun _ => value_ite (fun _ => value_readTcp hs)
    fun _ => rfl

theorem value_readIpPacketFull :
    value buf (readIpPacketFull policy stats packet) =
      parseIpPacketFull policy (packet.of buf) stats := by
  have hlen : packet.len = packet.hi - packet.lo := rfl
  have hmin : ipHeaderMin = 20 := rfl
  rw [parseIpPacketFull, Slice.length_of hs]
  refine value_ite (fun _ => rfl) fun hheader => ?_
  refine value_ite (fun _ => rfl) fun _ => ?_
  refine value_ite (fun _ => rfl) fun hihl => ?_
  refine value_ite (fun _ => rfl) fun htotal => ?_
  have htotal : ¬ ((decide (totalLenOf (packet.of buf) < ihlOf (packet.of buf)) ||
      decide (totalLenOf (packet.of buf) > packet.len)) = true) := htotal
  rw [Bool.or_eq_true, decide_eq_true_eq, decide_eq_true_eq, not_or] at htotal
  have hfit : packet.lo + totalLenOf (packet.of buf) ≤ packet.hi := by omega
  have htrim : (packet.sub 0 (totalLenOf (packet.of buf))).of buf =
      (packet.of buf).take (totalLenOf (packet.of buf)) := Slice.of_sub hfit buf
  rw [← htrim]
  exact value_readTrimmed (Nat.le_trans hfit hs)

end IpPacketValue

/-! ### Hellos and resolve requests -/

def readAuthHelloToken (frame : Slice) (len : ℕ) :
    Read UInt8 (Except RelayAuthVerifyError String) := do
  if len < sessionIdLen + 3 then return .error .badFormat
  let tokenLen ← readU16 frame (sessionIdLen + 1)
  let payloadStart := sessionIdLen + 3
  let payloadEnd := payloadStart + tokenLen.toNat
  if tokenLen.toNat = 0 || tokenLen.toNat > maxAuthTokenLen || payloadEnd > len ||
      payloadEnd ≠ len then
    return .error .badFormat
  let token ← range frame payloadStart payloadEnd
  let bytes ← copy token
  match String.fromUTF8? ⟨bytes.toArray⟩ with
  | none => return .error .badFormat
  | some token => return .ok token

/-- The names that remain of the next `n` names of a frame, which begin at `off`. -/
def readResolveHosts (frame : Slice) (len : ℕ) : ℕ → ℕ → Read UInt8 (Option (List String))
  | 0, _ => return some []
  | n + 1, off => do
      if off ≥ len then return none
      let hlen ← index frame off
      let off := off + 1
      if hlen.toNat = 0 || hlen.toNat > resolveMaxHostnameLen || off + hlen.toNat > len then
        return none
      let name ← range frame off (off + hlen.toNat)
      let bytes ← copy name
      match String.fromUTF8? ⟨bytes.toArray⟩ with
      | none => return none
      | some host =>
          let hosts ← readResolveHosts frame len n (off + hlen.toNat)
          return hosts.map fun hosts => if isResolvableRobloxHost host then host :: hosts else hosts

def readResolveRequest (frame : Slice) (len : ℕ) : Read UInt8 (Option (UInt16 × List String)) := do
  let header := sessionIdLen + 1
  if len < header + 3 then return none
  let requestId ← readU16 frame header
  let hostCount ← index frame (header + 2)
  if hostCount.toNat > resolveMaxHostsPerRequest then return none
  let hosts ← readResolveHosts frame len hostCount.toNat (header + 3)
  return hosts.map fun hosts => (requestId, hosts)

section Frames

variable {frame : Slice} {len : ℕ} {buf : List UInt8}

theorem range_copy_uses {α : Type} {a b n : ℕ} {f : List UInt8 → Read UInt8 α} (hab : a ≤ b)
    (hb : b ≤ frame.len) (hn : frame.lo + b ≤ n) (hf : ∀ bytes, (f bytes).Uses (InBounds n)) :
    (range frame a b >>= fun part => copy part >>= f).Uses (InBounds n) :=
  ⟨⟨hab, hb⟩, fun _ => ⟨⟨Nat.add_le_add_left hab _, hn⟩, hf⟩⟩

theorem readAuthHelloToken_uses (hframe : len ≤ frame.len) :
    (readAuthHelloToken frame len).Uses (InBounds (frame.lo + len)) := by
  have hid : sessionIdLen = 8 := rfl
  refine Prog.uses_ite.2 ⟨fun _ => trivial, fun hlen => ?_⟩
  refine Prog.uses_bind (readU16_uses (by omega) (by omega)) fun tokenLen => ?_
  refine Prog.uses_ite.2 ⟨fun _ => trivial, fun hfit => ?_⟩
  simp only [Bool.or_eq_true, decide_eq_true_eq, not_or] at hfit
  refine range_copy_uses (by omega) (by omega) (by omega) fun bytes => ?_
  cases String.fromUTF8? ⟨bytes.toArray⟩ <;> trivial

theorem readResolveHosts_uses (hframe : len ≤ frame.len) (n off : ℕ) :
    (readResolveHosts frame len n off).Uses (InBounds (frame.lo + len)) := by
  induction n generalizing off with
  | zero => trivial
  | succ n ih =>
      refine Prog.uses_ite.2 ⟨fun _ => trivial, fun hoff => ?_⟩
      refine Prog.uses_bind (index_uses (by omega) (by omega)) fun hlen => ?_
      refine Prog.uses_ite.2 ⟨fun _ => trivial, fun hfit => ?_⟩
      simp only [Bool.or_eq_true, decide_eq_true_eq, not_or] at hfit
      refine range_copy_uses (by omega) (by omega) (by omega) fun bytes => ?_
      cases String.fromUTF8? ⟨bytes.toArray⟩ with
      | none => trivial
      | some host => exact Prog.uses_bind (ih _) fun _ => trivial

/-- The parser reads no byte at or behind the length of the frame. -/
theorem readResolveRequest_uses (hframe : len ≤ frame.len) :
    (readResolveRequest frame len).Uses (InBounds (frame.lo + len)) := by
  have hid : sessionIdLen = 8 := rfl
  refine Prog.uses_ite.2 ⟨fun _ => trivial, fun hlen => ?_⟩
  refine Prog.uses_bind (readU16_uses (by omega) (by omega)) fun requestId => ?_
  refine Prog.uses_bind (index_uses (by omega) (by omega)) fun hostCount => ?_
  refine .ite trivial ?_
  exact Prog.uses_bind (readResolveHosts_uses hframe _ _) fun _ => trivial

theorem value_range_copy {α : Type} {a b : ℕ} {f : List UInt8 → Read UInt8 α}
    (h : frame.lo + b ≤ frame.hi) :
    value buf (range frame a b >>= fun part => copy part >>= f) =
      value buf (f (((frame.of buf).take b).drop a)) := by
  rw [← Slice.of_sub h]
  rfl

theorem value_readAuthHelloToken (hframe : frame.lo + len ≤ frame.hi) :
    value buf (readAuthHelloToken frame len) = parseAuthHelloToken (frame.of buf) len := by
  refine value_ite (fun _ => rfl) fun _ => ?_
  refine value_ite (fun _ => rfl) fun hfit => ?_
  have hend : sessionIdLen + 3 + (u16At (frame.of buf) (sessionIdLen + 1)).toNat ≤ len := by
    by_contra hgt
    refine hfit ?_
    simp only [Bool.or_eq_true, decide_eq_true_eq]
    exact .inl (.inr (Nat.not_le.1 hgt))
  refine (value_range_copy (Nat.le_trans (Nat.add_le_add_left hend _) hframe)).trans ?_
  generalize String.fromUTF8? _ = token
  cases token <;> rfl

theorem value_readResolveHosts (hframe : frame.lo + len ≤ frame.hi) (n off : ℕ) :
    value buf (readResolveHosts frame len n off) = resolveHosts (frame.of buf) len n off := by
  induction n generalizing off with
  | zero => rfl
  | succ n ih =>
      rw [resolveHosts]
      refine value_ite (fun _ => rfl) fun _ => ?_
      refine value_ite (fun _ => rfl) fun hfit => ?_
      have hend : off + 1 + (byteAt (frame.of buf) off).toNat ≤ len := by
        by_contra hgt
        refine hfit ?_
        simp only [Bool.or_eq_true, decide_eq_true_eq]
        exact .inr (Nat.not_le.1 hgt)
      refine (value_range_copy (Nat.le_trans (Nat.add_le_add_left hend _) hframe)).trans ?_
      generalize String.fromUTF8? _ = host
      cases host with
      | none => rfl
      | some host =>
          refine (value_bind ..).trans ?_
          rw [ih]
          rfl

theorem value_readResolveRequest (hframe : frame.lo + len ≤ frame.hi) :
    value buf (readResolveRequest frame len) = parseResolveRequest (frame.of buf) len := by
  refine value_ite (fun _ => rfl) fun _ => ?_
  refine value_ite (fun _ => rfl) fun _ => ?_
  rw [value_bind, value_readResolveHosts hframe]
  rfl

end Frames

/-! ### Datagrams -/

/-- The next `w` bytes, one by one. -/
def readBytes (frame : Slice) (i : ℕ) : ℕ → Read UInt8 (List UInt8)
  | 0 => return []
  | w + 1 => do
      let b ← index frame i
      let bytes ← readBytes frame (i + 1) w
      return b :: bytes

/-- The byte behind the session identifier is read only if the length calls for it. -/
def readFrameType (frame : Slice) (applies : Bool) (frameType : UInt8) : Read UInt8 Bool := do
  if applies then
    let found ← index frame sessionIdLen
    return found = frameType
  else return false

def readSessionId (frame : Slice) (len : ℕ) : Read UInt8 (Option SessionId) := do
  if len < sessionIdLen then return none
  let sid ← range frame 0 sessionIdLen
  let bytes ← copy sid
  return some (.ofNat (fromBeBytes bytes))

/-- The fields of a control frame, which is known by its length and its type. -/
def readFrame {α : Type} (frame : Slice) (len frameLen : ℕ) (frameType : UInt8)
    (fields : Read UInt8 α) : Read UInt8 (Option α) := do
  if len ≠ frameLen then return none
  let found ← index frame sessionIdLen
  if found ≠ frameType then return none
  let fields ← fields
  return some fields

/-- The sequence number and the timestamp of a ping. -/
def readPing (frame : Slice) (len : ℕ) : Read UInt8 (Option (UInt32 × UInt64)) :=
  readFrame frame len pingFrameLen pingFrameType do
    let seq ← readBytes frame (sessionIdLen + 1) 4
    let clientTsMonoMs ← readBytes frame (sessionIdLen + 5) 8
    return (.ofNat (fromBeBytes seq), .ofNat (fromBeBytes clientTsMonoMs))

def readRttReport (frame : Slice) (len : ℕ) : Read UInt8 (Option UInt32) :=
  readFrame frame len rttReportFrameLen rttReportFrameType do
    let rttUs ← readBytes frame (sessionIdLen + 1) 4
    return .ofNat (fromBeBytes rttUs)

/-- The packet behind the session identifier. -/
def readPacket (policy : DestPolicy) (stats : DestStats) (frame : Slice) (len : ℕ) :
    Read UInt8 (Option (Option ParsedPacket × DestStats)) := do
  if len < sessionIdLen + ipHeaderMin then return none
  let ipPacket ← range frame sessionIdLen len
  let parsed ← readIpPacketFull policy stats ipPacket
  return some parsed

/-- Everything that the receive loop derives from a datagram. -/
structure Derived where
  sessionId : Option SessionId
  isAuthHello : Bool
  helloToken : Except RelayAuthVerifyError String
  ping : Option (UInt32 × UInt64)
  isPong : Bool
  rttUs : Option UInt32
  isResolve : Bool
  resolve : Option (UInt16 × List String)
  packet : Option (Option ParsedPacket × DestStats)

/-- Derive everything from the first `len` bytes of the buffer. -/
def readDatagram (policy : DestPolicy) (stats : DestStats) (buf : Slice) (len : ℕ) :
    Read UInt8 Derived := do
  let sessionId ← readSessionId buf len
  let isAuthHello ← readFrameType buf (len ≥ sessionIdLen + 3) authHelloFrameType
  let helloToken ← readAuthHelloToken buf len
  let ping ← readPing buf len
  let isPong ← readFrameType buf (len = pongFrameLen) pongFrameType
  let rttUs ← readRttReport buf len
  let isResolve ← readFrameType buf (len > sessionIdLen) resolveRequestFrameType
  let resolve ← readResolveRequest buf len
  let packet ← readPacket policy stats buf len
  return { sessionId, isAuthHello, helloToken, ping, isPong, rttUs, isResolve, resolve, packet }

/-- The sequence number and the timestamp that a ping carries. -/
def pingFieldsOf (d : Datagram) : UInt32 × UInt64 :=
  (.ofNat (fromBeBytes ((d.buf.take (sessionIdLen + 5)).drop (sessionIdLen + 1))),
    .ofNat (fromBeBytes ((d.buf.take (sessionIdLen + 13)).drop (sessionIdLen + 5))))

/-- The same in terms of the receive loop. -/
def Datagram.derived (d : Datagram) (policy : DestPolicy) (stats : DestStats) : Derived where
  sessionId := if d.len < sessionIdLen then none else some d.sid
  isAuthHello := d.isAuthHello
  helloToken := parseAuthHelloToken d.buf d.len
  ping := if d.len = pingFrameLen && d.frameType = pingFrameType then some (pingFieldsOf d)
    else none
  isPong := d.len = pongFrameLen && d.frameType = pongFrameType
  rttUs := if d.len = rttReportFrameLen && d.frameType = rttReportFrameType then some (rttUsOf d)
    else none
  isResolve := d.len > sessionIdLen && d.frameType = resolveRequestFrameType
  resolve := parseResolveRequest d.buf d.len
  packet := if d.len < sessionIdLen + ipHeaderMin then none
    else some (parseIpPacketFull policy d.ipPacket stats)

section Bounds

variable {frame : Slice} {len : ℕ} (hframe : len ≤ frame.len)
include hframe

theorem readBytes_uses {i w : ℕ} (h : i + w ≤ len) :
    (readBytes frame i w).Uses (InBounds (frame.lo + len)) := by
  induction w generalizing i with
  | zero => trivial
  | succ w ih =>
      refine Prog.uses_bind (index_uses (by omega) (by omega)) fun b => ?_
      exact Prog.uses_bind (ih (by omega)) fun _ => trivial

theorem readFrameType_uses {applies : Bool} {frameType : UInt8}
    (h : applies = true → sessionIdLen < len) :
    (readFrameType frame applies frameType).Uses (InBounds (frame.lo + len)) := by
  refine Prog.uses_ite.2 ⟨fun happlies => ?_, fun _ => trivial⟩
  have hlen := h happlies
  exact Prog.uses_bind (index_uses (by omega) (by omega)) fun _ => trivial

theorem readSessionId_uses : (readSessionId frame len).Uses (InBounds (frame.lo + len)) := by
  refine Prog.uses_ite.2 ⟨fun _ => trivial, fun hlen => ?_⟩
  exact range_copy_uses (Nat.zero_le _) (by omega) (by omega) fun _ => trivial

theorem readFrame_uses {α : Type} {frameLen : ℕ} {frameType : UInt8} {fields : Read UInt8 α}
    (hid : sessionIdLen < frameLen)
    (hfields : len = frameLen → fields.Uses (InBounds (frame.lo + len))) :
    (readFrame frame len frameLen frameType fields).Uses (InBounds (frame.lo + len)) := by
  refine Prog.uses_ite.2 ⟨fun _ => trivial, fun hlen => ?_⟩
  rw [not_not] at hlen
  refine Prog.uses_bind (index_uses (by omega) (by omega)) fun found => ?_
  exact .ite trivial (Prog.uses_bind (hfields hlen) fun _ => trivial)

theorem readPing_uses : (readPing frame len).Uses (InBounds (frame.lo + len)) := by
  refine readFrame_uses hframe (by decide) fun hlen => ?_
  subst hlen
  refine Prog.uses_bind (readBytes_uses hframe (by decide)) fun seq => ?_
  exact Prog.uses_bind (readBytes_uses hframe (by decide)) fun _ => trivial

theorem readRttReport_uses : (readRttReport frame len).Uses (InBounds (frame.lo + len)) := by
  refine readFrame_uses hframe (by decide) fun hlen => ?_
  subst hlen
  exact Prog.uses_bind (readBytes_uses hframe (by decide)) fun _ => trivial

theorem readPacket_uses (policy : DestPolicy) (stats : DestStats) :
    (readPacket policy stats frame len).Uses (InBounds (frame.lo + len)) := by
  refine Prog.uses_ite.2 ⟨fun _ => trivial, fun hlen => ?_⟩
  refine ⟨⟨by omega, hframe⟩, fun _ => ?_⟩
  change (readIpPacketFull policy stats (frame.sub sessionIdLen len) >>= _).Uses _
  exact Prog.uses_bind (readIpPacketFull_uses (Nat.le_refl _)) fun _ => trivial

/-- **No access goes beyond the datagram.** -/
theorem readDatagram_uses (policy : DestPolicy) (stats : DestStats) :
    (readDatagram policy stats frame len).Uses (InBounds (frame.lo + len)) := by
  have hid : sessionIdLen = 8 := rfl
  have hpong : pongFrameLen = 29 := rfl
  have htype {applies : Bool} {frameType : UInt8} (h : applies = true → sessionIdLen < len) :
      (readFrameType frame applies frameType).Uses (InBounds (frame.lo + len)) :=
    readFrameType_uses hframe h
  refine Prog.uses_bind (readSessionId_uses hframe) fun _ => ?_
  refine Prog.uses_bind (htype fun h => ?_) fun _ => ?_
  · have := of_decide_eq_true h
    omega
  refine Prog.uses_bind (readAuthHelloToken_uses hframe) fun _ => ?_
  refine Prog.uses_bind (readPing_uses hframe) fun _ => ?_
  refine Prog.uses_bind (htype fun h => ?_) fun _ => ?_
  · have := of_decide_eq_true h
    omega
  refine Prog.uses_bind (readRttReport_uses hframe) fun _ => ?_
  refine Prog.uses_bind (htype fun h => of_decide_eq_true h) fun _ => ?_
  refine Prog.uses_bind (readResolveRequest_uses hframe) fun _ => ?_
  exact Prog.uses_bind (readPacket_uses hframe policy stats) fun _ => trivial

end Bounds

section Derived

variable {buf : List UInt8} {frame : Slice} {len : ℕ}

theorem value_readBytes {i w : ℕ} (h : i + w ≤ (frame.of buf).length) :
    value buf (readBytes frame i w) = ((frame.of buf).take (i + w)).drop i := by
  induction w generalizing i with
  | zero => simp [readBytes, value]
  | succ w ih =>
      have hi : i < ((frame.of buf).take (i + (w + 1))).length := by
        simp only [List.length_take]
        omega
      have hbyte : byteAt (frame.of buf) i = ((frame.of buf).take (i + (w + 1)))[i] := by
        rw [List.getElem_take, byteAt, List.getD_eq_getElem?_getD, List.getElem?_eq_getElem,
          Option.getD_some]
      rw [List.drop_eq_getElem_cons hi, ← hbyte, show i + (w + 1) = i + 1 + w by omega,
        ← ih (by omega)]
      exact value_bind buf (readBytes frame (i + 1) w) _

theorem value_readFrameType {applies : Bool} {frameType : UInt8} :
    value buf (readFrameType frame applies frameType) =
      (applies && decide (byteAt (frame.of buf) sessionIdLen = frameType)) := by
  cases applies <;> rfl

theorem value_readPacket (policy : DestPolicy) (stats : DestStats)
    (hframe : frame.lo + len ≤ frame.hi) (hbuf : frame.hi ≤ buf.length) :
    value buf (readPacket policy stats frame len) =
      if len < sessionIdLen + ipHeaderMin then none
      else some (parseIpPacketFull policy (((frame.of buf).take len).drop sessionIdLen) stats) := by
  refine value_ite (fun _ => rfl) fun _ => ?_
  change value buf (readIpPacketFull policy stats (frame.sub sessionIdLen len) >>= _) = _
  have hend : (frame.sub sessionIdLen len).hi ≤ buf.length := Nat.le_trans hframe hbuf
  rw [value_bind, value_readIpPacketFull hend, Slice.of_sub hframe]
  rfl

section Fields

variable (d : Datagram) (policy : DestPolicy) (stats : DestStats)

theorem value_readBytes_whole {i w : ℕ} (h : i + w ≤ d.len) :
    value d.buf (readBytes ⟨0, d.buf.length⟩ i w) = (d.buf.take (i + w)).drop i := by
  have hlen := d.len_le
  rw [value_readBytes (by rw [Slice.of_whole]; omega), Slice.of_whole]

theorem value_readFrame {α : Type} {frameLen : ℕ} {frameType : UInt8} {fields : Read UInt8 α}
    {x : α} (h : d.len = frameLen → value d.buf fields = x) :
    value d.buf (readFrame ⟨0, d.buf.length⟩ d.len frameLen frameType fields) =
      if d.len = frameLen && d.frameType = frameType then some x else none := by
  by_cases hlen : d.len = frameLen
  · have htype : byteAt ((Slice.mk 0 d.buf.length).of d.buf) sessionIdLen = d.frameType := by
      rw [Slice.of_whole]
      rfl
    simp only [readFrame, hlen, ne_eq, not_true_eq_false, if_false, value_bind, value_index, htype,
      decide_true, Bool.true_and, decide_eq_true_eq]
    by_cases hfound : d.frameType = frameType
    · simp only [hfound, not_true_eq_false, if_false, if_true, value_bind, h hlen]
      rfl
    · simp only [hfound, not_false_eq_true, if_true, if_false]
      rfl
  · simp [readFrame, hlen, value]

theorem value_readPing :
    value d.buf (readPing ⟨0, d.buf.length⟩ d.len) = (d.derived policy stats).ping := by
  refine value_readFrame d fun hlen => ?_
  rw [value_bind, value_bind, value_readBytes_whole d (by rw [hlen]; decide),
    value_readBytes_whole d (by rw [hlen]; decide)]
  rfl

theorem value_readRttReport :
    value d.buf (readRttReport ⟨0, d.buf.length⟩ d.len) = (d.derived policy stats).rttUs := by
  refine value_readFrame d fun hlen => ?_
  rw [value_bind, value_readBytes_whole d (by rw [hlen]; decide)]
  rfl

theorem value_readSessionId :
    value d.buf (readSessionId ⟨0, d.buf.length⟩ d.len) = (d.derived policy stats).sessionId := by
  have hle := d.len_le
  refine value_ite (fun _ => rfl) fun hlen => ?_
  have hid : 0 + sessionIdLen ≤ d.buf.length := by omega
  refine (value_range_copy hid).trans ?_
  rw [Slice.of_whole, List.drop_zero]
  rfl

/-- What the receive loop derives is the result of the accesses. -/
theorem value_readDatagram :
    value d.buf (readDatagram policy stats ⟨0, d.buf.length⟩ d.len) = d.derived policy stats := by
  have hlen := d.len_le
  have hwhole := Slice.of_whole d.buf
  have hframe : (0 : ℕ) + d.len ≤ d.buf.length := by omega
  have htoken : value d.buf (readAuthHelloToken ⟨0, d.buf.length⟩ d.len) =
      parseAuthHelloToken d.buf d.len := by
    rw [value_readAuthHelloToken hframe, hwhole]
  have hresolve : value d.buf (readResolveRequest ⟨0, d.buf.length⟩ d.len) =
      parseResolveRequest d.buf d.len := by
    rw [value_readResolveRequest hframe, hwhole]
  have hpacket : value d.buf (readPacket policy stats ⟨0, d.buf.length⟩ d.len) =
      (d.derived policy stats).packet := by
    rw [value_readPacket policy stats hframe (Nat.le_refl _), hwhole]
    rfl
  unfold readDatagram
  simp only [value_bind, value_readFrameType, value_readPing d policy stats,
    value_readRttReport d policy stats, value_readSessionId d policy stats, htoken, hresolve,
    hpacket, hwhole]
  rfl

end Fields

end Derived

/-- **No residue from earlier datagrams.**  What the receive loop derives from a datagram is the
same for any two contents of its buffer that agree up to the length of the datagram, and no access
goes beyond it. -/
theorem no_residue_of_earlier_datagrams (policy : DestPolicy) (stats : DestStats) (d d' : Datagram)
    (hbuf : d.buf.length = maxPacketSize) (hbuf' : d'.buf.length = maxPacketSize)
    (hlen : d'.len = d.len) (h : d.buf.take d.len = d'.buf.take d.len) :
    d.derived policy stats = d'.derived policy stats ∧
      eval d.buf (readDatagram policy stats ⟨0, maxPacketSize⟩ d.len) =
        some (d.derived policy stats) ∧
      (readDatagram policy stats ⟨0, maxPacketSize⟩ d.len).Uses (InBounds d.len) := by
  have hle : d.len ≤ maxPacketSize := hbuf ▸ d.len_le
  have huses : (readDatagram policy stats ⟨0, maxPacketSize⟩ d.len).Uses (InBounds d.len) := by
    have h := @readDatagram_uses ⟨0, maxPacketSize⟩ d.len hle policy stats
    rwa [Nat.zero_add] at h
  have hd := value_readDatagram d policy stats
  have hd' := value_readDatagram d' policy stats
  rw [hbuf] at hd
  rw [hbuf', hlen] at hd'
  refine ⟨?_, ?_, huses⟩
  · rw [← hd, ← hd']
    exact value_congr h huses
  · rw [← hd]
    exact eval_eq_value d.len_le huses

/-- A keepalive over what an earlier datagram has left. -/
def keepaliveOver (residue : UInt8) : Datagram where
  buf := sessionIdBytes 1 ++ List.replicate (maxPacketSize - sessionIdLen) residue
  len := sessionIdLen
  len_le := by simp [sessionIdBytes_length]
  src := ⟨⟨9, 9, 9, 9⟩, 4000⟩
  now := 0
  nowUnix := 0
  later := 0
  casWon := true
  withinBudget := true
  tunAccepts := true
  poolGrants := true

theorem length_keepaliveOver (residue : UInt8) :
    (keepaliveOver residue).buf.length = maxPacketSize := by
  rw [keepaliveOver, List.length_append, sessionIdBytes_length, List.length_replicate]
  decide

theorem no_residue_of_earlier_datagrams_sample :
    let policy : DestPolicy := ⟨.off, ⟨[]⟩, ⟨[]⟩, [], 16⟩
    (keepaliveOver 0).derived policy .new = (keepaliveOver 255).derived policy .new :=
  (no_residue_of_earlier_datagrams ⟨.off, ⟨[]⟩, ⟨[]⟩, [], 16⟩ .new (keepaliveOver 0)
    (keepaliveOver 255) (length_keepaliveOver 0) (length_keepaliveOver 255) rfl
    (by simp [keepaliveOver, sessionIdBytes_length])).1

end SwiftRelay
