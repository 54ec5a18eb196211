/-
**Two parsers of the same packet.**

A client packet is parsed twice: by `parse_ip_packet_full`, which classifies it and judges its
destination, and by `Flow::parse` of the account budgets, which finds out to which flow it belongs.
The first trims the packet to its total length, the second does not; they have their own length
checks and their own rules for fragments.  Whatever the first lets through, the second reads in the
same way.

Main definitions:

* `Flow.parse` — the flow of a packet;
* `readFlow` — the same, access by access.

Main results:

* `Flow.parse_of_wellFormed` — the flow of a packet with a sound header;
* `parsers_agree` — the two parsers agree, and neither reads outside of the packet.
-/

import SwiftRelay.AccountState
import SwiftRelay.Readers

set_option autoImplicit false

namespace SwiftRelay.AccountBudget

open Conc Slices

/-! ### The flow of a packet -/

def Flow.parse (sid : SessionId) (p : List UInt8) : Option Flow :=
  if p.length < 20 then none
  else if byteAt p 0 >>> 4 ≠ 4 then none
  else if !(byteAt p 9 = 6 || byteAt p 9 = 17) then none
  else if u16At p 6 &&& 0x1FFF ≠ 0 then none
  else
    let offset := (byteAt p 0 &&& 15).toNat * 4
    if offset < 20 || p.length < offset + 4 then none
    else
      some
        { sid
          proto := byteAt p 9
          src := ⟨byteAt p 12, byteAt p 13, byteAt p 14, byteAt p 15⟩
          dst := ⟨byteAt p 16, byteAt p 17, byteAt p 18, byteAt p 19⟩
          sport := u16At p offset
          dport := u16At p (offset + 2) }

def readFlow (sid : SessionId) (p : Slice) : Read UInt8 (Option Flow) := do
  if p.len < 20 then return none
  let first ← index p 0
  if first >>> 4 ≠ 4 then return none
  let proto ← index p 9
  if !(proto = 6 || proto = 17) then return none
  let fragmentBits ← readU16 p 6
  if fragmentBits &&& 0x1FFF ≠ 0 then return none
  let offset := (first &&& 15).toNat * 4
  if offset < 20 || p.len < offset + 4 then return none
  let src ← readIpv4 p 12
  let dst ← readIpv4 p 16
  let sport ← readU16 p offset
  let dport ← readU16 p (offset + 2)
  return some { sid, proto, src, dst, sport, dport }

section Reads

variable {sid : SessionId} {p : Slice} {n : ℕ} {buf : List UInt8}

theorem readFlow_uses (hp : p.hi ≤ n) : (readFlow sid p).Uses (InBounds n) := by
  have hlen : p.len = p.hi - p.lo := rfl
  refine Prog.uses_ite.2 ⟨fun _ => trivial, fun hmin => ?_⟩
  refine Prog.uses_bind (index_uses (by omega) (by omega)) fun first => ?_
  refine .ite trivial ?_
  refine Prog.uses_bind (index_uses (by omega) (by omega)) fun proto => ?_
  refine .ite trivial ?_
  refine Prog.uses_bind (readU16_uses (by omega) (by omega)) fun fragmentBits => ?_
  refine .ite trivial ?_
  refine Prog.uses_ite.2 ⟨fun _ => trivial, fun hoffset => ?_⟩
  simp only [Bool.or_eq_true, decide_eq_true_eq, not_or] at hoffset
  refine Prog.uses_bind (readIpv4_uses (by omega) (by omega)) fun src => ?_
  refine Prog.uses_bind (readIpv4_uses (by omega) (by omega)) fun dst => ?_
  refine Prog.uses_bind (readU16_uses (by omega) (by omega)) fun sport => ?_
  exact Prog.uses_bind (readU16_uses (by omega) (by omega)) fun _ => trivial

theorem value_readFlow (hp : p.hi ≤ buf.length) :
    value buf (readFlow sid p) = Flow.parse sid (p.of buf) := by
  rw [Flow.parse, Slice.length_of hp]
  refine value_ite (fun _ => rfl) fun _ => ?_
  refine value_ite (fun _ => rfl) fun _ => ?_
  refine value_ite (fun _ => rfl) fun _ => ?_
  refine value_ite (fun _ => rfl) fun _ => ?_
  exact value_ite (fun _ => rfl) fun _ => rfl

end Reads

/-! ### Agreement -/

section Agree

variable {sid : SessionId} {packet : List UInt8}

theorem versionOf_eq : versionOf packet = byteAt packet 0 >>> 4 := by
  refine UInt8.toNat_inj.1 ?_
  have hb := (byteAt packet 0).toNat_lt
  have hhalf : (byteAt packet 0 >>> 4).toNat = (byteAt packet 0).toNat / 16 := by
    rw [UInt8.toNat_shiftRight]
    exact Nat.shiftRight_eq_div_pow _ 4
  have hmask : (0x0F : UInt8).toNat = 2 ^ 4 - 1 := rfl
  rw [versionOf, UInt8.toNat_and, hmask, Nat.and_two_pow_sub_one_eq_mod, hhalf]
  omega

/-- The flow of a packet with a sound header: there is one for first fragments of TCP and UDP. -/
theorem Flow.parse_of_wellFormed (h : WellFormed packet) :
    Flow.parse sid packet =
      if fragmentOffsetOf packet = 0 ∧ (protocolOf packet = 6 ∨ protocolOf packet = 17) ∧
          ihlOf packet + 4 ≤ packet.length then
        some ⟨sid, protocolOf packet, srcIpOf packet, dstIpOf packet, u16At packet (ihlOf packet),
          u16At packet (ihlOf packet + 2)⟩
      else none := by
  have hge := h.ihl_ge
  have hle := h.ihl_le
  have htotal := h.totalLen_le
  have hmin : ipHeaderMin = 20 := rfl
  have hversion : byteAt packet 0 >>> 4 = 4 := by rw [← versionOf_eq, h.version]
  rw [Flow.parse, if_neg (by omega), if_neg (not_not.2 hversion)]
  split
  · next hother =>
      rw [if_neg]
      rintro ⟨-, hproto, -⟩
      rcases hproto with hproto | hproto <;> simp [show byteAt packet 9 = _ from hproto] at hother
  next hproto =>
  split
  · next hlater => exact (if_neg fun hall => hlater hall.1).symm
  next hfirst =>
  simp only
  split
  · next hshort =>
      simp only [Bool.or_eq_true, decide_eq_true_eq] at hshort
      rw [if_neg]
      rintro ⟨-, -, hlen⟩
      unfold ihlOf at hge hlen
      omega
  · next hlen =>
      simp only [Bool.or_eq_true, decide_eq_true_eq, not_or, Nat.not_lt] at hlen
      have hproto : protocolOf packet = 6 ∨ protocolOf packet = 17 := by
        simpa [protocolOf, Decidable.or_iff_not_imp_left] using hproto
      exact (if_pos ⟨not_not.1 hfirst, hproto, hlen.2⟩).symm

variable {policy : DestPolicy} {stats : DestStats} {parsed : ParsedPacket}

/-- The flow of a whole packet is what the parser keeps of it to address the responses. -/
theorem Flow.parse_of_whole (h : WellFormed packet) (hoffset : fragmentOffsetOf packet = 0)
    (hproto : protocolOf packet = 6 ∨ protocolOf packet = 17)
    (hlen : ihlOf packet + 4 ≤ (trimmed packet).length) :
    Flow.parse sid packet = some ⟨sid, protocolOf packet,
      (originalInfoOf (trimmed packet) (ihlOf packet)).srcIp,
      (originalInfoOf (trimmed packet) (ihlOf packet)).dstIp,
      (originalInfoOf (trimmed packet) (ihlOf packet)).srcPort,
      (originalInfoOf (trimmed packet) (ihlOf packet)).dstPort⟩ := by
  have htrim : (trimmed packet).length = totalLenOf packet := List.length_take_of_le h.totalLen_le
  have htotal := h.totalLen_le
  rw [Flow.parse_of_wellFormed h, if_pos ⟨hoffset, hproto, by omega⟩]
  simp only [originalInfoOf, srcIpOf_trimmed h, dstIpOf_trimmed h]
  rw [trimmed, u16At_take (by omega), u16At_take (by omega)]

theorem parseFragment_of_parse {protocol : UInt8} {srcIp : Ipv4Addr} {raw : List UInt8}
    (h : (parseIpPacketFull policy packet stats).1 = some (.fragment protocol srcIp raw)) :
    WellFormed packet ∧ ∃ dstPort, fragmentDstPort (trimmed packet) (ihlOf packet) = some dstPort ∧
      ParsedPacket.fragment protocol srcIp raw = .fragment (protocolOf (trimmed packet))
        (srcIpOf (trimmed packet)) (trimmed packet) := by
  obtain ⟨hwell, hby⟩ := parsedBy_of_parse h
  refine ⟨hwell, ?_⟩
  cases hby with
  | fragment _ h =>
      obtain ⟨dstPort, hdst, heq | ⟨heq, -⟩⟩ := parseFragment_inv h
      · cases heq
      · exact ⟨dstPort, hdst, heq⟩
  | udp _ _ _ h =>
      obtain ⟨-, -, heq | ⟨heq, -⟩⟩ := parseUdp_inv h <;> cases heq
  | tcp _ _ _ h =>
      obtain ⟨-, heq | ⟨heq, -⟩⟩ := parseTcp_inv h <;> cases heq

/-- The first fragment of a TCP or UDP datagram is judged with the port that it carries. -/
theorem fragmentDstPort_first (h : WellFormed packet) {dstPort : Option UInt16}
    (hdst : fragmentDstPort (trimmed packet) (ihlOf packet) = some dstPort)
    (hoffset : fragmentOffsetOf packet = 0)
    (hproto : protocolOf packet = 6 ∨ protocolOf packet = 17) :
    ihlOf packet + 4 ≤ packet.length ∧ dstPort = some (u16At packet (ihlOf packet + 2)) := by
  have htrim : (trimmed packet).length = totalLenOf packet := List.length_take_of_le h.totalLen_le
  have htotal := h.totalLen_le
  rw [fragmentDstPort, fragmentOffsetOf_trimmed h, protocolOf_trimmed h,
    if_pos (by simpa [hoffset] using hproto)] at hdst
  split at hdst
  · cases hdst
  · next hlen =>
      cases hdst
      refine ⟨by omega, ?_⟩
      rw [trimmed, u16At_take (by omega)]

/-- **The two parsers of client packets agree**, and neither reads outside of the packet. -/
theorem parsers_agree (policy : DestPolicy) (stats : DestStats) (sid : SessionId)
    (packet : List UInt8) :
    (∀ gameAddr payload info raw,
      (parseIpPacketFull policy packet stats).1 = some (.udp gameAddr payload info raw) →
        Flow.parse sid packet =
          some ⟨sid, 17, info.srcIp, info.dstIp, info.srcPort, info.dstPort⟩) ∧
    (∀ info raw, (parseIpPacketFull policy packet stats).1 = some (.tcp info raw) →
      Flow.parse sid packet =
        some ⟨sid, 6, info.srcIp, info.dstIp, info.srcPort, info.dstPort⟩) ∧
    (∀ protocol srcIp raw,
      (parseIpPacketFull policy packet stats).1 = some (.fragment protocol srcIp raw) →
        ((Flow.parse sid packet).isSome ↔
          fragmentOffsetOf packet = 0 ∧ (protocol = 6 ∨ protocol = 17)) ∧
        ∀ flow, Flow.parse sid packet = some flow →
          fragmentDstPort raw (ihlOf packet) = some (some flow.dport)) ∧
    eval packet (readIpPacketFull policy stats ⟨0, packet.length⟩) =
      some (parseIpPacketFull policy packet stats) ∧
    eval packet (readFlow sid ⟨0, packet.length⟩) = some (Flow.parse sid packet) := by
  refine ⟨?_, ?_, ?_, ?_, ?_⟩
  · intro gameAddr payload info raw h
    obtain ⟨-, hoffset, hproto, h'⟩ := parseUdp_of_parse h
    obtain ⟨hmin, hlen, hforbidden | ⟨heq, -⟩⟩ := parseUdp_inv h'
    · cases hforbidden
    cases heq
    have hwell := (parsedBy_of_parse h).1
    rw [fragmentOffsetOf_trimmed hwell] at hoffset
    rw [protocolOf_trimmed hwell] at hproto
    have hsize : udpHeaderSize = 8 := rfl
    rw [Flow.parse_of_whole hwell hoffset (.inr hproto) (by omega), hproto]
  · intro info raw h
    obtain ⟨-, hoffset, hproto, h'⟩ := parseTcp_of_parse h
    obtain ⟨hlen, hforbidden | ⟨heq, -⟩⟩ := parseTcp_inv h'
    · cases hforbidden
    cases heq
    have hwell := (parsedBy_of_parse h).1
    rw [fragmentOffsetOf_trimmed hwell] at hoffset
    rw [protocolOf_trimmed hwell] at hproto
    have hsize : tcpHeaderMin = 20 := rfl
    rw [Flow.parse_of_whole hwell hoffset (.inl hproto) (by omega), hproto]
  · intro protocol srcIp raw h
    obtain ⟨hwell, dstPort, hdst, heq⟩ := parseFragment_of_parse h
    cases heq
    rw [protocolOf_trimmed hwell]
    rw [Flow.parse_of_wellFormed hwell]
    constructor
    · constructor
      · intro hsome
        split at hsome
        · next hall => exact ⟨hall.1, hall.2.1⟩
        · cases hsome
      · rintro ⟨hoffset, hproto⟩
        obtain ⟨hlen, -⟩ := fragmentDstPort_first hwell hdst hoffset hproto
        rw [if_pos ⟨hoffset, hproto, hlen⟩]
        rfl
    · intro flow hflow
      split at hflow
      · next hall =>
          cases hflow
          rw [hdst, (fragmentDstPort_first hwell hdst hall.1 hall.2.1).2]
      · cases hflow
  · rw [eval_eq_value (Nat.le_refl _) (readIpPacketFull_uses (Nat.le_refl _)),
      value_readIpPacketFull (Nat.le_refl _), Slice.of_whole]
  · rw [eval_eq_value (Nat.le_refl _) (readFlow_uses (Nat.le_refl _)),
      value_readFlow (Nat.le_refl _), Slice.of_whole]

end Agree

end SwiftRelay.AccountBudget
