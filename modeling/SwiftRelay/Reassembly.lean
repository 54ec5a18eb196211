/-
**Fragments do not evade the destination rules.**

The relay judges packets one by one, and a later fragment carries no port to judge.  What the
receiver acts on is the datagram it reassembles.  Receivers differ in which of two overlapping
fragments they believe, so the datagram is taken here over an arbitrary precedence of the packets
that the relay let through: `Reassembly` is such a list of packets, which agree on
source, destination, identification and protocol.

The argument: a packet with a nonzero fragment offset starts at byte eight or later, and an accepted
packet of protocol 6 or 17 with offset zero always holds the first four transport bytes.  So the two
bytes of the port are covered by exactly the same packets, come from one of them, and were judged
with it.

Main definitions:

* `Reassembly` — the packets of one datagram, by precedence;
* `Reassembly.Datagram` — the datagrams that can be reassembled from them;
* `dstPortOf` — the destination port of a reassembled datagram.

Main results:

* `Reassembly.port_judged` — the port of the datagram was judged with some packet;
* `reassembled_destination_allowed` — no rule is evaded.
-/

import SwiftRelay.IpPacket
import SwiftRelay.Overlay

set_option autoImplicit false

namespace SwiftRelay

open Overlay

/-! ### Reassembly -/

/-- What packets of one datagram have in common. -/
structure DatagramKey where
  src : Ipv4Addr
  dst : Ipv4Addr
  identification : UInt16
  protocol : UInt8
  deriving DecidableEq, Repr

def keyOf (packet : List UInt8) : DatagramKey :=
  ⟨srcIpOf packet, dstIpOf packet, identificationOf packet, protocolOf packet⟩

/-- The transport bytes that a packet contributes, at eight times its fragment offset. -/
def pieceOf (packet : List UInt8) : Piece UInt8 :=
  ⟨8 * (fragmentOffsetOf packet).toNat, (trimmed packet).drop (ihlOf packet)⟩

/-- Packets of one datagram that the relay let through, listed by the precedence that the receiver
gives them. -/
structure Reassembly (policy : DestPolicy) where
  key : DatagramKey
  packets : List (List UInt8)
  nonempty : packets ≠ []
  accepted : ∀ packet ∈ packets, Accepted policy packet
  same_key : ∀ packet ∈ packets, keyOf packet = key

/-- The transport bytes of a datagram that the receiver can reassemble. -/
def Reassembly.Datagram {policy : DestPolicy} (r : Reassembly policy) (data : List UInt8) : Prop :=
  Reads (r.packets.map pieceOf) data

/-- The destination port of a datagram: its transport bytes 2 and 3. -/
def dstPortOf (data : List UInt8) : Option UInt16 :=
  if 4 ≤ data.length then some (u16At data 2) else none

/-! ### The port of a datagram -/

namespace Reassembly

variable {policy : DestPolicy} (r : Reassembly policy) {packet : List UInt8}

theorem protocol_eq (h : packet ∈ r.packets) :
    protocolOf packet = r.key.protocol := by rw [← r.same_key packet h, keyOf]

theorem dst_eq (h : packet ∈ r.packets) :
    dstIpOf packet = r.key.dst := by rw [← r.same_key packet h, keyOf]

/-- The judgement of a packet, in terms of the packet as it arrived. -/
theorem judged (h : packet ∈ r.packets) :
    isForbiddenDst r.key.dst = false ∧ policy.allows r.key.protocol r.key.dst none = true := by
  obtain ⟨hwf, hjudged⟩ := (r.accepted packet h).wellFormed_judged
  have haddress := hjudged.address
  have hnetwork := hjudged.network
  rw [dstIpOf_trimmed hwf, r.dst_eq h] at haddress hnetwork
  rw [protocolOf_trimmed hwf, r.protocol_eq h] at hnetwork
  exact ⟨haddress, hnetwork⟩

/-- Both bytes of the port are in a packet of protocol 6 or 17, or neither is. -/
theorem covers_port (hproto : r.key.protocol = 6 ∨ r.key.protocol = 17) (h : packet ∈ r.packets) :
    (pieceOf packet).covers 2 = decide (fragmentOffsetOf packet = 0) ∧
      (pieceOf packet).covers 3 = decide (fragmentOffsetOf packet = 0) := by
  obtain ⟨hwf, hjudged⟩ := (r.accepted packet h).wellFormed_judged
  have hcarries := hjudged.carriesPort
  rw [protocolOf_trimmed hwf, r.protocol_eq h, fragmentOffsetOf_trimmed hwf] at hcarries
  by_cases hfirst : fragmentOffsetOf packet = 0
  · have hlength := hcarries hfirst hproto
    simp [Piece.covers, pieceOf, hfirst]
    omega
  · -- the piece starts at byte eight or later
    have hpos : 0 < (fragmentOffsetOf packet).toNat := by
      rcases Nat.eq_zero_or_pos (fragmentOffsetOf packet).toNat with hzero | hpos
      · exact absurd (UInt16.toNat_inj.1 (hzero.trans rfl)) hfirst
      · exact hpos
    simp [Piece.covers, pieceOf, hfirst]
    omega

/-- **The port of a datagram of protocol 6 or 17 was judged**, with the packet that supplies it. -/
theorem port_judged (hproto : r.key.protocol = 6 ∨ r.key.protocol = 17) {data : List UInt8}
    (hdata : r.Datagram data) (hlength : 4 ≤ data.length) :
    (r.key.protocol = 17 → isForbiddenDstPort (u16At data 2) = false) ∧
      policy.allows r.key.protocol r.key.dst (some (u16At data 2)) = true := by
  have hcovers : ∀ p ∈ r.packets.map pieceOf, p.covers 2 = p.covers 3 := by
    intro p hp
    obtain ⟨packet, hpacket, rfl⟩ := List.mem_map.1 hp
    obtain ⟨h2, h3⟩ := r.covers_port hproto hpacket
    rw [h2, h3]
  obtain ⟨p, hp, hcovered, hbyte2, hbyte3⟩ :=
    pick_eq_of_covers_iff hcovers (hdata 2 (by omega)) (hdata 3 (by omega))
  obtain ⟨packet, hpacket, rfl⟩ := List.mem_map.1 hp
  have hfirst : fragmentOffsetOf packet = 0 := by
    rw [(r.covers_port hproto hpacket).1] at hcovered
    simpa using hcovered
  -- the two bytes are those that the parser read as the port of this packet
  have hport : u16At (trimmed packet) (ihlOf packet + 2) = u16At data 2 := by
    simp only [pieceOf, hfirst, List.getElem?_drop, UInt16.toNat_zero, Nat.mul_zero,
      Nat.sub_zero] at hbyte2 hbyte3
    rw [u16At, u16At, Nat.add_assoc, byteAt_of_getElem? hbyte2, byteAt_of_getElem? hbyte3,
      byteAt_of_getElem? (List.getElem?_eq_getElem (by omega : 2 < data.length)),
      byteAt_of_getElem? (List.getElem?_eq_getElem (by omega : 3 < data.length))]
  obtain ⟨hwf, hjudged⟩ := (r.accepted packet hpacket).wellFormed_judged
  have hchecked := hjudged.port
  rw [protocolOf_trimmed hwf, r.protocol_eq hpacket, fragmentOffsetOf_trimmed hwf,
    dstIpOf_trimmed hwf, r.dst_eq hpacket, hport] at hchecked
  exact hchecked hfirst hproto

end Reassembly

/-! ### No rule is evaded -/

/-- **Fragmentation does not evade the destination rules.**  Of every datagram that can be
reassembled from packets that the relay let through, whatever the precedence among them: the
destination address is not forbidden, the port of a UDP datagram is not forbidden, and a policy that
enforces permits protocol, destination and port. -/
theorem reassembled_destination_allowed (policy : DestPolicy) (r : Reassembly policy)
    (data : List UInt8) (hdata : r.Datagram data) :
    isForbiddenDst r.key.dst = false ∧
    (r.key.protocol = 17 → ∀ port, dstPortOf data = some port →
      isForbiddenDstPort port = false) ∧
    (policy.mode = .enforce → ∀ stats,
      (policy.permits r.key.protocol r.key.dst (dstPortOf data) stats).1 = true) := by
  obtain ⟨packet, hpacket⟩ := List.exists_mem_of_ne_nil _ r.nonempty
  obtain ⟨haddress, hnetwork⟩ := r.judged hpacket
  refine ⟨haddress, ?_, ?_⟩
  · intro hudp port hport
    unfold dstPortOf at hport
    split at hport
    · next hlength =>
        cases hport
        exact (r.port_judged (Or.inr hudp) hdata hlength).1 hudp
    · cases hport
  · intro _ stats
    rw [DestPolicy.permits_fst]
    unfold dstPortOf
    split
    · next hlength =>
        by_cases hproto : r.key.protocol = 6 ∨ r.key.protocol = 17
        · exact (r.port_judged hproto hdata hlength).2
        · -- the port of any other protocol is not looked at
          exact DestPolicy.allows_of_ne_tcp (fun h => hproto (Or.inl h)) _ hnetwork
    · exact hnetwork

/-- A policy that enforces one prefix, 128.116.0.0/17. -/
def samplePolicy : DestPolicy :=
  { mode := .enforce
    udp := ⟨[⟨0x80740000#32, 0xFFFF8000#32⟩]⟩
    tcp := ⟨[⟨0x80740000#32, 0xFFFF8000#32⟩]⟩
    tcpPorts := [80, 443]
    sampleEvery := 16 }

/-- Three fragments of one UDP datagram to 128.116.1.1: one that starts at byte eight and is padded,
and two first fragments that overlap and disagree about the port. -/
def sampleFragments : List (List UInt8) :=
  [[0x45, 0, 0, 24, 0, 9, 0x00, 1, 64, 17, 0, 0, 10, 0, 0, 2, 128, 116, 1, 1, 1, 2, 3, 4, 0, 0],
   [0x45, 0, 0, 24, 0, 9, 0x20, 0, 64, 17, 0, 0, 10, 0, 0, 2, 128, 116, 1, 1,
    0xC0, 0, 0xC3, 0x50],
   [0x45, 0, 0, 28, 0, 9, 0x20, 0, 64, 17, 0, 0, 10, 0, 0, 2, 128, 116, 1, 1,
    0xC0, 0, 0xC3, 0x51, 0, 12, 0, 0]]

def sampleReassembly : Reassembly samplePolicy where
  key := ⟨⟨10, 0, 0, 2⟩, ⟨128, 116, 1, 1⟩, 9, 17⟩
  packets := sampleFragments
  nonempty := by decide
  accepted := by
    have h : ∀ packet ∈ sampleFragments,
        (parseIpPacketFull samplePolicy packet .new).1 =
          some (.fragment 17 ⟨10, 0, 0, 2⟩ (trimmed packet)) := by decide +kernel
    exact fun packet hpacket => ⟨.new, _, h packet hpacket, by simp⟩
  same_key := by decide +kernel

theorem reassembled_destination_allowed_sample :
    sampleReassembly.Datagram [0xC0, 0, 0xC3, 0x50, 0, 12, 0, 0, 1, 2, 3, 4] ∧
    isForbiddenDstPort 50000 = false ∧
    (samplePolicy.permits 17 ⟨128, 116, 1, 1⟩ (some 50000) .new).1 = true := by
  have hdata : sampleReassembly.Datagram [0xC0, 0, 0xC3, 0x50, 0, 12, 0, 0, 1, 2, 3, 4] := by
    intro i hi
    revert i
    decide +kernel
  obtain ⟨-, hport, hpolicy⟩ :=
    reassembled_destination_allowed samplePolicy sampleReassembly _ hdata
  exact ⟨hdata, hport rfl 50000 (by decide), hpolicy rfl .new⟩

end SwiftRelay
