/-
**Rewriting is local and keeps the checksums valid.**

What the parser hands on has a complete header and ends at its total length.  Rewriting such a
packet overwrites three fields at most: the address, the checksum of the header, and the checksum of
the transport header, the last one only in a packet that starts a datagram.  The checksum of the
header is recalculated, and so is that of a whole TCP segment.

Main definitions:

* `AddrField` — the address that is rewritten;
* `Trim` — a packet as the parser hands it on;
* `transportChecksumAt` — where the transport checksum of a packet is.

Main results:

* `overwritten_fixTransportChecksum` — what happens to the transport checksum;
* `rewrite_local_and_valid` — every packet that the parser hands on, and every address.
-/

import SwiftRelay.CheckedRewrite
import SwiftRelay.Reassembly

set_option autoImplicit false

namespace SwiftRelay

open OnesComplement (Verifies wrap)

/-! ### The field -/

/-- The address that is rewritten. -/
inductive AddrField
  | src
  | dst
  deriving DecidableEq, Repr

namespace AddrField

def offset : AddrField → ℕ
  | .src => ipSrcOffset
  | .dst => ipDstOffset

/-- The function of the source for this address. -/
def rewrite (field : AddrField) (packet : List UInt8) (newIp : Ipv4Addr) : List UInt8 :=
  match field with
  | .src => rewriteSrcIp packet newIp
  | .dst => rewriteDstIp packet newIp

/-- The same with every check of an index. -/
def rewriteChecked (field : AddrField) (packet : List UInt8) (newIp : Ipv4Addr) :
    Option (List UInt8) :=
  match field with
  | .src => Checked.rewriteSrcIp packet newIp
  | .dst => Checked.rewriteDstIp packet newIp

theorem rewrite_eq (field : AddrField) (packet : List UInt8) (newIp : Ipv4Addr) :
    field.rewrite packet newIp = rewriteIpField packet field.offset newIp := by
  cases field <;> rfl

theorem rewriteChecked_eq (field : AddrField) (packet : List UInt8) (newIp : Ipv4Addr) :
    field.rewriteChecked packet newIp = some (field.rewrite packet newIp) := by
  cases field <;> exact Checked.rewriteIpField_eq ..

/-- Both addresses lie behind the checksum, in the first twenty bytes. -/
theorem offset_bounds (field : AddrField) : 12 ≤ field.offset ∧ field.offset + 4 ≤ 20 := by
  cases field <;> decide

end AddrField

/-! ### Packets as the parser hands them on -/

/-- The header is complete and the packet ends at its total length. -/
structure Trim (packet : List UInt8) : Prop where
  ihl_ge : ipHeaderMin ≤ ihlOf packet
  ihl_le : ihlOf packet ≤ packet.length
  totalLen : totalLenOf packet = packet.length

instance (packet : List UInt8) : Decidable (Trim packet) :=
  decidable_of_iff (ipHeaderMin ≤ ihlOf packet ∧ ihlOf packet ≤ packet.length ∧
      totalLenOf packet = packet.length)
    ⟨fun h => ⟨h.1, h.2.1, h.2.2⟩, fun h => ⟨h.ihl_ge, h.ihl_le, h.totalLen⟩⟩

namespace Trim

variable {packet packet' : List UInt8}

theorem of_agree (h : Trim packet) (hlength : packet'.length = packet.length)
    (hbytes : ∀ j < 10, byteAt packet' j = byteAt packet j) : Trim packet' := by
  have hihl : ihlOf packet' = ihlOf packet := by rw [ihlOf, hbytes 0 (by omega), ihlOf]
  have htotal : totalLenOf packet' = totalLenOf packet := by
    rw [totalLenOf, totalLenOf, u16At, u16At, hbytes 2 (by omega), hbytes 3 (by omega)]
  exact ⟨hihl ▸ h.ihl_ge, hihl ▸ hlength ▸ h.ihl_le, htotal.trans (h.totalLen.trans hlength.symm)⟩

theorem length_ge (h : Trim packet) : ipHeaderMin ≤ packet.length :=
  Nat.le_trans h.ihl_ge h.ihl_le

theorem trimmed_eq (h : Trim packet) : trimmed packet = packet := by
  rw [trimmed, h.totalLen, List.take_length]

theorem segmentOf_eq (h : Trim packet) : segmentOf packet = packet.drop (ihlOf packet) := by
  rw [segmentOf, h.trimmed_eq]

theorem ipv4FragmentOffset_eq (h : Trim packet) :
    ipv4FragmentOffset packet = some (fragmentOffsetOf packet) := by
  have hlength := h.length_ge
  have hge := h.ihl_ge
  have hle := h.ihl_le
  rw [ipv4FragmentOffset, if_neg (by omega), if_neg (by simp; omega)]
  rfl

theorem ipv4IsFragment_eq (h : Trim packet) :
    ipv4IsFragment packet = (moreFragmentsOf packet || decide (fragmentOffsetOf packet ≠ 0)) := by
  rw [ipv4IsFragment, h.ipv4FragmentOffset_eq]
  rfl

end Trim

theorem ihlOf_trimmed {packet : List UInt8} (h : WellFormed packet) :
    ihlOf (trimmed packet) = ihlOf packet := by
  have hmin : ipHeaderMin = 20 := rfl
  have := h.ihl_ge
  have := h.ihl_le
  rw [ihlOf, trimmed, byteAt_take (by omega), ihlOf]

theorem trim_trimmed {packet : List UInt8} (h : WellFormed packet) : Trim (trimmed packet) := by
  have hmin : ipHeaderMin = 20 := rfl
  have hge := h.ihl_ge
  have hle := h.ihl_le
  have htotal := h.totalLen_le
  have hlength : (trimmed packet).length = totalLenOf packet := by
    rw [trimmed, List.length_take, Nat.min_eq_left htotal]
  refine ⟨by rwa [ihlOf_trimmed h], by rwa [ihlOf_trimmed h, hlength], ?_⟩
  rw [hlength, totalLenOf, trimmed, u16At_take (by omega), totalLenOf]

theorem trim_of_parse {policy : DestPolicy} {packet raw : List UInt8} {stats : DestStats}
    {parsed : ParsedPacket} (h : (parseIpPacketFull policy packet stats).1 = some parsed)
    (hraw : parsed.rawIpPacket = some raw) : Trim raw := by
  rw [raw_of_parse h hraw]
  exact trim_trimmed (parsedBy_of_parse h).1

/-! ### What happens to the transport checksum -/

/-- Where the transport checksum is, for the protocols that have one. -/
def transportChecksumAt (packet : List UInt8) : Option ℕ :=
  if protocolOf packet = 6 then some (ihlOf packet + 16)
  else if protocolOf packet = 17 then some (ihlOf packet + 6)
  else none

/-- The word at `o` was overwritten, if anything. -/
def Overwritten (packet : List UInt8) (o : ℕ) (result : List UInt8) : Prop :=
  result = packet ∨ ∃ v, result = putU16 packet o v ∧ o + 2 ≤ packet.length

section Fix

variable {packet : List UInt8} {oldIp newIp : Ipv4Addr}

theorem recalculateTcpChecksum_eq (h : Trim packet) (htcp : ihlOf packet + 20 ≤ packet.length) :
    recalculateTcpChecksum packet = putU16 packet (ihlOf packet + 16)
      (transportChecksum (putU16 packet (ihlOf packet + 16) 0) 6 (ihlOf packet)
        (packet.length - ihlOf packet)) := by
  have hlength := h.length_ge
  simp only [recalculateTcpChecksum, h.totalLen]
  rw [if_neg (by omega), if_neg (by omega), if_neg (by simp; omega), if_neg (by omega),
    putU16_putU16]

theorem overwritten_recalculateTcp (packet : List UInt8) :
    Overwritten packet (ihlOf packet + 16) (recalculateTcpChecksum packet) := by
  simp only [recalculateTcpChecksum]
  split_ifs with hlength hihl hbounds hlen
  · exact .inl rfl
  · exact .inl rfl
  · exact .inl rfl
  · exact .inl rfl
  · simp only [Bool.or_eq_true, decide_eq_true_eq, not_or, Nat.not_lt] at hbounds
    exact .inr ⟨_, putU16_putU16 .., by omega⟩

theorem overwritten_recalculateUdp (packet : List UInt8) :
    Overwritten packet (ihlOf packet + 6) (recalculateUdpChecksum packet) := by
  simp only [recalculateUdpChecksum]
  split_ifs with hlength hihl hbounds hlen hused hzero
  · exact .inl rfl
  · exact .inl rfl
  · exact .inl rfl
  · exact .inl rfl
  · exact .inl rfl
  all_goals
    simp only [Bool.or_eq_true, decide_eq_true_eq, not_or, Nat.not_lt] at hbounds
    exact .inr ⟨_, putU16_putU16 .., by omega⟩

theorem overwritten_updateFragmentTcp (packet : List UInt8) :
    Overwritten packet (ihlOf packet + 16) (updateFragmentTcpChecksum packet oldIp newIp) := by
  simp only [updateFragmentTcpChecksum]
  split_ifs with hbounds
  · exact .inl rfl
  · simp only [Bool.or_eq_true, decide_eq_true_eq, not_or, Nat.not_lt] at hbounds
    exact .inr ⟨_, rfl, by omega⟩

theorem overwritten_updateFragmentUdp (packet : List UInt8) :
    Overwritten packet (ihlOf packet + 6) (updateFragmentUdpChecksum packet oldIp newIp) := by
  simp only [updateFragmentUdpChecksum]
  split_ifs with hbounds hused hzero
  · exact .inl rfl
  · exact .inl rfl
  all_goals
    simp only [Bool.or_eq_true, decide_eq_true_eq, not_or, Nat.not_lt] at hbounds
    exact .inr ⟨_, rfl, by omega⟩

/-- **The transport checksum alone is overwritten**, and not in a later fragment. -/
theorem overwritten_fixTransportChecksum (oldIp newIp : Ipv4Addr) (h : Trim packet) :
    fixTransportChecksum packet oldIp newIp = packet ∨
      ∃ o, transportChecksumAt packet = some o ∧ fragmentOffsetOf packet = 0 ∧
        Overwritten packet o (fixTransportChecksum packet oldIp newIp) := by
  unfold fixTransportChecksum transportChecksumAt
  rw [h.ipv4IsFragment_eq, h.ipv4FragmentOffset_eq]
  simp only [Option.some.injEq, Bool.or_eq_true, decide_eq_true_eq]
  split_ifs with hfragment hfirst htcp hudp htcp hudp
  · exact .inr ⟨_, rfl, hfirst, overwritten_updateFragmentTcp packet⟩
  · exact .inr ⟨_, rfl, hfirst, overwritten_updateFragmentUdp packet⟩
  · exact .inl rfl
  · exact .inl rfl
  · exact .inl rfl
  · exact .inl rfl
  · have hfirst : fragmentOffsetOf packet = 0 := by
      by_contra hne
      exact hfragment (.inr hne)
    exact .inr ⟨_, rfl, hfirst, overwritten_recalculateTcp packet⟩
  · have hfirst : fragmentOffsetOf packet = 0 := by
      by_contra hne
      exact hfragment (.inr hne)
    exact .inr ⟨_, rfl, hfirst, overwritten_recalculateUdp packet⟩
  · exact .inl rfl

end Fix

/-! ### The packet with the new address -/

/-- The packet with the new address and the checksum of its header, before the transport checksum
is looked at. -/
def readdress (field : AddrField) (packet : List UInt8) (newIp : Ipv4Addr) : List UInt8 :=
  recalculateIpChecksum (putBytes packet field.offset newIp.octets)

section Readdress

variable {packet : List UInt8} {field : AddrField} {newIp : Ipv4Addr} {j : ℕ}

theorem rewrite_eq_fix (h : ipHeaderMin ≤ packet.length) :
    field.rewrite packet newIp =
      fixTransportChecksum (readdress field packet newIp) (ipAt packet field.offset) newIp := by
  have hmin : ipHeaderMin = 20 := rfl
  have hoffset := field.offset_bounds
  rw [AddrField.rewrite_eq, rewriteIpField, if_neg (by simp; omega)]
  rfl

@[simp] theorem length_readdress : (readdress field packet newIp).length = packet.length := by
  rw [readdress, length_recalculateIpChecksum, length_putBytes]

theorem byteAt_readdress (haddress : j < field.offset ∨ field.offset + 4 ≤ j)
    (hchecksum : j < 10 ∨ 12 ≤ j) : byteAt (readdress field packet newIp) j = byteAt packet j := by
  rw [readdress, byteAt_recalculateIpChecksum hchecksum, byteAt_putBytes_of_outside haddress]

theorem byteAt_readdress_of_lt (h : j < 10) :
    byteAt (readdress field packet newIp) j = byteAt packet j := by
  have hoffset := field.offset_bounds
  exact byteAt_readdress (.inl (by omega)) (.inl h)

theorem trim_readdress (h : Trim packet) : Trim (readdress field packet newIp) :=
  h.of_agree length_readdress fun _ hj => byteAt_readdress_of_lt hj

@[simp] theorem ihlOf_readdress : ihlOf (readdress field packet newIp) = ihlOf packet := by
  rw [ihlOf, byteAt_readdress_of_lt (by omega), ihlOf]

@[simp] theorem fragmentBitsOf_readdress :
    fragmentBitsOf (readdress field packet newIp) = fragmentBitsOf packet := by
  rw [fragmentBitsOf, u16At, byteAt_readdress_of_lt (by omega), byteAt_readdress_of_lt (by omega)]
  rfl

@[simp] theorem fragmentOffsetOf_readdress :
    fragmentOffsetOf (readdress field packet newIp) = fragmentOffsetOf packet := by
  rw [fragmentOffsetOf, fragmentBitsOf_readdress, fragmentOffsetOf]

@[simp] theorem moreFragmentsOf_readdress :
    moreFragmentsOf (readdress field packet newIp) = moreFragmentsOf packet := by
  rw [moreFragmentsOf, fragmentBitsOf_readdress, moreFragmentsOf]

@[simp] theorem protocolOf_readdress :
    protocolOf (readdress field packet newIp) = protocolOf packet :=
  byteAt_readdress_of_lt (by omega)

theorem transportChecksumAt_readdress :
    transportChecksumAt (readdress field packet newIp) = transportChecksumAt packet := by
  rw [transportChecksumAt, protocolOf_readdress, ihlOf_readdress, transportChecksumAt]

theorem ipAt_readdress (h : ipHeaderMin ≤ packet.length) :
    ipAt (readdress field packet newIp) field.offset = newIp := by
  have hmin : ipHeaderMin = 20 := rfl
  have hoffset := field.offset_bounds
  rw [readdress, ipAt, byteAt_recalculateIpChecksum (by omega),
    byteAt_recalculateIpChecksum (by omega), byteAt_recalculateIpChecksum (by omega),
    byteAt_recalculateIpChecksum (by omega)]
  exact ipAt_putBytes_octets newIp (by omega)

theorem ipAt_readdress_of_outside (haddress : j + 4 ≤ field.offset ∨ field.offset + 4 ≤ j)
    (hj : 12 ≤ j) : ipAt (readdress field packet newIp) j = ipAt packet j := by
  rw [ipAt, byteAt_readdress (by omega) (by omega), byteAt_readdress (by omega) (by omega),
    byteAt_readdress (by omega) (by omega), byteAt_readdress (by omega) (by omega), ipAt]

theorem recalculateIpChecksum_eq (hge : ipHeaderMin ≤ ihlOf packet)
    (hle : ihlOf packet ≤ packet.length) :
    recalculateIpChecksum packet =
      putU16 packet 10 (calculateIpChecksum ((putU16 packet 10 0).take (ihlOf packet))) := by
  simp only [recalculateIpChecksum]
  rw [if_neg (by omega), if_neg (by simp; omega), putU16_putU16]

theorem drop_readdress (h : Trim packet) :
    (readdress field packet newIp).drop (ihlOf packet) = packet.drop (ihlOf packet) := by
  have hmin : ipHeaderMin = 20 := rfl
  have hoffset := field.offset_bounds
  have hihl : ihlOf (putBytes packet field.offset newIp.octets) = ihlOf packet := by
    rw [ihlOf, byteAt_putBytes_of_outside (by omega), ihlOf]
  have hge := h.ihl_ge
  rw [readdress, recalculateIpChecksum_eq (by rwa [hihl])
    (by rw [hihl, length_putBytes]; exact h.ihl_le), putU16,
    drop_putBytes_of_le (by simp; omega), drop_putBytes_of_le (by simp [Ipv4Addr.octets]; omega)]

/-- **A header whose checksum was recalculated verifies.** -/
theorem headerVerifies_recalculate (hge : ipHeaderMin ≤ ihlOf packet)
    (hle : ihlOf packet ≤ packet.length) : HeaderVerifies (recalculateIpChecksum packet) := by
  have hmin : ipHeaderMin = 20 := rfl
  have hihl : ihlOf (recalculateIpChecksum packet) = ihlOf packet :=
    ihlOf_recalculateIpChecksum packet
  have hmax : ihlOf packet ≤ 60 := by
    have hnibble : (byteAt packet 0 &&& 0x0F).toNat ≤ 15 := by
      rw [UInt8.toNat_and]
      exact Nat.and_le_right
    rw [ihlOf]
    omega
  rw [HeaderVerifies, hihl, recalculateIpChecksum_eq hge hle]
  generalize hz : (putU16 packet 10 0).take (ihlOf packet) = z
  have hlen : z.length = ihlOf packet := by
    rw [← hz, List.length_take, length_putU16, Nat.min_eq_left hle]
  -- the field counts as zero in the sum that is complemented
  have hzero : u16At z 10 = 0 := by
    rw [← hz, u16At_take (by omega), u16At_putU16_self (by omega)]
  have hput (v : UInt16) : (putU16 packet 10 v).take (ihlOf packet) = putU16 z 10 v := by
    rw [← hz, ← putU16_putU16 packet 10 0 v]
    exact take_putBytes ..
  have hsum := sumWords_putU16 (l := z) (o := 10) (v := calculateIpChecksum z) rfl (by omega)
  have hsmall : sumWords z < 2 ^ 32 := by
    have hle := sumWords_le z
    omega
  rw [hzero, UInt16.toNat_zero, Nat.add_zero, calculateIpChecksum, Nat.mod_eq_of_lt hsmall,
    toNat_not_foldCarries hsmall] at hsum
  rw [hput, calculateIpChecksum, Nat.mod_eq_of_lt hsmall, hsum]
  exact OnesComplement.verifies_add_complement (by decide) _

end Readdress

/-! ### The rewritten packet -/

section Rewritten

variable {packet : List UInt8} {field : AddrField} {newIp : Ipv4Addr} {j o : ℕ}

theorem ihlOf_le_transportChecksumAt (h : transportChecksumAt packet = some o) :
    ihlOf packet ≤ o := by
  unfold transportChecksumAt at h
  split at h
  · cases h
    omega
  split at h
  · cases h
    omega
  · cases h

/-- What rewriting does to a packet that the parser hands on. -/
theorem overwritten_rewrite (field : AddrField) (newIp : Ipv4Addr) (h : Trim packet) :
    field.rewrite packet newIp = readdress field packet newIp ∨
      ∃ o, transportChecksumAt packet = some o ∧ fragmentOffsetOf packet = 0 ∧
        Overwritten (readdress field packet newIp) o (field.rewrite packet newIp) := by
  rw [rewrite_eq_fix h.length_ge]
  have htrim : Trim (readdress field packet newIp) := trim_readdress h
  have hfix := overwritten_fixTransportChecksum (ipAt packet field.offset) newIp htrim
  rwa [transportChecksumAt_readdress, fragmentOffsetOf_readdress] at hfix

theorem length_rewrite (h : Trim packet) : (field.rewrite packet newIp).length = packet.length := by
  obtain heq | ⟨o, -, -, heq | ⟨v, heq, -⟩⟩ := overwritten_rewrite field newIp h <;> simp [heq]

/-- Only the transport checksum differs from the packet with the new address. -/
theorem byteAt_rewrite_eq_readdress (h : Trim packet)
    (hj : fragmentOffsetOf packet = 0 → ∀ o, transportChecksumAt packet = some o →
      j ≠ o ∧ j ≠ o + 1) :
    byteAt (field.rewrite packet newIp) j = byteAt (readdress field packet newIp) j := by
  obtain heq | ⟨o, hat, hfirst, heq | ⟨v, heq, -⟩⟩ := overwritten_rewrite field newIp h
  · rw [heq]
  · rw [heq]
  · have hne := hj hfirst o hat
    rw [heq, byteAt_putU16_of_outside (by omega)]

/-- The header is that of the packet with the new address. -/
theorem byteAt_rewrite_of_lt (h : Trim packet) (hj : j < ihlOf packet) :
    byteAt (field.rewrite packet newIp) j = byteAt (readdress field packet newIp) j := by
  refine byteAt_rewrite_eq_readdress h fun _ o hat => ?_
  have hle := ihlOf_le_transportChecksumAt hat
  omega

theorem trim_rewrite (h : Trim packet) : Trim (field.rewrite packet newIp) := by
  have hge := h.ihl_ge
  have hmin : ipHeaderMin = 20 := rfl
  refine h.of_agree (length_rewrite h) fun j hj => ?_
  rw [byteAt_rewrite_of_lt h (by omega), byteAt_readdress_of_lt hj]

theorem ihlOf_rewrite (h : Trim packet) : ihlOf (field.rewrite packet newIp) = ihlOf packet := by
  have hge := h.ihl_ge
  have hmin : ipHeaderMin = 20 := rfl
  rw [ihlOf, byteAt_rewrite_of_lt h (by omega), byteAt_readdress_of_lt (by omega), ihlOf]

/-- An address of the rewritten packet is that of the packet with the new address. -/
theorem ipAt_rewrite (h : Trim packet) (offset : ℕ) (hoffset : offset + 4 ≤ ipHeaderMin) :
    ipAt (field.rewrite packet newIp) offset = ipAt (readdress field packet newIp) offset := by
  have hge := h.ihl_ge
  rw [ipAt, byteAt_rewrite_of_lt h (by omega), byteAt_rewrite_of_lt h (by omega),
    byteAt_rewrite_of_lt h (by omega), byteAt_rewrite_of_lt h (by omega), ipAt]

theorem srcIpOf_rewrite (h : Trim packet) :
    srcIpOf (field.rewrite packet newIp) = srcIpOf (readdress field packet newIp) :=
  ipAt_rewrite h 12 (by decide)

theorem dstIpOf_rewrite (h : Trim packet) :
    dstIpOf (field.rewrite packet newIp) = dstIpOf (readdress field packet newIp) :=
  ipAt_rewrite h 16 (by decide)

theorem take_rewrite (h : Trim packet) :
    (field.rewrite packet newIp).take (ihlOf packet) =
      (readdress field packet newIp).take (ihlOf packet) := by
  refine List.ext_getElem? fun j => ?_
  rw [List.getElem?_take, List.getElem?_take]
  split
  · next hj =>
      have hle := h.ihl_le
      have hbyte : byteAt (field.rewrite packet newIp) j =
          byteAt (readdress field packet newIp) j := byteAt_rewrite_of_lt h hj
      rw [byteAt, byteAt, List.getD_eq_getElem?_getD, List.getD_eq_getElem?_getD,
        List.getElem?_eq_getElem (by rw [length_rewrite h]; omega),
        List.getElem?_eq_getElem (by simp; omega)] at hbyte
      rw [List.getElem?_eq_getElem (by rw [length_rewrite h]; omega),
        List.getElem?_eq_getElem (by simp; omega)]
      simpa using hbyte
  · rfl

theorem headerVerifies_rewrite (h : Trim packet) : HeaderVerifies (field.rewrite packet newIp) := by
  have hoffset := field.offset_bounds
  have hihl : ihlOf (putBytes packet field.offset newIp.octets) = ihlOf packet := by
    rw [ihlOf, byteAt_putBytes_of_outside (by omega), ihlOf]
  have hverifies : HeaderVerifies (readdress field packet newIp) :=
    headerVerifies_recalculate (by rw [hihl]; exact h.ihl_ge)
      (by rw [hihl, length_putBytes]; exact h.ihl_le)
  rw [HeaderVerifies, ihlOf_readdress] at hverifies
  rwa [HeaderVerifies, ihlOf_rewrite h, take_rewrite h]

/-- **The sum of a whole segment verifies with its new checksum**, which is taken with a cleared
field. -/
theorem verifies_recalculate (h : Trim packet) {protocol : UInt8} {v : UInt16}
    (hprotocol : 0 < protocol.toNat) (ho : o % 2 = 0)
    (hend : ihlOf packet + o + 2 ≤ packet.length)
    (hv : v.toNat % 65535 = (transportChecksum (putU16 packet (ihlOf packet + o) 0) protocol
      (ihlOf packet) (packet.length - ihlOf packet)).toNat % 65535) :
    Verifies 65536 (transportSum (srcIpOf packet) (dstIpOf packet) protocol
      (packet.length - ihlOf packet)
      ((putU16 packet (ihlOf packet + o) v).drop (ihlOf packet))) := by
  have hlength := h.length_ge
  have hge := h.ihl_ge
  have hmin : ipHeaderMin = 20 := rfl
  have htotal : packet.length < 65536 := by
    rw [← h.totalLen]
    exact (u16At packet 2).toNat_lt
  generalize hz : putU16 packet (ihlOf packet + o) 0 = z at hv
  have hlen : z.length = packet.length := by rw [← hz, length_putU16]
  have hout {j : ℕ} (hj : j < 20) : byteAt z j = byteAt packet j := by
    rw [← hz]
    exact byteAt_putU16_of_outside (.inl (by omega))
  have hsrc : srcIpOf z = srcIpOf packet := by
    rw [srcIpOf, hout (by omega), hout (by omega), hout (by omega), hout (by omega), srcIpOf]
  have hdst : dstIpOf z = dstIpOf packet := by
    rw [dstIpOf, hout (by omega), hout (by omega), hout (by omega), hout (by omega), dstIpOf]
  have hzero : u16At z (ihlOf packet + o) = 0 := by
    rw [← hz, u16At_putU16_self (by omega)]
  have hput : putU16 packet (ihlOf packet + o) v = putU16 z (ihlOf packet + o) v := by
    rw [← hz, putU16_putU16]
  have hverifies := verifies_putTransportChecksum v hprotocol ho
    (by omega : o + 2 ≤ packet.length - ihlOf packet) (by omega) (by omega) (by omega) hzero hv
  rw [List.take_of_length_le (by simp; omega)] at hverifies
  rwa [hput, ← hsrc, ← hdst]

theorem tcpVerifies_recalculate (h : Trim packet) (htcp : ihlOf packet + 20 ≤ packet.length) :
    TcpVerifies (srcIpOf packet) (dstIpOf packet)
      ((recalculateTcpChecksum packet).drop (ihlOf packet)) := by
  rw [TcpVerifies, recalculateTcpChecksum_eq h htcp, List.length_drop, length_putU16]
  exact verifies_recalculate h (by decide) rfl (by omega) rfl

end Rewritten

/-! ### Every packet that the parser hands on -/

/-- Not a fragment, and the transport header is complete. -/
structure Whole (packet : List UInt8) (protocol : UInt8) (header : ℕ) : Prop
    extends Trim packet where
  protocol_eq : protocolOf packet = protocol
  more : moreFragmentsOf packet = false
  offset : fragmentOffsetOf packet = 0
  header_le : ihlOf packet + header ≤ packet.length

section Parsed

variable {policy : DestPolicy} {packet raw payload : List UInt8} {stats : DestStats}
  {gameAddr : SocketAddr} {info : OriginalPacketInfo} {parsed : ParsedPacket}

theorem whole_of_parse_tcp
    (h : (parseIpPacketFull policy packet stats).1 = some (.tcp info raw)) :
    Whole raw 6 tcpHeaderMin := by
  have htrim := trim_of_parse h rfl
  obtain ⟨hmore, hoffset, hprotocol, htcp⟩ := parseTcp_of_parse h
  obtain ⟨hlen, -⟩ := parseTcp_inv htcp
  rw [← ihlOf_trimmed (parsedBy_of_parse h).1] at hlen
  rw [← raw_of_parse h rfl] at hmore hoffset hprotocol hlen
  exact ⟨htrim, hprotocol, hmore, hoffset, hlen⟩

/-- A whole packet is not taken for a fragment, with whatever address. -/
theorem Whole.rewrite_eq {protocol : UInt8} {header : ℕ} (h : Whole raw protocol header)
    (field : AddrField) (newIp : Ipv4Addr) :
    field.rewrite raw newIp =
      if protocol = 6 then recalculateTcpChecksum (readdress field raw newIp)
      else if protocol = 17 then recalculateUdpChecksum (readdress field raw newIp)
      else readdress field raw newIp := by
  have htrim : Trim (readdress field raw newIp) := trim_readdress h.toTrim
  rw [rewrite_eq_fix h.length_ge, fixTransportChecksum, htrim.ipv4IsFragment_eq,
    moreFragmentsOf_readdress, fragmentOffsetOf_readdress, h.more, h.offset,
    protocolOf_readdress, h.protocol_eq]
  rfl

/-- The TCP checksum of a whole segment verifies after rewriting. -/
theorem Whole.tcpVerifies_rewrite (h : Whole raw 6 tcpHeaderMin) (field : AddrField)
    (newIp : Ipv4Addr) :
    TcpVerifies (srcIpOf (field.rewrite raw newIp)) (dstIpOf (field.rewrite raw newIp))
      (segmentOf (field.rewrite raw newIp)) := by
  have htrim : Trim (readdress field raw newIp) := trim_readdress h.toTrim
  have hlen : ihlOf raw + 20 ≤ raw.length := h.header_le
  have hverifies := tcpVerifies_recalculate htrim (by simpa using hlen)
  have hrewrite : field.rewrite raw newIp = recalculateTcpChecksum (readdress field raw newIp) :=
    h.rewrite_eq field newIp
  rw [srcIpOf_rewrite h.toTrim, dstIpOf_rewrite h.toTrim, (trim_rewrite h.toTrim).segmentOf_eq,
    ihlOf_rewrite h.toTrim, hrewrite]
  rwa [ihlOf_readdress] at hverifies

/-- **Rewriting is local and keeps the checksums valid.**  Of every packet that the parser hands on,
and with every address: no index is out of range, the length stays, the new address is in place,
nothing else changes than the two bytes of the header checksum and, unless the packet is a later
fragment, those of the transport checksum; the header verifies, and so does a whole TCP segment. -/
theorem rewrite_local_and_valid (h : (parseIpPacketFull policy packet stats).1 = some parsed)
    (hraw : parsed.rawIpPacket = some raw) (field : AddrField) (newIp : Ipv4Addr) :
    field.rewriteChecked raw newIp = some (field.rewrite raw newIp) ∧
    (field.rewrite raw newIp).length = raw.length ∧
    ipAt (field.rewrite raw newIp) field.offset = newIp ∧
    (∀ j, j < field.offset ∨ field.offset + 4 ≤ j → j ≠ 10 → j ≠ 11 →
      (fragmentOffsetOf raw = 0 → ∀ o, transportChecksumAt raw = some o → j ≠ o ∧ j ≠ o + 1) →
      byteAt (field.rewrite raw newIp) j = byteAt raw j) ∧
    HeaderVerifies (field.rewrite raw newIp) ∧
    (∀ info, parsed = .tcp info raw →
      TcpVerifies (srcIpOf (field.rewrite raw newIp)) (dstIpOf (field.rewrite raw newIp))
        (segmentOf (field.rewrite raw newIp))) := by
  have htrim := trim_of_parse h hraw
  have hoffset := field.offset_bounds
  refine ⟨field.rewriteChecked_eq raw newIp, length_rewrite htrim, ?_, ?_,
    headerVerifies_rewrite htrim, ?_⟩
  · rw [ipAt_rewrite htrim _ hoffset.2, ipAt_readdress htrim.length_ge]
  · intro j haddress h10 h11 htransport
    rw [byteAt_rewrite_eq_readdress htrim htransport, byteAt_readdress haddress (by omega)]
  · rintro info rfl
    exact (whole_of_parse_tcp h).tcpVerifies_rewrite field newIp

/-- A TCP segment with an option in its IP header and a payload of odd length. -/
def sampleTcpPacket : List UInt8 :=
  [0x46, 0, 0, 45, 0, 9, 0x40, 0, 64, 6, 0, 0, 10, 0, 0, 2, 128, 116, 1, 1, 1, 1, 1, 0,
    0xC0, 0, 1, 0xBB, 0, 0, 0, 1, 0, 0, 0, 0, 0x50, 2, 0xFF, 0xFF, 0, 0, 0, 0, 7]

theorem rewrite_local_and_valid_sample :
    (parseIpPacketFull samplePolicy sampleTcpPacket .new).1 =
      some (.tcp (originalInfoOf sampleTcpPacket 24) sampleTcpPacket) ∧
    HeaderVerifies (rewriteSrcIp sampleTcpPacket ⟨10, 200, 42, 7⟩) ∧
    TcpVerifies ⟨10, 200, 42, 7⟩ ⟨128, 116, 1, 1⟩
      (segmentOf (rewriteSrcIp sampleTcpPacket ⟨10, 200, 42, 7⟩)) := by
  have hparse : (parseIpPacketFull samplePolicy sampleTcpPacket .new).1 =
      some (.tcp (originalInfoOf sampleTcpPacket 24) sampleTcpPacket) := by decide +kernel
  obtain ⟨-, -, haddress, -, hheader, htcp⟩ :=
    rewrite_local_and_valid hparse rfl .src ⟨10, 200, 42, 7⟩
  have hdst : dstIpOf (rewriteSrcIp sampleTcpPacket ⟨10, 200, 42, 7⟩) = ⟨128, 116, 1, 1⟩ := by
    decide +kernel
  have htcp := htcp _ rfl
  change TcpVerifies (srcIpOf (rewriteSrcIp _ _)) (dstIpOf (rewriteSrcIp _ _)) _ at htcp
  rw [hdst] at htcp
  exact ⟨hparse, hheader, haddress ▸ htcp⟩

end Parsed

end SwiftRelay
