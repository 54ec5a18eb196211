/-
**Checksums of fragmented datagrams.**

Of a datagram that was cut into fragments, the relay rewrites one packet at a time.  The transport
checksum covers the whole datagram, so it cannot be recalculated; the first fragment carries it, and
there it is adjusted by the difference of the addresses.  The checksum of UDP is in the first eight
bytes, which the first fragment always holds.  That of TCP is at byte sixteen, and a first fragment
of eight or sixteen bytes does not hold it: then nobody adjusts it.

Main definitions:

* `reassemble` — a datagram from the packets that it was cut into;
* `Cut` — packets that a datagram was cut into.

Main results:

* `adjustChecksum_mod` — the incremental update agrees with the sums;
* `fragmented_udp_survives` — the datagram that is reassembled from rewritten fragments;
* `fragmented_tcp_survives_iff` — the same for TCP, where the cut decides;
* `fragmented_tcp_checksum_lost` — a segment cut behind its first eight bytes.
-/

import SwiftRelay.UdpRewrite

set_option autoImplicit false

namespace SwiftRelay

open OnesComplement (Verifies wrap)

/-! ### Cutting and reassembling -/

/-- Append the packets to the bytes that are there, as long as each continues them; only the last
one says that no more follow. -/
def joinFrom (key : DatagramKey) : List UInt8 → List (List UInt8) → Option (List UInt8)
  | _, [] => none
  | done, packet :: packets =>
      if keyOf packet = key ∧ 8 * (fragmentOffsetOf packet).toNat = done.length ∧
          segmentOf packet ≠ [] then
        if moreFragmentsOf packet then joinFrom key (done ++ segmentOf packet) packets
        else if packets = [] then some (done ++ segmentOf packet)
        else none
      else none

/-- The datagram that was cut into the packets, in order. -/
def reassemble : List (List UInt8) → Option (DatagramKey × List UInt8)
  | [] => none
  | packet :: packets =>
      (joinFrom (keyOf packet) [] (packet :: packets)).map fun data => (keyOf packet, data)

/-- Packets with complete headers that a datagram was cut into. -/
structure Cut (key : DatagramKey) (data : List UInt8) (packets : List (List UInt8)) : Prop where
  trim : ∀ packet ∈ packets, Trim packet
  joined : reassemble packets = some (key, data)

section Cut

variable {key : DatagramKey} {done data packet : List UInt8} {packets : List (List UInt8)}

/-- A packet that continues the bytes. -/
structure Continues (key : DatagramKey) (done packet : List UInt8) : Prop where
  key_eq : keyOf packet = key
  offset : 8 * (fragmentOffsetOf packet).toNat = done.length
  nonempty : segmentOf packet ≠ []

theorem joinFrom_cons_inv (h : joinFrom key done (packet :: packets) = some data) :
    Continues key done packet ∧
      (moreFragmentsOf packet = true ∧
          joinFrom key (done ++ segmentOf packet) packets = some data ∨
        moreFragmentsOf packet = false ∧ packets = [] ∧ data = done ++ segmentOf packet) := by
  rw [joinFrom] at h
  split at h
  · next hcontinues =>
      refine ⟨⟨hcontinues.1, hcontinues.2.1, hcontinues.2.2⟩, ?_⟩
      split at h
      · next hmore => exact .inl ⟨hmore, h⟩
      · next hlast =>
          split at h
          · next hnil => exact .inr ⟨by simpa using hlast, hnil, (Option.some.inj h).symm⟩
          · cases h
  · cases h

/-- A datagram has a first packet, and the rest of it continues the bytes of that packet. -/
theorem Cut.cases (h : Cut key data packets) :
    ∃ first rest, packets = first :: rest ∧ Trim first ∧ Continues key [] first ∧
      (moreFragmentsOf first = true ∧ joinFrom key (segmentOf first) rest = some data ∨
        moreFragmentsOf first = false ∧ rest = [] ∧ data = segmentOf first) := by
  obtain ⟨htrim, hjoined⟩ := h
  cases packets with
  | nil => cases hjoined
  | cons first rest =>
      rw [reassemble, Option.map_eq_some_iff] at hjoined
      obtain ⟨joined, hjoin, heq⟩ := hjoined
      cases heq
      obtain ⟨hcontinues, hrest⟩ := joinFrom_cons_inv hjoin
      exact ⟨first, rest, rfl, htrim first List.mem_cons_self, hcontinues, hrest⟩

end Cut

/-! ### Rewriting a packet of a datagram -/

namespace AddrField

/-- The address in the key of a datagram. -/
def get : AddrField → DatagramKey → Ipv4Addr
  | .src, key => key.src
  | .dst, key => key.dst

/-- The key of a datagram with another address. -/
def put (field : AddrField) (key : DatagramKey) (newIp : Ipv4Addr) : DatagramKey :=
  match field with
  | .src => { key with src := newIp }
  | .dst => { key with dst := newIp }

/-- What the addresses add up to changes by one address. -/
theorem addrSum_put (field : AddrField) (key : DatagramKey) (newIp : Ipv4Addr) :
    addrSum (field.put key newIp).src + addrSum (field.put key newIp).dst +
        addrSum (field.get key) =
      addrSum key.src + addrSum key.dst + addrSum newIp := by
  cases field <;> simp only [put, get] <;> omega

end AddrField

section Packet

variable {packet : List UInt8}

theorem fragmentBitsOf_rewrite (h : Trim packet) (field : AddrField) (newIp : Ipv4Addr) :
    fragmentBitsOf (field.rewrite packet newIp) = fragmentBitsOf packet := by
  have hge := h.ihl_ge
  have hmin : ipHeaderMin = 20 := rfl
  rw [fragmentBitsOf, u16At, byteAt_rewrite_of_lt h (by omega), byteAt_rewrite_of_lt h (by omega),
    byteAt_readdress_of_lt (by omega), byteAt_readdress_of_lt (by omega)]
  rfl

theorem keyOf_rewrite (h : Trim packet) (field : AddrField) (newIp : Ipv4Addr) :
    keyOf (field.rewrite packet newIp) = field.put (keyOf packet) newIp := by
  have hge := h.ihl_ge
  have hmin : ipHeaderMin = 20 := rfl
  have hbyte {j : ℕ} (hj : j < 10) : byteAt (field.rewrite packet newIp) j = byteAt packet j := by
    rw [byteAt_rewrite_of_lt h (by omega), byteAt_readdress_of_lt hj]
  have hid : identificationOf (field.rewrite packet newIp) = identificationOf packet := by
    rw [identificationOf, u16At, hbyte (by omega), hbyte (by omega)]
    rfl
  have hprotocol : protocolOf (field.rewrite packet newIp) = protocolOf packet :=
    hbyte (by omega)
  have hnew : ipAt (readdress field packet newIp) field.offset = newIp :=
    ipAt_readdress h.length_ge
  rw [keyOf, hid, hprotocol, srcIpOf_rewrite h, dstIpOf_rewrite h]
  -- the other address is not touched
  cases field with
  | src =>
      have hother : dstIpOf (readdress .src packet newIp) = dstIpOf packet :=
        ipAt_readdress_of_outside (.inr (by decide)) (by decide)
      rw [hother]
      exact congrArg (DatagramKey.mk · _ _ _) hnew
  | dst =>
      have hother : srcIpOf (readdress .dst packet newIp) = srcIpOf packet :=
        ipAt_readdress_of_outside (.inl (by decide)) (by decide)
      rw [hother]
      exact congrArg (DatagramKey.mk _ · _ _) hnew

theorem get_keyOf (field : AddrField) : field.get (keyOf packet) = ipAt packet field.offset := by
  cases field <;> rfl

/-- The transport bytes of the rewritten packet, from those of the packet with the new address. -/
theorem segmentOf_rewrite_eq (h : Trim packet) (field : AddrField) (newIp : Ipv4Addr) :
    segmentOf (field.rewrite packet newIp) =
      (field.rewrite packet newIp).drop (ihlOf packet) := by
  rw [(trim_rewrite h).segmentOf_eq, ihlOf_rewrite h]

theorem segmentOf_rewrite_of_later (h : Trim packet) (hlater : fragmentOffsetOf packet ≠ 0)
    (field : AddrField) (newIp : Ipv4Addr) :
    segmentOf (field.rewrite packet newIp) = segmentOf packet := by
  rw [segmentOf_rewrite_eq h, h.segmentOf_eq]
  obtain heq | ⟨o, -, hfirst, -⟩ := overwritten_rewrite field newIp h
  · rw [heq, drop_readdress h]
  · exact absurd hfirst hlater

end Packet

/-! ### Rewriting all packets -/

section Join

variable {key : DatagramKey} {done done' data : List UInt8} {packets : List (List UInt8)}

/-- The rewritten packet continues bytes of the same length. -/
theorem Continues.rewrite {packet : List UInt8} (h : Continues key done packet)
    (htrim : Trim packet) (field : AddrField) (newIp : Ipv4Addr)
    (hlength : done'.length = done.length)
    (hsegment : (segmentOf (field.rewrite packet newIp)).length = (segmentOf packet).length) :
    Continues (field.put key newIp) done' (field.rewrite packet newIp) := by
  refine ⟨by rw [keyOf_rewrite htrim, h.key_eq], ?_, ?_⟩
  · rw [fragmentOffsetOf, fragmentBitsOf_rewrite htrim, hlength]
    exact h.offset
  · have hne := h.nonempty
    rw [← List.length_pos_iff] at hne ⊢
    omega

theorem joinFrom_cons {packet : List UInt8} (h : Continues key done packet) :
    joinFrom key done (packet :: packets) =
      if moreFragmentsOf packet then joinFrom key (done ++ segmentOf packet) packets
      else if packets = [] then some (done ++ segmentOf packet)
      else none :=
  if_pos ⟨h.key_eq, h.offset, h.nonempty⟩

/-- Behind the first packet the rewritten packets append the same bytes. -/
theorem joinFrom_rewrite (htrim : ∀ packet ∈ packets, Trim packet) (hpos : 0 < done.length)
    (hlength : done'.length = done.length) (h : joinFrom key done packets = some data)
    (field : AddrField) (newIp : Ipv4Addr) :
    ∃ tail, data = done ++ tail ∧
      joinFrom (field.put key newIp) done' (packets.map (field.rewrite · newIp)) =
        some (done' ++ tail) := by
  induction packets generalizing done done' with
  | nil => cases h
  | cons packet packets ih =>
      have htrim₁ := htrim packet List.mem_cons_self
      obtain ⟨hcontinues, hrest⟩ := joinFrom_cons_inv h
      have hlater : fragmentOffsetOf packet ≠ 0 := by
        intro hzero
        have hoffset := hcontinues.offset
        rw [hzero, UInt16.toNat_zero] at hoffset
        omega
      have hsegment := segmentOf_rewrite_of_later htrim₁ hlater field newIp
      have hmore : moreFragmentsOf (field.rewrite packet newIp) = moreFragmentsOf packet := by
        rw [moreFragmentsOf, fragmentBitsOf_rewrite htrim₁, moreFragmentsOf]
      rw [List.map_cons, joinFrom_cons (hcontinues.rewrite htrim₁ field newIp hlength
        (by rw [hsegment])), hmore, hsegment]
      obtain ⟨hmf, hjoin⟩ | ⟨hmf, rfl, rfl⟩ := hrest
      · obtain ⟨tail, hdata, hjoin'⟩ := ih (fun p hp => htrim p (List.mem_cons_of_mem _ hp))
          (by rw [List.length_append]; omega)
          (by rw [List.length_append, List.length_append, hlength] :
            (done' ++ segmentOf packet).length = (done ++ segmentOf packet).length) hjoin
        rw [List.append_assoc] at hdata hjoin'
        rw [hmf, if_pos rfl]
        exact ⟨segmentOf packet ++ tail, hdata, hjoin'⟩
      · rw [hmf, if_neg (by simp), List.map_nil, if_pos rfl]
        exact ⟨segmentOf packet, rfl, rfl⟩

/-- The first of several packets holds at least eight bytes, and their number is a multiple of
eight. -/
theorem length_first_of_join (hpos : 0 < done.length)
    (h : joinFrom key done packets = some data) : 8 ≤ done.length := by
  cases packets with
  | nil => cases h
  | cons packet packets =>
      have hoffset := (joinFrom_cons_inv h).1.offset
      omega

/-- **The rewritten packets of a datagram reassemble**, to the bytes that the first packet has after
rewriting and the bytes of the others as they were. -/
theorem Cut.rewrite (h : Cut key data packets) (field : AddrField) (newIp : Ipv4Addr) :
    ∃ first rest tail, packets = first :: rest ∧ Trim first ∧ Continues key [] first ∧
      data = segmentOf first ++ tail ∧
      (moreFragmentsOf first = true ∧ 8 ≤ (segmentOf first).length ∨
        moreFragmentsOf first = false ∧ tail = []) ∧
      Cut (field.put key newIp) (segmentOf (field.rewrite first newIp) ++ tail)
        (packets.map (field.rewrite · newIp)) := by
  obtain ⟨first, rest, rfl, htrim, hcontinues, hrest⟩ := h.cases
  have hlength : (segmentOf (field.rewrite first newIp)).length = (segmentOf first).length := by
    rw [segmentOf_rewrite_eq htrim, htrim.segmentOf_eq, List.length_drop, List.length_drop,
      length_rewrite htrim]
  have hpos : 0 < (segmentOf first).length := List.length_pos_iff.2 hcontinues.nonempty
  have hcontinues' := hcontinues.rewrite htrim field newIp rfl hlength
  have hmore : moreFragmentsOf (field.rewrite first newIp) = moreFragmentsOf first := by
    rw [moreFragmentsOf, fragmentBitsOf_rewrite htrim, moreFragmentsOf]
  have htrim' : ∀ packet ∈ (first :: rest).map (field.rewrite · newIp), Trim packet := by
    intro packet hpacket
    obtain ⟨old, hold, rfl⟩ := List.mem_map.1 hpacket
    exact trim_rewrite (h.trim old hold)
  have hjoined {data' : List UInt8} (hjoin : joinFrom (field.put key newIp) []
      ((first :: rest).map (field.rewrite · newIp)) = some data') :
      Cut (field.put key newIp) data' ((first :: rest).map (field.rewrite · newIp)) := by
    refine ⟨htrim', ?_⟩
    rw [List.map_cons] at hjoin ⊢
    rw [reassemble, hcontinues'.key_eq, hjoin]
    rfl
  rw [List.map_cons, joinFrom_cons hcontinues', hmore, List.nil_append] at hjoined
  obtain ⟨hmf, hjoin⟩ | ⟨hmf, rfl, rfl⟩ := hrest
  · obtain ⟨tail, hdata, hjoin'⟩ := joinFrom_rewrite
      (fun p hp => h.trim p (List.mem_cons_of_mem _ hp)) hpos hlength hjoin field newIp
    rw [hmf, if_pos rfl] at hjoined
    exact ⟨first, rest, tail, rfl, htrim, hcontinues, hdata,
      .inl ⟨hmf, length_first_of_join hpos hjoin⟩, hjoined hjoin'⟩
  · rw [hmf, if_neg (by simp), List.map_nil, if_pos rfl] at hjoined
    refine ⟨first, [], [], rfl, htrim, hcontinues, (List.append_nil _).symm, .inr ⟨hmf, rfl⟩, ?_⟩
    rw [List.append_nil]
    exact hjoined rfl

end Join

/-! ### The incremental update -/

/-- **The incremental update agrees with the sums**: the checksum changes by the difference of the
addresses. -/
theorem adjustChecksum_mod (checksum : UInt16) (oldIp newIp : Ipv4Addr) :
    ((adjustChecksumForIpv4AddrChange checksum oldIp newIp).toNat + addrSum newIp) % 65535 =
      (checksum.toNat + addrSum oldIp) % 65535 := by
  have haddr (ip : Ipv4Addr) :
      addrSum ip = (u16At ip.octets 0).toNat + (u16At ip.octets 2).toNat := by
    rw [toNat_u16At, toNat_u16At]
    simp only [addrSum, Ipv4Addr.octets, sumWords, byteAt, List.getD_cons_zero,
      List.getD_cons_succ]
    omega
  have hbound (v : UInt16) : v.toNat < 65536 := v.toNat_lt
  have hnot (v : UInt16) : (~~~ v).toNat = 65535 - v.toNat := UInt16.toNat_not ..
  have hc := hbound checksum
  have hoh := hbound (u16At oldIp.octets 0)
  have hol := hbound (u16At oldIp.octets 2)
  have hnh := hbound (u16At newIp.octets 0)
  have hnl := hbound (u16At newIp.octets 2)
  simp only [adjustChecksumForIpv4AddrChange]
  rw [toNat_not_foldCarries (by simp only [hnot]; omega), haddr, haddr]
  simp only [hnot]
  generalize hs : 65535 - checksum.toNat + (65535 - (u16At oldIp.octets 0).toNat) +
    (u16At newIp.octets 0).toNat + (65535 - (u16At oldIp.octets 2).toNat) +
    (u16At newIp.octets 2).toNat = s
  have hlt := OnesComplement.wrap_lt (b := 65536) (by decide) s
  have hmod : wrap 65536 s % 65535 = s % 65535 :=
    OnesComplement.wrap_modEq (b := 65536) (by decide) s
  omega

/-- A transport sum verifies after an address changed and the checksum with it. -/
theorem verifies_adjusted {key : DatagramKey} {data : List UInt8} {o len : ℕ} {v : UInt16}
    (field : AddrField) (newIp : Ipv4Addr) (hprotocol : 0 < key.protocol.toNat) (ho : o % 2 = 0)
    (hlen : o + 2 ≤ data.length)
    (hv : (v.toNat + addrSum newIp) % 65535 =
      ((u16At data o).toNat + addrSum (field.get key)) % 65535)
    (h : Verifies 65536 (transportSum key.src key.dst key.protocol len data)) :
    Verifies 65536 (transportSum (field.put key newIp).src (field.put key newIp).dst key.protocol
      len (putU16 data o v)) := by
  have haddr := field.addrSum_put key newIp
  have hput := sumWords_putU16 (v := v) ho hlen
  refine h.of_modEq (by decide) ?_ ?_
  · rw [transportSum_eq]
    omega
  · rw [transportSum_eq, transportSum_eq]
    change _ % 65535 = _ % 65535
    omega

/-! ### The first packet of a datagram -/

section First

variable {packet : List UInt8}

theorem rewrite_first (h : Trim packet) (hmore : moreFragmentsOf packet = true)
    (hoffset : fragmentOffsetOf packet = 0) (field : AddrField) (newIp : Ipv4Addr) :
    field.rewrite packet newIp =
      let readdressed := readdress field packet newIp
      let oldIp := ipAt packet field.offset
      if protocolOf packet = 6 then updateFragmentTcpChecksum readdressed oldIp newIp
      else if protocolOf packet = 17 then updateFragmentUdpChecksum readdressed oldIp newIp
      else readdressed := by
  have htrim : Trim (readdress field packet newIp) := trim_readdress h
  rw [rewrite_eq_fix h.length_ge, fixTransportChecksum, htrim.ipv4IsFragment_eq,
    htrim.ipv4FragmentOffset_eq, moreFragmentsOf_readdress, fragmentOffsetOf_readdress, hmore,
    hoffset, protocolOf_readdress]
  rfl

/-- The first of several fragments of a UDP datagram. -/
theorem segmentOf_rewrite_first_udp (h : Trim packet) (hmore : moreFragmentsOf packet = true)
    (hoffset : fragmentOffsetOf packet = 0) (hprotocol : protocolOf packet = 17)
    (hlen : 8 ≤ (segmentOf packet).length) (field : AddrField) (newIp : Ipv4Addr) :
    segmentOf (field.rewrite packet newIp) =
      if u16At (segmentOf packet) 6 = 0 then segmentOf packet
      else putU16 (segmentOf packet) 6 (nonzeroChecksum (adjustChecksumForIpv4AddrChange
        (u16At (segmentOf packet) 6) (field.get (keyOf packet)) newIp)) := by
  have hge := h.ihl_ge
  have hfield : u16At (readdress field packet newIp) (ihlOf packet + 6) =
      u16At (segmentOf packet) 6 := by
    rw [h.segmentOf_eq, ← drop_readdress h, u16At_drop]
  have hlong : ihlOf packet + 8 ≤ packet.length := by
    rw [h.segmentOf_eq, List.length_drop] at hlen
    omega
  have hrewrite : field.rewrite packet newIp = updateFragmentUdpChecksum
      (readdress field packet newIp) (ipAt packet field.offset) newIp := by
    rw [rewrite_first h hmore hoffset, hprotocol]
    rfl
  rw [segmentOf_rewrite_eq h, hrewrite, updateFragmentUdpChecksum, get_keyOf]
  simp only [ihlOf_readdress, length_readdress, hfield]
  rw [if_neg (by simp; omega)]
  split
  · rw [drop_readdress h, h.segmentOf_eq]
  · rw [drop_putU16, drop_readdress h, ← h.segmentOf_eq]
    rfl

/-- The first of several fragments of a TCP segment: its checksum is adjusted if it is there. -/
theorem segmentOf_rewrite_first_tcp (h : Trim packet) (hmore : moreFragmentsOf packet = true)
    (hoffset : fragmentOffsetOf packet = 0) (hprotocol : protocolOf packet = 6)
    (field : AddrField) (newIp : Ipv4Addr) :
    segmentOf (field.rewrite packet newIp) =
      if 18 ≤ (segmentOf packet).length then
        putU16 (segmentOf packet) 16 (adjustChecksumForIpv4AddrChange
          (u16At (segmentOf packet) 16) (field.get (keyOf packet)) newIp)
      else segmentOf packet := by
  have hge := h.ihl_ge
  have hle := h.ihl_le
  have hfield : u16At (readdress field packet newIp) (ihlOf packet + 16) =
      u16At (segmentOf packet) 16 := by
    rw [h.segmentOf_eq, ← drop_readdress h, u16At_drop]
  have hlength : (segmentOf packet).length = packet.length - ihlOf packet := by
    rw [h.segmentOf_eq, List.length_drop]
  have hrewrite : field.rewrite packet newIp = updateFragmentTcpChecksum
      (readdress field packet newIp) (ipAt packet field.offset) newIp := by
    rw [rewrite_first h hmore hoffset, hprotocol]
    rfl
  rw [segmentOf_rewrite_eq h, hrewrite, updateFragmentTcpChecksum, get_keyOf]
  simp only [ihlOf_readdress, length_readdress, hfield]
  by_cases hlong : 18 ≤ (segmentOf packet).length
  · rw [if_neg (by simp; omega), if_pos hlong, drop_putU16, drop_readdress h, ← h.segmentOf_eq]
  · rw [if_pos (by simp; omega), if_neg hlong, drop_readdress h, h.segmentOf_eq]

end First

/-! ### UDP -/

section Append

variable {l l' : List UInt8} {i o : ℕ}

theorem byteAt_append (h : i < l.length) : byteAt (l ++ l') i = byteAt l i := by
  simp [byteAt, List.getD_eq_getElem?_getD, List.getElem?_append_left h]

theorem u16At_append (h : i + 1 < l.length) : u16At (l ++ l') i = u16At l i := by
  rw [u16At, u16At, byteAt_append h, byteAt_append (by omega)]

theorem putU16_append {v : UInt16} (h : o + 2 ≤ l.length) :
    putU16 l o v ++ l' = putU16 (l ++ l') o v := by
  simp only [putU16, putBytes]
  rw [List.set_append_left _ _ (by omega), List.set_append_left _ _ (by simp; omega)]

end Append

/-- A UDP datagram is as long as it says. -/
structure UdpDatagram (data : List UInt8) : Prop where
  header_le : udpHeaderSize ≤ data.length
  len_eq : udpLenOf data = data.length

section Udp

variable {key : DatagramKey} {data packet : List UInt8} {packets : List (List UInt8)}

theorem UdpDatagram.putU16 (h : UdpDatagram data) (v : UInt16) :
    UdpDatagram (putU16 data 6 v) := by
  refine ⟨by rw [length_putU16]; exact h.header_le, ?_⟩
  rw [length_putU16, ← h.len_eq, udpLenOf, u16At, byteAt_putU16_of_outside (by omega),
    byteAt_putU16_of_outside (by omega)]
  rfl

theorem UdpDatagram.verifies_iff (h : UdpDatagram data) {src dst : Ipv4Addr} :
    UdpVerifies src dst data ↔ Verifies 65536 (transportSum src dst 17 data.length data) := by
  rw [UdpVerifies, h.len_eq, List.take_length]

theorem Continues.offset_eq_zero (h : Continues key [] packet) : fragmentOffsetOf packet = 0 := by
  have hoffset := h.offset
  rw [List.length_nil] at hoffset
  exact UInt16.toNat_inj.1 (by rw [UInt16.toNat_zero]; omega)

theorem Continues.protocol_eq (h : Continues key [] packet) : protocolOf packet = key.protocol := by
  rw [← h.key_eq, keyOf]

/-- What rewriting the packets of a UDP datagram makes of it: a checksum of zero stays, and another
one is replaced by one that verifies with the new address. -/
theorem Cut.rewrite_udp (h : Cut key data packets) (hudp : key.protocol = 17)
    (hdata : UdpDatagram data) (field : AddrField) (newIp : Ipv4Addr) :
    (u16At data 6 = 0 ∧ Cut (field.put key newIp) data (packets.map (field.rewrite · newIp))) ∨
    u16At data 6 ≠ 0 ∧ ∃ v, v ≠ 0 ∧
      Cut (field.put key newIp) (putU16 data 6 v) (packets.map (field.rewrite · newIp)) ∧
      (UdpVerifies key.src key.dst data →
        UdpVerifies (field.put key newIp).src (field.put key newIp).dst (putU16 data 6 v)) := by
  obtain ⟨first, rest, tail, rfl, htrim, hcontinues, rfl, hfirst, hcut⟩ := h.rewrite field newIp
  have hheader := hdata.header_le
  have hsize : udpHeaderSize = 8 := rfl
  have hprotocol : protocolOf first = 17 := by rw [hcontinues.protocol_eq, hudp]
  obtain ⟨hmore, hlen⟩ | ⟨hmore, rfl⟩ := hfirst
  · -- several fragments: the checksum of the first is adjusted
    have hsegment := segmentOf_rewrite_first_udp htrim hmore hcontinues.offset_eq_zero hprotocol
      hlen field newIp
    have hword : u16At (segmentOf first ++ tail) 6 = u16At (segmentOf first) 6 :=
      u16At_append (by omega)
    rw [← hword, hcontinues.key_eq] at hsegment
    split at hsegment
    · next hzero => exact .inl ⟨hzero, by rwa [hsegment] at hcut⟩
    · next hne =>
        rw [hsegment, putU16_append (by omega)] at hcut
        refine .inr ⟨hne, _, nonzeroChecksum_ne_zero _, hcut, fun hverifies => ?_⟩
        rw [hdata.verifies_iff] at hverifies
        rw [(hdata.putU16 _).verifies_iff, length_putU16]
        have hmod := nonzeroChecksum_mod (adjustChecksumForIpv4AddrChange
          (u16At (segmentOf first ++ tail) 6) (field.get key) newIp)
        have hadjust := adjustChecksum_mod (u16At (segmentOf first ++ tail) 6) (field.get key) newIp
        rw [← hudp] at hverifies ⊢
        exact verifies_adjusted field newIp (by rw [hudp]; decide) rfl (by omega) (by omega)
          hverifies
  · -- a whole packet: the checksum is recalculated
    rw [List.append_nil] at hdata hheader hcut ⊢
    have hwhole : Whole first 17 udpHeaderSize := by
      refine ⟨htrim, hprotocol, hmore, hcontinues.offset_eq_zero, ?_⟩
      rw [htrim.segmentOf_eq, List.length_drop] at hheader
      omega
    have hkey := keyOf_rewrite htrim field newIp
    rw [hcontinues.key_eq] at hkey
    obtain ⟨hzero, hsame⟩ | ⟨hne, v, hv, hsegment, hverifies⟩ :=
      hwhole.segmentOf_rewrite_udp field newIp
    · exact .inl ⟨hzero, by rwa [hsame] at hcut⟩
    · refine .inr ⟨hne, v, hv, by rwa [hsegment] at hcut, fun _ => ?_⟩
      rw [hsegment] at hverifies
      rw [(hdata.putU16 v).verifies_iff, length_putU16, ← hkey]
      exact hverifies

/-- **Fragmented UDP stays valid.** The packets that a UDP datagram was cut into, rewritten one by
one, reassemble to the same datagram up to the two bytes of its checksum; a checksum that was
omitted stays omitted, and one that verified does so for the new address and is not taken for
omitted. -/
theorem fragmented_udp_survives (h : Cut key data packets) (hudp : key.protocol = 17)
    (hdata : UdpDatagram data) (field : AddrField) (newIp : Ipv4Addr) :
    ∃ data', reassemble (packets.map (field.rewrite · newIp)) = some (field.put key newIp, data') ∧
      data'.length = data.length ∧
      (∀ j, j ≠ 6 → j ≠ 7 → byteAt data' j = byteAt data j) ∧
      (u16At data 6 = 0 → u16At data' 6 = 0) ∧
      (u16At data 6 ≠ 0 → UdpVerifies key.src key.dst data → u16At data' 6 ≠ 0 ∧
        UdpVerifies (field.put key newIp).src (field.put key newIp).dst data') := by
  have hheader := hdata.header_le
  have hsize : udpHeaderSize = 8 := rfl
  obtain ⟨hzero, hcut⟩ | ⟨hne, v, hv, hcut, hverifies⟩ := h.rewrite_udp hudp hdata field newIp
  · exact ⟨data, hcut.joined, rfl, fun _ _ _ => rfl, id, fun hne => absurd hzero hne⟩
  · refine ⟨putU16 data 6 v, hcut.joined, length_putU16 .., fun j h6 h7 => ?_,
      fun hzero => absurd hzero hne, fun _ hold => ⟨?_, hverifies hold⟩⟩
    · exact byteAt_putU16_of_outside (by omega)
    · rwa [u16At_putU16_self (by omega)]

/-- A UDP datagram of 19 bytes in three fragments, the first one with an option in its header. -/
def sampleUdpFragments : List (List UInt8) :=
  [[0x46, 0, 0, 32, 0, 9, 0x20, 0, 64, 17, 0, 0, 10, 0, 0, 2, 128, 116, 1, 1, 1, 1, 1, 0,
    0xC0, 0, 0xC3, 0x50, 0, 19, 0xCC, 0xE1],
   [0x45, 0, 0, 28, 0, 9, 0x20, 1, 64, 17, 0, 0, 10, 0, 0, 2, 128, 116, 1, 1,
    1, 2, 3, 4, 5, 6, 7, 8],
   [0x45, 0, 0, 23, 0, 9, 0x00, 2, 64, 17, 0, 0, 10, 0, 0, 2, 128, 116, 1, 1, 9, 10, 11]]

def sampleUdpDatagram : List UInt8 :=
  [0xC0, 0, 0xC3, 0x50, 0, 19, 0xCC, 0xE1, 1, 2, 3, 4, 5, 6, 7, 8, 9, 10, 11]

theorem fragmented_udp_survives_sample :
    UdpVerifies ⟨10, 0, 0, 2⟩ ⟨128, 116, 1, 1⟩ sampleUdpDatagram ∧
    ∃ data', reassemble (sampleUdpFragments.map (rewriteSrcIp · ⟨10, 200, 42, 7⟩)) =
        some (⟨⟨10, 200, 42, 7⟩, ⟨128, 116, 1, 1⟩, 9, 17⟩, data') ∧
      UdpVerifies ⟨10, 200, 42, 7⟩ ⟨128, 116, 1, 1⟩ data' := by
  have hcut : Cut ⟨⟨10, 0, 0, 2⟩, ⟨128, 116, 1, 1⟩, 9, 17⟩ sampleUdpDatagram sampleUdpFragments :=
    ⟨by decide +kernel, by decide +kernel⟩
  have hvalid : UdpVerifies ⟨10, 0, 0, 2⟩ ⟨128, 116, 1, 1⟩ sampleUdpDatagram :=
    verifies_iff_dvd.2 (by decide +kernel)
  obtain ⟨data', hjoined, -, -, -, hsurvives⟩ := fragmented_udp_survives hcut rfl
    ⟨by decide, by decide +kernel⟩ .src ⟨10, 200, 42, 7⟩
  exact ⟨hvalid, data', hjoined, (hsurvives (by decide +kernel) hvalid).2⟩

end Udp

/-! ### TCP -/

section Tcp

variable {key : DatagramKey} {data first : List UInt8} {rest : List (List UInt8)}

theorem Whole.segmentOf_rewrite_tcp (h : Whole first 6 tcpHeaderMin) (field : AddrField)
    (newIp : Ipv4Addr) :
    ∃ v, segmentOf (field.rewrite first newIp) = putU16 (segmentOf first) 16 v := by
  have htrim : Trim (readdress field first newIp) := trim_readdress h.toTrim
  have hlen : ihlOf first + 20 ≤ first.length := h.header_le
  have heq := recalculateTcpChecksum_eq htrim (by simpa using hlen)
  have hrewrite : field.rewrite first newIp =
      recalculateTcpChecksum (readdress field first newIp) :=
    h.rewrite_eq field newIp
  have hput := congrArg (List.drop (ihlOf first)) (hrewrite.trans heq)
  rw [ihlOf_readdress, drop_putU16, drop_readdress h.toTrim, ← h.segmentOf_eq,
    ← segmentOf_rewrite_eq h.toTrim] at hput
  exact ⟨_, hput⟩

/-- The checksum of a segment whose checksum was not adjusted: it verifies for the new address if
that adds the same as the old one. -/
theorem tcpVerifies_put_iff (field : AddrField) (newIp : Ipv4Addr)
    (h : TcpVerifies key.src key.dst data) :
    TcpVerifies (field.put key newIp).src (field.put key newIp).dst data ↔
      addrSum newIp % 65535 = addrSum (field.get key) % 65535 := by
  have haddr := field.addrSum_put key newIp
  have hprotocol : (6 : UInt8).toNat = 6 := rfl
  rw [TcpVerifies, verifies_iff_dvd, transportSum_eq] at h
  rw [TcpVerifies, verifies_iff_dvd, transportSum_eq]
  omega

/-- What rewriting the packets of a TCP segment makes of it. -/
theorem Cut.rewrite_tcp (h : Cut key data (first :: rest)) (htcp : key.protocol = 6)
    (hdata : tcpHeaderMin ≤ data.length) (field : AddrField) (newIp : Ipv4Addr) :
    ((segmentOf first).length < 18 ∧
        Cut (field.put key newIp) data ((first :: rest).map (field.rewrite · newIp))) ∨
    18 ≤ (segmentOf first).length ∧ ∃ v,
      Cut (field.put key newIp) (putU16 data 16 v) ((first :: rest).map (field.rewrite · newIp)) ∧
      (TcpVerifies key.src key.dst data →
        TcpVerifies (field.put key newIp).src (field.put key newIp).dst (putU16 data 16 v)) := by
  obtain ⟨first', rest', tail, heq, htrim, hcontinues, rfl, hfirst, hcut⟩ := h.rewrite field newIp
  cases heq
  have hsize : tcpHeaderMin = 20 := rfl
  have hprotocol : protocolOf first = 6 := by rw [hcontinues.protocol_eq, htcp]
  obtain ⟨hmore, -⟩ | ⟨hmore, rfl⟩ := hfirst
  · -- several fragments: the checksum is adjusted if the first one holds it
    have hsegment := segmentOf_rewrite_first_tcp htrim hmore hcontinues.offset_eq_zero hprotocol
      field newIp
    split at hsegment
    · next hlong =>
        have hword : u16At (segmentOf first ++ tail) 16 = u16At (segmentOf first) 16 :=
          u16At_append (by omega)
        rw [← hword, hcontinues.key_eq] at hsegment
        rw [hsegment, putU16_append (by omega)] at hcut
        refine .inr ⟨hlong, _, hcut, fun hverifies => ?_⟩
        rw [TcpVerifies, ← htcp] at hverifies ⊢
        rw [length_putU16]
        exact verifies_adjusted field newIp (by rw [htcp]; decide) rfl (by omega)
          (adjustChecksum_mod ..) hverifies
    · next hshort => exact .inl ⟨Nat.not_le.1 hshort, by rwa [hsegment] at hcut⟩
  · -- a whole packet: the checksum is recalculated
    rw [List.append_nil] at hdata hcut ⊢
    have hwhole : Whole first 6 tcpHeaderMin := by
      refine ⟨htrim, hprotocol, hmore, hcontinues.offset_eq_zero, ?_⟩
      rw [htrim.segmentOf_eq, List.length_drop] at hdata
      omega
    have hkey := keyOf_rewrite htrim field newIp
    rw [hcontinues.key_eq] at hkey
    obtain ⟨v, hsegment⟩ := hwhole.segmentOf_rewrite_tcp field newIp
    have hverifies := hwhole.tcpVerifies_rewrite field newIp
    rw [hsegment] at hcut hverifies
    refine .inr ⟨by omega, v, hcut, fun _ => ?_⟩
    rw [← hkey]
    exact hverifies

/-- **When fragmented TCP stays valid.**  The packets that a TCP segment was cut into, rewritten one
by one, reassemble to the same segment up to the two bytes of its checksum.  If the checksum
verified, it does so for the new address exactly if the first fragment holds it, or if the new
address adds the same as the old one. -/
theorem fragmented_tcp_survives_iff (h : Cut key data (first :: rest)) (htcp : key.protocol = 6)
    (hdata : tcpHeaderMin ≤ data.length) (field : AddrField) (newIp : Ipv4Addr) :
    ∃ data', reassemble ((first :: rest).map (field.rewrite · newIp)) =
        some (field.put key newIp, data') ∧
      data'.length = data.length ∧
      (∀ j, j ≠ 16 → j ≠ 17 → byteAt data' j = byteAt data j) ∧
      (TcpVerifies key.src key.dst data →
        (TcpVerifies (field.put key newIp).src (field.put key newIp).dst data' ↔
          18 ≤ (segmentOf first).length ∨
            addrSum newIp % 65535 = addrSum (field.get key) % 65535)) := by
  obtain ⟨hshort, hcut⟩ | ⟨hlong, v, hcut, hverifies⟩ := h.rewrite_tcp htcp hdata field newIp
  · refine ⟨data, hcut.joined, rfl, fun _ _ _ => rfl, fun hold => ?_⟩
    rw [tcpVerifies_put_iff field newIp hold]
    exact (or_iff_right (Nat.not_le.2 hshort)).symm
  · refine ⟨putU16 data 16 v, hcut.joined, length_putU16 .., fun j h16 h17 => ?_, fun hold => ?_⟩
    · exact byteAt_putU16_of_outside (by omega)
    · exact iff_of_true (hverifies hold) (.inl hlong)

/-- A TCP segment of 20 bytes, cut behind its first eight bytes. -/
def sampleTcpFragments : List (List UInt8) :=
  [[0x45, 0, 0, 28, 0, 9, 0x20, 0, 64, 6, 0, 0, 10, 0, 0, 2, 128, 116, 1, 1,
    0xC0, 0, 1, 0xBB, 0, 0, 0, 1],
   [0x45, 0, 0, 32, 0, 9, 0x00, 1, 64, 6, 0, 0, 10, 0, 0, 2, 128, 116, 1, 1,
    0, 0, 0, 0, 0x50, 2, 0xFF, 0xFF, 0x62, 0xAF, 0, 0]]

def sampleTcpSegment : List UInt8 :=
  [0xC0, 0, 1, 0xBB, 0, 0, 0, 1, 0, 0, 0, 0, 0x50, 2, 0xFF, 0xFF, 0x62, 0xAF, 0, 0]

def sampleTcpKey : DatagramKey := ⟨⟨10, 0, 0, 2⟩, ⟨128, 116, 1, 1⟩, 9, 6⟩

/-- The segment with eight bytes of payload, cut behind its first 24 bytes. -/
def sampleTcpPayload : List UInt8 := sampleTcpSegment ++ [0xFF, 0xF7, 0, 0, 0, 0, 0, 0]

def sampleLongFragments : List (List UInt8) :=
  [[0x45, 0, 0, 44, 0, 9, 0x20, 0, 64, 6, 0, 0, 10, 0, 0, 2, 128, 116, 1, 1] ++
    sampleTcpPayload.take 24,
   [0x45, 0, 0, 24, 0, 9, 0x00, 3, 64, 6, 0, 0, 10, 0, 0, 2, 128, 116, 1, 1] ++
    sampleTcpPayload.drop 24]

/-- The first fragment holds the checksum, which then follows the address of the relay.  Where it
does not, the cut does not matter for an address that adds the same as the old one. -/
theorem fragmented_tcp_survives_iff_sample :
    (TcpVerifies ⟨10, 0, 0, 2⟩ ⟨128, 116, 1, 1⟩ sampleTcpPayload ∧
      ∃ data', reassemble (sampleLongFragments.map (rewriteSrcIp · ⟨10, 200, 42, 7⟩)) =
          some (⟨⟨10, 200, 42, 7⟩, ⟨128, 116, 1, 1⟩, 9, 6⟩, data') ∧ data' ≠ sampleTcpPayload ∧
        TcpVerifies ⟨10, 200, 42, 7⟩ ⟨128, 116, 1, 1⟩ data') ∧
    TcpVerifies ⟨10, 0, 0, 2⟩ ⟨128, 116, 1, 1⟩ sampleTcpSegment ∧
    ∃ data', reassemble (sampleTcpFragments.map (rewriteSrcIp · ⟨0, 2, 10, 0⟩)) =
        some (⟨⟨0, 2, 10, 0⟩, ⟨128, 116, 1, 1⟩, 9, 6⟩, data') ∧
      TcpVerifies ⟨0, 2, 10, 0⟩ ⟨128, 116, 1, 1⟩ data' := by
  have hlong : Cut sampleTcpKey sampleTcpPayload sampleLongFragments :=
    ⟨by decide +kernel, by decide +kernel⟩
  have hlongValid : TcpVerifies ⟨10, 0, 0, 2⟩ ⟨128, 116, 1, 1⟩ sampleTcpPayload :=
    verifies_iff_dvd.2 (by decide +kernel)
  have hcut : Cut sampleTcpKey sampleTcpSegment sampleTcpFragments :=
    ⟨by decide +kernel, by decide +kernel⟩
  have hvalid : TcpVerifies ⟨10, 0, 0, 2⟩ ⟨128, 116, 1, 1⟩ sampleTcpSegment :=
    verifies_iff_dvd.2 (by decide +kernel)
  obtain ⟨long', hlongJoined, -, -, hlongSurvives⟩ := fragmented_tcp_survives_iff hlong rfl
    (by decide) .src ⟨10, 200, 42, 7⟩
  obtain ⟨data', hjoined, -, -, hsurvives⟩ := fragmented_tcp_survives_iff hcut rfl (by decide) .src
    ⟨0, 2, 10, 0⟩
  refine ⟨⟨hlongValid, long', hlongJoined, ?_, (hlongSurvives hlongValid).2 (.inl (by decide))⟩,
    hvalid, data', hjoined, (hsurvives hvalid).2 (.inr (by decide +kernel))⟩
  rintro rfl
  exact absurd hlongJoined (by decide +kernel)

/-- **A valid checksum is lost with a short first fragment**, although the relay accepts both
fragments. -/
theorem fragmented_tcp_checksum_lost :
    (∀ packet ∈ sampleTcpFragments, Trim packet ∧ Accepted samplePolicy packet) ∧
    reassemble sampleTcpFragments = some (sampleTcpKey, sampleTcpSegment) ∧
    TcpVerifies ⟨10, 0, 0, 2⟩ ⟨128, 116, 1, 1⟩ sampleTcpSegment ∧
    reassemble (sampleTcpFragments.map (rewriteSrcIp · ⟨10, 200, 42, 7⟩)) =
      some (⟨⟨10, 200, 42, 7⟩, ⟨128, 116, 1, 1⟩, 9, 6⟩, sampleTcpSegment) ∧
    ¬ TcpVerifies ⟨10, 200, 42, 7⟩ ⟨128, 116, 1, 1⟩ sampleTcpSegment := by
  have htrim : ∀ packet ∈ sampleTcpFragments, Trim packet := by decide +kernel
  have haccepted : ∀ packet ∈ sampleTcpFragments,
      (parseIpPacketFull samplePolicy packet .new).1 =
        some (.fragment 6 ⟨10, 0, 0, 2⟩ packet) := by decide +kernel
  refine ⟨fun packet hpacket => ⟨htrim packet hpacket, .new, _, haccepted packet hpacket, by simp⟩,
    by decide +kernel, verifies_iff_dvd.2 (by decide +kernel), by decide +kernel, fun h => ?_⟩
  exact absurd (verifies_iff_dvd.1 h) (by decide +kernel)

end Tcp

end SwiftRelay
