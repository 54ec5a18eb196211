/-
**Checksums of packets.**

The checksums of IPv4, TCP and UDP add up 16-bit words with end-around carry.  A byte counts 256 or
1, by its position, so that overwriting a byte changes the sum by its weight times the difference.
The sum of a header or of a segment with its pseudo-header verifies when it comes out as all ones;
writing the complement of the sum into a field that was zero makes it verify.

Main definitions:

* `transportSum` — what a transport checksum adds up;
* `HeaderVerifies`, `TcpVerifies`, `UdpVerifies` — the receiver accepts the header, the TCP segment
  or the UDP datagram.

Main results:

* `foldCarries_eq_wrap` — two rounds add up all the carries of a 32-bit sum;
* `sumWords_putU16` — what overwriting a word does to a sum;
* `headerVerifies_recalculate`, `verifies_putTransportChecksum` — a checksum that was recalculated
  verifies.
-/

import SwiftRelay.OnesComplement
import SwiftRelay.TunRewrite

set_option autoImplicit false

namespace SwiftRelay

open OnesComplement (Verifies wrap)

/-! ### Reading and writing words -/

section Words

variable {l : List UInt8} {i o n : ℕ} {v : UInt16}

theorem toNat_u16At (l : List UInt8) (i : ℕ) :
    (u16At l i).toNat = (byteAt l i).toNat * 256 + (byteAt l (i + 1)).toNat := by
  have hhigh := (byteAt l i).toNat_lt
  have hlow := (byteAt l (i + 1)).toNat_lt
  simp only [u16At, fromBeBytes, List.foldl_cons, List.foldl_nil, UInt16.toNat_ofNat']
  omega

theorem toNat_highByte (v : UInt16) : (highByte v.toNat).toNat = v.toNat / 256 := by
  have := v.toNat_lt
  simp only [highByte, UInt8.toNat_ofNat']
  omega

theorem toNat_lowByte (n : ℕ) : (lowByte n).toNat = n % 256 := by
  simp only [lowByte, UInt8.toNat_ofNat']
  omega

theorem byteAt_drop (l : List UInt8) (n i : ℕ) : byteAt (l.drop n) i = byteAt l (n + i) := by
  simp [byteAt, List.getD_eq_getElem?_getD]

theorem u16At_drop (l : List UInt8) (n i : ℕ) : u16At (l.drop n) i = u16At l (n + i) := by
  rw [u16At, u16At, byteAt_drop, byteAt_drop, Nat.add_assoc]

theorem u16At_putU16_self (h : o + 2 ≤ l.length) : u16At (putU16 l o v) o = v := by
  refine UInt16.toNat_inj.1 ?_
  simp only [toNat_u16At, putU16, putBytes]
  rw [byteAt_set_self _ (by simp; omega), byteAt_set_of_ne _ (by omega),
    byteAt_set_self _ (by omega), toNat_highByte, toNat_lowByte]
  omega

theorem putU16_putU16 (l : List UInt8) (o : ℕ) (u v : UInt16) :
    putU16 (putU16 l o u) o v = putU16 l o v := by
  simp only [putU16, putBytes]
  rw [List.set_comm _ _ (by omega : o ≠ o + 1), List.set_set, List.set_set]

theorem take_putBytes (l : List UInt8) (o : ℕ) (bytes : List UInt8) (n : ℕ) :
    (putBytes l o bytes).take n = putBytes (l.take n) o bytes := by
  induction bytes generalizing o with
  | nil => rfl
  | cons b bs ih => rw [putBytes, putBytes, List.take_set, ih]

theorem drop_putBytes (l : List UInt8) (n o : ℕ) (bytes : List UInt8) :
    (putBytes l (n + o) bytes).drop n = putBytes (l.drop n) o bytes := by
  induction bytes generalizing o with
  | nil => rfl
  | cons b bs ih =>
      rw [putBytes, putBytes, List.drop_set, if_neg (by omega), Nat.add_sub_cancel_left,
        Nat.add_assoc, ih]

theorem drop_putU16 (l : List UInt8) (n o : ℕ) (v : UInt16) :
    (putU16 l (n + o) v).drop n = putU16 (l.drop n) o v := drop_putBytes l n o _

/-- What is written before the end of the part that is dropped. -/
theorem drop_putBytes_of_le {bytes : List UInt8} (h : o + bytes.length ≤ n) :
    (putBytes l o bytes).drop n = l.drop n := by
  induction bytes generalizing o with
  | nil => rfl
  | cons b bs ih =>
      rw [List.length_cons] at h
      rw [putBytes, List.drop_set, if_pos (by omega), ih (by omega)]

end Words

/-! ### Sums of words -/

/-- What a byte counts for, by its position. -/
def weight (i : ℕ) : ℕ := if i % 2 = 0 then 256 else 1

section Sums

variable {l l' : List UInt8} {i o : ℕ}

theorem sumWords_set (b : UInt8) (h : i < l.length) :
    sumWords (l.set i b) + weight i * (byteAt l i).toNat = sumWords l + weight i * b.toNat := by
  induction l using sumWords.induct generalizing i with
  | case1 => simp at h
  | case2 a =>
      have hi : i = 0 := by simpa using h
      subst hi
      simp only [List.set_cons_zero, sumWords, weight, byteAt, List.getD_cons_zero, Nat.zero_mod,
        if_true]
      omega
  | case3 a c rest ih =>
      -- the first word, and then as for the rest
      rcases i with _ | _ | i
      · simp only [List.set_cons_zero, sumWords, weight, byteAt, List.getD_cons_zero,
          Nat.zero_mod, if_true]
        omega
      · simp only [Nat.zero_add, List.set_cons_succ, List.set_cons_zero, sumWords, weight, byteAt,
          List.getD_cons_succ, List.getD_cons_zero, Nat.one_mod, Nat.one_ne_zero, if_false]
        omega
      · have hrest := ih (i := i) (by simpa using h)
        have hweight : weight (i + 2) = weight i := by
          simp only [weight, Nat.add_mod_right]
        have hbyte : byteAt (a :: c :: rest) (i + 2) = byteAt rest i := by
          simp only [byteAt, List.getD_cons_succ]
        simp only [List.set_cons_succ, sumWords, hweight, hbyte]
        omega

/-- **What overwriting a word does to a sum.** -/
theorem sumWords_putU16 {v : UInt16} (ho : o % 2 = 0) (h : o + 2 ≤ l.length) :
    sumWords (putU16 l o v) + (u16At l o).toNat = sumWords l + v.toNat := by
  have hlow := sumWords_set (l := l) (i := o + 1) (lowByte v.toNat) (by omega)
  have hhigh := sumWords_set (l := l.set (o + 1) (lowByte v.toNat)) (i := o)
    (highByte v.toNat) (by simp; omega)
  have heven : weight o = 256 := if_pos ho
  have hodd : weight (o + 1) = 1 := if_neg (by omega)
  rw [hodd, toNat_lowByte] at hlow
  rw [heven, toNat_highByte, byteAt_set_of_ne _ (by omega)] at hhigh
  rw [toNat_u16At]
  simp only [putU16, putBytes]
  omega

/-- After an odd number of bytes the words of what follows are shifted by one byte. -/
theorem sumWords_append (l l' : List UInt8) :
    sumWords (l ++ l') =
      sumWords l + sumWords (if l.length % 2 = 0 then l' else 0 :: l') := by
  induction l using sumWords.induct with
  | case1 => simp [sumWords]
  | case2 a => cases l' <;> simp [sumWords]; omega
  | case3 a c rest ih =>
      have hparity : (a :: c :: rest).length % 2 = rest.length % 2 := by
        simp only [List.length_cons, Nat.add_assoc, Nat.add_mod_right]
      rw [hparity]
      simp only [List.cons_append, sumWords, ih]
      omega

theorem sumWords_le (l : List UInt8) : sumWords l ≤ 65535 * ((l.length + 1) / 2) := by
  induction l using sumWords.induct with
  | case1 => simp [sumWords]
  | case2 a =>
      have := a.toNat_lt
      simp only [sumWords, List.length_singleton]
      omega
  | case3 a c rest ih =>
      have := a.toNat_lt
      have := c.toNat_lt
      simp only [sumWords, List.length_cons]
      omega

end Sums

/-! ### Adding the carries -/

/-- Two rounds add up all the carries of a 32-bit sum. -/
theorem foldCarries_eq_wrap {n : ℕ} (h : n < 2 ^ 32) : foldCarries n = wrap 65536 n :=
  (OnesComplement.wrap_eq_fold_fold (by decide) (by omega)).symm

theorem toNat_not_foldCarries {n : ℕ} (h : n < 2 ^ 32) :
    (~~~ UInt16.ofNat (foldCarries n)).toNat = 65535 - wrap 65536 n := by
  have hlt := OnesComplement.wrap_lt (b := 65536) (by decide) n
  rw [UInt16.toNat_not, UInt16.toNat_ofNat', foldCarries_eq_wrap h, Nat.mod_eq_of_lt hlt]
  rfl

theorem verifies_iff_dvd {n : ℕ} : Verifies 65536 n ↔ 0 < n ∧ 65535 ∣ n :=
  OnesComplement.verifies_iff (by decide)

instance (n : ℕ) : Decidable (Verifies 65536 n) := decidable_of_iff _ verifies_iff_dvd.symm

/-! ### What the receiver checks -/

/-- What an address adds to a sum. -/
def addrSum (ip : Ipv4Addr) : ℕ := sumWords ip.octets

/-- What a transport checksum adds up: addresses, protocol, length and the bytes. -/
def transportSum (src dst : Ipv4Addr) (protocol : UInt8) (len : ℕ) (data : List UInt8) : ℕ :=
  sumWords (src.octets ++ dst.octets ++ [0, protocol, highByte len, lowByte len]) + sumWords data

/-- The bytes behind the header of a packet, up to its total length. -/
def segmentOf (packet : List UInt8) : List UInt8 := (trimmed packet).drop (ihlOf packet)

/-- The checksum of the header verifies. -/
def HeaderVerifies (packet : List UInt8) : Prop :=
  Verifies 65536 (sumWords (packet.take (ihlOf packet)))

/-- The checksum of a TCP segment between two addresses verifies. -/
def TcpVerifies (src dst : Ipv4Addr) (segment : List UInt8) : Prop :=
  Verifies 65536 (transportSum src dst 6 segment.length segment)

/-- The length that a UDP datagram says it has. -/
def udpLenOf (data : List UInt8) : ℕ := (u16At data 4).toNat

/-- The checksum of a UDP datagram between two addresses verifies: it covers as many bytes as the
length field says. -/
def UdpVerifies (src dst : Ipv4Addr) (data : List UInt8) : Prop :=
  Verifies 65536 (transportSum src dst 17 (udpLenOf data) (data.take (udpLenOf data)))

theorem transportSum_eq (src dst : Ipv4Addr) (protocol : UInt8) (len : ℕ) (data : List UInt8) :
    transportSum src dst protocol len data =
      addrSum src + addrSum dst + protocol.toNat + len % 65536 + sumWords data := by
  have hhigh : (highByte len).toNat = len / 256 % 256 := by
    simp only [highByte, UInt8.toNat_ofNat']
  simp only [transportSum, addrSum, Ipv4Addr.octets, List.cons_append, List.nil_append, sumWords,
    hhigh, toNat_lowByte, UInt8.toNat_zero]
  omega

theorem addrSum_le (ip : Ipv4Addr) : addrSum ip ≤ 131070 := by
  have hle := sumWords_le ip.octets
  have hlen : ip.octets.length = 4 := rfl
  rw [addrSum]
  omega

theorem transportSum_lt (src dst : Ipv4Addr) (protocol : UInt8) {len : ℕ} {data : List UInt8}
    (h : len < 65536) (hdata : data.length ≤ len) :
    transportSum src dst protocol len data < 2 ^ 32 := by
  have hsrc := addrSum_le src
  have hdst := addrSum_le dst
  have hprotocol := protocol.toNat_lt
  have hwords := sumWords_le data
  rw [transportSum_eq]
  omega

variable {packet : List UInt8}

/-- The first twenty bytes of a packet hold its addresses at the end. -/
theorem pseudoHeader_eq (h : ipHeaderMin ≤ packet.length) (protocol : UInt8) (len : ℕ) :
    pseudoHeader packet protocol len =
      (srcIpOf packet).octets ++ (dstIpOf packet).octets ++
        [0, protocol, highByte len, lowByte len] := by
  have hmin : ipHeaderMin = 20 := rfl
  rw [pseudoHeader]
  congr 1
  refine List.ext_getElem (by simp [Ipv4Addr.octets]; omega) fun i hi hi' => ?_
  have hbyte : ∀ j (hj : j < packet.length), packet[j] = byteAt packet j := by
    intro j hj
    exact (byteAt_of_getElem? (List.getElem?_eq_getElem hj)).symm
  have hi8 : i < 8 := by simpa [Ipv4Addr.octets] using hi'
  simp only [List.getElem_drop, List.getElem_take, hbyte]
  rcases i with _ | _ | _ | _ | _ | _ | _ | _ | i
  all_goals first | rfl | omega

/-! ### Checksums that were recalculated -/

theorem toNat_transportChecksum {protocol : UInt8} {offset len : ℕ}
    (hlength : ipHeaderMin ≤ packet.length) (hlen : len < 65536) :
    (transportChecksum packet protocol offset len).toNat =
      65535 - wrap 65536 (transportSum (srcIpOf packet) (dstIpOf packet) protocol len
        ((packet.drop offset).take len)) := by
  rw [transportChecksum, pseudoHeader_eq hlength]
  exact toNat_not_foldCarries (transportSum_lt (srcIpOf packet) (dstIpOf packet) protocol hlen
    (List.length_take_le len (packet.drop offset)))

/-- What overwriting a word of a segment does to its transport sum. -/
theorem transportSum_putU16 (src dst : Ipv4Addr) (protocol : UInt8) {offset o len : ℕ} (v : UInt16)
    (ho : o % 2 = 0) (hlen : o + 2 ≤ len) (h : offset + len ≤ packet.length) :
    transportSum src dst protocol len (((putU16 packet (offset + o) v).drop offset).take len) +
        (u16At packet (offset + o)).toNat =
      transportSum src dst protocol len ((packet.drop offset).take len) + v.toNat := by
  have hword : u16At ((packet.drop offset).take len) o = u16At packet (offset + o) := by
    rw [u16At_take (by omega), u16At_drop]
  have hput := sumWords_putU16 (l := (packet.drop offset).take len) (v := v) ho
    (by simp; omega)
  rw [transportSum_eq, transportSum_eq, drop_putU16, putU16, take_putBytes]
  rw [hword, putU16] at hput
  omega

/-- **A segment verifies with its checksum in a field that was zero.**  Zero may be written as all
ones. -/
theorem verifies_putTransportChecksum {protocol : UInt8} {offset o len : ℕ} (v : UInt16)
    (hprotocol : 0 < protocol.toNat) (ho : o % 2 = 0) (hlen : o + 2 ≤ len) (hlt : len < 65536)
    (hlength : ipHeaderMin ≤ packet.length) (h : offset + len ≤ packet.length)
    (hzero : u16At packet (offset + o) = 0)
    (hv : v.toNat % 65535 = (transportChecksum packet protocol offset len).toNat % 65535) :
    Verifies 65536 (transportSum (srcIpOf packet) (dstIpOf packet) protocol len
      (((putU16 packet (offset + o) v).drop offset).take len)) := by
  have hput := transportSum_putU16 (srcIpOf packet) (dstIpOf packet) protocol v ho hlen h
  have hpos : 0 < transportSum (srcIpOf packet) (dstIpOf packet) protocol len
      ((packet.drop offset).take len) := by
    rw [transportSum_eq]
    omega
  rw [toNat_transportChecksum hlength hlt] at hv
  rw [hzero, UInt16.toNat_zero, Nat.add_zero] at hput
  rw [hput]
  refine (OnesComplement.verifies_add_complement (b := 65536) (by decide) _).of_modEq (by decide)
    (by omega) (Nat.ModEq.add_left _ ?_)
  exact hv

end SwiftRelay
