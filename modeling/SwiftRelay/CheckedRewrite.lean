/-
**Rewriting without a bad index.**

`rewriteIpField` reads and writes a packet with total functions.  The code indexes a
slice, takes subslices and adds 32-bit numbers, and each of these ends the process when it goes out
of range.  Here the functions are written with those checks, statement by statement; they never
fail, and they compute what the total functions compute.

Main definitions:

* `index`, `assign`, `slice`, `addU32` — the operations that can go out of range;
* `rewriteIpField` — the rewriting, with every check.

Main results:

* `ite_eq_some` — how a checked function is compared with the plain one;
* `rewriteIpField_eq` — no check fails, for any packet.
-/

import SwiftRelay.Checksum

set_option autoImplicit false

namespace SwiftRelay.Checked

open OnesComplement (wrap)

/-! ### Operations that can go out of range -/

/-- `packet[i]`. -/
def index (packet : List UInt8) (i : ℕ) : Option UInt8 := packet[i]?

/-- `packet[i] = b`. -/
def assign (packet : List UInt8) (i : ℕ) (b : UInt8) : Option (List UInt8) :=
  if i < packet.length then some (packet.set i b) else none

/-- `&packet[lo..hi]`. -/
def slice (packet : List UInt8) (lo hi : ℕ) : Option (List UInt8) :=
  if lo ≤ hi ∧ hi ≤ packet.length then some ((packet.take hi).drop lo) else none

/-- `packet[lo..hi].copy_from_slice(bytes)`. -/
def copyFromSlice (packet : List UInt8) (lo hi : ℕ) (bytes : List UInt8) : Option (List UInt8) :=
  if lo ≤ hi ∧ hi ≤ packet.length ∧ bytes.length = hi - lo then some (putBytes packet lo bytes)
  else none

/-- `u16::from_be_bytes([packet[i], packet[i + 1]])`. -/
def readU16 (packet : List UInt8) (i : ℕ) : Option UInt16 := do
  let high ← index packet i
  let low ← index packet (i + 1)
  some (UInt16.ofNat (fromBeBytes [high, low]))

/-- `sum += word` for 32-bit numbers. -/
def addU32 (sum word : ℕ) : Option ℕ := if sum + word < 2 ^ 32 then some (sum + word) else none

section Operations

variable {packet : List UInt8} {i : ℕ}

theorem index_eq (h : i < packet.length) : index packet i = some (byteAt packet i) := by
  rw [index, List.getElem?_eq_getElem h,
    byteAt_of_getElem? (List.getElem?_eq_getElem h)]

theorem assign_eq {b : UInt8} (h : i < packet.length) :
    assign packet i b = some (packet.set i b) := if_pos h

theorem readU16_eq (h : i + 1 < packet.length) : readU16 packet i = some (u16At packet i) := by
  rw [readU16, index_eq (Nat.lt_of_succ_lt h), index_eq h]
  rfl

theorem addU32_eq {sum word : ℕ} (h : sum + word < 2 ^ 32) :
    addU32 sum word = some (sum + word) := if_pos h

theorem slice_eq {lo hi : ℕ} (hle : lo ≤ hi) (h : hi ≤ packet.length) :
    slice packet lo hi = some ((packet.take hi).drop lo) := if_pos ⟨hle, h⟩

end Operations

/-! ### The sums -/

/-- The loop over the words of a header, from position `i` on.  Its additions wrap around. -/
def headerSum (header : List UInt8) (i sum : ℕ) : Option ℕ :=
  if i < header.length then do
    let high ← index header i
    let word ← if i + 1 < header.length then do
        let low ← index header (i + 1)
        some (high.toNat * 256 + low.toNat)
      else some (high.toNat * 256)
    headerSum header (i + 2) ((sum + word) % 2 ^ 32)
  else some sum
termination_by header.length - i

def calculateIpChecksum (header : List UInt8) : Option UInt16 := do
  let sum ← headerSum header 0 0
  some (~~~ UInt16.ofNat (wrap 65536 sum))

/-- The loop over the whole words of a segment, from position `i` on, and then its last byte if
there is an odd one. -/
def segmentSum (segment : List UInt8) (i sum : ℕ) : Option ℕ :=
  if i + 1 < segment.length then do
    let word ← readU16 segment i
    let sum ← addU32 sum word.toNat
    segmentSum segment (i + 2) sum
  else if segment.length % 2 = 1 then do
    let last ← index segment (segment.length - 1)
    addU32 sum (last.toNat * 256)
  else some sum
termination_by segment.length - i

/-- The checksum of a pseudo-header and of the segment behind it. -/
def transportChecksum (packet : List UInt8) (protocol : UInt8) (offset len : ℕ) :
    Option UInt16 := do
  let src ← slice packet 12 16
  let dst ← slice packet 16 20
  let sum ← segmentSum (src ++ dst ++ [0, protocol, highByte len, lowByte len]) 0 0
  let segment ← slice packet offset (offset + len)
  let sum ← segmentSum segment 0 sum
  some (~~~ UInt16.ofNat (wrap 65536 sum))

section Sums

theorem sumWords_drop {l : List UInt8} {i : ℕ} (h : i + 1 < l.length) :
    sumWords (l.drop i) =
      (byteAt l i).toNat * 256 + (byteAt l (i + 1)).toNat + sumWords (l.drop (i + 2)) := by
  have hbyte (j : ℕ) (hj : j < l.length) : l[j] = byteAt l j :=
    (byteAt_of_getElem? (List.getElem?_eq_getElem hj)).symm
  rw [List.drop_eq_getElem_cons (by omega), List.drop_eq_getElem_cons h, sumWords, hbyte, hbyte]

theorem sumWords_drop_last {l : List UInt8} {i : ℕ} (h : i + 1 = l.length) :
    sumWords (l.drop i) = (byteAt l i).toNat * 256 := by
  have hbyte : l[i] = byteAt l i :=
    (byteAt_of_getElem? (List.getElem?_eq_getElem (by omega))).symm
  rw [List.drop_eq_getElem_cons (by omega), List.drop_eq_nil_of_le (by omega), sumWords, hbyte]

theorem headerSum_eq (header : List UInt8) (i sum : ℕ) (hsum : sum < 2 ^ 32) :
    headerSum header i sum = some ((sum + sumWords (header.drop i)) % 2 ^ 32) := by
  induction i, sum using headerSum.induct header with
  | case1 i sum hi ih =>
      rw [headerSum, if_pos hi, index_eq hi]
      dsimp only [Option.bind_eq_bind, Option.bind_some]
      by_cases hnext : i + 1 < header.length
      · rw [if_pos hnext, index_eq hnext]
        dsimp only [Option.bind_some]
        rw [ih _ (Nat.mod_lt _ (by decide)), Nat.mod_add_mod, sumWords_drop hnext]
        congr 2
        omega
      · have hend : header.drop (i + 2) = [] := List.drop_eq_nil_of_le (by omega)
        rw [if_neg hnext, ih _ (Nat.mod_lt _ (by decide)), Nat.mod_add_mod, hend, sumWords,
          Nat.add_zero, sumWords_drop_last (by omega)]
  | case2 i sum hi =>
      rw [headerSum, if_neg hi, List.drop_eq_nil_of_le (by omega), sumWords, Nat.add_zero,
        Nat.mod_eq_of_lt hsum]

theorem calculateIpChecksum_eq (header : List UInt8) :
    calculateIpChecksum header = some (SwiftRelay.calculateIpChecksum header) := by
  rw [calculateIpChecksum, headerSum_eq header 0 0 (by decide), Nat.zero_add, List.drop_zero,
    SwiftRelay.calculateIpChecksum, foldCarries_eq_wrap (Nat.mod_lt _ (by decide))]
  rfl

/-- The loop over a segment does not overflow if the sum of all its words does not. -/
theorem segmentSum_eq (segment : List UInt8) (i sum : ℕ) (hi : i % 2 = 0)
    (hle : i ≤ segment.length)
    (hsum : sum + sumWords (segment.drop i) < 2 ^ 32) :
    segmentSum segment i sum = some (sum + sumWords (segment.drop i)) := by
  induction i, sum using segmentSum.induct segment with
  | case1 i sum hnext ih =>
      have hword := toNat_u16At segment i
      rw [sumWords_drop hnext, ← hword] at hsum
      rw [segmentSum, if_pos hnext, readU16_eq hnext, sumWords_drop hnext, ← hword]
      dsimp only [Option.bind_eq_bind, Option.bind_some]
      rw [addU32_eq (Nat.lt_of_le_of_lt (by omega) hsum)]
      dsimp only [Option.bind_some]
      rw [ih _ (by omega) (by omega) (by rwa [Nat.add_assoc]), Nat.add_assoc]
  | case2 i sum hnext hodd =>
      have hdrop : sumWords (segment.drop i) =
          (byteAt segment (segment.length - 1)).toNat * 256 := by
        rw [sumWords_drop_last (by omega)]
        congr 3
        omega
      rw [hdrop] at hsum ⊢
      rw [segmentSum, if_neg hnext, if_pos hodd, index_eq (by omega)]
      exact addU32_eq hsum
  | case3 i sum hnext hodd =>
      rw [segmentSum, if_neg hnext, if_neg hodd, List.drop_eq_nil_of_le (by omega)]
      rfl

theorem transportChecksum_eq {packet : List UInt8} {protocol : UInt8} {offset len : ℕ}
    (hlength : ipHeaderMin ≤ packet.length) (hlen : len < 65536)
    (hend : offset + len ≤ packet.length) :
    transportChecksum packet protocol offset len =
      some (SwiftRelay.transportChecksum packet protocol offset len) := by
  have hmin : ipHeaderMin = 20 := rfl
  have hpseudo : (packet.take 16).drop 12 ++ (packet.take 20).drop 16 =
      (packet.take 20).drop 12 := by
    have htake : packet.take 16 = (packet.take 20).take 16 := by rw [List.take_take]; rfl
    rw [htake, ← List.drop_append_of_le_length (by simp; omega), List.take_append_drop]
  have hsegment : (packet.take (offset + len)).drop offset = (packet.drop offset).take len := by
    rw [List.drop_take, Nat.add_sub_cancel_left]
  have hsum := transportSum_lt (srcIpOf packet) (dstIpOf packet) protocol hlen
    (List.length_take_le len (packet.drop offset))
  rw [transportSum, ← pseudoHeader_eq hlength] at hsum
  have hfirst := segmentSum_eq (pseudoHeader packet protocol len) 0 0 rfl (Nat.zero_le _)
    (by rw [List.drop_zero]; omega)
  have hsecond := segmentSum_eq ((packet.drop offset).take len) 0
    (sumWords (pseudoHeader packet protocol len)) rfl (Nat.zero_le _) (by rwa [List.drop_zero])
  rw [List.drop_zero, Nat.zero_add] at hfirst
  rw [List.drop_zero] at hsecond
  simp only [transportChecksum, slice_eq (by omega : 12 ≤ 16) (by omega : 16 ≤ packet.length),
    slice_eq (by omega : 16 ≤ 20) (by omega : 20 ≤ packet.length),
    slice_eq (Nat.le_add_right offset len) hend, Option.bind_eq_bind, Option.bind_some, hpseudo,
    hsegment]
  rw [pseudoHeader] at hfirst hsecond hsum
  simp only [hfirst, hsecond, Option.bind_some]
  rw [SwiftRelay.transportChecksum, pseudoHeader, foldCarries_eq_wrap hsum]

end Sums

/-! ### Rewriting -/

/-- The header length in bytes. -/
def headerLen (packet : List UInt8) : Option ℕ := do
  let first ← index packet 0
  some ((first &&& 0x0F).toNat * 4)

def totalLen (packet : List UInt8) : Option ℕ := do
  let word ← readU16 packet 2
  some word.toNat

def recalculateIpChecksum (packet : List UInt8) : Option (List UInt8) :=
  if packet.length < ipHeaderMin then some packet
  else do
    let ihl ← headerLen packet
    if ihl < ipHeaderMin || packet.length < ihl then some packet
    else do
      let packet ← assign packet 10 0
      let packet ← assign packet 11 0
      let header ← slice packet 0 ihl
      let checksum ← calculateIpChecksum header
      let packet ← assign packet 10 (highByte checksum.toNat)
      assign packet 11 (lowByte checksum.toNat)

def recalculateTcpChecksum (packet : List UInt8) : Option (List UInt8) :=
  if packet.length < ipHeaderMin then some packet
  else do
    let ihl ← headerLen packet
    if packet.length < ihl then some packet
    else do
      let totalLen ← totalLen packet
      if totalLen < ihl || packet.length < totalLen then some packet
      else
        let tcpLen := totalLen - ihl
        if tcpLen < 20 then some packet
        else do
          let packet ← assign packet (ihl + 16) 0
          let packet ← assign packet (ihl + 17) 0
          let checksum ← transportChecksum packet 6 ihl tcpLen
          let packet ← assign packet (ihl + 16) (highByte checksum.toNat)
          assign packet (ihl + 17) (lowByte checksum.toNat)

def recalculateUdpChecksum (packet : List UInt8) : Option (List UInt8) :=
  if packet.length < ipHeaderMin then some packet
  else do
    let ihl ← headerLen packet
    if packet.length < ihl then some packet
    else do
      let totalLen ← totalLen packet
      if totalLen < ihl + 8 || packet.length < totalLen then some packet
      else
        let udpLen := totalLen - ihl
        if udpLen < 8 then some packet
        else do
          let existing ← readU16 packet (ihl + 6)
          if existing = 0 then some packet
          else do
            let packet ← assign packet (ihl + 6) 0
            let packet ← assign packet (ihl + 7) 0
            let checksum ← transportChecksum packet 17 ihl udpLen
            let checksum := if checksum = 0 then 0xFFFF else checksum
            let packet ← assign packet (ihl + 6) (highByte checksum.toNat)
            assign packet (ihl + 7) (lowByte checksum.toNat)

def ipv4FragmentOffset (packet : List UInt8) : Option (Option UInt16) :=
  if packet.length < ipHeaderMin then some none
  else do
    let ihl ← headerLen packet
    if ihl < ipHeaderMin || packet.length < ihl then some none
    else do
      let fragmentBits ← readU16 packet 6
      some (some (fragmentBits &&& 0x1FFF))

def ipv4IsFragment (packet : List UInt8) : Option Bool := do
  match ← ipv4FragmentOffset packet with
  | none => some false
  | some offset =>
      let fragmentBits ← readU16 packet 6
      some (fragmentBits &&& 0x2000 ≠ 0 || offset ≠ 0)

def updateFragmentTcpChecksum (packet : List UInt8) (oldIp newIp : Ipv4Addr) :
    Option (List UInt8) := do
  let ihl ← headerLen packet
  if ihl < ipHeaderMin || packet.length < ihl + 18 then some packet
  else do
    let checksum ← readU16 packet (ihl + 16)
    let adjusted := adjustChecksumForIpv4AddrChange checksum oldIp newIp
    copyFromSlice packet (ihl + 16) (ihl + 16 + 2)
      [highByte adjusted.toNat, lowByte adjusted.toNat]

def updateFragmentUdpChecksum (packet : List UInt8) (oldIp newIp : Ipv4Addr) :
    Option (List UInt8) := do
  let ihl ← headerLen packet
  if ihl < ipHeaderMin || packet.length < ihl + 8 then some packet
  else do
    let checksum ← readU16 packet (ihl + 6)
    if checksum = 0 then some packet
    else
      let adjusted := adjustChecksumForIpv4AddrChange checksum oldIp newIp
      let adjusted := if adjusted = 0 then 0xFFFF else adjusted
      copyFromSlice packet (ihl + 6) (ihl + 6 + 2)
        [highByte adjusted.toNat, lowByte adjusted.toNat]

/-- The part behind the new address and the checksum of the header. -/
def fixTransportChecksum (packet : List UInt8) (oldIp newIp : Ipv4Addr) :
    Option (List UInt8) := do
  if ← ipv4IsFragment packet then
    if (← ipv4FragmentOffset packet) = some 0 then
      let protocol ← index packet 9
      if protocol = 6 then updateFragmentTcpChecksum packet oldIp newIp
      else if protocol = 17 then updateFragmentUdpChecksum packet oldIp newIp
      else some packet
    else some packet
  else
    let protocol ← index packet 9
    if protocol = 6 then recalculateTcpChecksum packet
    else if protocol = 17 then recalculateUdpChecksum packet
    else some packet

def rewriteIpField (packet : List UInt8) (offset : ℕ) (newIp : Ipv4Addr) :
    Option (List UInt8) :=
  if packet.length < ipHeaderMin || packet.length < offset + 4 then some packet
  else do
    let a ← index packet offset
    let b ← index packet (offset + 1)
    let c ← index packet (offset + 2)
    let d ← index packet (offset + 3)
    let packet ← copyFromSlice packet offset (offset + 4) newIp.octets
    let packet ← recalculateIpChecksum packet
    fixTransportChecksum packet ⟨a, b, c, d⟩ newIp

def rewriteSrcIp (packet : List UInt8) (newSrc : Ipv4Addr) : Option (List UInt8) :=
  rewriteIpField packet ipSrcOffset newSrc

def rewriteDstIp (packet : List UInt8) (newDst : Ipv4Addr) : Option (List UInt8) :=
  rewriteIpField packet ipDstOffset newDst

section Rewrite

variable {packet : List UInt8} {oldIp newIp : Ipv4Addr}

/-- The two bytes of a word are assigned one after the other. -/
theorem assign_assign {i : ℕ} {v : UInt16} (h : i + 2 ≤ packet.length) :
    ((assign packet i (highByte v.toNat)).bind fun packet =>
      assign packet (i + 1) (lowByte v.toNat)) = some (putU16 packet i v) := by
  rw [assign_eq (by omega), Option.bind_some, assign_eq (by simp; omega),
    List.set_comm _ _ (by omega : i ≠ i + 1)]
  rfl

/-- The two bytes of a field are cleared one after the other. -/
theorem assign_zero {i : ℕ} {f : List UInt8 → Option (List UInt8)} (h : i + 2 ≤ packet.length) :
    ((assign packet i 0).bind fun packet => (assign packet (i + 1) 0).bind f) =
      f (putU16 packet i 0) := by
  rw [← Option.bind_assoc]
  exact congrArg (·.bind f) (assign_assign (v := 0) h)

theorem copyFromSlice_putU16 {i : ℕ} {v : UInt16} (h : i + 2 ≤ packet.length) :
    copyFromSlice packet i (i + 2) [highByte v.toNat, lowByte v.toNat] =
      some (putU16 packet i v) :=
  if_pos ⟨Nat.le_add_right i 2, h, by simp⟩

theorem headerLen_eq (h : ipHeaderMin ≤ packet.length) :
    headerLen packet = some (ihlOf packet) := by
  have hmin : ipHeaderMin = 20 := rfl
  rw [headerLen, index_eq (by omega)]
  rfl

theorem totalLen_eq (h : ipHeaderMin ≤ packet.length) :
    totalLen packet = some (totalLenOf packet) := by
  have hmin : ipHeaderMin = 20 := rfl
  rw [totalLen, readU16_eq (by omega)]
  rfl

/-- A branch of a checked function follows the branch of the plain one. -/
theorem ite_eq_some {α : Type} {c : Prop} [Decidable c] {x y : Option α} {a b : α}
    (hx : c → x = some a) (hy : ¬c → y = some b) :
    (if c then x else y) = some (if c then a else b) := by
  split
  · next h => exact hx h
  · next h => exact hy h

theorem recalculateIpChecksum_eq (packet : List UInt8) :
    recalculateIpChecksum packet = some (SwiftRelay.recalculateIpChecksum packet) := by
  have hmin : ipHeaderMin = 20 := rfl
  refine ite_eq_some (fun _ => rfl) fun hlength => ?_
  rw [headerLen_eq (Nat.not_lt.1 hlength)]
  refine ite_eq_some (fun _ => rfl) fun hihl => ?_
  simp only [Bool.or_eq_true, decide_eq_true_eq, not_or, Nat.not_lt] at hihl
  simp only [Option.bind_eq_bind]
  rw [assign_zero (by omega), slice_eq (Nat.zero_le _) (by rw [length_putU16]; omega),
    Option.bind_some, calculateIpChecksum_eq, Option.bind_some,
    assign_assign (by rw [length_putU16]; omega)]
  rfl

/-- Clearing the checksum of a transport header, computing it and writing it. -/
theorem stamp_eq {pos len ihl : ℕ} {protocol : UInt8} {f : UInt16 → UInt16}
    (hpos : pos + 2 ≤ packet.length) (h : ipHeaderMin ≤ packet.length) (hlen : len < 65536)
    (hend : ihl + len ≤ packet.length) :
    ((assign packet pos 0).bind fun packet => (assign packet (pos + 1) 0).bind fun packet =>
      (transportChecksum packet protocol ihl len).bind fun checksum =>
        (assign packet pos (highByte (f checksum).toNat)).bind fun packet =>
          assign packet (pos + 1) (lowByte (f checksum).toNat)) =
      some (putU16 (putU16 packet pos 0) pos (f (SwiftRelay.transportChecksum
        (putU16 packet pos 0) protocol ihl len))) := by
  rw [assign_zero hpos, transportChecksum_eq (by rw [length_putU16]; exact h) hlen
    (by rw [length_putU16]; exact hend), Option.bind_some,
    assign_assign (by rw [length_putU16]; exact hpos)]

theorem recalculateTcpChecksum_eq (packet : List UInt8) :
    recalculateTcpChecksum packet = some (SwiftRelay.recalculateTcpChecksum packet) := by
  have htotal : totalLenOf packet < 65536 := (u16At packet 2).toNat_lt
  refine ite_eq_some (fun _ => rfl) fun hlength => ?_
  rw [headerLen_eq (Nat.not_lt.1 hlength)]
  refine ite_eq_some (fun _ => rfl) fun _ => ?_
  rw [totalLen_eq (Nat.not_lt.1 hlength)]
  refine ite_eq_some (fun _ => rfl) fun hbounds => ?_
  simp only [Bool.or_eq_true, decide_eq_true_eq, not_or, Nat.not_lt] at hbounds
  refine ite_eq_some (fun _ => rfl) fun htcp => ?_
  exact stamp_eq (f := id) (by omega) (Nat.not_lt.1 hlength) (by omega) (by omega)

theorem recalculateUdpChecksum_eq (packet : List UInt8) :
    recalculateUdpChecksum packet = some (SwiftRelay.recalculateUdpChecksum packet) := by
  have htotal : totalLenOf packet < 65536 := (u16At packet 2).toNat_lt
  refine ite_eq_some (fun _ => rfl) fun hlength => ?_
  rw [headerLen_eq (Nat.not_lt.1 hlength)]
  refine ite_eq_some (fun _ => rfl) fun _ => ?_
  rw [totalLen_eq (Nat.not_lt.1 hlength)]
  refine ite_eq_some (fun _ => rfl) fun hbounds => ?_
  simp only [Bool.or_eq_true, decide_eq_true_eq, not_or, Nat.not_lt] at hbounds
  refine ite_eq_some (fun _ => rfl) fun hudp => ?_
  rw [readU16_eq (by omega)]
  refine ite_eq_some (fun _ => rfl) fun _ => ?_
  exact stamp_eq (f := fun checksum => if checksum = 0 then 0xFFFF else checksum) (by omega)
    (Nat.not_lt.1 hlength) (by omega) (by omega)

theorem ipv4FragmentOffset_eq (packet : List UInt8) :
    ipv4FragmentOffset packet = some (SwiftRelay.ipv4FragmentOffset packet) := by
  have hmin : ipHeaderMin = 20 := rfl
  refine ite_eq_some (fun _ => rfl) fun hlength => ?_
  rw [headerLen_eq (Nat.not_lt.1 hlength), readU16_eq (by omega)]
  exact ite_eq_some (fun _ => rfl) fun _ => rfl

theorem ipv4IsFragment_eq (packet : List UInt8) :
    ipv4IsFragment packet = some (SwiftRelay.ipv4IsFragment packet) := by
  have hmin : ipHeaderMin = 20 := rfl
  rw [ipv4IsFragment, ipv4FragmentOffset_eq, SwiftRelay.ipv4IsFragment]
  dsimp only [Option.bind_eq_bind, Option.bind_some]
  cases hoffset : SwiftRelay.ipv4FragmentOffset packet with
  | none => rfl
  | some offset =>
      -- there is an offset only in a packet with a header
      have hlength : ipHeaderMin ≤ packet.length := by
        unfold SwiftRelay.ipv4FragmentOffset at hoffset
        split at hoffset
        · cases hoffset
        · next hlength => exact Nat.not_lt.1 hlength
      dsimp only
      rw [readU16_eq (by omega)]
      rfl

theorem updateFragmentTcpChecksum_eq (h : ipHeaderMin ≤ packet.length) :
    updateFragmentTcpChecksum packet oldIp newIp =
      some (SwiftRelay.updateFragmentTcpChecksum packet oldIp newIp) := by
  rw [updateFragmentTcpChecksum, headerLen_eq h]
  refine ite_eq_some (fun _ => rfl) fun hbounds => ?_
  simp only [Bool.or_eq_true, decide_eq_true_eq, not_or, Nat.not_lt] at hbounds
  rw [readU16_eq (by omega)]
  exact copyFromSlice_putU16 (by omega)

theorem updateFragmentUdpChecksum_eq (h : ipHeaderMin ≤ packet.length) :
    updateFragmentUdpChecksum packet oldIp newIp =
      some (SwiftRelay.updateFragmentUdpChecksum packet oldIp newIp) := by
  rw [updateFragmentUdpChecksum, headerLen_eq h]
  refine ite_eq_some (fun _ => rfl) fun hbounds => ?_
  simp only [Bool.or_eq_true, decide_eq_true_eq, not_or, Nat.not_lt] at hbounds
  rw [readU16_eq (by omega)]
  exact ite_eq_some (fun _ => rfl) fun _ => copyFromSlice_putU16 (by omega)

theorem fixTransportChecksum_eq (h : ipHeaderMin ≤ packet.length) :
    fixTransportChecksum packet oldIp newIp =
      some (SwiftRelay.fixTransportChecksum packet oldIp newIp) := by
  have hmin : ipHeaderMin = 20 := rfl
  have hprotocol : index packet 9 = some (protocolOf packet) := index_eq (by omega)
  unfold fixTransportChecksum SwiftRelay.fixTransportChecksum
  simp only [ipv4IsFragment_eq, ipv4FragmentOffset_eq, hprotocol, Option.bind_eq_bind,
    Option.bind_some, updateFragmentTcpChecksum_eq h, updateFragmentUdpChecksum_eq h,
    recalculateTcpChecksum_eq, recalculateUdpChecksum_eq]
  split_ifs <;> rfl

/-- **No check fails**, for any packet: no index and no subslice is out of range, and no sum
overflows. -/
theorem rewriteIpField_eq (packet : List UInt8) (offset : ℕ) (newIp : Ipv4Addr) :
    rewriteIpField packet offset newIp = some (SwiftRelay.rewriteIpField packet offset newIp) := by
  refine ite_eq_some (fun _ => rfl) fun hbounds => ?_
  simp only [Bool.or_eq_true, decide_eq_true_eq, not_or, Nat.not_lt] at hbounds
  have hcopy : copyFromSlice packet offset (offset + 4) newIp.octets =
      some (putBytes packet offset newIp.octets) :=
    if_pos ⟨Nat.le_add_right offset 4, hbounds.2, by simp [Ipv4Addr.octets]⟩
  simp only [Option.bind_eq_bind]
  rw [index_eq (by omega), index_eq (by omega), index_eq (by omega), index_eq (by omega), hcopy]
  simp only [Option.bind_some, recalculateIpChecksum_eq]
  refine fixTransportChecksum_eq ?_
  rw [length_recalculateIpChecksum, length_putBytes]
  exact hbounds.1

end Rewrite

end SwiftRelay.Checked
