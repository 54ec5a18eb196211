/-
**Response packets.**

A datagram that a game server sends back is wrapped into a fresh IPv4 and UDP header before it goes
to the client: the addresses and ports of the client packet, exchanged.  The two datapaths build the
same packet, one into a new vector and one into a buffer that may be too small for it.

Main definitions:

* `calculateIpChecksum` — the header checksum;
* `buildResponseIpPacketWithTos`, `writeResponseIpPacketWithTos` — the two encoders.

Main results:

* `length_of_writeResponse` — what is written into a buffer fits.
-/

import SwiftRelay.IpPacket

set_option autoImplicit false

namespace SwiftRelay

/-! ### The encoders -/

/-- The sum of the 16-bit words of the header, the last one padded with a zero byte. -/
def sumWords : List UInt8 → ℕ
  | [] => 0
  | [a] => a.toNat * 256
  | a :: b :: rest => a.toNat * 256 + b.toNat + sumWords rest

/-- Add the carries of a 32-bit sum back into its low 16 bits.  The source loops until there is no
carry left; after two rounds there is none. -/
def foldCarries (sum : ℕ) : ℕ :=
  let sum := sum % 65536 + sum / 65536
  sum % 65536 + sum / 65536

def calculateIpChecksum (header : List UInt8) : UInt16 :=
  ~~~ UInt16.ofNat (foldCarries (sumWords header % 2 ^ 32))

def highByte (n : ℕ) : UInt8 := UInt8.ofNat (n / 256)

def lowByte (n : ℕ) : UInt8 := UInt8.ofNat (n % 256)

/-- The IPv4 header of a response, with the given checksum. -/
def responseIpHeader (totalLen : ℕ) (original : OriginalPacketInfo) (tos : UInt8)
    (checksum : UInt16) : List UInt8 :=
  [0x45, tos, highByte totalLen, lowByte totalLen, 0, 0, 0x40, 0, 64, 17,
    highByte checksum.toNat, lowByte checksum.toNat] ++
    original.dstIp.octets ++ original.srcIp.octets

def responseUdpHeader (udpLen : ℕ) (original : OriginalPacketInfo) : List UInt8 :=
  [highByte original.dstPort.toNat, lowByte original.dstPort.toNat,
    highByte original.srcPort.toNat, lowByte original.srcPort.toNat,
    highByte udpLen, lowByte udpLen, 0, 0]

def buildResponseIpPacketWithTos (udpPayload : List UInt8) (original : OriginalPacketInfo)
    (tos : UInt8) : List UInt8 :=
  let udpLen := udpHeaderSize + udpPayload.length
  let totalLen := ipHeaderMin + udpLen
  let checksum := calculateIpChecksum (responseIpHeader totalLen original tos 0)
  responseIpHeader totalLen original tos checksum ++ responseUdpHeader udpLen original ++ udpPayload

def buildResponseIpPacket (udpPayload : List UInt8) (original : OriginalPacketInfo) : List UInt8 :=
  buildResponseIpPacketWithTos udpPayload original original.tos

/-- What is written to the front of a buffer of `room` bytes, if it fits. -/
def writeResponseIpPacketWithTos (room : ℕ) (udpPayload : List UInt8)
    (original : OriginalPacketInfo) (tos : UInt8) : Option (List UInt8) :=
  if ipHeaderMin + (udpHeaderSize + udpPayload.length) > room then none
  else some (buildResponseIpPacketWithTos udpPayload original tos)

theorem length_buildResponse (udpPayload : List UInt8) (original : OriginalPacketInfo)
    (tos : UInt8) : (buildResponseIpPacketWithTos udpPayload original tos).length =
      ipHeaderMin + (udpHeaderSize + udpPayload.length) := by
  simp only [buildResponseIpPacketWithTos, responseIpHeader, ipHeaderMin, udpHeaderSize,
    Ipv4Addr.octets, List.cons_append, List.nil_append, responseUdpHeader, List.length_cons]
  omega

theorem length_of_writeResponse {room : ℕ} {udpPayload packet : List UInt8}
    {original : OriginalPacketInfo} {tos : UInt8}
    (h : writeResponseIpPacketWithTos room udpPayload original tos = some packet) :
    packet.length ≤ room := by
  unfold writeResponseIpPacketWithTos at h
  split at h
  · cases h
  · next hroom =>
      cases h
      rw [length_buildResponse]
      omega

end SwiftRelay
