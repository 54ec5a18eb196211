/-
**Which destinations the relay forwards to.**

Three rules judge the destination of a client packet.  Addresses that are not on the public internet
are refused (`is_forbidden_dst`); UDP ports of services that amplify are refused
(`is_forbidden_dst_port`); and the destination policy refuses what is not on its list, when it
enforces.  The policy keeps the rules, which never change once it is built, and statistics, which
every judgement updates; the two are separate types here.

Main definitions:

* `isForbiddenDst`, `isForbiddenDstPort` — the two fixed rules;
* `NetSet.contains` — membership in a sorted list of disjoint prefixes;
* `permits` — the judgement of the policy, with its effect on the statistics.

Main results:

* `permits_fst` — the judgement depends on the rules only;
* `allows_of_ne_tcp`, `allows_none` — where the port does not matter.
-/

import SwiftRelay.Address
import SwiftRelay.Table

set_option autoImplicit false

namespace SwiftRelay

/-! ### Addresses and ports that are always refused -/

namespace Ipv4Addr

def isPrivate (ip : Ipv4Addr) : Bool :=
  ip.a = 10 || (ip.a = 172 && 16 ≤ ip.b && ip.b ≤ 31) || (ip.a = 192 && ip.b = 168)

def isLoopback (ip : Ipv4Addr) : Bool := ip.a = 127

def isLinkLocal (ip : Ipv4Addr) : Bool := ip.a = 169 && ip.b = 254

def isMulticast (ip : Ipv4Addr) : Bool := 224 ≤ ip.a && ip.a ≤ 239

def isBroadcast (ip : Ipv4Addr) : Bool := ip.a = 255 && ip.b = 255 && ip.c = 255 && ip.d = 255

def isUnspecified (ip : Ipv4Addr) : Bool := ip.a = 0 && ip.b = 0 && ip.c = 0 && ip.d = 0

end Ipv4Addr

def isCgnatIpv4 (ip : Ipv4Addr) : Bool := ip.a = 100 && 64 ≤ ip.b && ip.b ≤ 127

def isReservedIpv4 (ip : Ipv4Addr) : Bool := 240 ≤ ip.a

def isThisNetworkIpv4 (ip : Ipv4Addr) : Bool := ip.a = 0

def isForbiddenDst (ip : Ipv4Addr) : Bool :=
  ip.isPrivate || ip.isLoopback || ip.isLinkLocal || ip.isMulticast || ip.isBroadcast
    || ip.isUnspecified || isThisNetworkIpv4 ip || isReservedIpv4 ip || isCgnatIpv4 ip

/-- Services that answer a small UDP request with a large reply, and others a game never uses. -/
def forbiddenDstPorts : List UInt16 :=
  [7, 17, 19, 53, 69, 111, 123, 137, 161, 162, 389, 520, 623, 1434, 1900, 3702, 5093, 5351, 5353,
    10001, 11211, 32414]

def isForbiddenDstPort (port : UInt16) : Bool := port = 0 || forbiddenDstPorts.contains port

/-! ### Prefix sets -/

/-- An IPv4 prefix, as its first address and mask. -/
structure Net where
  base : BitVec 32
  mask : BitVec 32
  deriving DecidableEq, Repr

def Net.contains (net : Net) (ip : BitVec 32) : Bool := ip &&& net.mask = net.base

/-- Disjoint prefixes, sorted by first address. -/
structure NetSet where
  nets : List Net

/-- The only candidate is the last prefix that starts at or before the address.  On the sorted list
`partition_point` is the length of the stretch of prefixes that do. -/
def NetSet.contains (set : NetSet) (ip : Ipv4Addr) : Bool :=
  let ip := ip.toBits
  let upTo := set.nets.takeWhile fun net => decide (net.base ≤ ip)
  match upTo.getLast? with
  | none => false
  | some net => net.contains ip

/-! ### The policy -/

namespace DestPolicy

inductive Mode
  | off
  | observe
  | enforce
  deriving DecidableEq, Repr

/-- Why a destination is not on the list. -/
inductive Unlisted
  | network
  | port
  deriving DecidableEq, Repr

end DestPolicy

/-- The rules of the destination policy. -/
structure DestPolicy where
  mode : DestPolicy.Mode
  udp : NetSet
  tcp : NetSet
  tcpPorts : List UInt16
  sampleEvery : UInt64

/-- What the policy counts: every unlisted packet, and a sampled tally of where they went. -/
structure DestStats where
  udpUnlisted : UInt64
  tcpUnlistedNetwork : UInt64
  tcpUnlistedPort : UInt64
  dropped : UInt64
  tick : UInt64
  networks : Table (UInt8 × BitVec 32) UInt64
  tcpPorts : Table UInt16 UInt64
  overflow : UInt64

def DestStats.new : DestStats := ⟨0, 0, 0, 0, 0, ∅, ∅, 0⟩

namespace DestPolicy

/-- How many networks, and separately ports, the tally holds. -/
def sampleCap : ℕ := 256

/-- Count `key`, unless it is new and the tally is full; the second component counts those. -/
def bump {K : Type} [DecidableEq K] (map : Table K UInt64) (key : K) (overflow : UInt64) :
    Table K UInt64 × UInt64 :=
  match map.lookup key with
  | some count => (map.insert key (count + 1), overflow)
  | none => if map.size < sampleCap then (map.insert key 1, overflow) else (map, overflow + 1)

/-- Sample an unlisted packet. -/
def tally (policy : DestPolicy) (protocol : UInt8) (dst : Ipv4Addr) (dstPort : Option UInt16)
    (unlisted : Unlisted) (stats : DestStats) : DestStats :=
  let sampled := stats.tick % policy.sampleEvery = 0
  let stats := { stats with tick := stats.tick + 1 }
  if sampled then
    match unlisted, dstPort with
    | .network, _ =>
        let (networks, overflow) :=
          bump stats.networks (protocol, dst.toBits &&& 0xFFFFFF00#32) stats.overflow
        { stats with networks, overflow }
    | .port, some port =>
        let (tcpPorts, overflow) := bump stats.tcpPorts port stats.overflow
        { stats with tcpPorts, overflow }
    | .port, none => stats
  else stats

/-- Whether the destination is off the list, and by what.  Everything that is not TCP is judged by
the UDP list; without a port only the network decides. -/
def unlisted (policy : DestPolicy) (protocol : UInt8) (dst : Ipv4Addr) (dstPort : Option UInt16) :
    Option Unlisted :=
  if protocol = 6 then
    if !policy.tcp.contains dst then some .network
    else if dstPort.any fun port => !policy.tcpPorts.contains port then some .port
    else none
  else if policy.udp.contains dst then none
  else some .network

/-- The counter that an unlisted packet raises. -/
def countUnlisted (protocol : UInt8) (unlisted : Unlisted) (stats : DestStats) : DestStats :=
  match unlisted with
  | .port => { stats with tcpUnlistedPort := stats.tcpUnlistedPort + 1 }
  | .network =>
      if protocol = 6 then { stats with tcpUnlistedNetwork := stats.tcpUnlistedNetwork + 1 }
      else { stats with udpUnlisted := stats.udpUnlisted + 1 }

/-- Whether a client packet may be forwarded. -/
def permits (policy : DestPolicy) (protocol : UInt8) (dst : Ipv4Addr) (dstPort : Option UInt16)
    (stats : DestStats) : Bool × DestStats :=
  if policy.mode = .off then (true, stats)
  else
    match policy.unlisted protocol dst dstPort with
    | none => (true, stats)
    | some unlisted =>
        let stats := countUnlisted protocol unlisted stats
        let stats := policy.tally protocol dst dstPort unlisted stats
        if policy.mode = .enforce then (false, { stats with dropped := stats.dropped + 1 })
        else (true, stats)

/-! ### The judgement without the statistics -/

/-- The judgement of `permits`, without its effect on the statistics. -/
def allows (policy : DestPolicy) (protocol : UInt8) (dst : Ipv4Addr) (dstPort : Option UInt16) :
    Bool :=
  policy.mode ≠ .enforce || policy.unlisted protocol dst dstPort = none

variable (policy : DestPolicy) (protocol : UInt8) (dst : Ipv4Addr) (dstPort : Option UInt16)

theorem permits_fst (stats : DestStats) :
    (policy.permits protocol dst dstPort stats).1 = policy.allows protocol dst dstPort := by
  unfold permits allows
  cases hmode : policy.mode <;> cases policy.unlisted protocol dst dstPort <;> simp

theorem allows_iff {udp tcp : NetSet} {tcpPorts : List UInt16} {sampleEvery : UInt64} :
    (⟨.enforce, udp, tcp, tcpPorts, sampleEvery⟩ : DestPolicy).allows protocol dst dstPort = true ↔
      (protocol ≠ 6 ∧ udp.contains dst = true) ∨
      (protocol = 6 ∧ tcp.contains dst = true ∧ ∀ port, dstPort = some port → port ∈ tcpPorts) := by
  unfold allows unlisted
  by_cases hproto : protocol = 6
  · cases tcp.contains dst <;> cases dstPort <;> simp [hproto]
  · cases udp.contains dst <;> simp [hproto]

variable {policy protocol dst dstPort}

theorem allows_of_ne_tcp (hproto : protocol ≠ 6) (port : Option UInt16)
    (h : policy.allows protocol dst dstPort = true) : policy.allows protocol dst port = true := by
  unfold allows unlisted at *
  simpa only [hproto, if_false] using h

/-- What is allowed with a port is allowed without one. -/
theorem allows_none (h : policy.allows protocol dst dstPort = true) :
    policy.allows protocol dst none = true := by
  unfold allows unlisted at *
  simp only [Bool.or_eq_true, decide_eq_true_eq] at h ⊢
  refine h.imp_right fun hnone => ?_
  split at hnone
  · next htcp =>
      rw [if_pos htcp]
      split at hnone
      · cases hnone
      · next hnet => simp [hnet]
  · next htcp =>
      rw [if_neg htcp]
      exact hnone

end DestPolicy

end SwiftRelay
