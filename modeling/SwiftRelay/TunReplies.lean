/-
**Replies from the TUN device.**

The reader thread looks up whose address a packet from the TUN device is for, and puts the inner
address of that session back.  In every run of the writer and the cleanup, what it finds is what the
writer knew from the packet with which it claimed the address last.

Main results:

* `replies_follow_last_claim` — whom a reply goes to, and with which address.
-/

import SwiftRelay.Egress
import SwiftRelay.TunReclaim

set_option autoImplicit false

namespace SwiftRelay

open Conc

variable {env : TunEnv} {c : (tunSystem env).Config}

/-- One round of `tun_reader_loop`. -/
def tunReaderPass (ipToSession : Table Ipv4Addr SessionMapping) (packet : List UInt8) :
    Option TunTxPacket := do
  if packet.length < ipHeaderMin then failure
  let mapping ← ipToSession.lookup (dstIpOf packet)
  return ⟨mapping.sessionId, mapping.clientAddr, rewriteDstIp packet mapping.originalSrcIp⟩

/-- The packet with which the address was claimed last, unless it was given up since. -/
def claimant (ip : Ipv4Addr) : List (tunSystem env).Event → Option InboundTunPacket
  | [] => none
  | .exec t (.ipEntry ip' _) refused _ _ :: hist =>
      if ip' = ip ∧ refused = false then
        match System.lastAct t hist with
        | some (.packet pkt) => some pkt
        | _ => none
      else claimant ip hist
  | .exec _ (.ipRemove _ ip') _ _ _ :: hist => if ip' = ip then none else claimant ip hist
  | _ :: hist => claimant ip hist

/-- The writer enters what it knows from its packet. -/
def TunAct.Enters (a : TunAct) (o : TunOp) : Prop :=
  ∀ ip mapping, o = .ipEntry ip mapping → ∃ pkt, a = .packet pkt ∧ mapping = pkt.mapping

theorem tunProg_enters (a : TunAct) : (a.prog env).Uses a.Enters := by
  cases a with
  | removeExpired sessionAlive =>
      refine (removeExpired_uses sessionAlive).mono fun o ho ip mapping heq => ?_
      subst heq
      exact absurd ho id
  | packet pkt =>
      refine (tunWriterPass_uses pkt).mono fun o ho ip mapping heq => ?_
      subst heq
      exact ⟨pkt, rfl, ho⟩

theorem lookup_eq_claimant (h : (tunSystem env).Steps ((tunSystem env).initial .new) c)
    (ip : Ipv4Addr) :
    c.st.ipToSession.lookup ip = (claimant ip c.hist).map InboundTunPacket.mapping := by
  induction h with
  | refl => rfl
  | tail hrun hstep ih =>
      obtain ⟨e, -, hstep⟩ := hstep
      cases hstep with
      | start a hidle => exact ih
      | exec t o k r st hctl hexec =>
          have hexec : execTun env t o _ = some (r, st) := hexec
          cases o with
          | ipEntry ip' mapping =>
              have hrun : (tunSystem env).Steps _ _ := hrun
              obtain hret | ⟨a, ha, huses⟩ := hrun.uses_lastAct (fun a => tunProg_enters a) t
              · cases hctl.symm.trans hret
              rw [hctl] at huses
              obtain ⟨pkt, rfl, rfl⟩ := huses.1 ip' mapping rfl
              rw [System.World.after_st, System.World.after_hist, claimant, ha]
              -- the entry is refused, or it is now that of the packet
              rcases execTun_ipEntry hexec with ⟨-, rfl, rfl⟩ | ⟨-, rfl, rfl⟩
              · simp only [Table.lookup_insert_eq, and_true, eq_comm (a := ip)]
                split
                · rfl
                · exact ih
              · simpa using ih
          | ipRemove sid ip' =>
              cases hexec
              simp only [System.World.after_st, System.World.after_hist, claimant,
                Table.lookup_erase_eq, eq_comm (a := ip)]
              split
              · rfl
              · exact ih
          | ipGet ip' | write packet =>
              cases hexec
              exact ih
          | _ =>
              obtain ⟨-, -, rfl⟩ := System.of_guarded hexec
              exact ih

/-- **Replies go where the last packet came from.**  In every run, a packet from the TUN device is
sent on for the session that claimed its destination last, to the endpoint and the inner address of
the packet with which it did, and with nothing else changed than by the rewriting. -/
theorem replies_follow_last_claim
    (hrun : (tunSystem env).Steps ((tunSystem env).initial .new) c) {packet : List UInt8}
    {reply : TunTxPacket} (h : tunReaderPass c.st.ipToSession packet = some reply) :
    ∃ pkt, claimant (dstIpOf packet) c.hist = some pkt ∧ reply =
      ⟨pkt.sessionId, pkt.clientAddr, rewriteDstIp packet (srcIpOf pkt.rawIpPacket)⟩ := by
  rw [tunReaderPass, lookup_eq_claimant hrun] at h
  cases hclaim : claimant (dstIpOf packet) c.hist with
  | none => simp [hclaim] at h
  | some pkt =>
      refine ⟨pkt, rfl, ?_⟩
      split at h
      · cases h
      · simpa [hclaim, InboundTunPacket.mapping] using h.symm

/-- A packet for the address of the first session of the sample. -/
def sampleReply : List UInt8 :=
  [0x45, 0, 0, 20, 0, 0, 0, 0, 64, 6, 0, 0, 8, 8, 8, 8, 10, 200, 1, 2]

theorem replies_follow_last_claim_sample :
    ∃ c : (tunSystem sampleTunEnv).Config,
      (tunSystem sampleTunEnv).Steps ((tunSystem sampleTunEnv).initial .new) c ∧
      ∃ reply, tunReaderPass c.st.ipToSession sampleReply = some reply ∧
        ∃ pkt, claimant (dstIpOf sampleReply) c.hist = some pkt ∧ reply =
          ⟨pkt.sessionId, pkt.clientAddr, rewriteDstIp sampleReply (srcIpOf pkt.rawIpPacket)⟩ := by
  have hstart : System.Reaches System.free ((tunSystem sampleTunEnv).initial .new)
      (TunState.new, fun _ => .ret ()) :=
    ⟨_, Relation.ReflTransGen.refl, rfl, rfl⟩
  obtain ⟨c, hrun, hc⟩ := hstart.follow
    [.start (.packet (sampleTunPacket 0x0102030405060708)), .fire .writer 9] (by decide +kernel)
  obtain ⟨reply, hreply⟩ : ∃ reply, tunReaderPass c.st.ipToSession sampleReply = some reply := by
    refine Option.isSome_iff_exists.1 ?_
    rw [show c.st = _ from hc.1]
    decide +kernel
  exact ⟨c, hrun.steps, reply, hreply, replies_follow_last_claim hrun.steps hreply⟩

end SwiftRelay
