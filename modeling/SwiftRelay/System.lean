/-
**The relay as a whole.**

The threads of the relay and what wakes them: a datagram for the receive loop, the timer of the
cleanup task, a message or a socket event for a shard, a packet, a datagram or a timer for the task
of a flow, and a queued frame for a sender.  Nothing is assumed about when, in which order or with
which clock readings a thread is woken.

Which operations occur in the programs of a thread is listed in `may`.  Much of what
holds of the relay rests on that list: only the receive loop creates and authenticates sessions,
only the cleanup task removes them, and only a shard touches its flows.

Main definitions:

* `Act`, `relaySystem` — activations, and the system of all threads;
* `RelayState.new` — the state at the start;
* `may` — the operations of each thread;
* `FrontOp`, `Handoff` — the operations of the receive loop up to the point where it hands a frame
  on, and what it does from there;
* `SocketOp`, `PacketOp` — the operations of a shard for a datagram on a socket and for a client
  packet.

Main results:

* `prog_uses` — the programs of a thread keep to its operations;
* `rxPass_ends_session`, `rxPass_ends` — a pass of the receive loop, cut where it takes the lock of
  the session and where it hands a frame on;
* `wp_core_bind`, `wp_v1_bind`, `wp_v2_bind` — the rules for the operations on each part of the
  state.
-/

import SwiftRelay.Cleanup
import SwiftRelay.Egress

set_option autoImplicit false

namespace SwiftRelay

open Conc

/-! ### The system -/

/-- What wakes a thread. -/
inductive Act
  | datagram (d : Datagram)
  | cleanup (p : CleanupPass)
  | transmit (turn : SendTurn)
  | v1Response (turn : SendTurn)
  | tunResponse (turn : SendTurn) (packet : TunTxPacket)
  | shardEvent (k token : ℕ) (arrivals : List Arrival)
  | shardInbox (k : ℕ) (m : InboxTurn)
  | shardCleanup (k : ℕ) (now : Instant)
  | flowTaskSend (generation : ℕ)
  | flowTaskReceive (generation : ℕ) (a : Arrival)
  | flowTaskIdle (generation : ℕ)
  | flowTaskEnd (generation : ℕ)

def Act.tid : Act → Tid
  | .datagram _ => .rx
  | .cleanup _ => .cleanup
  | .transmit _ => .tx
  | .v1Response _ => .v1Response
  | .tunResponse .. => .tunResponse
  | .shardEvent k .. => .shard k
  | .shardInbox k _ => .shard k
  | .shardCleanup k _ => .shard k
  | .flowTaskSend generation => .v1Flow generation
  | .flowTaskReceive generation _ => .v1Flow generation
  | .flowTaskIdle generation => .v1Flow generation
  | .flowTaskEnd generation => .v1Flow generation

theorem Act.tid_eq_rx {a : Act} (h : a.tid = .rx) : ∃ d, a = .datagram d := by
  cases a with
  | datagram d => exact ⟨d, rfl⟩
  | _ => cases h

theorem Act.tid_eq_cleanup {a : Act} (h : a.tid = .cleanup) : ∃ p, a = .cleanup p := by
  cases a with
  | cleanup p => exact ⟨p, rfl⟩
  | _ => cases h

def Act.prog (env : RelayEnv) : Act → RelayProg Unit
  | .datagram d => rxPass env d
  | .cleanup p => cleanupPass env p
  | .transmit turn => txPass turn
  | .v1Response turn => v1ResponsePass turn
  | .tunResponse turn packet => tunResponsePass turn packet
  | .shardEvent k token arrivals => SwiftRelay.shardEvent k token arrivals
  | .shardInbox k m => SwiftRelay.shardInbox k m
  | .shardCleanup k now => SwiftRelay.shardCleanup k now
  | .flowTaskSend generation => SwiftRelay.flowTaskSend generation
  | .flowTaskReceive generation a => SwiftRelay.flowTaskReceive generation a
  | .flowTaskIdle generation => SwiftRelay.flowTaskIdle generation
  | .flowTaskEnd generation => SwiftRelay.flowTaskEnd generation

abbrev relaySystem (env : RelayEnv) : System relaySig where
  State := RelayState
  Tid := Tid
  Act := Act
  exec := execRelay env
  tidOf := Act.tid
  prog := Act.prog env

/-- The shared session state at the start.  `bucketOf` is the randomly keyed hash of the limiter for
unauthenticated senders. -/
def CoreState.new (bucketOf : Ipv4Addr → ℕ) (createdAt : Instant) : CoreState where
  sessions := ∅
  guards := fun _ => none
  counts := ∅
  activeSessions := 0
  limiter := .new createdAt
  pendingAuth := .new bucketOf createdAt
  replayCache := .new
  destStats := .new

def RelayState.new (bucketOf : Ipv4Addr → ℕ) (createdAt : Instant) : RelayState :=
  ⟨.new bucketOf createdAt, .new, .new⟩

/-- The relay at the start: nothing done, all threads idle. -/
def relayStart (env : RelayEnv) (bucketOf : Ipv4Addr → ℕ) (createdAt : Instant) :
    (relaySystem env).Config :=
  (relaySystem env).initial (.new bucketOf createdAt)

/-! ### The operations of each thread -/

/-- Operations on the shared session state: the receive loop, the cleanup task, the senders, and the
threads of the flows. -/
def CoreOp.ofRx : CoreOp → Bool
  | .forwardingAddr .. | .refresh .. | .activeSub => false
  | .retainLock _ | .retainErase _ | .retainRelease _ => false
  | .sendTo kind .. => kind = .control
  | _ => true

@[inherit_doc CoreOp.ofRx]
def CoreOp.ofCleanup : CoreOp → Bool
  | .retainLock _ | .retainErase _ | .retainRelease _ => true
  | .countDec _ | .countRemove _ | .activeSub | .sessionContains _ => true
  | _ => false

@[inherit_doc CoreOp.ofRx]
def CoreOp.ofSender : CoreOp → Bool
  | .forwardingAddr .. | .sessionGet _ | .drop _ | .sendTo .. => true
  | _ => false

@[inherit_doc CoreOp.ofRx]
def CoreOp.ofFlow : CoreOp → Bool
  | .sessionGet _ | .sessionContains _ | .refresh .. | .sourceAllow .. | .drop _ => true
  | _ => false

/-- Operations of the first datapath: the receive loop, the cleanup task and the task of a flow. -/
def V1Op.ofRx : V1Op → Bool
  | .flowContains _ | .flowsLen | .indexLen _ | .flowForward .. | .indexPush .. => true
  | .spawn .. | .flowKeepalive .. | .indexLock _ => true
  | .flowRemoveIf .. | .indexDropKey .. | .indexRelease _ => true
  | _ => false

@[inherit_doc V1Op.ofRx]
def V1Op.ofCleanup : V1Op → Bool
  | .flowsRetain .. | .indexRetain _ | .flowContains _ => true
  | .indexStore .. | .indexRetainRelease _ => true
  | _ => false

@[inherit_doc V1Op.ofRx]
def V1Op.ofTask (generation : ℕ) : V1Op → Bool
  | .indexLock _ | .indexDropKey .. | .indexRelease _ => true
  | .flowGet _ | .respond _ => true
  | .taskKey g | .flowRemoveIf _ g | .flowTouchIf _ g _ | .channelRecv g => g = generation
  | .taskExit g => g = generation
  | .flowSend g _ | .flowReceive g _ => g = generation
  | _ => false

/-- Operations of the second datapath: the receive loop, the cleanup task, a shard, and the transmit
thread. -/
def V2Op.ofRx : V2Op → Bool
  | .shardSend _ (.removeSession _) => false
  | .shardSend .. => true
  | .txSend packet => packet.kind = .control
  | _ => false

@[inherit_doc V2Op.ofRx]
def V2Op.ofCleanup : V2Op → Bool
  | .shardSend _ (.removeSession _) => true
  | _ => false

@[inherit_doc V2Op.ofRx]
def V2Op.ofShard (shard : ℕ) : V2Op → Bool
  | .flowTotal => true
  | .shardRecv k | .slotRelease k | .flowExists k _ | .sessionFlowCount k _ => k = shard
  | .allocateToken k | .flowOpen k .. | .flowForward k .. | .flowsKeepalive k .. => k = shard
  | .flowsRemove k _ | .flowsCleanup k _ | .flowOfToken k _ => k = shard
  | .flowReceive k .. | .flowTouch k .. => k = shard
  | .txSend packet => packet.kind = .data
  | _ => false

@[inherit_doc V2Op.ofRx]
def V2Op.ofTx : V2Op → Bool
  | .txRecv | .txRelease => true
  | _ => false

/-- The operations that occur in the programs of a thread. -/
def may : Tid → RelayOp → Prop
  | .rx, .core o => o.ofRx
  | .rx, .v1 o => o.ofRx
  | .rx, .v2 o => o.ofRx
  | .cleanup, .core o => o.ofCleanup
  | .cleanup, .v1 o => o.ofCleanup
  | .cleanup, .v2 o => o.ofCleanup
  | .tx, .core o => o.ofSender
  | .tx, .v2 o => o.ofTx
  | .v1Response, .core o => o.ofSender
  | .v1Response, .v1 .responseRecv => True
  | .tunResponse, .core o => o.ofSender
  | .shard _, .core o => o.ofFlow
  | .shard k, .v2 o => o.ofShard k
  | .v1Flow _, .core o => o.ofFlow
  | .v1Flow generation, .v1 o => o.ofTask generation
  | _, _ => False

/-- The operations of the receive loop for a frame that is not a hello: what is handed on belongs to
the session of the frame and comes from its source. -/
def FrameOp (d : Datagram) (account : String) : RelayOp → Prop
  | .core (.parsePacket _) | .core (.sessionGet _) | .core (.setLegacyUser ..) => True
  | .core (.sourceAllow ..) | .core (.drop _) => True
  | .core (.pong ..) | .core (.rttReport ..) | .core (.resolve ..) => True
  | .core (.sendTo kind ..) => kind = .control
  | .core (.tunSend packet _) => packet.sessionId = d.sid ∧ packet.clientAddr = d.src
  | .v1 (.flowForward key addr ..) => key.sessionId = d.sid ∧ addr = d.src
  | .v1 o => o.ofRx
  | .v2 (.shardSend _ (.clientPacket packet)) =>
      packet.sessionId = d.sid ∧ packet.clientAddr = d.src ∧ packet.account = account
  | .v2 (.shardSend _ (.keepalive ..)) => True
  | .v2 (.txSend packet) => packet.kind = .control
  | _ => False

/-- The operations of the receive loop that only look, count, or send a control frame other than the
acknowledgement of a hello. -/
def QuietOp : RelayOp → Prop
  | .core (.pendingAllow ..) | .core (.sourceAllow ..) | .core (.drop _) => True
  | .core (.verifyOnce ..) => True
  | .core (.sessionGet _) | .core (.sessionContains _) | .core .sessionsLen => True
  | .core (.countGet _) => True
  | .core (.ack _ _ status) => status ≠ .ok
  | .core (.sendTo kind ..) => kind = .control
  | .v2 (.txSend packet) => packet.kind = .control
  | _ => False

/-- The operations of the receive loop on the session counts when a session moves. -/
def CountOp : RelayOp → Prop
  | .core (.countDec _) | .core (.countRemove _) | .core (.countInc _) => True
  | _ => False

/-- The operations of the receive loop for an admitted datagram.  A hello is applied with the ticket
that was verified, and a new entry is one that nothing is known about. -/
def AdmitOp (d : Datagram) (ticket : Option VerifiedRelayTicket) : RelayOp → Prop
  | .core (.helloApply _ ticket' ..) => ticket = some ticket'
  | .core (.entryInsert sid entry) => entry = .new sid d.src d.now d.nowUnix
  | o => may .rx o

variable {o : RelayOp}

theorem AdmitOp.may {d : Datagram} {ticket : Option VerifiedRelayTicket}
    (h : AdmitOp d ticket o) : may .rx o := by
  unfold AdmitOp at h
  split at h
  · rfl
  · rfl
  · exact h

theorem CountOp.may (h : CountOp o) : may .rx o := by
  rcases o with o | o | o
  · cases o <;> simp_all [CountOp, SwiftRelay.may, CoreOp.ofRx]
  · cases h
  · cases h

theorem QuietOp.may (h : QuietOp o) : may .rx o := by
  rcases o with o | o | o
  · cases o <;> simp_all [QuietOp, SwiftRelay.may, CoreOp.ofRx]
  · cases h
  · cases o <;> simp_all [QuietOp, SwiftRelay.may, V2Op.ofRx]

theorem QuietOp.neutral (h : QuietOp o) : o.neutral = true := by
  rcases o with o | o | o
  · cases o <;> simp_all [QuietOp, RelayOp.neutral, CoreOp.modifies, CoreOp.counting]
  · rfl
  · rfl

theorem FrameOp.may {d : Datagram} {account : String} (h : FrameOp d account o) : may .rx o := by
  rcases o with o | o | o
  · cases o <;> simp_all [FrameOp, SwiftRelay.may, CoreOp.ofRx]
  · cases o <;> simp_all [FrameOp, SwiftRelay.may, V1Op.ofRx]
  · cases o with
    | shardSend k msg => cases msg <;> simp_all [FrameOp, SwiftRelay.may, V2Op.ofRx]
    | _ => simp_all [FrameOp, SwiftRelay.may, V2Op.ofRx]

section Admit

variable {d : Datagram} {ticket : Option VerifiedRelayTicket}

theorem CountOp.admitted (h : CountOp o) : AdmitOp d ticket o := by
  rcases o with o | o | o
  · cases o <;> first | exact h.may | cases h
  · cases h
  · cases h

theorem QuietOp.admitted (h : QuietOp o) : AdmitOp d ticket o := by
  rcases o with o | o | o
  · cases o <;> first | exact h.may | cases h
  · cases h
  · exact h.may

theorem FrameOp.admitted {account : String} (h : FrameOp d account o) : AdmitOp d ticket o := by
  rcases o with o | o | o
  · cases o <;> first | exact h.may | cases h
  · exact h.may
  · exact h.may

end Admit

theorem accountAllow_uses {φ : RelayOp → Prop} {sid : SessionId} {withinBudget : Bool}
    (hget : φ (.core (.sessionGet sid))) : (accountAllow sid withinBudget).Uses φ := by
  refine uses_core_bind hget fun session => ?_
  cases session <;> simp

/-! ### The receive loop -/

section Frame

variable {env : RelayEnv} {d : Datagram} {account : String}

theorem sendControl_uses (frame : List UInt8) : (sendControl env d frame).Uses QuietOp := by
  unfold sendControl
  split <;> simp [QuietOp]

theorem rxKeepalive_uses : (rxKeepalive env d).Uses (FrameOp d account) := by
  unfold rxKeepalive
  split
  · refine uses_v1_bind rfl fun keys => Prog.uses_bind (Prog.uses_forM fun key _ => ?_) fun _ => ?_
    · simp [FrameOp, V1Op.ofRx]
    · simp [FrameOp, V1Op.ofRx]
  · simp [FrameOp]

theorem removeV1Flow_uses {φ : RelayOp → Prop} {key : FlowKey} {generation : ℕ}
    (hlock : φ (.v1 (.indexLock key.sessionId))) (hremove : φ (.v1 (.flowRemoveIf key generation)))
    (hdrop : φ (.v1 (.indexDropKey key.sessionId key)))
    (hrelease : φ (.v1 (.indexRelease key.sessionId))) :
    (removeV1Flow key generation).Uses φ := by
  simp [removeV1Flow, hlock, hremove, hdrop, hrelease]

theorem rxForwardV1_uses (gameAddr : SocketAddr) (info : OriginalPacketInfo)
    (payload : List UInt8) : (rxForwardV1 d gameAddr info payload).Uses (FrameOp d account) := by
  have hforward : ∀ newFlow, (forwardToFlowV1 d ⟨d.sid, gameAddr⟩ info payload newFlow).Uses
      (FrameOp d account) := by
    intro newFlow
    refine uses_v1_bind ⟨rfl, rfl⟩ fun r => ?_
    cases r with
    | closed generation => exact removeV1Flow_uses rfl rfl rfl rfl
    | _ => simp [FrameOp, V1Op.ofRx]
  have hnew : (newFlowAllowedV1 d).Uses (FrameOp d account) := by
    simp [newFlowAllowedV1, FrameOp, V1Op.ofRx]
  refine uses_v1_bind rfl fun known => .ite (hforward _) ?_
  exact Prog.uses_bind hnew fun allowed => .ite (hforward _) trivial

theorem rxPacket_uses (parsed : ParsedPacket) :
    (rxPacket env d account parsed).Uses (FrameOp d account) := by
  have htun : ∀ rawIpPacket, (rxTun env d rawIpPacket).Uses (FrameOp d account) := by
    intro rawIpPacket
    simp [rxTun, FrameOp]
  have htunIf : ∀ enabled otherwise rawIpPacket,
      (rxTunIf env d enabled otherwise rawIpPacket).Uses (FrameOp d account) := by
    intro enabled otherwise rawIpPacket
    simp [rxTunIf, FrameOp, htun]
  cases parsed with
  | forbiddenDst => simp [rxPacket, FrameOp]
  | fragment protocol srcIp rawIpPacket =>
      exact Prog.uses_bind (htunIf _ _ _) fun _ => by simp [FrameOp]
  | tcp originalInfo rawIpPacket =>
      exact Prog.uses_bind (htunIf _ _ _) fun _ => by simp [FrameOp]
  | udp gameAddr payload originalInfo rawIpPacket =>
      refine .ite ?_ (uses_core_bind trivial fun _ => ?_)
      · exact Prog.uses_bind (htun _) fun _ => by simp [FrameOp]
      · cases hpath : env.datapath with
        | v1 => exact rxForwardV1_uses gameAddr originalInfo payload
        | v2 => simp [rxForwardV2, FrameOp]

theorem rxData_uses : (rxData env d account).Uses (FrameOp d account) := by
  refine .ite (by simp [FrameOp]) ?_
  refine uses_core_bind trivial fun parsed => ?_
  cases parsed with
  | none => simp [FrameOp]
  | some parsed =>
      have hallowed : (packetAllowed d parsed).Uses (FrameOp d account) := by
        exact .ite trivial (accountAllow_uses trivial)
      exact Prog.uses_bind hallowed fun allowed => .ite (rxPacket_uses parsed) (by simp [FrameOp])

theorem rxFrame_uses (authenticated sourceAllowed : Bool) :
    (rxFrame env d authenticated sourceAllowed account).Uses (FrameOp d account) := by
  have hpong : (sendPong env d).Uses (FrameOp d account) := by
    unfold sendPong sendControl
    split <;> simp [FrameOp]
  have hresolve : (rxResolve env d).Uses (FrameOp d account) := by
    unfold rxResolve
    split <;> simp [FrameOp]
  simp [rxFrame, FrameOp, rxData_uses, rxKeepalive_uses, hpong, hresolve]

theorem rxFrame_refused_uses {sourceAllowed : Bool} (hauth : env.authRequired = true) :
    (rxFrame env d false sourceAllowed account).Uses
      fun o => ∃ reason, o = RelayOp.core (.drop reason) := by
  simp [rxFrame, hauth]

end Frame

section Rx

variable {env : RelayEnv} {d : Datagram}

theorem sendAuthAck_quiet {status : AckStatus} (hstatus : status ≠ .ok) :
    (sendAuthAck env d status).Uses QuietOp :=
  uses_core_bind hstatus fun _ => sendControl_uses _

theorem newSessionAllowed_quiet : (newSessionAllowed d).Uses QuietOp := by
  simp [newSessionAllowed, QuietOp]

theorem askReauth_quiet : (askReauth env d).Uses QuietOp := by
  refine uses_core_bind trivial fun _ => .ite ?_ trivial
  exact uses_core_bind trivial fun _ => .ite (sendAuthAck_quiet (by decide)) trivial

theorem dropIn_quiet (reason : DropReason) : (dropIn reason).Uses QuietOp := by
  simp [QuietOp]

theorem updateSourceSessionCountForRebind_uses (oldIp newIp : Ipv4Addr) :
    (updateSourceSessionCountForRebind oldIp newIp).Uses CountOp := by
  simp [updateSourceSessionCountForRebind, decrementSourceSessionCount,
    incrementSourceSessionCount, CountOp]

end Rx

/-! ### How a pass of the receive loop ends -/

/-- The operations before a frame is handed on: on the shared session state, or a control frame. -/
def FrontOp : RelayOp → Prop
  | .core _ => True
  | .v1 _ => False
  | .v2 o => ∃ packet, o = .txSend packet

/-- What a pass may end with: a UDP packet or a keepalive is handed on. -/
inductive Handoff (env : RelayEnv) (d : Datagram) : RelayProg Unit → Prop
  | forwardV1 (gameAddr : SocketAddr) (info : OriginalPacketInfo) (payload : List UInt8) :
      Handoff env d (rxForwardV1 d gameAddr info payload)
  | forwardV2 (account : String) (gameAddr : SocketAddr) (info : OriginalPacketInfo)
      (payload : List UInt8) : Handoff env d (rxForwardV2 env d account gameAddr info payload)
  | keepalive : Handoff env d (rxKeepalive env d)

theorem QuietOp.front (h : QuietOp o) : FrontOp o := by
  rcases o with o | o | o
  · trivial
  · cases h
  · cases o with
    | txSend packet => exact ⟨packet, rfl⟩
    | _ => cases h

theorem CountOp.front (h : CountOp o) : FrontOp o := by
  rcases o with o | o | o
  · trivial
  · cases h
  · cases h

/-- The operations on the session entry. -/
def EntryOp (d : Datagram) (ticket : Option VerifiedRelayTicket) (o : RelayOp) : Prop :=
  AdmitOp d ticket o ∧ FrontOp o

section Ends

variable {env : RelayEnv} {d : Datagram} {account : String}

theorem dropIn_ends (reason : DropReason) : (dropIn reason).Ends FrontOp (Handoff env d) :=
  Prog.Uses.ends (uses_core_bind trivial fun _ => trivial)

theorem rxPacket_ends (parsed : ParsedPacket) :
    (rxPacket env d account parsed).Ends FrontOp (Handoff env d) := by
  have htun (rawIpPacket : List UInt8) : (rxTun env d rawIpPacket).Uses FrontOp := by
    simp [rxTun, FrontOp]
  have htunIf (enabled : Bool) (otherwise : DropReason) (rawIpPacket : List UInt8) :
      (rxTunIf env d enabled otherwise rawIpPacket).Uses FrontOp := by
    simp [rxTunIf, FrontOp, htun]
  cases parsed with
  | forbiddenDst => exact dropIn_ends _
  | fragment protocol srcIp rawIpPacket =>
      exact Prog.Uses.ends (Prog.uses_bind (htunIf _ _ _) fun _ => ⟨trivial, fun _ => trivial⟩)
  | tcp originalInfo rawIpPacket =>
      exact Prog.Uses.ends (Prog.uses_bind (htunIf _ _ _) fun _ => ⟨trivial, fun _ => trivial⟩)
  | udp gameAddr payload originalInfo rawIpPacket =>
      refine .ite ?_ ?_
      · exact Prog.Uses.ends (Prog.uses_bind (htun _) fun _ => ⟨trivial, fun _ => trivial⟩)
      · refine Prog.ends_bind (Prog.uses_perform.2 trivial) fun _ => Prog.ends_of_mem ?_
        cases hpath : env.datapath with
        | v1 => exact .forwardV1 gameAddr originalInfo payload
        | v2 => exact .forwardV2 account gameAddr originalInfo payload

theorem rxData_ends : (rxData env d account).Ends FrontOp (Handoff env d) := by
  refine .ite (dropIn_ends _) ?_
  refine Prog.ends_bind (Prog.uses_perform.2 trivial) fun parsed => ?_
  cases parsed with
  | none => exact dropIn_ends _
  | some parsed =>
      have hallowed : (packetAllowed d parsed).Uses FrontOp :=
        .ite trivial (accountAllow_uses trivial)
      exact Prog.ends_bind hallowed fun allowed => .ite (rxPacket_ends parsed) (dropIn_ends _)

theorem rxFrame_ends (authenticated sourceAllowed : Bool) :
    (rxFrame env d authenticated sourceAllowed account).Ends FrontOp (Handoff env d) := by
  have hpong : (sendPong env d).Uses FrontOp :=
    uses_core_bind trivial fun _ => (sendControl_uses _).mono fun _ => QuietOp.front
  have hresolve : (rxResolve env d).Uses FrontOp := by
    unfold rxResolve
    split <;> simp [FrontOp]
  have hrefused {c : Prop} [Decidable c] {p : RelayProg Unit}
      (hp : p.Ends FrontOp (Handoff env d)) :
      (if c then dropIn .auth else p).Ends FrontOp (Handoff env d) :=
    .ite (dropIn_ends _) hp
  unfold rxFrame
  refine hrefused (.ite (hrefused hpong.ends) ?_)
  refine .ite trivial (.ite ?_ ?_)
  · exact hrefused (Prog.Uses.ends (uses_core_bind trivial fun _ => trivial))
  refine .ite (hrefused hresolve.ends) ?_
  exact .ite (hrefused (Prog.ends_of_mem .keepalive)) (hrefused rxData_ends)

variable (ticket : Option VerifiedRelayTicket)

theorem sendAuthAck_entry (status : AckStatus) :
    (sendAuthAck env d status).Uses (EntryOp d ticket) :=
  uses_core_bind ⟨rfl, trivial⟩ fun _ => (sendControl_uses _).mono fun _ h => ⟨h.admitted, h.front⟩

theorem rebind_entry (oldIp newIp : Ipv4Addr) :
    (updateSourceSessionCountForRebind oldIp newIp).Uses (EntryOp d ticket) :=
  (updateSourceSessionCountForRebind_uses oldIp newIp).mono fun _ h => ⟨h.admitted, h.front⟩

theorem rxHello_entry : (rxHello env d ticket).Uses (EntryOp d ticket) := by
  refine .ite (sendAuthAck_entry _ _) ?_
  cases ticket with
  | none => exact sendAuthAck_entry _ _
  | some ticket =>
      have happly : (applyHello d ticket).Uses (EntryOp d (some ticket)) := by
        refine uses_core_bind ⟨rfl, trivial⟩ fun session => ?_
        cases session with
        | none => trivial
        | some session =>
            exact Prog.uses_bind (rebind_entry _ _ _) fun _ =>
              uses_core_bind ⟨rfl, trivial⟩ fun _ => trivial
      refine uses_core_bind ⟨rfl, trivial⟩ fun existing =>
        Prog.uses_ite.2 ⟨fun _ => sendAuthAck_entry _ _, fun _ => ?_⟩
      exact Prog.uses_bind happly fun _ => sendAuthAck_entry _ _

/-- The session entry is dealt with, and then a frame that is not a hello. -/
theorem rxSession_ends_frame : (rxSession env d ticket).Ends (EntryOp d ticket) fun p =>
    ∃ authenticated sourceAllowed account,
      p = rxFrame env d authenticated sourceAllowed account := by
  refine Prog.ends_bind (Prog.uses_perform.2 ⟨rfl, trivial⟩) fun session => ?_
  cases session with
  | some session =>
      have htouch : (touchSession env d session).Uses (EntryOp d ticket) := by
        refine .ite ?_ (uses_core_bind ⟨rfl, trivial⟩ fun _ => trivial)
        exact Prog.uses_bind (rebind_entry _ _ _) fun _ =>
          uses_core_bind ⟨rfl, trivial⟩ fun _ => trivial
      exact Prog.ends_bind htouch fun _ =>
        .ite (rxHello_entry ticket).ends (Prog.ends_of_mem ⟨_, _, _, rfl⟩)
  | none =>
      have hcreate : (createSession d).Uses (EntryOp d ticket) := by
        simp [createSession, incrementSourceSessionCount, EntryOp, AdmitOp, FrontOp, may,
          CoreOp.ofRx]
      exact Prog.ends_bind hcreate fun _ =>
        .ite (rxHello_entry ticket).ends (Prog.ends_of_mem ⟨_, _, _, rfl⟩)

theorem rxSession_ends : (rxSession env d ticket).Ends FrontOp (Handoff env d) := by
  refine ((rxSession_ends_frame ticket).mono fun _ h => h.2).trans ?_
  rintro p ⟨authenticated, sourceAllowed, account, rfl⟩
  exact rxFrame_ends authenticated sourceAllowed

theorem rxSession_uses : (rxSession env d ticket).Uses (AdmitOp d ticket) := by
  refine (rxSession_ends_frame ticket).uses (fun _ h => h.1) ?_
  rintro p ⟨authenticated, sourceAllowed, account, rfl⟩
  exact (rxFrame_uses authenticated sourceAllowed).mono fun _ => FrameOp.admitted

/-- An admitted datagram is looked at, up to the session entry. -/
theorem rxAdmit_ends : (rxAdmit env d ticket).Ends QuietOp (· = rxSession env d ticket) := by
  refine Prog.ends_bind (Prog.uses_perform.2 trivial) fun _ => .ite (dropIn_quiet _).ends ?_
  refine Prog.ends_bind (Prog.uses_perform.2 trivial) fun _ => .ite (Prog.ends_of_mem rfl) ?_
  exact Prog.ends_bind newSessionAllowed_quiet fun _ => .ite (Prog.ends_of_mem rfl) trivial

theorem rxAdmit_uses : (rxAdmit env d ticket).Uses (AdmitOp d ticket) := by
  refine (rxAdmit_ends ticket).uses (fun _ => QuietOp.admitted) ?_
  rintro p rfl
  exact rxSession_uses ticket

theorem rxGate_uses : (rxGate env d).Uses (AdmitOp d none) := by
  refine Prog.uses_bind (askReauth_quiet.mono fun _ => QuietOp.admitted) fun _ =>
    uses_core_bind rfl fun _ => .ite (rxAdmit_uses none) ?_
  exact (dropIn_quiet _).mono fun _ => QuietOp.admitted

/-- A pass of the receive loop only looks, up to where a datagram is admitted. -/
theorem rxPass_ends_admit : (rxPass env d).Ends QuietOp fun p =>
    ∃ ticket, p = rxAdmit env d ticket := by
  have hack (err : RelayAuthVerifyError) : (sendAuthAck env d err.ackStatus).Ends QuietOp fun p =>
      ∃ ticket, p = rxAdmit env d ticket :=
    (sendAuthAck_quiet (by cases err <;> decide)).ends
  have hadmitted (ticket : Option VerifiedRelayTicket) :
      (rxAdmit env d ticket).Ends QuietOp fun p => ∃ ticket, p = rxAdmit env d ticket :=
    Prog.ends_of_mem ⟨ticket, rfl⟩
  refine .ite (dropIn_quiet _).ends (Prog.ends_ite.2 ⟨fun _ => .ite ?_ ?_, fun _ => hadmitted _⟩)
  · refine Prog.ends_bind (Prog.uses_perform.2 trivial) fun _ => .ite (dropIn_quiet _).ends ?_
    split
    · exact hack _
    · refine Prog.ends_bind (Prog.uses_perform.2 trivial) fun result => ?_
      cases result with
      | error err => exact hack _
      | ok ticket => exact hadmitted _
  · refine Prog.ends_bind askReauth_quiet fun _ =>
      Prog.ends_bind (Prog.uses_perform.2 trivial) fun _ => ?_
    exact .ite (hadmitted _) (dropIn_quiet _).ends

theorem rxPass_ends_session : (rxPass env d).Ends QuietOp fun p =>
    ∃ ticket, p = rxSession env d ticket := by
  refine rxPass_ends_admit.trans ?_
  rintro p ⟨ticket, rfl⟩
  refine (rxAdmit_ends ticket).trans ?_
  rintro p rfl
  exact Prog.ends_of_mem ⟨ticket, rfl⟩

/-- **A pass of the receive loop** works on the shared session state, and at most hands a frame on
in the end. -/
theorem rxPass_ends : (rxPass env d).Ends FrontOp (Handoff env d) := by
  refine (rxPass_ends_session.mono fun _ => QuietOp.front).trans ?_
  rintro p ⟨ticket, rfl⟩
  exact rxSession_ends ticket

theorem rxPass_uses : (rxPass env d).Uses (may .rx) := by
  refine rxPass_ends_session.uses (fun _ => QuietOp.may) ?_
  rintro p ⟨ticket, rfl⟩
  exact (rxSession_uses ticket).mono fun _ => AdmitOp.may

end Ends

/-! ### The other threads -/

theorem retainFlowsV1_uses {φ : RelayOp → Prop}
    (hv1 : ∀ o : V1Op, o.ofCleanup = true → φ (.v1 o))
    (hcontains : ∀ sid, φ (.core (.sessionContains sid))) (env : RelayEnv) (now : Instant) :
    (retainFlowsV1 env now).Uses φ := by
  have hkeep (keys : List FlowKey) : (keepFlows keys).Uses φ := by
    induction keys with
    | nil => trivial
    | cons key keys ih => exact uses_v1_bind (hv1 _ rfl) fun _ => Prog.uses_bind ih fun _ => trivial
  have hentry (entry : SessionId × List FlowKey) : (retainIndexEntry entry).Uses φ := by
    refine Prog.uses_bind (hkeep entry.2) fun keys => ?_
    have hstore : ∀ keys, φ (.v1 (.indexStore entry.1 keys)) := fun _ => hv1 _ rfl
    simp [hcontains, hstore]
  refine Prog.uses_bind (Prog.uses_forM fun i _ => uses_v1_bind (hv1 _ rfl) fun _ => trivial)
    fun _ => Prog.uses_forM fun i _ => ?_
  exact uses_v1_bind (hv1 _ rfl) fun entries =>
    Prog.uses_bind (Prog.uses_forM fun entry _ => hentry entry) fun _ =>
      uses_v1_bind (hv1 _ rfl) fun _ => trivial

theorem cleanupPass_uses (env : RelayEnv) (p : CleanupPass) :
    (cleanupPass env p).Uses (may .cleanup) := by
  have hvisit : ∀ entry, (cleanupSession env p entry).Uses (may .cleanup) := by
    intro entry
    cases hpath : env.datapath <;>
      simp [cleanupSession, decrementSourceSessionCount, signalRemoval, hpath, may,
        CoreOp.ofCleanup, V2Op.ofCleanup]
  have hretain : (retainSessions env p).Uses (may .cleanup) := by
    refine Prog.uses_forM fun i _ => uses_core_bind rfl fun entries => ?_
    exact Prog.uses_bind (Prog.uses_forM fun entry _ => hvisit entry) fun _ =>
      uses_core_bind rfl fun _ => trivial
  unfold cleanupPass
  split
  · exact Prog.uses_bind (retainFlowsV1_uses (fun _ h => h) (fun _ => rfl) env p.now)
      fun _ => hretain
  · exact hretain

theorem forwardData_uses {φ : RelayOp → Prop} (hφ : ∀ o : CoreOp, o.ofSender = true → φ (.core o))
    (turn : SendTurn) (sid : SessionId) (frame : List UInt8) {refused : RelayProg Unit}
    (hrefused : refused.Uses φ) : (forwardData turn sid frame refused).Uses φ := by
  refine uses_core_bind (hφ _ rfl) fun addr => ?_
  cases addr with
  | none => exact hrefused
  | some addr =>
      refine Prog.uses_bind (accountAllow_uses (hφ _ rfl)) fun _ => .ite ?_ ?_
      · exact uses_core_bind (hφ _ rfl) fun _ => trivial
      · exact uses_core_bind (hφ _ rfl) fun _ => trivial

theorem txPass_uses (turn : SendTurn) : (txPass turn).Uses (may .tx) := by
  refine uses_v2_bind rfl fun packet => ?_
  cases packet with
  | none => trivial
  | some packet =>
      refine Prog.uses_bind (.ite ?_ ?_) fun _ =>
        uses_v2_bind rfl fun _ => trivial
      · exact uses_core_bind rfl fun _ => trivial
      · split
        · exact forwardData_uses (fun _ h => h) _ _ _ (uses_core_bind rfl fun _ => trivial)
        · exact uses_core_bind rfl fun _ => trivial

/-- The operations of a shard on the sockets of its flows. -/
def SocketOp (k : ℕ) : RelayOp → Prop
  | .core o => o.ofFlow
  | .v2 (.flowOfToken k' _) | .v2 (.flowReceive k' ..) | .v2 (.flowTouch k' ..) => k' = k
  | .v2 (.txSend packet) => packet.kind = .data
  | _ => False

/-- The operations of a shard for a client packet. -/
def PacketOp (k : ℕ) (packet : ClientPacket) : RelayOp → Prop
  | .core o => o.ofFlow
  | .v2 .flowTotal => True
  | .v2 (.slotRelease k') | .v2 (.flowExists k' _) | .v2 (.sessionFlowCount k' _) => k' = k
  | .v2 (.allocateToken k') | .v2 (.flowOpen k' ..) => k' = k
  | .v2 (.flowForward k' key ..) => k' = k ∧ key = ⟨packet.sessionId, packet.gameAddr⟩
  | _ => False

theorem SocketOp.may {k : ℕ} (h : SocketOp k o) : may (.shard k) o := by
  rcases o with o | o | o
  · exact h
  · cases h
  · cases o <;> simp_all [SocketOp, SwiftRelay.may, V2Op.ofShard]

theorem PacketOp.may {k : ℕ} {packet : ClientPacket} (h : PacketOp k packet o) :
    may (.shard k) o := by
  rcases o with o | o | o
  · exact h
  · cases h
  · cases o <;> simp_all [PacketOp, SwiftRelay.may, V2Op.ofShard]

theorem shardEvent_uses (k token : ℕ) (arrivals : List Arrival) :
    (shardEvent k token arrivals).Uses (SocketOp k) := by
  have hcarry : ∀ key flow a, (carryResponse k key flow a).Uses (SocketOp k) := by
    intro key flow a
    refine uses_v2_bind rfl fun _ => uses_core_bind rfl fun _ => ?_
    refine .ite (by simp [dropOut, SocketOp, CoreOp.ofFlow]) ?_
    split <;> simp [dropOut, SocketOp, CoreOp.ofFlow]
  have hresponse : ∀ key a, (flowResponse k key a).Uses (SocketOp k) := by
    intro key a
    refine uses_v2_bind rfl fun flow => ?_
    cases flow with
    | none => trivial
    | some flow =>
        exact uses_core_bind rfl fun _ => .ite (hcarry key flow a) trivial
  have hburst : ∀ key arrivals, (flowBurst k key arrivals).Uses (SocketOp k) := by
    intro key arrivals
    induction arrivals with
    | nil => trivial
    | cons a arrivals ih =>
        exact Prog.uses_bind (hresponse key a) fun _ => .ite ih trivial
  refine uses_v2_bind rfl fun found => ?_
  cases found with
  | none => trivial
  | some found => exact hburst _ _

theorem shardClientPacket_uses (k : ℕ) (m : InboxTurn) (packet : ClientPacket) :
    (shardClientPacket k m packet).Uses (PacketOp k packet) := by
  have hopen : (openFlow k m packet).Uses (PacketOp k packet) := by
    simp only [openFlow, Prog.pure_eq]
    refine uses_v2_bind trivial fun _ => .ite (by simp [PacketOp, CoreOp.ofFlow]) ?_
    refine uses_v2_bind rfl fun _ => .ite (by simp [PacketOp, CoreOp.ofFlow]) ?_
    refine uses_core_bind rfl fun _ => .ite (by simp [PacketOp, CoreOp.ofFlow]) ?_
    refine .ite (by simp [PacketOp, CoreOp.ofFlow]) ?_
    refine uses_v2_bind rfl fun token => ?_
    cases token <;> simp [PacketOp, CoreOp.ofFlow]
  have hforward : (forwardOnFlow k m packet).Uses (PacketOp k packet) :=
    uses_v2_bind ⟨rfl, rfl⟩ fun _ => trivial
  refine .ite (by simp [PacketOp, CoreOp.ofFlow]) ?_
  refine uses_v2_bind rfl fun _ => .ite hforward ?_
  refine Prog.uses_bind hopen fun _ => .ite hforward ?_
  exact uses_v2_bind rfl fun _ => trivial

theorem shardInbox_uses (k : ℕ) (m : InboxTurn) : (shardInbox k m).Uses (may (.shard k)) := by
  refine uses_v2_bind (by simp [may, V2Op.ofShard]) fun msg => ?_
  rcases msg with - | packet | ⟨sid, addr⟩ | sid
  · trivial
  · exact (shardClientPacket_uses k m packet).mono fun _ => PacketOp.may
  · simp [may, V2Op.ofShard]
  · simp [may, V2Op.ofShard]

section Task

variable {generation : ℕ}

theorem withTask_uses {body : FlowKey → RelayProg Unit}
    (hbody : ∀ key, (body key).Uses (may (.v1Flow generation))) :
    (withTask generation body).Uses (may (.v1Flow generation)) := by
  refine uses_v1_bind (by simp [may, V1Op.ofTask]) fun key => ?_
  cases key with
  | none => trivial
  | some key => exact hbody key

theorem endFlowTask_uses (key : FlowKey) :
    (endFlowTask key generation).Uses (may (.v1Flow generation)) :=
  Prog.uses_bind (removeV1Flow_uses rfl (by simp [may, V1Op.ofTask]) rfl rfl) fun _ => by
    simp [may, V1Op.ofTask]

theorem flowTaskReceive_uses (a : Arrival) :
    (flowTaskReceive generation a).Uses (may (.v1Flow generation)) := by
  refine withTask_uses fun key => ?_
  refine uses_v1_bind (by simp [may, V1Op.ofTask]) fun _ => uses_core_bind rfl fun _ => ?_
  refine .ite (uses_v1_bind rfl fun flow => ?_) (endFlowTask_uses _)
  cases flow with
  | none =>
      exact uses_core_bind rfl fun _ => .ite trivial (endFlowTask_uses _)
  | some flow =>
      refine .ite ?_ (endFlowTask_uses _)
      simp [flowTaskRespond, may, V1Op.ofTask, CoreOp.ofFlow]

end Task

/-- **The programs of a thread keep to its operations.** -/
theorem prog_uses (env : RelayEnv) (a : Act) : (a.prog env).Uses (may a.tid) := by
  cases a with
  | datagram d => exact rxPass_uses
  | cleanup p => exact cleanupPass_uses env p
  | transmit turn => exact txPass_uses turn
  | v1Response turn =>
      refine uses_v1_bind trivial fun response => ?_
      cases response with
      | none => trivial
      | some response => exact forwardData_uses (fun _ h => h) _ _ _ trivial
  | tunResponse turn packet => exact forwardData_uses (fun _ h => h) _ _ _ trivial
  | shardEvent k token arrivals =>
      exact (shardEvent_uses k token arrivals).mono fun _ => SocketOp.may
  | shardInbox k m => exact shardInbox_uses k m
  | shardCleanup k now => simp [Act.prog, shardCleanup, Act.tid, may, V2Op.ofShard]
  | flowTaskSend generation =>
      refine withTask_uses fun _ => uses_v1_bind (by simp [may, V1Op.ofTask]) fun payload => ?_
      cases payload <;> simp [may, V1Op.ofTask]
  | flowTaskReceive generation a => exact flowTaskReceive_uses a
  | flowTaskIdle generation =>
      exact withTask_uses fun key => uses_v1_bind rfl fun _ => .ite trivial (endFlowTask_uses _)
  | flowTaskEnd generation => exact withTask_uses endFlowTask_uses

/-! ### Rules for the operations of the relay -/

section Rules

variable {env : RelayEnv} {C : Contract (relaySystem env)} {t : Tid} {α : Type}
  {w : (relaySystem env).World} {Q : α → (relaySystem env).World → Prop}

/-- An operation on the shared session state, followed by the rest of a program. -/
theorem wp_core_bind {o : CoreOp} {f : o.Ret → RelayProg α} (P : (relaySystem env).World → Prop)
    (hP : C.Stable t P) (hw : P w) (hpre : ∀ w', C.inv w' → P w' → C.pre t (.core o) w')
    (hnext : ∀ w' (r : o.Ret) st, C.inv w' → P w' →
      execRelay env t (.core o) w'.st = some (r, st) →
      C.cond w' (.exec t (.core o) r w'.st st) →
      C.wp t (f r) Q (w'.after t (.core o) r st)) : C.wp t (core o >>= f) Q w :=
  Contract.wp_op P hP hw hpre hnext

/-- An operation on the shared session state at the end of a program. -/
theorem wp_core {o : CoreOp} {Q : o.Ret → (relaySystem env).World → Prop}
    (P : (relaySystem env).World → Prop) (hP : C.Stable t P) (hw : P w)
    (hpre : ∀ w', C.inv w' → P w' → C.pre t (.core o) w')
    (hnext : ∀ w' (r : o.Ret) st, C.inv w' → P w' →
      execRelay env t (.core o) w'.st = some (r, st) →
      C.cond w' (.exec t (.core o) r w'.st st) → Q r (w'.after t (.core o) r st)) :
    C.wp t (core o) Q w :=
  Contract.wp_op P hP hw hpre hnext

/-- An operation of the first datapath, followed by the rest of a program. -/
theorem wp_v1_bind {o : V1Op} {f : o.Ret → RelayProg α} (P : (relaySystem env).World → Prop)
    (hP : C.Stable t P) (hw : P w) (hpre : ∀ w', C.inv w' → P w' → C.pre t (.v1 o) w')
    (hnext : ∀ w' (r : o.Ret) st, C.inv w' → P w' →
      execRelay env t (.v1 o) w'.st = some (r, st) →
      C.cond w' (.exec t (.v1 o) r w'.st st) → C.wp t (f r) Q (w'.after t (.v1 o) r st)) :
    C.wp t (v1 o >>= f) Q w :=
  Contract.wp_op P hP hw hpre hnext

/-- An operation of the second datapath, followed by the rest of a program. -/
theorem wp_v2_bind {o : V2Op} {f : o.Ret → RelayProg α} (P : (relaySystem env).World → Prop)
    (hP : C.Stable t P) (hw : P w) (hpre : ∀ w', C.inv w' → P w' → C.pre t (.v2 o) w')
    (hnext : ∀ w' (r : o.Ret) st, C.inv w' → P w' →
      execRelay env t (.v2 o) w'.st = some (r, st) →
      C.cond w' (.exec t (.v2 o) r w'.st st) → C.wp t (f r) Q (w'.after t (.v2 o) r st)) :
    C.wp t (v2 o >>= f) Q w :=
  Contract.wp_op P hP hw hpre hnext

end Rules

/-! ### A hello with a verified ticket -/

/-- The operations that look at a ticket. -/
def CoreOp.onTickets : CoreOp → Bool
  | .pendingAllow .. | .verifyOnce .. => true
  | _ => false

/-- The first two operations of a pass for a hello with a ticket that passes. -/
theorem run_hello {env : RelayEnv} (hauth : env.authRequired = true) {d : Datagram}
    {token : String} {ticket : VerifiedRelayTicket} {cache : RelayTicketReplayCache}
    {c : (relaySystem env).Config} {ctl : Tid → RelayProg Unit} {s : RelayState}
    (hc : c.Shows (s, ctl)) (hctl : ctl .rx = rxPass env d) (hlen : sessionIdLen ≤ d.len)
    (hello : d.isAuthHello = true) (hparse : parseAuthHelloToken d.buf d.len = .ok token)
    (hpending : (s.core.pendingAuth.allow d.ip d.now).1 = true)
    (hverify : verifyRelayTicketOnce env.codecs token d.sid env.auth d.nowUnix
      s.core.replayCache d.casWon = (.ok ticket, cache)) {ok : System.Test (relaySystem env)}
    (hok : ∀ o : CoreOp, o.onTickets = true → ∀ s, ok .rx (.core o) s = true) :
    ∃ c', (relaySystem env).Run (System.Passes ok) c c' ∧
      c'.Shows ({ s with core := { s.core with
        pendingAuth := (s.core.pendingAuth.allow d.ip d.now).2
        replayCache := cache } }, Function.update ctl .rx (rxAdmit env d (some ticket))) := by
  have hfire : System.fire ok .rx 2 (s, ctl) =
      some ({ s with core := { s.core with
        pendingAuth := (s.core.pendingAuth.allow d.ip d.now).2
        replayCache := cache } }, Function.update ctl .rx (rxAdmit env d (some ticket))) := by
    have hpass : rxPass env d = .op (.core (.pendingAllow d.ip d.now)) fun allowed =>
        if !allowed then dropIn .rateLimit
        else .op (.core (.verifyOnce token d.sid d.nowUnix d.casWon)) fun result =>
          match result with
          | .error err => sendAuthAck env d err.ackStatus
          | .ok ticket => rxAdmit env d (some ticket) := by
      simp only [rxPass, if_neg (Nat.not_lt.2 hlen), hauth, hello, if_true, hparse]
      rfl
    simp only [System.fire, hctl, hpass]
    simp [execRelay, execCore, hpending, hverify, hok (.pendingAllow d.ip d.now) rfl,
      hok (.verifyOnce token d.sid d.nowUnix d.casWon) rfl]
  obtain ⟨c', hrun, hc', -⟩ := System.run_of_fire hc hfire
  exact ⟨c', hrun, hc'⟩

/-! ### A sample relay and its datagrams -/

/-- A relay in the second datapath that does not ask for tickets. -/
def openEnv : RelayEnv where
  auth := { sampleAuth with mode := .off }
  codecs := sampleCodecs
  policy := ⟨.off, ⟨[]⟩, ⟨[]⟩, [], 16⟩
  datapath := .v2
  tcpEnabled := false
  tunUdpEnabled := false
  tunAvailable := false
  resolveSocket := true
  dashShards := 2
  dashShardOf := fun sid => sid.toNat % 2
  dashShardOf_lt := fun _ => Nat.mod_lt _ Nat.zero_lt_two
  flowShards := 1
  flowShardOf := fun _ _ => 0
  flowShardOf_lt := fun _ _ => Nat.one_pos
  indexShards := 1
  indexShardOf := fun _ => 0
  indexShardOf_lt := fun _ => Nat.one_pos
  shardCount := 1
  shardQueueCap := 4096
  txQueueCap := 8192
  flowChannelCapacity := 256

abbrev openStart : (relaySystem openEnv).Config := relayStart openEnv (fun _ => 0) 0

/-- A frame that arrives in the `n`-th second, which is also the unix time. -/
def sampleDatagram (frame : List UInt8) (len : ℕ) (h : len ≤ frame.length) (src : SocketAddr)
    (n : ℕ) : Datagram where
  buf := frame
  len := len
  len_le := h
  src := src
  now := secs n
  nowUnix := UInt64.ofNat n
  later := secs n
  casWon := true
  withinBudget := true
  tunAccepts := true
  poolGrants := true

/-- The endpoint of the sample client. -/
def sampleClient : SocketAddr := ⟨⟨203, 0, 113, 7⟩, 40000⟩

/-- A data frame of session 1. -/
def sampleFrame (packet : List UInt8) (src : SocketAddr) (n : ℕ) : Datagram :=
  sampleDatagram (sessionIdBytes 1 ++ packet) (sessionIdBytes 1 ++ packet).length (Nat.le_refl _)
    src n

/-- A UDP packet from port 49152 of 10.0.0.2 to port 50000 of 128.116.1.1. -/
def samplePacket : List UInt8 :=
  [0x45, 0, 0, 32, 0, 9, 0, 0, 64, 17, 0, 0, 10, 0, 0, 2, 128, 116, 1, 1,
    0xC0, 0, 0xC3, 0x50, 0, 12, 0, 0, 1, 2, 3, 4]

/-- The flow of the sample packet. -/
def sampleFlowKey : FlowKey := ⟨1, ⟨⟨128, 116, 1, 1⟩, 50000⟩⟩

/-- A keepalive of a session. -/
def sampleKeepalive (sid : SessionId) (src : SocketAddr) (n : ℕ) : Datagram :=
  sampleDatagram (sessionIdBytes sid) sessionIdLen (Nat.le_of_eq (sessionIdBytes_length sid).symm)
    src n

end SwiftRelay
