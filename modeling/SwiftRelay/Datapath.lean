/-
**The threads of the sharded datapath, one operation at a time.**

The receive thread hands packets to the shards and control frames to the transmit thread.  A shard
waits in `poll`, which blocks until an event is delivered or the time for the next cleanup has come;
it then reads a burst of datagrams from each socket that has an event, takes a burst of messages
from its inbox, and cleans its flows up when that is due.  One activation of a shard is one round of
this loop, so a shard that is idle is about to enter `poll`.

What the clock, the operating system and the session layer decide is part of the activations.

Main definitions:

* `rxPass`, `removePass`, `shardRound`, `txPass` — the programs of the threads;
* `pathSystem` — the system;
* `Op.UsedBy` — which thread performs which operations.

Main results:

* `uses_prog` — the programs of a thread keep to its operations;
* `prog_wp_of_opens` — what is to be verified where only entering flows is restricted;
* `Stable.own` — the flow tables and the registrations of a shard are its own.
-/

import SwiftRelay.Contract
import SwiftRelay.DatapathState

set_option autoImplicit false

namespace SwiftRelay.Datapath

open Conc

variable {env : Env}

/-- Perform an operation on the pool or a queue. -/
def queue (o : QueueOp env) : PathProg env o.Ret := Prog.perform (S := sig env) (.queue o)

/-- Perform an operation on the loop of shard `k`. -/
def loop (k : Fin env.shardCount) (o : LoopOp) : PathProg env o.Ret :=
  Prog.perform (S := sig env) (.loop k o)

/-! ### The receive thread and the session cleanup -/

/-- A datagram from a client, as far as it fits into the receive buffer, with the account of its
session and the clock. -/
structure Inbound where
  bytes : List UInt8
  bytes_le : bytes.length ≤ maxPacketSize
  src : SocketAddr
  now : Instant
  account : String

def Inbound.sid (d : Inbound) : SessionId := sessionIdOf d.bytes

/-- The shard of a session. -/
def shardOf (env : Env) (sid : SessionId) : Fin env.shardCount :=
  ⟨shardForSession sid env.shardCount, Nat.mod_lt _ env.shardCount_pos⟩

/-- Write a control frame into a buffer and queue it. -/
def sendControl (addr : SocketAddr) (sid : SessionId) (frame : List UInt8) (now : Instant) :
    PathProg env Unit := do
  match ← queue .acquire with
  | none => return ()
  | some bufIdx =>
      queue (.write bufIdx frame)
      if !(← queue (.txSend ⟨⟨addr, sid, frame, now, .control, ""⟩, bufIdx, frame.length⟩)) then
        queue (.release bufIdx)

def sendSmallControlFrame (addr : SocketAddr) (sid : SessionId) (frameType status : UInt8)
    (now : Instant) : PathProg env Unit :=
  sendControl addr sid (sessionIdBytes sid ++ [frameType, status]) now

/-- Answer a ping with the sequence number and the timestamp that it carries. -/
def sendPong (d : Inbound) (serverRxTs : UInt64) : PathProg env Unit :=
  sendControl d.src d.sid (sessionIdBytes d.sid ++ [pongFrameType] ++
    ((d.bytes.take pingFrameLen).drop (sessionIdLen + 1)) ++ sessionIdBytes serverRxTs) d.now

/-- Queue a message for the shard of a session and wake the shard.  The answer is whether the inbox
had room. -/
def notifyShard (sid : SessionId) (msg : Msg) : PathProg env Bool := do
  if ← queue (.inboxSend (shardOf env sid) msg) then
    loop (shardOf env sid) .wake
    return true
  else return false

/-- Hand a UDP packet to the shard of its session. -/
def enqueueClientPacket (packet : ClientPacket) : PathProg env Unit := do
  match ← queue .acquire with
  | none => return ()
  | some payloadIdx =>
      queue (.write payloadIdx packet.payload)
      if !(← notifyShard packet.sessionId
          (.clientPacket packet payloadIdx packet.payload.length)) then
        queue (.release payloadIdx)

/-- A datagram with an IP packet. -/
def rxPacket (d : Inbound) (stats : DestStats) : PathProg env Unit :=
  match (parseIpPacketFull env.policy (d.bytes.drop sessionIdLen) stats).1 with
  | some (.udp gameAddr payload info _) =>
      enqueueClientPacket ⟨d.sid, d.src, gameAddr, info, payload, d.now, d.account⟩
  | _ => return ()

/-- What the receive thread does when it has decided what a datagram is. -/
inductive RxTurn
  | control (addr : SocketAddr) (sid : SessionId) (frameType status : UInt8) (now : Instant)
  | ping (d : Inbound) (serverRxTs : UInt64)
  | keepalive (d : Inbound)
  | packet (d : Inbound) (stats : DestStats)

def rxPass : RxTurn → PathProg env Unit
  | .control addr sid frameType status now => sendSmallControlFrame addr sid frameType status now
  | .ping d serverRxTs => sendPong d serverRxTs
  | .keepalive d => do
      let _ ← notifyShard d.sid (.keepalive d.sid d.src)
      return ()
  | .packet d stats => rxPacket d stats

/-- The cleanup task has removed a session.  It wakes the shard even if the inbox was full. -/
def removePass (sid : SessionId) : PathProg env Unit := do
  let _ ← queue (.inboxSend (shardOf env sid) (.removeSession sid))
  loop (shardOf env sid) .wake

/-! ### A shard: sockets -/

/-- One read of a socket: whether it fails, the service class of the datagram, and the clock. -/
structure RecvTurn where
  fails : Bool
  tos : Option UInt8
  receivedAt : Instant

/-- Write the response to a datagram into a buffer and queue it.  The answer is whether the burst
goes on. -/
def carryResponse (key : FlowKey) (flow : FlowState) (turn : RecvTurn) (payload : List UInt8) :
    PathProg env Bool := do
  match ← queue .acquire with
  | none => return false
  | some bufIdx =>
      match writeResponseIpPacketWithTos (maxPacketSize - sessionIdLen) payload flow.originalInfo
          (turn.tos.getD flow.originalInfo.tos) with
      | none =>
          queue (.release bufIdx)
          return false
      | some ipPacket =>
          let frame := sessionIdBytes key.sessionId ++ ipPacket
          queue (.write bufIdx frame)
          if !(← queue (.txSend ⟨⟨flow.clientAddr, key.sessionId, frame, turn.receivedAt, .data,
              flow.opener⟩, bufIdx, frame.length⟩)) then
            queue (.release bufIdx)
          return true

/-- One datagram of a burst. -/
def flowResponse (k : Fin env.shardCount) (key : FlowKey) (flow : FlowState) (turn : RecvTurn) :
    PathProg env Bool := do
  match ← loop k (.recv key turn.fails) with
  | .wouldBlock => return false
  | .error => return false
  | .datagram payload =>
      if ← Prog.perform (S := sig env) (.leaseCurrent key.sessionId) then
        loop k (.touch key turn.receivedAt)
        carryResponse key flow turn payload
      else return false

/-- A burst of at most `n` datagrams. -/
def flowBurst (k : Fin env.shardCount) (key : FlowKey) (flow : FlowState) (turns : ℕ → RecvTurn) :
    ℕ → PathProg env Unit
  | 0 => return ()
  | n + 1 => do
      if ← flowResponse k key flow (turns n) then flowBurst k key flow turns n else return ()

/-- The event with the given token. -/
def socketEvent (k : Fin env.shardCount) (turns : ℕ → RecvTurn) (token : ℕ) :
    PathProg env Unit := do
  if token = tokenWake then return ()
  else
    match ← loop k (.flowOfToken token) with
    | none => return ()
    | some (key, flow) => flowBurst k key flow turns maxFlowRecvBurst

/-! ### A shard: the inbox -/

/-- The clock while a message is handled, and what the source limiter and the operating system say
about a new flow. -/
structure InboxTurn where
  now : Instant
  allowed : Bool
  socketCreated : Bool
  socketRegistered : Bool

/-- Add up the counters of the given shards. -/
def flowTotal : List (Fin env.shardCount) → PathProg env ℕ
  | [] => return 0
  | j :: rest => do
      let count ← loop j .countLoad
      let total ← flowTotal rest
      return count + total

/-- A flow for a client packet, with its token. -/
def newFlow (packet : ClientPacket) (socket token : ℕ) (now : Instant) : FlowState :=
  ⟨socket, packet.clientAddr, packet.originalInfo, now, none, token, packet.account⟩

def packetKey (packet : ClientPacket) : FlowKey := ⟨packet.sessionId, packet.gameAddr⟩

/-- Create a socket for the flow of a client packet, register it and enter the flow. -/
def createFlow (k : Fin env.shardCount) (turn : InboxTurn) (packet : ClientPacket) :
    PathProg env Bool := do
  if !turn.socketCreated then return false
  else
    let socket ← loop k .createSocket
    match ← loop k .allocateToken with
    | none => return false
    | some token =>
        if !turn.socketRegistered then return false
        else
          loop k (.register socket token)
          loop k (.insert (packetKey packet) (newFlow packet socket token turn.now))
          return true

/-- Open the flow of a client packet, if the caps, the rate of the source and the operating system
allow it. -/
def openFlow (k : Fin env.shardCount) (turn : InboxTurn) (packet : ClientPacket) :
    PathProg env Bool := do
  if (← flowTotal (List.finRange env.shardCount)) ≥ maxFlowsTotal then return false
  else if (← loop k (.sessionLen packet.sessionId)) ≥ maxFlowsPerSession then return false
  else if !turn.allowed then return false
  else createFlow k turn packet

/-- Send a client packet on the socket of its flow. -/
def forwardOnFlow (k : Fin env.shardCount) (turn : InboxTurn) (packet : ClientPacket)
    (payloadIdx payloadLen : ℕ) : PathProg env Unit := do
  loop k (.use (packetKey packet) packet.clientAddr packet.originalInfo turn.now)
  let bytes ← queue (.read payloadIdx payloadLen)
  loop k (.send (packetKey packet) bytes)
  queue (.release payloadIdx)

def shardClientPacket (k : Fin env.shardCount) (turn : InboxTurn) (packet : ClientPacket)
    (payloadIdx payloadLen : ℕ) : PathProg env Unit := do
  if shouldDropStaleQueuedPacket .data packet.enqueuedAt turn.now then queue (.release payloadIdx)
  else if ← loop k (.flowExists (packetKey packet)) then
    forwardOnFlow k turn packet payloadIdx payloadLen
  else if ← openFlow k turn packet then forwardOnFlow k turn packet payloadIdx payloadLen
  else queue (.release payloadIdx)

def shardMsg (k : Fin env.shardCount) (turn : InboxTurn) : Msg → PathProg env Unit
  | .clientPacket packet payloadIdx payloadLen =>
      shardClientPacket k turn packet payloadIdx payloadLen
  | .keepalive sid addr => loop k (.keepalive sid addr turn.now)
  | .removeSession sid => loop k (.removeSession sid)

def maxInboxDrainBurst : ℕ := 1024

/-- At most `n` messages of the inbox. -/
def drainInbox (k : Fin env.shardCount) (turns : ℕ → InboxTurn) : ℕ → PathProg env Unit
  | 0 => return ()
  | n + 1 => do
      match ← queue (.inboxRecv k) with
      | none => return ()
      | some msg =>
          shardMsg k (turns n) msg
          drainInbox k turns n

/-- One round of the loop: whether the wait times out and which events are delivered, what the reads
and the messages meet, and the clock if the flows are due for a cleanup. -/
structure RoundTurn where
  timedOut : Bool
  picked : List ℕ
  reads : ℕ → ℕ → RecvTurn
  messages : ℕ → InboxTurn
  cleanupAt : Option Instant

/-- The events of a round. -/
def socketEvents (k : Fin env.shardCount) (reads : ℕ → ℕ → RecvTurn) :
    List ℕ → PathProg env Unit
  | [] => return ()
  | token :: tokens => do
      socketEvent k (reads token) token
      socketEvents k reads tokens

def cleanupFlows (k : Fin env.shardCount) (now : Instant) : PathProg env Unit := do
  loop k (.cleanup now)
  loop k .storeCount

def shardRound (k : Fin env.shardCount) (turn : RoundTurn) : PathProg env Unit := do
  let tokens ← loop k (.poll turn.timedOut turn.picked)
  socketEvents k turn.reads tokens
  drainInbox k turn.messages maxInboxDrainBurst
  match turn.cleanupAt with
  | none => return ()
  | some now => cleanupFlows k now

/-! ### The transmit thread -/

/-- The clock while a frame is sent, where the session may be reached, and the verdict of the
account budgets. -/
structure SendTurn where
  now : Instant
  addr : Option SocketAddr
  withinBudget : Bool

def sendTxPacket (turn : SendTurn) (frame : QueuedFrame) : PathProg env Unit := do
  if shouldDropStaleQueuedPacket frame.packet.kind frame.packet.enqueuedAt turn.now then
    queue (.release frame.bufIdx)
  else
    match frame.packet.kind, turn.addr with
    | .data, none => queue (.release frame.bufIdx)
    | .data, some addr =>
        let bytes ← queue (.read frame.bufIdx frame.len)
        if turn.withinBudget then Prog.perform (S := sig env) (.sendTo addr bytes)
        queue (.release frame.bufIdx)
    | .control, _ =>
        let bytes ← queue (.read frame.bufIdx frame.len)
        Prog.perform (S := sig env) (.sendTo frame.packet.addr bytes)
        queue (.release frame.bufIdx)

def txPass (turn : SendTurn) : PathProg env Unit := do
  let frame ← queue .txRecv
  sendTxPacket turn frame

/-! ### The system -/

inductive Act (env : Env)
  | rx (turn : RxTurn)
  | remove (sid : SessionId)
  | round (k : Fin env.shardCount) (turn : RoundTurn)
  | tx (turn : SendTurn)
  | arrive (k : Fin env.shardCount) (socket : ℕ) (datagram : List UInt8)
  | setLease (sid : SessionId) (current : Bool)

def Act.tid : Act env → Tid env
  | .rx _ => .rx
  | .remove _ => .cleanup
  | .round k _ => .shard k
  | .tx _ => .tx
  | .arrive .. => .network
  | .setLease .. => .network

def Act.prog : Act env → PathProg env Unit
  | .rx turn => rxPass turn
  | .remove sid => removePass sid
  | .round k turn => shardRound k turn
  | .tx turn => txPass turn
  | .arrive k socket datagram => loop k (.arrive socket datagram)
  | .setLease sid current => Prog.perform (S := sig env) (.setLease sid current)

abbrev pathSystem (env : Env) : System (sig env) where
  State := State env
  Tid := Tid env
  Act := Act env
  exec := exec
  tidOf := Act.tid
  prog := Act.prog

instance : DecidableEq (pathSystem env).Tid := inferInstanceAs (DecidableEq (Tid env))

abbrev World (env : Env) := (pathSystem env).World

abbrev Event (env : Env) := (pathSystem env).Event

abbrev Config (env : Env) := (pathSystem env).Config

/-- Nothing sent and nothing received. -/
abbrev start (env : Env) : Config env := (pathSystem env).initial .new

/-! ### Who does what -/

/-- The threads that perform an operation on the pool or a queue. -/
def QueueOp.UsedBy (t : Tid env) : QueueOp env → Prop
  | .acquire => t = .rx ∨ ∃ k, t = .shard k
  | .release _ => t = .rx ∨ t = .tx ∨ ∃ k, t = .shard k
  | .write .. => t = .rx ∨ ∃ k, t = .shard k
  | .read .. => t = .tx ∨ ∃ k, t = .shard k
  | .inboxSend .. => t = .rx ∨ t = .cleanup
  | .inboxRecv k => t = .shard k
  | .txSend _ => t = .rx ∨ ∃ k, t = .shard k
  | .txRecv => t = .tx

/-- The threads that perform an operation on the loop of shard `k`.  The others wake it, deliver
datagrams and read its counter; the rest is its own. -/
def LoopOp.UsedBy (k : Fin env.shardCount) (t : Tid env) : LoopOp → Prop
  | .wake => t = .rx ∨ t = .cleanup
  | .arrive .. => t = .network
  | .countLoad => ∃ j, t = .shard j
  | _ => t = .shard k

def Op.UsedBy (t : Tid env) : Op env → Prop
  | .queue o => o.UsedBy t
  | .loop k o => o.UsedBy k t
  | .leaseCurrent _ => ∃ k, t = .shard k
  | .setLease .. => t = .network
  | .sendTo .. => t = .tx

/-- The operations that write a frame into a buffer and queue it. -/
inductive FrameOp : Op env → Prop
  | acquire : FrameOp (.queue .acquire)
  | release (idx : ℕ) : FrameOp (.queue (.release idx))
  | write (idx : ℕ) (bytes : List UInt8) : FrameOp (.queue (.write idx bytes))
  | txSend (frame : QueuedFrame) : FrameOp (.queue (.txSend frame))

/-- The operations of shard `k` about the events of its sockets. -/
inductive SocketOp (k : Fin env.shardCount) : Op env → Prop
  | flowOfToken (token : ℕ) : SocketOp k (.loop k (.flowOfToken token))
  | recv (key : FlowKey) (fails : Bool) : SocketOp k (.loop k (.recv key fails))
  | leaseCurrent (sid : SessionId) : SocketOp k (.leaseCurrent sid)
  | touch (key : FlowKey) (now : Instant) : SocketOp k (.loop k (.touch key now))
  | frame {o : Op env} (h : FrameOp o) : SocketOp k o

/-- The operations of shard `k` that open a flow. -/
inductive OpenOp (k : Fin env.shardCount) : Op env → Prop
  | countLoad (j : Fin env.shardCount) : OpenOp k (.loop j .countLoad)
  | sessionLen (sid : SessionId) : OpenOp k (.loop k (.sessionLen sid))
  | createSocket : OpenOp k (.loop k .createSocket)
  | allocateToken : OpenOp k (.loop k .allocateToken)
  | register (socket token : ℕ) : OpenOp k (.loop k (.register socket token))
  | insert (key : FlowKey) (flow : FlowState) : OpenOp k (.loop k (.insert key flow))

/-- The operations of shard `k` that send a packet on. -/
inductive ForwardOp (k : Fin env.shardCount) : Op env → Prop
  | use (key : FlowKey) (addr : SocketAddr) (info : OriginalPacketInfo) (now : Instant) :
      ForwardOp k (.loop k (.use key addr info now))
  | read (idx len : ℕ) : ForwardOp k (.queue (.read idx len))
  | send (key : FlowKey) (bytes : List UInt8) : ForwardOp k (.loop k (.send key bytes))
  | release (idx : ℕ) : ForwardOp k (.queue (.release idx))

/-- The operations of shard `k` about a message. -/
inductive MessageOp (k : Fin env.shardCount) : Op env → Prop
  | flowExists (key : FlowKey) : MessageOp k (.loop k (.flowExists key))
  | opening {o : Op env} (h : OpenOp k o) : MessageOp k o
  | forward {o : Op env} (h : ForwardOp k o) : MessageOp k o
  | keepalive (sid : SessionId) (addr : SocketAddr) (now : Instant) :
      MessageOp k (.loop k (.keepalive sid addr now))
  | removeSession (sid : SessionId) : MessageOp k (.loop k (.removeSession sid))

theorem FrameOp.usedBy {t : Tid env} (ht : t = .rx ∨ ∃ k, t = .shard k) {o : Op env}
    (h : FrameOp o) : o.UsedBy t := by
  cases h with
  | release idx => exact ht.imp_right .inr
  | _ => exact ht

theorem SocketOp.usedBy {k : Fin env.shardCount} {o : Op env} (h : SocketOp k o) :
    o.UsedBy (.shard k) := by
  cases h with
  | leaseCurrent sid => exact ⟨k, rfl⟩
  | frame h => exact h.usedBy (.inr ⟨k, rfl⟩)
  | _ => rfl

theorem MessageOp.usedBy {k : Fin env.shardCount} {o : Op env} (h : MessageOp k o) :
    o.UsedBy (.shard k) := by
  cases h with
  | opening h =>
      cases h with
      | countLoad j => exact ⟨k, rfl⟩
      | _ => rfl
  | forward h =>
      cases h with
      | read idx len => exact .inr ⟨k, rfl⟩
      | release idx => exact .inr (.inr ⟨k, rfl⟩)
      | _ => rfl
  | _ => rfl

section Uses

variable {φ : Op env → Prop}

@[simp] theorem uses_queue {o : QueueOp env} : (queue o).Uses φ ↔ φ (.queue o) :=
  Prog.uses_perform (S := sig env) (o := .queue o)

@[simp] theorem uses_loop {k : Fin env.shardCount} {o : LoopOp} :
    (loop k o).Uses φ ↔ φ (.loop k o) :=
  Prog.uses_perform (S := sig env) (o := .loop k o)

end Uses

variable {k : Fin env.shardCount}

theorem uses_sendControl (addr : SocketAddr) (sid : SessionId) (frame : List UInt8)
    (now : Instant) : (sendControl addr sid frame now : PathProg env Unit).Uses FrameOp := by
  refine Prog.uses_bind (uses_queue.2 .acquire) fun r => ?_
  cases r with
  | none => trivial
  | some idx =>
      refine Prog.uses_bind (uses_queue.2 (.write _ _)) fun _ => ?_
      refine Prog.uses_bind (uses_queue.2 (.txSend _)) fun sent => ?_
      cases sent with
      | true => trivial
      | false => exact uses_queue.2 (.release _)

theorem uses_notifyShard (sid : SessionId) (msg : Msg) :
    (notifyShard sid msg : PathProg env Bool).Uses (Op.UsedBy .rx) := by
  refine Prog.uses_bind (uses_queue.2 (.inl rfl)) fun sent => ?_
  cases sent with
  | true => exact Prog.uses_bind (uses_loop.2 (.inl rfl)) fun _ => trivial
  | false => trivial

theorem uses_rxPass (turn : RxTurn) :
    (rxPass turn : PathProg env Unit).Uses (Op.UsedBy .rx) := by
  have hframe : ∀ o : Op env, FrameOp o → o.UsedBy .rx := fun _ h => h.usedBy (.inl rfl)
  cases turn with
  | control addr sid frameType status now => exact (uses_sendControl ..).mono hframe
  | ping d serverRxTs => exact (uses_sendControl ..).mono hframe
  | keepalive d => exact Prog.uses_bind (uses_notifyShard ..) fun _ => trivial
  | packet d stats =>
      simp only [rxPass, rxPacket]
      split
      · refine Prog.uses_bind (uses_queue.2 (.inl rfl)) fun r => ?_
        cases r with
        | none => trivial
        | some idx =>
            refine Prog.uses_bind (uses_queue.2 (.inl rfl)) fun _ => ?_
            refine Prog.uses_bind (uses_notifyShard ..) fun sent => ?_
            cases sent with
            | true => trivial
            | false => exact uses_queue.2 (.inl rfl)
      · trivial

theorem uses_carryResponse (key : FlowKey) (flow : FlowState) (turn : RecvTurn)
    (payload : List UInt8) :
    (carryResponse key flow turn payload : PathProg env Bool).Uses FrameOp := by
  refine Prog.uses_bind (uses_queue.2 .acquire) fun r => ?_
  cases r with
  | none => trivial
  | some idx =>
      dsimp only
      split
      · exact Prog.uses_bind (uses_queue.2 (.release _)) fun _ => trivial
      · refine Prog.uses_bind (uses_queue.2 (.write _ _)) fun _ => ?_
        refine Prog.uses_bind (uses_queue.2 (.txSend _)) fun sent => ?_
        cases sent with
        | true => trivial
        | false => exact Prog.uses_bind (uses_queue.2 (.release _)) fun _ => trivial

theorem uses_flowResponse (key : FlowKey) (flow : FlowState) (turn : RecvTurn) :
    (flowResponse k key flow turn).Uses (SocketOp k) := by
  refine Prog.uses_bind (uses_loop.2 (.recv _ _)) fun r => ?_
  cases r with
  | wouldBlock => trivial
  | error => trivial
  | datagram payload =>
      refine Prog.uses_bind (Prog.uses_perform.2 (.leaseCurrent _)) fun current => ?_
      cases current with
      | true =>
          exact Prog.uses_bind (uses_loop.2 (.touch _ _)) fun _ =>
            (uses_carryResponse ..).mono fun _ => .frame
      | false => trivial

theorem uses_flowBurst (key : FlowKey) (flow : FlowState) (turns : ℕ → RecvTurn) (n : ℕ) :
    (flowBurst k key flow turns n).Uses (SocketOp k) := by
  induction n with
  | zero => trivial
  | succ n ih =>
      refine Prog.uses_bind (uses_flowResponse ..) fun more => ?_
      cases more with
      | true => exact ih
      | false => trivial

theorem uses_socketEvents (reads : ℕ → ℕ → RecvTurn) (tokens : List ℕ) :
    (socketEvents k reads tokens).Uses (SocketOp k) := by
  induction tokens with
  | nil => trivial
  | cons token tokens ih =>
      refine Prog.uses_bind ?_ fun _ => ih
      unfold socketEvent
      split
      · trivial
      · refine Prog.uses_bind (uses_loop.2 (.flowOfToken _)) fun r => ?_
        cases r with
        | none => trivial
        | some x => exact uses_flowBurst ..

theorem uses_flowTotal (shards : List (Fin env.shardCount)) :
    (flowTotal shards).Uses fun o : Op env => ∃ j, o = .loop j .countLoad := by
  induction shards with
  | nil => trivial
  | cons j shards ih =>
      exact Prog.uses_bind (uses_loop.2 ⟨j, rfl⟩) fun _ => Prog.uses_bind ih fun _ => trivial

theorem uses_createFlow (turn : InboxTurn) (packet : ClientPacket) :
    (createFlow k turn packet).Uses (OpenOp k) := by
  refine .ite trivial ?_
  refine Prog.uses_bind (uses_loop.2 .createSocket) fun socket => ?_
  refine Prog.uses_bind (uses_loop.2 .allocateToken) fun token => ?_
  cases token with
  | none => trivial
  | some token =>
      refine .ite trivial ?_
      refine Prog.uses_bind (uses_loop.2 (.register _ _)) fun _ => ?_
      exact Prog.uses_bind (uses_loop.2 (.insert _ _)) fun _ => trivial

theorem uses_openFlow (turn : InboxTurn) (packet : ClientPacket) :
    (openFlow k turn packet).Uses (OpenOp k) := by
  have htotal : (flowTotal (List.finRange env.shardCount)).Uses (OpenOp k) := by
    refine (uses_flowTotal _).mono fun o ho => ?_
    obtain ⟨j, rfl⟩ := ho
    exact .countLoad j
  refine Prog.uses_bind htotal fun total => ?_
  refine .ite trivial ?_
  refine Prog.uses_bind (uses_loop.2 (.sessionLen _)) fun len => ?_
  refine .ite trivial ?_
  exact .ite trivial (uses_createFlow ..)

theorem uses_forwardOnFlow (turn : InboxTurn) (packet : ClientPacket)
    (payloadIdx payloadLen : ℕ) :
    (forwardOnFlow k turn packet payloadIdx payloadLen).Uses (ForwardOp k) :=
  Prog.uses_bind (uses_loop.2 (.use _ _ _ _)) fun _ =>
    Prog.uses_bind (uses_queue.2 (.read _ _)) fun _ =>
      Prog.uses_bind (uses_loop.2 (.send _ _)) fun _ => uses_queue.2 (.release _)

theorem uses_shardMsg (turn : InboxTurn) (msg : Msg) :
    (shardMsg k turn msg).Uses (MessageOp k) := by
  cases msg with
  | clientPacket packet idx len =>
      have hforward := (uses_forwardOnFlow turn packet idx len).mono fun _ =>
        MessageOp.forward (k := k)
      have hrelease : (queue (.release idx)).Uses (MessageOp k) :=
        uses_queue.2 (.forward (.release idx))
      refine .ite hrelease ?_
      refine Prog.uses_bind (uses_loop.2 (.flowExists _)) fun found => ?_
      refine .ite hforward ?_
      refine Prog.uses_bind ((uses_openFlow turn packet).mono fun _ => .opening) fun opened => ?_
      exact .ite hforward hrelease
  | keepalive sid addr => exact uses_loop.2 (.keepalive _ _ _)
  | removeSession sid => exact uses_loop.2 (.removeSession _)

theorem uses_drainInbox (turns : ℕ → InboxTurn) (n : ℕ) :
    (drainInbox k turns n).Uses (Op.UsedBy (.shard k)) := by
  induction n with
  | zero => trivial
  | succ n ih =>
      refine Prog.uses_bind (uses_queue.2 rfl) fun r => ?_
      cases r with
      | none => trivial
      | some msg =>
          exact Prog.uses_bind ((uses_shardMsg _ _).mono fun _ => MessageOp.usedBy) fun _ => ih

theorem uses_shardRound (turn : RoundTurn) :
    (shardRound k turn).Uses (Op.UsedBy (.shard k)) := by
  refine Prog.uses_bind (uses_loop.2 rfl) fun tokens => ?_
  refine Prog.uses_bind ((uses_socketEvents _ _).mono fun _ => SocketOp.usedBy) fun _ => ?_
  refine Prog.uses_bind (uses_drainInbox _ _) fun _ => ?_
  cases turn.cleanupAt with
  | none => trivial
  | some now => exact Prog.uses_bind (uses_loop.2 rfl) fun _ => uses_loop.2 rfl

theorem uses_txPass (turn : SendTurn) :
    (txPass turn : PathProg env Unit).Uses (Op.UsedBy .tx) := by
  refine Prog.uses_bind (uses_queue.2 rfl) fun frame => ?_
  have hrelease : (queue (.release frame.bufIdx) : PathProg env Unit).Uses (Op.UsedBy .tx) :=
    uses_queue.2 (.inr (.inl rfl))
  refine .ite hrelease ?_
  split
  · exact hrelease
  · refine Prog.uses_bind (uses_queue.2 (.inl rfl)) fun bytes => ?_
    refine .ite ?_ hrelease
    exact Prog.uses_bind (Prog.uses_perform.2 rfl) fun _ => hrelease
  · exact Prog.uses_bind (uses_queue.2 (.inl rfl)) fun bytes =>
      Prog.uses_bind (Prog.uses_perform.2 rfl) fun _ => hrelease

theorem uses_prog (a : Act env) : a.prog.Uses (Op.UsedBy a.tid) := by
  cases a with
  | rx turn => exact uses_rxPass turn
  | remove sid =>
      exact Prog.uses_bind (uses_queue.2 (.inr rfl)) fun _ => uses_loop.2 (.inr rfl)
  | round k turn => exact uses_shardRound turn
  | tx turn => exact uses_txPass turn
  | arrive k socket datagram => exact uses_loop.2 rfl
  | setLease sid current => exact Prog.uses_perform.2 rfl

/-! ### What belongs to a shard alone -/

/-- What the others do to the loop of a shard: they wake it, or a datagram arrives. -/
theorem execLoop_others {t : Tid env} {o : LoopOp} {r : o.Ret} {l l' : LoopState}
    (hused : o.UsedBy k t) (hne : t ≠ .shard k) (h : execLoop o l = some (r, l')) :
    l' = l ∨ l' = { l with wakePending := true } ∨
      ∃ s d, l' = l.setSocket s
        ⟨(l.sockets s).token, (l.sockets s).token.isSome, (l.sockets s).queue ++ [d]⟩ := by
  cases o with
  | wake => cases h; exact .inr (.inl rfl)
  | arrive s d => cases h; exact .inr (.inr ⟨s, d, rfl⟩)
  | countLoad => cases h; exact .inl rfl
  | _ => exact absurd hused hne

/-- The part of the loop state that only the shard itself changes: the tables, and which sockets are
registered under which tokens. -/
structure OwnState where
  tables : FlowTables
  nextSocket : ℕ
  tokens : ℕ → Option ℕ

def LoopState.own (l : LoopState) : OwnState :=
  ⟨l.tables, l.nextSocket, fun s => (l.sockets s).token⟩

theorem LoopState.setSocket_own (l : LoopState) (s : ℕ) (ready : Bool)
    (queue : List (List UInt8)) :
    (l.setSocket s ⟨(l.sockets s).token, ready, queue⟩).own = l.own := by
  have htokens : (fun i => (Function.update l.sockets s
      ⟨(l.sockets s).token, ready, queue⟩ i).token) = fun i => (l.sockets i).token := by
    funext i
    by_cases hi : i = s
    · rw [hi, Function.update_self]
    · rw [Function.update_of_ne hi]
  simp only [own, setSocket, htokens]

section Stable

variable {C : Contract (pathSystem env)} (hmay : ∀ t o, C.may t o → Op.UsedBy t o)

include hmay

/-- What a step of the others does to the loop of a shard. -/
theorem Stable.others {w w' : World env} (hstep : C.Env (.shard k) w w') :
    w'.st.loops k = w.st.loops k ∨
      w'.st.loops k = { w.st.loops k with wakePending := true } ∨
      ∃ s d, w'.st.loops k = (w.st.loops k).setSocket s
        ⟨((w.st.loops k).sockets s).token, ((w.st.loops k).sockets s).token.isSome,
          ((w.st.loops k).sockets s).queue ++ [d]⟩ := by
  cases hstep with
  | start => exact .inl rfl
  | exec u o r st hne hinv hused hpre hexec =>
      rw [System.World.after_st]
      obtain heq | ⟨o', r', rfl, hloop⟩ := exec_loops hexec k
      · exact .inl heq
      · exact execLoop_others (hmay _ _ hused) hne hloop

theorem Stable.own (P : OwnState → Prop) :
    C.Stable (.shard k) fun w => P (w.st.loops k).own := by
  intro w w' hstep hw
  obtain heq | heq | ⟨s, d, heq⟩ := Stable.others hmay hstep
  · rw [heq]
    exact hw
  · rw [heq]
    exact hw
  · rw [heq, LoopState.setSocket_own]
    exact hw

end Stable

/-! ### Rules for the operations -/

section Rules

variable {C : Contract (pathSystem env)} {t : Tid env} {α : Type} {Q : α → World env → Prop}
  {w : World env}

/-- An operation on the loop of shard `j`, up to which a stable assertion is carried. -/
theorem wp_loop {j : Fin env.shardCount} {o : LoopOp} {f : o.Ret → PathProg env α}
    (P : World env → Prop) (hP : C.Stable t P) (hw : P w)
    (hpre : ∀ w', C.inv w' → P w' → C.pre t (.loop j o) w')
    (hnext : ∀ (w' : World env) (r : o.Ret) (l : LoopState), C.inv w' → P w' →
      execLoop o (w'.st.loops j) = some (r, l) →
      C.cond w' (.exec t (.loop j o) r w'.st (w'.st.setLoop j l)) →
      C.wp t (f r) Q (w'.after t (.loop j o) r (w'.st.setLoop j l))) :
    C.wp t (loop j o >>= f) Q w := by
  refine Contract.wp_op P hP hw hpre fun w' r st hinv hw' hexec hcond => ?_
  obtain ⟨l, hl, rfl⟩ := exec_loop (t := t) hexec
  exact hnext w' r l hinv hw' hl hcond

theorem wp_queue {o : QueueOp env} {f : o.Ret → PathProg env α}
    (P : World env → Prop) (hP : C.Stable t P) (hw : P w)
    (hpre : ∀ w', C.inv w' → P w' → C.pre t (.queue o) w')
    (hnext : ∀ (w' : World env) (r : o.Ret) (q : Queues env), C.inv w' → P w' →
      execQueue t o w'.st.queues = some (r, q) →
      C.cond w' (.exec t (.queue o) r w'.st (w'.st.setQueues q)) →
      C.wp t (f r) Q (w'.after t (.queue o) r (w'.st.setQueues q))) :
    C.wp t (queue o >>= f) Q w := by
  refine Contract.wp_op P hP hw hpre fun w' r st hinv hw' hexec hcond => ?_
  obtain ⟨q, hq, rfl⟩ := exec_queue (t := t) hexec
  exact hnext w' r q hinv hw' hq hcond

end Rules

/-! ### Contracts about entering flows -/

/-- An operation that registers a socket or enters a flow. -/
def LoopOp.enters : LoopOp → Bool
  | .register .. => true
  | .insert .. => true
  | _ => false

/-- The contract restricts nothing but the operations that enter flows. -/
def OnEntries (C : Contract (pathSystem env)) : Prop :=
  ∀ t o w, (∀ k o', o = .loop k o' → o'.enters = false) → C.pre t o w

/-- Shard `k` opens flows correctly, right after it has looked one up and found none. -/
def OpensWell (C : Contract (pathSystem env)) (k : Fin env.shardCount) : Prop :=
  ∀ turn packet (w : World env) l,
    execLoop (.flowExists (packetKey packet)) (w.st.loops k) = some (false, l) →
    C.wp (.shard k) (openFlow k turn packet) (fun _ _ => True)
      (w.after (.shard k) (.loop k (.flowExists (packetKey packet))) false (w.st.setLoop k l))

section Entries

variable {C : Contract (pathSystem env)} (hC : OnEntries C)

include hC

theorem quiet_wp {t : Tid env} {α : Type} {φ : Op env → Prop} {p : PathProg env α}
    (hp : p.Uses φ) (hφ : ∀ k o, φ (.loop k o) → o.enters = false) (w : World env) :
    C.wp t p (fun _ _ => True) w := by
  refine Contract.wp_of_permitted (hp.mono fun o ho w' _ => hC t o w' fun j o' heq => ?_)
  subst heq
  exact hφ j o' ho

theorem shardClientPacket_wp (hopen : OpensWell C k) (turn : InboxTurn) (packet : ClientPacket)
    (idx len : ℕ) (w : World env) :
    C.wp (.shard k) (shardClientPacket k turn packet idx len) (fun _ _ => True) w := by
  have hrelease (w : World env) : C.wp (.shard k) (queue (.release idx)) (fun _ _ => True) w :=
    quiet_wp hC (φ := (· = .queue (.release idx))) (uses_queue.2 rfl) (by simp) w
  have hforward (w : World env) :
      C.wp (.shard k) (forwardOnFlow k turn packet idx len) (fun _ _ => True) w :=
    quiet_wp hC (uses_forwardOnFlow ..) (fun _ _ h => by cases h <;> rfl) w
  unfold shardClientPacket
  split
  · exact hrelease w
  refine wp_loop _ .true trivial (fun w' _ _ => hC _ _ w' fun _ _ heq => by cases heq; rfl)
    fun w' found l _ _ hl _ => ?_
  cases found with
  | true => exact hforward _
  | false =>
      refine Contract.wp_seq (hopen turn packet w' l hl) fun opened w _ => ?_
      split
      · exact hforward w
      · exact hrelease w

theorem drainInbox_wp (hopen : OpensWell C k) (turns : ℕ → InboxTurn) (n : ℕ) (w : World env) :
    C.wp (.shard k) (drainInbox k turns n) (fun _ _ => True) w := by
  have hloop (o : LoopOp) (ho : o.enters = false) (w : World env) :
      C.wp (.shard k) (loop k o) (fun _ _ => True) w :=
    quiet_wp hC (φ := (· = .loop k o)) (uses_loop.2 rfl) (fun _ _ heq => by cases heq; exact ho) w
  induction n generalizing w with
  | zero => trivial
  | succ n ih =>
      refine wp_queue _ .true trivial (fun w' _ _ => hC _ _ w' fun _ _ heq => by cases heq)
        fun w' r q _ _ _ _ => ?_
      cases r with
      | none => trivial
      | some msg =>
          refine Contract.wp_seq (R := fun _ _ => True) ?_ fun _ w _ => ih w
          cases msg with
          | clientPacket packet idx len => exact shardClientPacket_wp hC hopen _ packet idx len _
          | keepalive sid addr => exact hloop _ rfl _
          | removeSession sid => exact hloop _ rfl _

/-- Flows are entered where they are opened, so this is all that there is to verify. -/
theorem prog_wp_of_opens (hopen : ∀ k, OpensWell C k) (a : Act env) (w : World env) :
    C.wp a.tid a.prog (fun _ _ => True) w := by
  by_cases hround : ∃ k turn, a = .round k turn
  · obtain ⟨k, turn, rfl⟩ := hround
    refine wp_loop _ .true trivial (fun w' _ _ => hC _ _ w' fun _ _ heq => by cases heq; rfl)
      fun w' tokens l _ _ _ _ => ?_
    refine Contract.wp_seq (quiet_wp hC (uses_socketEvents turn.reads tokens) ?_ _) fun _ w _ => ?_
    · rintro j o (_ | _ | _ | _ | ⟨⟨⟩⟩) <;> rfl
    refine Contract.wp_seq (drainInbox_wp hC (hopen k) _ _ w) fun _ w _ => ?_
    cases turn.cleanupAt with
    | none => trivial
    | some now =>
        refine quiet_wp hC (φ := fun o => o = .loop k (.cleanup now) ∨ o = .loop k .storeCount)
          ?_ (fun j o h => by rcases h with h | h <;> cases h <;> rfl) w
        exact Prog.uses_bind (uses_loop.2 (.inl rfl)) fun _ => uses_loop.2 (.inr rfl)
  · refine quiet_wp hC (uses_prog a) (fun j o h => ?_) w
    -- only the shard itself enters flows
    have hne : a.tid ≠ .shard j := fun heq => by
      cases a with
      | round i turn => exact hround ⟨i, turn, rfl⟩
      | _ => cases heq
    cases o with
    | register s token => exact absurd h hne
    | insert key flow => exact absurd h hne
    | _ => rfl

end Entries

/-! ### Running alone -/

section Run

variable {t : Tid env} {α : Type} {s : State env}

theorem run_queue {o : QueueOp env} {f : o.Ret → PathProg env α} :
    (queue o >>= f).run (pathSystem env) t s =
      (exec t (.queue o) s).bind fun x => (f x.1).run (pathSystem env) t x.2 := rfl

theorem run_loop {k : Fin env.shardCount} {o : LoopOp} {f : o.Ret → PathProg env α} :
    (loop k o >>= f).run (pathSystem env) t s =
      (exec t (.loop k o) s).bind fun x => (f x.1).run (pathSystem env) t x.2 := rfl

end Run

/-! ### A datapath with one shard -/

/-- One shard, with the smallest pool and the usual queues. -/
def sampleEnv : Env where
  shardCount := 1
  shardCount_pos := Nat.one_pos
  poolSlots := 512
  shardQueueCap := 4096
  txQueueCap := 8192
  policy := ⟨.off, ⟨[]⟩, ⟨[]⟩, [], 16⟩

def onlyShard : Fin sampleEnv.shardCount := ⟨0, Nat.one_pos⟩

def sampleSource : SocketAddr := ⟨⟨198, 51, 100, 7⟩, 40000⟩

/-- A UDP packet of four bytes to one of the ports of a game server. -/
def sampleIpPacket (port : UInt8) : List UInt8 :=
  [0x45, 0, 0, 32, 0, 0, 0, 0, 64, 17, 0, 0, 10, 0, 0, 1, 128, 116, 5, 33,
    0xC3, 0x50, 0xC0, port, 0, 12, 0, 0, 1, 2, 3, 4]

/-- The flow of the first session's packets to the first of these ports. -/
def sampleKey : FlowKey := ⟨1, ⟨⟨128, 116, 5, 33⟩, 49152⟩⟩

def sampleInbound (sid : SessionId) (port : UInt8) : Inbound where
  bytes := sessionIdBytes sid ++ sampleIpPacket port
  bytes_le := by simp [sessionIdBytes_length, sampleIpPacket, sessionIdLen, maxPacketSize]
  src := sampleSource
  now := 0
  account := ""

/-- A round in which nothing is refused and no cleanup is due. -/
def sampleRound (picked : List ℕ) : RoundTurn where
  timedOut := false
  picked := picked
  reads := fun _ _ => ⟨false, none, 0⟩
  messages := fun _ => ⟨0, true, true, true⟩
  cleanupAt := none

abbrev sampleStart : Config sampleEnv := start sampleEnv

theorem reaches_sampleStart (ok : System.Test (pathSystem sampleEnv)) :
    System.Reaches ok sampleStart (sampleStart.st, sampleStart.ctl) :=
  ⟨sampleStart, Relation.ReflTransGen.refl, rfl, rfl⟩

end SwiftRelay.Datapath
