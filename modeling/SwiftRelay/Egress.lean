/-
**Flows and return traffic.**

A shard thread of the second datapath reacts to messages in its inbox and to datagrams on the
sockets of its flows; a flow of the first datapath has a task that does both.  What comes back from
a game server is wrapped into a response packet and queued, with the client endpoint that the flow
recorded.  Three senders empty the queues: the transmit thread, the response task of the first
datapath and the response thread of the TUN device.  A sender does not use the recorded endpoint of
a data frame: it asks the session map for the endpoint of the session at that time.

Main definitions:

* `Arrival`, `InboxTurn`, `SendTurn` — what a thread is woken with: clock readings and the outcomes
  that are decided outside of the relay;
* `shardEvent`, `shardInbox`, `shardCleanup` — a shard thread;
* `flowTaskSend`, `flowTaskReceive`, `flowTaskIdle`, `flowTaskEnd` — the task of a flow;
* `forwardData`, `sendTxPacket`, `txPass`, `v1ResponsePass`, `tunResponsePass` — the senders.
-/

import SwiftRelay.Ingress

set_option autoImplicit false

namespace SwiftRelay

open Conc

/-- A datagram on the socket of a flow, with the service class it came with, the clock readings
while it is handled, and whether the buffer pool has a buffer for it. -/
structure Arrival where
  payload : List UInt8
  responseTos : Option UInt8
  receivedAt : Instant
  nowUnix : UInt64
  laterUnix : UInt64
  poolGrants : Bool

/-! ### Shard threads: sockets -/

def maxFlowRecvBurst : ℕ := 64

/-- Queue the response to a datagram of a flow whose session may still receive.  The answer is
whether the burst goes on. -/
def carryResponse (k : ℕ) (key : FlowKey) (flow : FlowState) (a : Arrival) : RelayProg Bool := do
  v2 (.flowTouch k key a.receivedAt)
  core (.refresh key.sessionId a.receivedAt a.laterUnix)
  if !a.poolGrants then
    dropOut .pool
    return false
  match writeResponseIpPacketWithTos (maxPacketSize - sessionIdLen) a.payload flow.originalInfo
      (a.responseTos.getD flow.originalInfo.tos) with
  | none => return false
  | some ipPacket =>
      let frame := sessionIdBytes key.sessionId ++ ipPacket
      if !(← v2 (.txSend ⟨flow.clientAddr, key.sessionId, frame, a.receivedAt, .data,
          flow.opener⟩)) then
        dropOut .txQueue
      return true

/-- One datagram of a burst.  Whether the session may still receive is decided before the datagram
counts as activity. -/
def flowResponse (k : ℕ) (key : FlowKey) (a : Arrival) : RelayProg Bool := do
  match ← v2 (.flowReceive k key a.payload) with
  | none => return false
  | some flow =>
      let session ← core (.sessionGet key.sessionId)
      if session.any fun e => sessionLeaseIsCurrent e a.nowUnix then carryResponse k key flow a
      else return false

def flowBurst (k : ℕ) (key : FlowKey) : List Arrival → RelayProg Unit
  | [] => return ()
  | a :: arrivals => do
      if ← flowResponse k key a then flowBurst k key arrivals else return ()

/-- Datagrams on the socket with the given token. -/
def shardEvent (k : ℕ) (token : ℕ) (arrivals : List Arrival) : RelayProg Unit := do
  match ← v2 (.flowOfToken k token) with
  | none => return ()
  | some (key, _) => flowBurst k key (arrivals.take maxFlowRecvBurst)

/-! ### Shard threads: the inbox -/

/-- The clock while a message is handled, who wins a `compare_exchange`, and whether a socket can be
created and registered. -/
structure InboxTurn where
  now : Instant
  casWon : Bool
  socketCreated : Bool
  socketRegistered : Bool

/-- Open the flow of a client packet, if the caps, the rate of the source and the operating system
allow it. -/
def openFlow (k : ℕ) (m : InboxTurn) (packet : ClientPacket) : RelayProg Bool := do
  if (← v2 .flowTotal) ≥ maxFlowsTotal then
    dropIn .capacity
    return false
  if (← v2 (.sessionFlowCount k packet.sessionId)) ≥ maxFlowsPerSession then
    dropIn .capacity
    return false
  if !(← core (.sourceAllow packet.clientAddr.ip .newFlow m.now m.casWon)) then
    dropIn .rateLimit
    return false
  if !m.socketCreated then
    dropIn .flowCreate
    return false
  match ← v2 (.allocateToken k) with
  | none =>
      dropIn .flowCreate
      return false
  | some token =>
      if !m.socketRegistered then
        dropIn .flowCreate
        return false
      v2 (.flowOpen k ⟨packet.sessionId, packet.gameAddr⟩ token packet.clientAddr
        packet.originalInfo m.now packet.account)
      return true

/-- Send a client packet on the socket of its flow. -/
def forwardOnFlow (k : ℕ) (m : InboxTurn) (packet : ClientPacket) : RelayProg Unit :=
  v2 (.flowForward k ⟨packet.sessionId, packet.gameAddr⟩ packet.clientAddr packet.originalInfo
    packet.payload m.now)

def shardClientPacket (k : ℕ) (m : InboxTurn) (packet : ClientPacket) : RelayProg Unit := do
  if shouldDropStaleQueuedPacket .data packet.enqueuedAt m.now then
    dropIn .staleQueue
    v2 (.slotRelease k)
  else if ← v2 (.flowExists k ⟨packet.sessionId, packet.gameAddr⟩) then forwardOnFlow k m packet
  else if ← openFlow k m packet then forwardOnFlow k m packet
  else v2 (.slotRelease k)

/-- One message of the inbox. -/
def shardInbox (k : ℕ) (m : InboxTurn) : RelayProg Unit := do
  match ← v2 (.shardRecv k) with
  | none => return ()
  | some (.clientPacket packet) => shardClientPacket k m packet
  | some (.keepalive sid addr) => v2 (.flowsKeepalive k sid addr m.now)
  | some (.removeSession sid) => v2 (.flowsRemove k sid)

def shardCleanup (k : ℕ) (now : Instant) : RelayProg Unit := v2 (.flowsCleanup k now)

/-! ### The task of a flow in the first datapath -/

/-- The task of a generation, if it has been spawned and still runs. -/
def withTask (generation : ℕ) (body : FlowKey → RelayProg Unit) : RelayProg Unit := do
  match ← v1 (.taskKey generation) with
  | none => return ()
  | some key => body key

/-- The end of the task, for whatever reason: its entry goes, if it is still its own, and with the
task its end of the channel. -/
def endFlowTask (key : FlowKey) (generation : ℕ) : RelayProg Unit := do
  removeV1Flow key generation
  v1 (.taskExit generation)

def flowTaskEnd (generation : ℕ) : RelayProg Unit :=
  withTask generation fun key => endFlowTask key generation

/-- A packet on the channel is sent on the socket of the flow. -/
def flowTaskSend (generation : ℕ) : RelayProg Unit :=
  withTask generation fun _ => do
    match ← v1 (.channelRecv generation) with
    | none => return ()
    | some payload => v1 (.flowSend generation payload)

/-- Queue the response to a datagram of the flow, and count the datagram as activity. -/
def flowTaskRespond (key : FlowKey) (generation : ℕ) (flow : FlowEntry) (a : Arrival) :
    RelayProg Unit := do
  let ipPacket := buildResponseIpPacket a.payload flow.originalInfo
  v1 (.respond ⟨flow.clientAddr, key.sessionId, sessionIdBytes key.sessionId ++ ipPacket⟩)
  v1 (.flowTouchIf key generation a.receivedAt)
  core (.refresh key.sessionId a.receivedAt a.laterUnix)

/-- A datagram on the socket of the flow. -/
def flowTaskReceive (generation : ℕ) (a : Arrival) : RelayProg Unit :=
  withTask generation fun key => do
    v1 (.flowReceive generation a.payload)
    let session ← core (.sessionGet key.sessionId)
    if session.any fun e => sessionLeaseIsCurrent e a.nowUnix then
      match ← v1 (.flowGet key) with
      | some flow =>
          if flow.generation = generation then flowTaskRespond key generation flow a
          else endFlowTask key generation
      | none =>
          if ← core (.sessionContains key.sessionId) then return ()
          else endFlowTask key generation
    else endFlowTask key generation

/-- The idle check: the task ends when its entry is gone. -/
def flowTaskIdle (generation : ℕ) : RelayProg Unit :=
  withTask generation fun key => do
    let flow ← v1 (.flowGet key)
    if flow.any fun flow => decide (flow.generation = generation) then return ()
    else endFlowTask key generation

/-! ### The senders -/

/-- The clock while a frame is sent, and the verdict of the account budgets. -/
structure SendTurn where
  now : Instant
  nowUnix : UInt64
  withinBudget : Bool

/-- Send a data frame to the endpoint that the session has now. -/
def forwardData (turn : SendTurn) (sid : SessionId) (frame : List UInt8)
    (refused : RelayProg Unit) : RelayProg Unit := do
  match ← core (.forwardingAddr sid turn.nowUnix) with
  | none => refused
  | some addr =>
      if ← accountAllow sid turn.withinBudget then core (.sendTo .data sid addr frame)
      else dropOut .rateLimit

def sendTxPacket (turn : SendTurn) (packet : TxPacket) : RelayProg Unit :=
  if shouldDropStaleQueuedPacket packet.kind packet.enqueuedAt turn.now then dropOut .staleQueue
  else
    match packet.kind with
    | .data => forwardData turn packet.sessionId packet.frame (dropOut .auth)
    | .control => core (.sendTo .control packet.sessionId packet.addr packet.frame)

/-- The transmit thread takes a packet and sends it. -/
def txPass (turn : SendTurn) : RelayProg Unit := do
  match ← v2 .txRecv with
  | none => return ()
  | some packet =>
      sendTxPacket turn packet
      v2 .txRelease

/-- The response task of the first datapath. -/
def v1ResponsePass (turn : SendTurn) : RelayProg Unit := do
  match ← v1 .responseRecv with
  | none => return ()
  | some response => forwardData turn response.sessionId response.frame (return ())

/-- A packet from the TUN device, with the session and the endpoint of its mapping. -/
structure TunTxPacket where
  sessionId : SessionId
  clientAddr : SocketAddr
  ipPacket : List UInt8

/-- The response thread of the TUN device. -/
def tunResponsePass (turn : SendTurn) (packet : TunTxPacket) : RelayProg Unit :=
  forwardData turn packet.sessionId (sessionIdBytes packet.sessionId ++ packet.ipPacket) (return ())

end SwiftRelay
