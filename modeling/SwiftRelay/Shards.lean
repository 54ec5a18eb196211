/-
**The sharded datapath: flows, inboxes and the transmit queues.**

In the second datapath the receive thread hands client packets to shard threads through bounded
inboxes.  A shard owns the flows of its sessions: one socket for each pair of a session and a game
server.  What comes back on a flow socket is put on the bounded data queue of the transmit thread.

The tables of a shard belong to its thread alone, but they are part of the state here, because what
the whole relay guarantees depends on what they still hold.  Two pieces of bookkeeping are added for
that purpose and influence nothing: a packet and the flow it opens carry the *account* for which the
session was authenticated when the packet was accepted, and a message that a thread has taken from a
queue and not yet disposed of stays visible as being in hand.

Payloads travel in the messages themselves; the pool of buffers that carries them is not modelled,
except that it may have no buffer left.

Main definitions:

* `ClientPacket`, `ShardMsg`, `TxPacket` — what travels between the threads;
* `ShardState`, `V2State` — one shard; the shards and the transmit queues;
* `V2Op`, `execV2` — the operations on them.
-/

import SwiftRelay.FlowTables
import SwiftRelay.ResponsePacket

set_option autoImplicit false

namespace SwiftRelay

/-! ### Messages -/

/-- A client packet for a shard.  `account` is the account of its session when it was accepted. -/
structure ClientPacket where
  sessionId : SessionId
  clientAddr : SocketAddr
  gameAddr : SocketAddr
  originalInfo : OriginalPacketInfo
  payload : List UInt8
  enqueuedAt : Instant
  account : String
  deriving DecidableEq

inductive ShardMsg
  | clientPacket (packet : ClientPacket)
  | keepalive (sessionId : SessionId) (clientAddr : SocketAddr)
  | removeSession (sessionId : SessionId)
  deriving DecidableEq

/-- A frame for a client.  `account` is the opener of the flow that a data frame came from. -/
structure TxPacket where
  addr : SocketAddr
  sessionId : SessionId
  frame : List UInt8
  enqueuedAt : Instant
  kind : QueuedPacketKind
  account : String
  deriving DecidableEq

def maxDataQueueAge : ℕ := millis 250

def shouldDropStaleQueuedPacket (kind : QueuedPacketKind) (enqueuedAt now : Instant) : Bool :=
  kind = .data && decide (durationSince now enqueuedAt > maxDataQueueAge)

/-- The shard of a session. -/
def shardForSession (sid : SessionId) (shardCount : ℕ) : ℕ :=
  let sid := sid ^^^ (sid >>> 33)
  let sid := sid * 0xff51afd7ed558ccd
  let sid := sid ^^^ (sid >>> 33)
  let sid := sid * 0xc4ceb9fe1a85ec53
  let sid := sid ^^^ (sid >>> 33)
  sid.toNat % shardCount

/-! ### The state -/

/-- One shard: its tables and the number of flows that it has published, its inbox and the client
packet in hand, and how many sockets it has opened. -/
structure ShardState extends FlowTables where
  inbox : List ShardMsg
  inHand : Option ClientPacket
  nextSocket : ℕ
  flowCount : ℕ

def ShardState.new : ShardState := ⟨.new, [], none, 0, 0⟩

/-- The shards, the transmit queues and the packet that the transmit thread has in hand. -/
structure V2State where
  shards : ℕ → ShardState
  txControl : List TxPacket
  txData : List TxPacket
  txInHand : Option TxPacket

def V2State.new : V2State := ⟨fun _ => .new, [], [], none⟩

def maxFlowsTotal : ℕ := 262144

/-- Enter a new flow, with a socket of its own. -/
def ShardState.openFlow (s : ShardState) (key : FlowKey) (token : ℕ) (addr : SocketAddr)
    (info : OriginalPacketInfo) (now : Instant) (account : String) : ShardState :=
  let flow : FlowState := ⟨s.nextSocket, addr, info, now, none, token, account⟩
  { s with toFlowTables := s.insertFlow key flow, nextSocket := s.nextSocket + 1 }

/-! ### The operations -/

/-- The operations on the shards and the transmit queues. -/
inductive V2Op
  /- the inbox of a shard -/
  | shardSend (k : ℕ) (msg : ShardMsg)
  | shardRecv (k : ℕ)
  | slotRelease (k : ℕ)
  /- the flows of a shard -/
  | flowExists (k : ℕ) (key : FlowKey)
  | flowTotal
  | sessionFlowCount (k : ℕ) (sid : SessionId)
  | allocateToken (k : ℕ)
  | flowOpen (k : ℕ) (key : FlowKey) (token : ℕ) (addr : SocketAddr) (info : OriginalPacketInfo)
      (now : Instant) (account : String)
  | flowForward (k : ℕ) (key : FlowKey) (addr : SocketAddr) (info : OriginalPacketInfo)
      (payload : List UInt8) (now : Instant)
  | flowsKeepalive (k : ℕ) (sid : SessionId) (addr : SocketAddr) (now : Instant)
  | flowsRemove (k : ℕ) (sid : SessionId)
  | flowsCleanup (k : ℕ) (now : Instant)
  /- the sockets of a shard -/
  | flowOfToken (k : ℕ) (token : ℕ)
  | flowReceive (k : ℕ) (key : FlowKey) (payload : List UInt8)
  | flowTouch (k : ℕ) (key : FlowKey) (now : Instant)
  /- the transmit queues -/
  | txSend (packet : TxPacket)
  | txRecv
  | txRelease

abbrev V2Op.Ret : V2Op → Type
  | .shardSend .. => Bool
  | .shardRecv _ => Option ShardMsg
  | .flowExists .. => Bool
  | .flowTotal => ℕ
  | .sessionFlowCount .. => ℕ
  | .allocateToken _ => Option ℕ
  | .flowOfToken .. => Option (FlowKey × FlowState)
  | .flowReceive .. => Option FlowState
  | .txSend _ => Bool
  | .txRecv => Option TxPacket
  | _ => Unit

/-- Replace the state of one shard. -/
def V2State.setShard (s : V2State) (k : ℕ) (shard : ShardState) : V2State :=
  { s with shards := Function.update s.shards k shard }

/-- Replace the tables of one shard. -/
def V2State.setTables (s : V2State) (k : ℕ) (tables : FlowTables) : V2State :=
  s.setShard k { s.shards k with toFlowTables := tables }

/-- What an operation answers and does. -/
def execV2 (env : RelayEnv) : (o : V2Op) → V2State → Option (o.Ret × V2State)
  | .shardSend k msg, s =>
      let shard := s.shards k
      if shard.inbox.length < env.shardQueueCap then
        some (true, s.setShard k { shard with inbox := shard.inbox ++ [msg] })
      else some (false, s)
  | .shardRecv k, s =>
      let shard := s.shards k
      match shard.inbox with
      | [] => some (none, s)
      | msg :: inbox =>
          let inHand := match msg with
            | .clientPacket packet => some packet
            | _ => none
          some (some msg, s.setShard k { shard with inbox, inHand })
  | .slotRelease k, s => some ((), s.setShard k { s.shards k with inHand := none })
  | .flowExists k key, s => some (((s.shards k).flows.lookup key).isSome, s)
  | .flowTotal, s =>
      some (((List.range env.shardCount).map fun k => (s.shards k).flowCount).sum, s)
  | .sessionFlowCount k sid, s =>
      some (((s.shards k).flowsOf sid).length, s)
  | .allocateToken k, s =>
      let (token, tables) := (s.shards k).allocateFlowToken
      some (token, s.setTables k tables)
  | .flowOpen k key token addr info now account, s =>
      some ((), s.setShard k ((s.shards k).openFlow key token addr info now account))
  | .flowForward k key addr info _ now, s =>
      let shard := s.shards k
      let tables := shard.modifyFlow key fun flow => flow.used addr info now
      some ((), s.setShard k { shard with toFlowTables := tables, inHand := none })
  | .flowsKeepalive k sid addr now, s =>
      some ((), s.setTables k ((s.shards k).keepalive sid addr now))
  | .flowsRemove k sid, s => some ((), s.setTables k ((s.shards k).removeSession sid))
  | .flowsCleanup k now, s =>
      let tables := (s.shards k).cleanup now
      some ((), s.setShard k
        { s.shards k with toFlowTables := tables, flowCount := tables.flows.size })
  | .flowOfToken k token, s =>
      let shard := s.shards k
      some ((shard.tokenToFlow.lookup token).bind fun key =>
        (shard.flows.lookup key).map fun flow => (key, flow), s)
  | .flowReceive k key _, s => some ((s.shards k).flows.lookup key, s)
  | .flowTouch k key now, s =>
      some ((), s.setTables k ((s.shards k).modifyFlow key fun flow => flow.touch now))
  | .txSend packet, s =>
      match packet.kind with
      | .control =>
          if s.txControl.length < env.txQueueCap then
            some (true, { s with txControl := s.txControl ++ [packet] })
          else some (false, s)
      | .data =>
          if s.txData.length < env.txQueueCap then
            some (true, { s with txData := s.txData ++ [packet] })
          else some (false, s)
  | .txRecv, s =>
      -- control frames first
      match s.txControl, s.txData with
      | packet :: txControl, _ => some (some packet, { s with txControl, txInHand := some packet })
      | [], packet :: txData => some (some packet, { s with txData, txInHand := some packet })
      | [], [] => some (none, s)
  | .txRelease, s => some ((), { s with txInHand := none })

/-- The operations on the inboxes. -/
def V2Op.mails : V2Op → Bool
  | .shardSend .. | .shardRecv _ => true
  | _ => false

theorem V2State.setShard_self (s : V2State) (k : ℕ) (shard : ShardState) :
    (s.setShard k shard).shards k = shard := Function.update_self ..

theorem V2State.setTables_self (s : V2State) (k : ℕ) (tables : FlowTables) :
    (s.setTables k tables).shards k = { s.shards k with toFlowTables := tables } :=
  Function.update_self ..

theorem V2State.setShard_of_ne (s : V2State) {j k : ℕ} (shard : ShardState) (h : k ≠ j) :
    (s.setShard j shard).shards k = s.shards k := Function.update_of_ne h ..

end SwiftRelay
