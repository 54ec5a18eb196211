/-
**The state of the sharded datapath.**

The module `Shards` describes the shards at the level of messages and sessions.  Here is the
machinery underneath: the pool of packet buffers whose slots are passed around as plain numbers, the
bounded queues that carry them, the readiness events that wake a shard, the sockets of its flows,
and the counters by which the shards know of each other's flows.

Readiness is edge-triggered: delivering the event of a socket uses it up, and the next one arises
when another datagram arrives.  Wake-ups coalesce into one event.

A message carries the packet it stands for next to the slot that holds the bytes, and the slots that
a thread has in hand are recorded; neither influences anything.

Main definitions:

* `Env`, `Tid` — configuration and threads;
* `Queues`, `LoopState`, `State` — the pool and the queues, the loop of a shard, and the whole
  state;
* `QueueOp`, `LoopOp`, `Op` — the operations, with `exec`.

Main results:

* `execQueue_step` — the ways in which an operation on the queues can go;
* `exec_queues`, `exec_loops`, `exec_lease` — which part of the state an operation changes, and how.
-/

import Mathlib.Data.Fintype.Sum
import Mathlib.Data.List.Dedup
import Mathlib.Tactic.DeriveFintype
import SwiftRelay.Egress
import SwiftRelay.FlowTables

set_option autoImplicit false

namespace SwiftRelay.Datapath

open Conc

/-! ### Configuration, threads and state -/

/-- The tuning of the datapath, and the policy of the parser. -/
structure Env where
  shardCount : ℕ
  shardCount_pos : 0 < shardCount
  poolSlots : ℕ
  shardQueueCap : ℕ
  txQueueCap : ℕ
  policy : DestPolicy

/-- The threads.  `network` stands for what happens outside: datagrams arrive at the sockets of the
flows, leases begin and lapse. -/
inductive Tid (env : Env)
  | rx
  | cleanup
  | shard (k : Fin env.shardCount)
  | tx
  | network
  deriving DecidableEq, Fintype

/-- A message for a shard. -/
inductive Msg
  | clientPacket (packet : ClientPacket) (payloadIdx payloadLen : ℕ)
  | keepalive (sessionId : SessionId) (clientAddr : SocketAddr)
  | removeSession (sessionId : SessionId)
  deriving DecidableEq

/-- The buffer slots that a message carries. -/
def Msg.slots : Msg → List ℕ
  | .clientPacket _ payloadIdx _ => [payloadIdx]
  | .keepalive .. => []
  | .removeSession _ => []

/-- A frame for the transmit thread. -/
structure QueuedFrame where
  packet : TxPacket
  bufIdx : ℕ
  len : ℕ
  deriving DecidableEq

/-- The buffer pool, the slots in the hands of each thread, and the queues. -/
structure Queues (env : Env) where
  free : List ℕ
  held : Tid env → List ℕ
  buffers : ℕ → List UInt8
  inbox : Fin env.shardCount → List Msg
  txControl : List QueuedFrame
  txData : List QueuedFrame

/-- The socket of a flow: the token under which it is registered, whether an event is due, and the
datagrams that have not been read. -/
structure FlowSocket where
  token : Option ℕ
  ready : Bool
  queue : List (List UInt8)
  deriving DecidableEq

/-- What belongs to the loop of one shard, with the counter that it publishes. -/
structure LoopState where
  wakePending : Bool
  tables : FlowTables
  flowCount : ℕ
  nextSocket : ℕ
  sockets : ℕ → FlowSocket

structure State (env : Env) where
  queues : Queues env
  loops : Fin env.shardCount → LoopState
  lease : SessionId → Bool

variable {env : Env}

def Queues.new : Queues env where
  free := List.range env.poolSlots
  held := fun _ => []
  buffers := fun _ => List.replicate maxPacketSize 0
  inbox := fun _ => []
  txControl := []
  txData := []

def LoopState.new : LoopState := ⟨false, .new, 0, 0, fun _ => ⟨none, false, []⟩⟩

def State.new : State env := ⟨.new, fun _ => .new, fun _ => false⟩

namespace State

variable (s : State env)

def setQueues (queues : Queues env) : State env := { s with queues }

/-- Replace the state of one loop. -/
def setLoop (k : Fin env.shardCount) (l : LoopState) : State env :=
  { s with loops := Function.update s.loops k l }

variable {s} {q : Queues env} {l : LoopState}

@[simp] theorem setQueues_queues : (s.setQueues q).queues = q := rfl

@[simp] theorem setQueues_loops : (s.setQueues q).loops = s.loops := rfl

@[simp] theorem setQueues_lease : (s.setQueues q).lease = s.lease := rfl

variable {k : Fin env.shardCount}

@[simp] theorem setLoop_queues :
    (s.setLoop k l).queues = s.queues := rfl

@[simp] theorem setLoop_lease :
    (s.setLoop k l).lease = s.lease := rfl

@[simp] theorem setLoop_self :
    (s.setLoop k l).loops k = l := Function.update_self ..

@[simp] theorem setLoop_eq : s.setLoop k (s.loops k) = s := by
  rw [setLoop, Function.update_eq_self]

theorem setLoop_of_ne {j : Fin env.shardCount} (h : j ≠ k) :
    (s.setLoop k l).loops j = s.loops j := Function.update_of_ne h ..

end State

/-! ### Operations on the pool and the queues -/

inductive QueueOp (env : Env)
  | acquire
  | release (idx : ℕ)
  | write (idx : ℕ) (bytes : List UInt8)
  | read (idx len : ℕ)
  | inboxSend (k : Fin env.shardCount) (msg : Msg)
  | inboxRecv (k : Fin env.shardCount)
  | txSend (frame : QueuedFrame)
  | txRecv

abbrev QueueOp.Ret : QueueOp env → Type
  | .acquire => Option ℕ
  | .read .. => List UInt8
  | .inboxSend .. => Bool
  | .inboxRecv _ => Option Msg
  | .txSend _ => Bool
  | .txRecv => QueuedFrame
  | _ => Unit

namespace Queues

variable (q : Queues env)

/-- Thread `t` takes slots into its hands. -/
def take (t : Tid env) (slots : List ℕ) : Queues env :=
  { q with held := Function.update q.held t (slots ++ q.held t) }

/-- Thread `t` gives slots away. -/
def give (t : Tid env) (slots : List ℕ) : Queues env :=
  { q with held := Function.update q.held t ((q.held t).diff slots) }

end Queues

/-- What an operation answers and does.  A release waits while the free list is full, and the
transmit thread waits for a frame. -/
def execQueue (t : Tid env) : (o : QueueOp env) → Queues env → Option (o.Ret × Queues env)
  | .acquire, q =>
      match q.free with
      | [] => some (none, q)
      | idx :: free => some (some idx, { q with free }.take t [idx])
  | .release idx, q =>
      if q.free.length < env.poolSlots then
        some ((), { q with free := q.free ++ [idx] }.give t [idx])
      else none
  | .write idx bytes, q =>
      some ((), { q with
        buffers := Function.update q.buffers idx (bytes ++ (q.buffers idx).drop bytes.length) })
  | .read idx len, q => some ((q.buffers idx).take len, q)
  | .inboxSend k msg, q =>
      if (q.inbox k).length < env.shardQueueCap then
        some (true, { q with
          inbox := Function.update q.inbox k (q.inbox k ++ [msg]) }.give t msg.slots)
      else some (false, q)
  | .inboxRecv k, q =>
      match q.inbox k with
      | [] => some (none, q)
      | msg :: inbox =>
          some (some msg, { q with inbox := Function.update q.inbox k inbox }.take t msg.slots)
  | .txSend frame, q =>
      match frame.packet.kind with
      | .control =>
          if q.txControl.length < env.txQueueCap then
            some (true, { q with txControl := q.txControl ++ [frame] }.give t [frame.bufIdx])
          else some (false, q)
      | .data =>
          if q.txData.length < env.txQueueCap then
            some (true, { q with txData := q.txData ++ [frame] }.give t [frame.bufIdx])
          else some (false, q)
  | .txRecv, q =>
      -- control frames first
      match q.txControl, q.txData with
      | frame :: txControl, _ => some (frame, { q with txControl }.take t [frame.bufIdx])
      | [], frame :: txData => some (frame, { q with txData }.take t [frame.bufIdx])
      | [], [] => none

/-- The ways in which an operation on the queues can go. -/
inductive QueueStep (t : Tid env) (q : Queues env) : (o : QueueOp env) → o.Ret → Queues env → Prop
  | exhausted (h : q.free = []) : QueueStep t q .acquire none q
  | acquire (idx : ℕ) (free : List ℕ) (h : q.free = idx :: free) :
      QueueStep t q .acquire (some idx) ({ q with free }.take t [idx])
  | release (idx : ℕ) :
      QueueStep t q (.release idx) () ({ q with free := q.free ++ [idx] }.give t [idx])
  | write (idx : ℕ) (bytes : List UInt8) (buffers : ℕ → List UInt8) :
      QueueStep t q (.write idx bytes) () { q with buffers }
  | read (idx len : ℕ) : QueueStep t q (.read idx len) ((q.buffers idx).take len) q
  | inboxFull (k : Fin env.shardCount) (msg : Msg) : QueueStep t q (.inboxSend k msg) false q
  | inboxSend (k : Fin env.shardCount) (msg : Msg) :
      QueueStep t q (.inboxSend k msg) true
        ({ q with inbox := Function.update q.inbox k (q.inbox k ++ [msg]) }.give t msg.slots)
  | inboxEmpty (k : Fin env.shardCount) (h : q.inbox k = []) : QueueStep t q (.inboxRecv k) none q
  | inboxRecv (k : Fin env.shardCount) (msg : Msg) (inbox : List Msg)
      (h : q.inbox k = msg :: inbox) :
      QueueStep t q (.inboxRecv k) (some msg)
        ({ q with inbox := Function.update q.inbox k inbox }.take t msg.slots)
  | txFull (frame : QueuedFrame) : QueueStep t q (.txSend frame) false q
  | sendControl (frame : QueuedFrame) : QueueStep t q (.txSend frame) true
      ({ q with txControl := q.txControl ++ [frame] }.give t [frame.bufIdx])
  | sendData (frame : QueuedFrame) : QueueStep t q (.txSend frame) true
      ({ q with txData := q.txData ++ [frame] }.give t [frame.bufIdx])
  | recvControl (frame : QueuedFrame) (txControl : List QueuedFrame)
      (h : q.txControl = frame :: txControl) :
      QueueStep t q .txRecv frame ({ q with txControl }.take t [frame.bufIdx])
  | recvData (frame : QueuedFrame) (txData : List QueuedFrame) (h : q.txData = frame :: txData) :
      QueueStep t q .txRecv frame ({ q with txData }.take t [frame.bufIdx])

theorem execQueue_step {t : Tid env} {q q' : Queues env} {o : QueueOp env} {r : o.Ret}
    (h : execQueue t o q = some (r, q')) : QueueStep t q o r q' := by
  cases o with
  | release idx =>
      obtain ⟨-, rfl, rfl⟩ := System.of_guarded h
      exact .release idx
  | write idx bytes => cases h; exact .write ..
  | read idx len => cases h; exact .read ..
  | acquire =>
      simp only [execQueue] at h
      split at h <;> cases h
      · next hfree => exact .exhausted hfree
      · next hfree => exact .acquire _ _ hfree
  | inboxSend k msg =>
      simp only [execQueue] at h
      split at h <;> cases h
      exacts [.inboxSend k msg, .inboxFull k msg]
  | inboxRecv k =>
      simp only [execQueue] at h
      split at h <;> cases h
      · next hempty => exact .inboxEmpty k hempty
      · next hinbox => exact .inboxRecv k _ _ hinbox
  | txSend frame =>
      simp only [execQueue] at h
      split at h <;> split at h <;> cases h
      exacts [.sendControl frame, .txFull frame, .sendData frame, .txFull frame]
  | txRecv =>
      simp only [execQueue] at h
      split at h <;> cases h
      · next hcontrol => exact .recvControl _ _ hcontrol
      · next hdata => exact .recvData _ _ hdata

/-! ### Operations on the loop of a shard -/

/-- What a read of a socket gives. -/
inductive Received
  | datagram (bytes : List UInt8)
  | wouldBlock
  | error
  deriving DecidableEq

inductive LoopOp
  /- readiness -/
  | wake
  | poll (timedOut : Bool) (picked : List ℕ)
  | arrive (socket : ℕ) (datagram : List UInt8)
  /- the flow of an event -/
  | flowOfToken (token : ℕ)
  | recv (key : FlowKey) (fails : Bool)
  | touch (key : FlowKey) (now : Instant)
  /- opening a flow -/
  | flowExists (key : FlowKey)
  | countLoad
  | sessionLen (sid : SessionId)
  | createSocket
  | allocateToken
  | register (socket token : ℕ)
  | insert (key : FlowKey) (flow : FlowState)
  /- using and closing flows -/
  | use (key : FlowKey) (addr : SocketAddr) (info : OriginalPacketInfo) (now : Instant)
  | send (key : FlowKey) (bytes : List UInt8)
  | keepalive (sid : SessionId) (addr : SocketAddr) (now : Instant)
  | removeSession (sid : SessionId)
  | cleanup (now : Instant)
  | storeCount

abbrev LoopOp.Ret : LoopOp → Type
  | .poll .. => List ℕ
  | .flowOfToken _ => Option (FlowKey × FlowState)
  | .recv .. => Received
  | .flowExists _ => Bool
  | .countLoad => ℕ
  | .sessionLen _ => ℕ
  | .createSocket => ℕ
  | .allocateToken => Option ℕ
  | _ => Unit

/-- The token of the waker. -/
def tokenWake : ℕ := 0

/-- How many events one `poll` delivers at most. -/
def eventsCapacity : ℕ := 1024

namespace LoopState

variable (l : LoopState)

/-- The tokens for which an event is due. -/
def pendingTokens : List ℕ :=
  (if l.wakePending then [tokenWake] else []) ++
    (List.range l.nextSocket).filterMap fun s =>
      if (l.sockets s).ready then (l.sockets s).token else none

/-- The events delivered, out of those that are due. -/
def delivered (picked : List ℕ) : List ℕ :=
  (picked.dedup.filter fun token => token ∈ l.pendingTokens).take eventsCapacity

/-- Delivering events uses them up. -/
def deliver (tokens : List ℕ) : LoopState :=
  { l with
    wakePending := l.wakePending && !decide (tokenWake ∈ tokens)
    sockets := fun s =>
      { l.sockets s with
        ready := (l.sockets s).ready && !(l.sockets s).token.any fun token => token ∈ tokens } }

/-- Overwrite one socket. -/
def setSocket (s : ℕ) (socket : FlowSocket) : LoopState :=
  { l with sockets := Function.update l.sockets s socket }

@[simp] theorem setSocket_tables (s : ℕ) (socket : FlowSocket) :
    (l.setSocket s socket).tables = l.tables := rfl

/-- The tables have a flow with the socket. -/
def owns (tables : FlowTables) (s : ℕ) : Bool :=
  tables.flows.entries.any fun e => decide (e.2.socket = s)

/-- New tables: the sockets of the flows that are gone are deregistered and closed. -/
def setTables (tables : FlowTables) : LoopState :=
  { l with
    tables
    sockets := fun s =>
      if owns l.tables s && !owns tables s then ⟨none, false, []⟩ else l.sockets s }

theorem owns_of_lookup {tables : FlowTables} {key : FlowKey} {flow : FlowState}
    (h : tables.flows.lookup key = some flow) : owns tables flow.socket = true :=
  List.any_eq_true.2 ⟨⟨key, flow⟩, Table.lookup_eq_some_iff.1 h, decide_eq_true rfl⟩

theorem setTables_sockets {tables : FlowTables} {s : ℕ} (h : owns tables s = true) :
    (l.setTables tables).sockets s = l.sockets s := by
  simp [setTables, h]

end LoopState

/-- What an operation answers and does.  `poll` blocks while there is nothing to deliver and the
time of the next cleanup has not come. -/
def execLoop : (o : LoopOp) → LoopState → Option (o.Ret × LoopState)
  | .wake, l => some ((), { l with wakePending := true })
  | .poll timedOut picked, l =>
      let tokens := l.delivered picked
      if tokens.isEmpty && !timedOut then none else some (tokens, l.deliver tokens)
  | .arrive s datagram, l =>
      let socket := l.sockets s
      some ((), l.setSocket s ⟨socket.token, socket.token.isSome, socket.queue ++ [datagram]⟩)
  | .flowOfToken token, l =>
      some ((l.tables.tokenToFlow.lookup token).bind fun key =>
        (l.tables.flows.lookup key).map fun flow => (key, flow), l)
  | .recv key fails, l =>
      match l.tables.flows.lookup key with
      | none => some (.error, l)
      | some flow =>
          let socket := l.sockets flow.socket
          if fails then some (.error, l)
          else
            match socket.queue with
            | [] => some (.wouldBlock, l)
            | datagram :: queue =>
                some (.datagram (datagram.take maxPacketSize),
                  l.setSocket flow.socket { socket with queue })
  | .touch key now, l =>
      some ((), { l with tables := l.tables.modifyFlow key fun flow => flow.touch now })
  | .flowExists key, l => some ((l.tables.flows.lookup key).isSome, l)
  | .countLoad, l => some (l.flowCount, l)
  | .sessionLen sid, l => some ((l.tables.flowsOf sid).length, l)
  | .createSocket, l =>
      some (l.nextSocket,
        { l.setSocket l.nextSocket ⟨none, false, []⟩ with nextSocket := l.nextSocket + 1 })
  | .allocateToken, l =>
      let (token, tables) := l.tables.allocateFlowToken
      some (token, { l with tables })
  | .register s token, l =>
      -- datagrams that are there already make the socket ready
      let queue := (l.sockets s).queue
      some ((), l.setSocket s ⟨some token, !queue.isEmpty, queue⟩)
  | .insert key flow, l => some ((), { l with tables := l.tables.insertFlow key flow })
  | .use key addr info now, l =>
      some ((), { l with tables := l.tables.modifyFlow key fun flow => flow.used addr info now })
  | .send _ _, l => some ((), l)
  | .keepalive sid addr now, l => some ((), { l with tables := l.tables.keepalive sid addr now })
  | .removeSession sid, l => some ((), l.setTables (l.tables.removeSession sid))
  | .cleanup now, l => some ((), l.setTables (l.tables.cleanup now))
  | .storeCount, l => some ((), { l with flowCount := l.tables.flows.size })

/-! ### All operations -/

inductive Op (env : Env)
  | queue (o : QueueOp env)
  | loop (k : Fin env.shardCount) (o : LoopOp)
  | leaseCurrent (sid : SessionId)
  | setLease (sid : SessionId) (current : Bool)
  | sendTo (addr : SocketAddr) (bytes : List UInt8)

abbrev Op.Ret : Op env → Type
  | .queue o => o.Ret
  | .loop _ o => o.Ret
  | .leaseCurrent _ => Bool
  | .setLease .. => Unit
  | .sendTo .. => Unit

abbrev sig (env : Env) : Signature := ⟨Op env, Op.Ret⟩

abbrev PathProg (env : Env) := Prog (sig env)

def exec (t : Tid env) : (o : Op env) → State env → Option (o.Ret × State env)
  | .queue o, s => (execQueue t o s.queues).map fun x => (x.1, s.setQueues x.2)
  | .loop k o, s => (execLoop o (s.loops k)).map fun x => (x.1, s.setLoop k x.2)
  | .leaseCurrent sid, s => some (s.lease sid, s)
  | .setLease sid current, s => some ((), { s with lease := Function.update s.lease sid current })
  | .sendTo _ _, s => some ((), s)

/-! ### What an operation changes -/

section Effects

variable {t : Tid env} {s s' : State env}

theorem execLoop_poll {timedOut : Bool} {picked tokens : List ℕ} {l l' : LoopState}
    (h : execLoop (.poll timedOut picked) l = some (tokens, l')) :
    tokens = l.delivered picked ∧ l' = l.deliver (l.delivered picked) := by
  simp only [execLoop] at h
  split at h <;> cases h
  exact ⟨rfl, rfl⟩

/-- A read takes a datagram from the socket, or changes nothing. -/
theorem execLoop_recv {key : FlowKey} {fails : Bool} {r : Received} {l l' : LoopState}
    (h : execLoop (.recv key fails) l = some (r, l')) :
    l' = l ∨ ∃ s queue, l' = l.setSocket s { l.sockets s with queue } := by
  simp only [execLoop] at h
  split at h
  · cases h
    exact .inl rfl
  · split at h
    · cases h
      exact .inl rfl
    · split at h <;> cases h
      exacts [.inl rfl, .inr ⟨_, _, rfl⟩]

theorem exec_queue {o : QueueOp env} {r : o.Ret} (h : exec t (.queue o) s = some (r, s')) :
    ∃ q, execQueue t o s.queues = some (r, q) ∧ s' = s.setQueues q := by
  obtain ⟨⟨r', q⟩, hexec, heq⟩ := Option.map_eq_some_iff.1 h
  cases heq
  exact ⟨q, hexec, rfl⟩

theorem exec_loop {k : Fin env.shardCount} {o : LoopOp} {r : o.Ret}
    (h : exec t (.loop k o) s = some (r, s')) :
    ∃ l, execLoop o (s.loops k) = some (r, l) ∧ s' = s.setLoop k l := by
  obtain ⟨⟨r', l⟩, hexec, heq⟩ := Option.map_eq_some_iff.1 h
  cases heq
  exact ⟨l, hexec, rfl⟩

theorem exec_countLoad {k : Fin env.shardCount} {r : ℕ}
    (h : exec t (.loop k .countLoad) s = some (r, s')) : r = (s.loops k).flowCount ∧ s' = s := by
  obtain ⟨l, hl, rfl⟩ := exec_loop h
  cases hl
  exact ⟨rfl, State.setLoop_eq⟩

variable {o : Op env} {r : o.Ret}

theorem exec_queues (h : exec t o s = some (r, s')) :
    s'.queues = s.queues ∨
      ∃ o' r', o = .queue o' ∧ execQueue t o' s.queues = some (r', s'.queues) := by
  cases o with
  | queue o' =>
      obtain ⟨q, hexec, rfl⟩ := exec_queue h
      exact .inr ⟨o', r, rfl, hexec⟩
  | loop k o' =>
      obtain ⟨l, -, rfl⟩ := exec_loop h
      exact .inl rfl
  | leaseCurrent sid => cases h; exact .inl rfl
  | setLease sid current => cases h; exact .inl rfl
  | sendTo addr bytes => cases h; exact .inl rfl

/-- Only an operation on it changes the loop of a shard. -/
theorem exec_loops (h : exec t o s = some (r, s')) (k : Fin env.shardCount) :
    s'.loops k = s.loops k ∨
      ∃ o' r', o = .loop k o' ∧ execLoop o' (s.loops k) = some (r', s'.loops k) := by
  cases o with
  | queue o' =>
      obtain ⟨q, -, rfl⟩ := exec_queue h
      exact .inl rfl
  | loop j o' =>
      obtain ⟨l, hexec, rfl⟩ := exec_loop h
      by_cases hj : k = j
      · subst hj
        refine .inr ⟨o', r, rfl, ?_⟩
        rw [State.setLoop_self]
        exact hexec
      · exact .inl (State.setLoop_of_ne hj)
  | leaseCurrent sid => cases h; exact .inl rfl
  | setLease sid current => cases h; exact .inl rfl
  | sendTo addr bytes => cases h; exact .inl rfl

theorem exec_lease (h : exec t o s = some (r, s')) :
    s'.lease = s.lease ∨ ∃ sid current, o = .setLease sid current := by
  cases o with
  | queue o' =>
      obtain ⟨q, -, rfl⟩ := exec_queue h
      exact .inl rfl
  | loop j o' =>
      obtain ⟨l, -, rfl⟩ := exec_loop h
      exact .inl rfl
  | leaseCurrent sid => cases h; exact .inl rfl
  | setLease sid current => exact .inr ⟨sid, current, rfl⟩
  | sendTo addr bytes => cases h; exact .inl rfl

end Effects

end SwiftRelay.Datapath
