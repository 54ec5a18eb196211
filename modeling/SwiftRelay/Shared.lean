/-
**The shared session state.**

The receive loop, the cleanup task and the threads that return traffic share the session map, the
session counts per source address, the replay cache and the limiters.  The maps are concurrent hash
maps: an access locks the shard of the map that holds the key, and a guard returned by an access
keeps the lock until it is dropped.  Every access is one atomic operation here.  An operation that
returns a guard which outlives it takes the lock, operations behind the guard need it, and the
operation that drops the guard releases it; accesses to a locked shard by anyone are blocked.

Main definitions:

* `RelayEnv` — the configuration;
* `Tid` — the threads;
* `CoreState`, `CoreOp`, `execCore` — the state, the operations on it and what they do.

Main results:

* `execCore_sessions` — everything that an operation can do to the session map;
* `execCore_guards` — everything that it can do to the locks.
-/

import SwiftRelay.IpPacket
import SwiftRelay.Program
import SwiftRelay.RateLimit
import SwiftRelay.Session

set_option autoImplicit false

namespace SwiftRelay

open Conc

/-! ### Configuration and threads -/

inductive RelayDatapath
  | v1
  | v2
  deriving DecidableEq

/-- The configuration of a relay, and what is fixed when it starts:  `dashShardOf` is the randomly
keyed hash by which the session map picks the shard of a key, and `flowShardOf` and `indexShardOf`
are those of the flow map of the first datapath and of its index; `resolveSocket` says whether the
second datapath got a socket for the answers to resolve requests. -/
structure RelayEnv where
  auth : RelayAuthConfig
  codecs : Codecs
  policy : DestPolicy
  datapath : RelayDatapath
  tcpEnabled : Bool
  tunUdpEnabled : Bool
  tunAvailable : Bool
  resolveSocket : Bool
  dashShards : ℕ
  dashShardOf : SessionId → ℕ
  dashShardOf_lt : ∀ sid, dashShardOf sid < dashShards
  flowShards : ℕ
  flowShardOf : SessionId → SocketAddr → ℕ
  flowShardOf_lt : ∀ sid gameAddr, flowShardOf sid gameAddr < flowShards
  indexShards : ℕ
  indexShardOf : SessionId → ℕ
  indexShardOf_lt : ∀ sid, indexShardOf sid < indexShards
  shardCount : ℕ
  shardQueueCap : ℕ
  txQueueCap : ℕ
  flowChannelCapacity : ℕ

def RelayEnv.authRequired (env : RelayEnv) : Bool := env.auth.mode.requiresAuth

/-- The threads and tasks that touch the shared state. -/
inductive Tid
  | rx
  | cleanup
  | tx
  | tunResponse
  | v1Response
  | shard (k : ℕ)
  | v1Flow (generation : ℕ)
  deriving DecidableEq

inductive DropReason
  | auth
  | rateLimit
  | capacity
  | tooSmall
  | parse
  | fragment
  | forbiddenDst
  | tcpDisabled
  | pool
  | staleQueue
  | shardQueue
  | txQueue
  | tunQueue
  | flowQueue
  | flowCreate
  | flowSend
  | socketSend
  deriving DecidableEq

/-- The status byte of an acknowledgement. -/
inductive AckStatus
  | ok
  | badFormat
  | badSignature
  | expired
  | sidMismatch
  | serverMismatch
  | authDisabled
  | replay
  | ownerMismatch
  | reauthRequired
  deriving DecidableEq

def AckStatus.byte : AckStatus → UInt8
  | .ok => 0
  | .badFormat => 1
  | .badSignature => 2
  | .expired => 3
  | .sidMismatch => 4
  | .serverMismatch => 5
  | .authDisabled => 6
  | .replay => 7
  | .ownerMismatch => 8
  | .reauthRequired => 9

def RelayAuthVerifyError.ackStatus : RelayAuthVerifyError → AckStatus
  | .badFormat => .badFormat
  | .badSignature => .badSignature
  | .expired => .expired
  | .sidMismatch => .sidMismatch
  | .serverMismatch => .serverMismatch
  | .replay => .replay
  | .ownerMismatch => .ownerMismatch

inductive QueuedPacketKind
  | data
  | control
  deriving DecidableEq

/-- A client packet on its way to the TUN device. -/
structure InboundTunPacket where
  sessionId : SessionId
  clientAddr : SocketAddr
  rawIpPacket : List UInt8
  deriving DecidableEq

/-! ### The operations -/

/-- The operations on the shared session state, and the outputs of the threads. -/
inductive CoreOp
  /- the limiters and the replay cache -/
  | pendingAllow (ip : Ipv4Addr) (now : Instant)
  | sourceAllow (ip : Ipv4Addr) (kind : SourceLimitKind) (now : Instant) (casWon : Bool)
  | verifyOnce (token : String) (sid : SessionId) (nowUnix : UInt64) (casWon : Bool)
  /- the session map: reads -/
  | sessionGet (sid : SessionId)
  | sessionContains (sid : SessionId)
  | sessionsLen
  | forwardingAddr (sid : SessionId) (nowUnix : UInt64)
  /- the session map: `entry`, with its guard -/
  | entryLock (sid : SessionId)
  | entryInsert (sid : SessionId) (entry : SessionEntry)
  | entryTouch (sid : SessionId) (addr : SocketAddr) (now : Instant) (nowUnix : UInt64)
  | entryRelease (sid : SessionId)
  /- the session map: `get_mut`, with a guard that outlives other operations, and without -/
  | getMutLock (sid : SessionId)
  | helloApply (sid : SessionId) (ticket : VerifiedRelayTicket) (addr : SocketAddr) (now : Instant)
      (nowUnix : UInt64)
  | setLegacyUser (sid : SessionId) (srcIp : Ipv4Addr)
  | refresh (sid : SessionId) (now : Instant) (nowUnix : UInt64)
  /- the session map: `retain`, shard by shard -/
  | retainLock (i : ℕ)
  | retainErase (sid : SessionId)
  | retainRelease (i : ℕ)
  /- the session counts -/
  | countGet (ip : Ipv4Addr)
  | countDec (ip : Ipv4Addr)
  | countRemove (ip : Ipv4Addr)
  | countInc (ip : Ipv4Addr)
  | activeAdd
  | activeSub
  /- the destination policy -/
  | parsePacket (packet : List UInt8)
  /- outputs -/
  | drop (reason : DropReason)
  | ack (addr : SocketAddr) (sid : SessionId) (status : AckStatus)
  | pong (addr : SocketAddr) (frame : List UInt8)
  | rttReport (sid : SessionId) (rttUs : UInt32)
  | resolve (addr : SocketAddr) (sid : SessionId) (requestId : UInt16) (hosts : List String)
  | tunSend (packet : InboundTunPacket) (accepted : Bool)
  | sendTo (kind : QueuedPacketKind) (sid : SessionId) (addr : SocketAddr) (frame : List UInt8)

/-- The type of the answer to an operation. -/
abbrev CoreOp.Ret : CoreOp → Type
  | .pendingAllow .. => Bool
  | .sourceAllow .. => Bool
  | .verifyOnce .. => Except RelayAuthVerifyError VerifiedRelayTicket
  | .sessionGet _ => Option SessionEntry
  | .sessionContains _ => Bool
  | .sessionsLen => ℕ
  | .forwardingAddr .. => Option SocketAddr
  | .entryLock _ => Option SessionEntry
  | .getMutLock _ => Option SessionEntry
  | .retainLock _ => List (SessionId × SessionEntry)
  | .countGet _ => ℕ
  | .countDec _ => Bool
  | .parsePacket _ => Option ParsedPacket
  | .tunSend .. => Bool
  | _ => Unit

/-- The shared session state.  `guards i` is the thread that holds the lock of shard `i` of the
session map. -/
structure CoreState where
  sessions : Table SessionId SessionEntry
  guards : ℕ → Option Tid
  counts : Table Ipv4Addr ℕ
  activeSessions : UInt64
  limiter : SourceRateLimiter Ipv4Addr
  pendingAuth : PendingAuthLimiter
  replayCache : RelayTicketReplayCache
  destStats : DestStats

namespace CoreState

variable (env : RelayEnv) (s : CoreState)

/-- Nobody holds the lock of the shard of `sid`. -/
def unlocked (sid : SessionId) : Bool := s.guards (env.dashShardOf sid) = none

/-- Thread `t` holds the lock of the shard of `sid`. -/
def heldBy (t : Tid) (sid : SessionId) : Bool := s.guards (env.dashShardOf sid) = some t

def lock (t : Tid) (i : ℕ) : CoreState := { s with guards := Function.update s.guards i (some t) }

def unlock (i : ℕ) : CoreState := { s with guards := Function.update s.guards i none }

/-- Overwrite the entry of `sid`, if there is one. -/
def modify (sid : SessionId) (f : SessionEntry → SessionEntry) : CoreState :=
  match s.sessions.lookup sid with
  | none => s
  | some entry => { s with sessions := s.sessions.insert sid (f entry) }

/-- The entries in shard `i`. -/
def shardEntries (i : ℕ) : List (SessionId × SessionEntry) :=
  (s.sessions.entries.map fun e => (e.1, e.2)).filter fun e => decide (env.dashShardOf e.1 = i)

end CoreState

/-- What an operation of thread `t` answers and does; nothing if it is blocked. -/
def execCore (env : RelayEnv) (t : Tid) : (o : CoreOp) → CoreState → Option (o.Ret × CoreState)
  | .pendingAllow ip now, s =>
      let (allowed, pendingAuth) := s.pendingAuth.allow ip now
      some (allowed, { s with pendingAuth })
  | .sourceAllow ip kind now casWon, s =>
      let (allowed, limiter) := s.limiter.allow ip kind now casWon
      some (allowed, { s with limiter })
  | .verifyOnce token sid nowUnix casWon, s =>
      let (result, replayCache) :=
        verifyRelayTicketOnce env.codecs token sid env.auth nowUnix s.replayCache casWon
      some (result, { s with replayCache })
  | .sessionGet sid, s => if s.unlocked env sid then some (s.sessions.lookup sid, s) else none
  | .sessionContains sid, s =>
      if s.unlocked env sid then some ((s.sessions.lookup sid).isSome, s) else none
  | .sessionsLen, s => some (s.sessions.size, s)
  | .forwardingAddr sid nowUnix, s =>
      if s.unlocked env sid then
        some (forwardingAddr s.sessions sid env.authRequired nowUnix, s)
      else none
  | .entryLock sid, s =>
      -- the guard of `entry` is there whether or not the key is
      if s.unlocked env sid then some (s.sessions.lookup sid, s.lock t (env.dashShardOf sid))
      else none
  | .entryInsert sid entry, s =>
      if s.heldBy env t sid then
        some ((), { s.unlock (env.dashShardOf sid) with sessions := s.sessions.insert sid entry })
      else none
  | .entryTouch sid addr now nowUnix, s =>
      if s.heldBy env t sid then
        some ((), (s.modify sid fun e => e.touch addr now nowUnix).unlock (env.dashShardOf sid))
      else none
  | .entryRelease sid, s =>
      if s.heldBy env t sid then some ((), s.unlock (env.dashShardOf sid)) else none
  | .getMutLock sid, s =>
      -- `get_mut` has a guard only if the key is there
      if s.unlocked env sid then
        match s.sessions.lookup sid with
        | none => some (none, s)
        | some entry => some (some entry, s.lock t (env.dashShardOf sid))
      else none
  | .helloApply sid ticket addr now nowUnix, s =>
      if s.heldBy env t sid then
        some ((), (s.modify sid fun e => e.authenticate ticket addr now nowUnix).unlock
          (env.dashShardOf sid))
      else none
  | .setLegacyUser sid srcIp, s =>
      if s.unlocked env sid then some ((), s.modify sid fun e => e.observe srcIp) else none
  | .refresh sid now nowUnix, s =>
      if s.unlocked env sid then some ((), s.modify sid fun e => e.refresh now nowUnix) else none
  | .retainLock i, s =>
      if s.guards i = none then some (s.shardEntries env i, s.lock t i) else none
  | .retainErase sid, s =>
      if s.heldBy env t sid then some ((), { s with sessions := s.sessions.erase sid }) else none
  | .retainRelease i, s => if s.guards i = some t then some ((), s.unlock i) else none
  | .countGet ip, s => some ((s.counts.lookup ip).getD 0, s)
  | .countDec ip, s =>
      match s.counts.lookup ip with
      | none => some (false, s)
      | some count =>
          if count > 1 then some (true, { s with counts := s.counts.insert ip (count - 1) })
          else some (false, s)
  | .countRemove ip, s => some ((), { s with counts := s.counts.erase ip })
  | .countInc ip, s =>
      some ((), { s with counts := s.counts.insert ip ((s.counts.lookup ip).getD 0 + 1) })
  | .activeAdd, s => some ((), { s with activeSessions := s.activeSessions + 1 })
  | .activeSub, s => some ((), { s with activeSessions := s.activeSessions - 1 })
  | .parsePacket packet, s =>
      let (parsed, destStats) := parseIpPacketFull env.policy packet s.destStats
      some (parsed, { s with destStats })
  | .drop _, s => some ((), s)
  | .ack .., s => some ((), s)
  | .pong .., s => some ((), s)
  | .rttReport .., s => some ((), s)
  | .resolve .., s => some ((), s)
  | .tunSend _ accepted, s => some (accepted, s)
  | .sendTo .., s => some ((), s)

/-! ### What the operations do to the session map -/

attribute [local simp] execCore

/-- The operations that overwrite an entry, and how. -/
def CoreOp.modifies : CoreOp → Option (SessionId × (SessionEntry → SessionEntry))
  | .entryTouch sid addr now nowUnix => some (sid, fun e => e.touch addr now nowUnix)
  | .helloApply sid ticket addr now nowUnix =>
      some (sid, fun e => e.authenticate ticket addr now nowUnix)
  | .setLegacyUser sid srcIp => some (sid, fun e => e.observe srcIp)
  | .refresh sid now nowUnix => some (sid, fun e => e.refresh now nowUnix)
  | _ => none

theorem modify_sessions (s : CoreState) (sid : SessionId) (f : SessionEntry → SessionEntry) :
    (∃ e, s.sessions.lookup sid = some e ∧
      (s.modify sid f).sessions = s.sessions.insert sid (f e)) ∨
    (s.sessions.lookup sid = none ∧ (s.modify sid f).sessions = s.sessions) := by
  unfold CoreState.modify
  cases h : s.sessions.lookup sid with
  | none => exact Or.inr ⟨rfl, rfl⟩
  | some e => exact Or.inl ⟨e, rfl, rfl⟩

variable {env : RelayEnv} {s s' : CoreState} {t : Tid} {o : CoreOp} {r : o.Ret}

/-- An operation that overwrites an entry does so under the lock of its shard, or where there is no
lock. -/
theorem execCore_modifies {sid : SessionId} {f : SessionEntry → SessionEntry}
    (hmod : o.modifies = some (sid, f)) (h : execCore env t o s = some (r, s')) :
    (s.heldBy env t sid = true ∨ s.unlocked env sid = true) ∧
      s'.sessions = (s.modify sid f).sessions := by
  cases o <;> simp only [CoreOp.modifies, Option.some.injEq, Prod.mk.injEq, reduceCtorEq] at hmod
  all_goals
    obtain ⟨rfl, rfl⟩ := hmod
    obtain ⟨hlock, rfl, rfl⟩ := System.of_guarded h
    exact ⟨by simp [hlock], rfl⟩

/-- **Everything that an operation can do to the session map**: insert an entry or erase one under
the lock of its shard, overwrite the entry that it names under the lock or where there is none, or
nothing. -/
theorem execCore_sessions (h : execCore env t o s = some (r, s')) :
    (∃ sid e, o = .entryInsert sid e ∧ s.heldBy env t sid = true ∧
      s'.sessions = s.sessions.insert sid e) ∨
    (∃ sid, o = .retainErase sid ∧ s.heldBy env t sid = true ∧
      s'.sessions = s.sessions.erase sid) ∨
    (∃ sid f e, o.modifies = some (sid, f) ∧
      (s.heldBy env t sid = true ∨ s.unlocked env sid = true) ∧
      s.sessions.lookup sid = some e ∧ s'.sessions = s.sessions.insert sid (f e)) ∨
    s'.sessions = s.sessions := by
  cases hmod : o.modifies with
  | some m =>
      obtain ⟨hlock, hs'⟩ := execCore_modifies hmod h
      rcases modify_sessions s m.1 m.2 with ⟨e, he, hs⟩ | ⟨-, hs⟩
      · exact Or.inr (Or.inr (Or.inl ⟨m.1, m.2, e, rfl, hlock, he, hs'.trans hs⟩))
      · exact Or.inr (Or.inr (Or.inr (hs'.trans hs)))
  | none =>
      cases o <;> simp only [CoreOp.modifies, reduceCtorEq] at hmod <;> simp only [execCore] at h
      case entryInsert sid e =>
        split at h
        · next hheld =>
            cases h
            exact Or.inl ⟨sid, e, rfl, hheld, rfl⟩
        · cases h
      case retainErase sid =>
        split at h
        · next hheld =>
            cases h
            exact Or.inr (Or.inl ⟨sid, rfl, hheld, rfl⟩)
        · cases h
      -- no other operation writes the session map
      all_goals
        refine Or.inr (Or.inr (Or.inr ?_))
        repeat' split at h
        all_goals first
          | (cases h; rfl)
          | cases h

/-! ### What the operations do to the locks and the counts -/

theorem modify_guards (s : CoreState) (sid : SessionId) (f : SessionEntry → SessionEntry) :
    (s.modify sid f).guards = s.guards := by
  unfold CoreState.modify
  split <;> rfl

theorem modify_counts (s : CoreState) (sid : SessionId) (f : SessionEntry → SessionEntry) :
    (s.modify sid f).counts = s.counts := by
  unfold CoreState.modify
  split <;> rfl

theorem modify_activeSessions (s : CoreState) (sid : SessionId) (f : SessionEntry → SessionEntry) :
    (s.modify sid f).activeSessions = s.activeSessions := by
  unfold CoreState.modify
  split <;> rfl

/-- An operation takes a free lock for its thread, releases a lock of its thread, or leaves the
locks alone. -/
theorem execCore_guards (h : execCore env t o s = some (r, s')) :
    s'.guards = s.guards ∨
    (∃ i, s.guards i = none ∧ s'.guards = Function.update s.guards i (some t)) ∨
    (∃ i, s.guards i = some t ∧ s'.guards = Function.update s.guards i none) := by
  have hunlock : ∀ {sid : SessionId} {s₁ : CoreState}, s.heldBy env t sid = true →
      s₁.guards = s.guards → (s₁.unlock (env.dashShardOf sid)).guards =
        Function.update s.guards (env.dashShardOf sid) none := by
    intro sid s₁ _ hs
    rw [CoreState.unlock, hs]
  cases o <;> simp only [execCore] at h
  case entryLock sid =>
    split at h
    · next hfree =>
        cases h
        exact Or.inr (Or.inl ⟨_, by simpa [CoreState.unlocked] using hfree, rfl⟩)
    · cases h
  case getMutLock sid =>
    split at h
    · next hfree =>
        split at h
        · cases h
          exact Or.inl rfl
        · cases h
          exact Or.inr (Or.inl ⟨_, by simpa [CoreState.unlocked] using hfree, rfl⟩)
    · cases h
  case retainLock i =>
    split at h
    · next hfree =>
        cases h
        exact Or.inr (Or.inl ⟨i, hfree, rfl⟩)
    · cases h
  case retainRelease i =>
    split at h
    · next hheld =>
        cases h
        exact Or.inr (Or.inr ⟨i, hheld, rfl⟩)
    · cases h
  case entryInsert sid e =>
    split at h
    · next hheld =>
        cases h
        exact Or.inr (Or.inr ⟨_, by simpa [CoreState.heldBy] using hheld, rfl⟩)
    · cases h
  case entryTouch sid addr now nowUnix =>
    split at h
    · next hheld =>
        cases h
        exact Or.inr (Or.inr ⟨_, by simpa [CoreState.heldBy] using hheld,
          hunlock hheld (modify_guards _ _ _)⟩)
    · cases h
  case helloApply sid ticket addr now nowUnix =>
    split at h
    · next hheld =>
        cases h
        exact Or.inr (Or.inr ⟨_, by simpa [CoreState.heldBy] using hheld,
          hunlock hheld (modify_guards _ _ _)⟩)
    · cases h
  case entryRelease sid =>
    split at h
    · next hheld =>
        cases h
        exact Or.inr (Or.inr ⟨_, by simpa [CoreState.heldBy] using hheld, rfl⟩)
    · cases h
  -- the other operations have no guard that outlives them
  all_goals
    refine Or.inl ?_
    repeat' split at h
    all_goals first
      | (cases h; rfl)
      | (cases h; exact modify_guards _ _ _)
      | cases h

/-- Which operations change the counts and the number of sessions. -/
def CoreOp.counting : CoreOp → Bool
  | .countDec _ => true
  | .countRemove _ => true
  | .countInc _ => true
  | .activeAdd => true
  | .activeSub => true
  | _ => false

theorem execCore_counts (h : execCore env t o s = some (r, s')) (ho : o.counting = false) :
    s'.counts = s.counts ∧ s'.activeSessions = s.activeSessions := by
  cases o <;> simp only [CoreOp.counting, Bool.true_eq_false] at ho <;> simp only [execCore] at h
  all_goals
    repeat' split at h
    all_goals first
      | (cases h; exact ⟨rfl, rfl⟩)
      | (cases h; exact ⟨modify_counts _ _ _, modify_activeSessions _ _ _⟩)
      | cases h

theorem execCore_counting (ho : o.counting = true) (h : execCore env t o s = some (r, s')) :
    s'.sessions = s.sessions ∧ s'.guards = s.guards := by
  cases o <;> simp only [CoreOp.counting, Bool.false_eq_true] at ho <;> simp only [execCore] at h
  all_goals
    repeat' split at h
    all_goals
      cases h
      exact ⟨rfl, rfl⟩

/-! ### Reading the session map -/

section Reads

variable {env : RelayEnv} {t : Tid} {sid : SessionId} {s s' : CoreState} {r : Option SessionEntry}

theorem execCore_sessionGet (h : execCore env t (.sessionGet sid) s = some (r, s')) :
    r = s.sessions.lookup sid ∧ s' = s := by
  obtain ⟨-, rfl, rfl⟩ := System.of_guarded h
  exact ⟨rfl, rfl⟩

theorem execCore_sessionContains {r : Bool}
    (h : execCore env t (.sessionContains sid) s = some (r, s')) :
    r = (s.sessions.lookup sid).isSome ∧ s' = s := by
  obtain ⟨-, rfl, rfl⟩ := System.of_guarded h
  exact ⟨rfl, rfl⟩

theorem ticket_of_verifyOnce {token : String} {nowUnix : UInt64} {casWon : Bool}
    {ticket : VerifiedRelayTicket}
    (h : execCore env t (.verifyOnce token sid nowUnix casWon) s = some (.ok ticket, s')) :
    verifyRelayTicket env.codecs token sid env.auth nowUnix = .ok ticket := by
  have hresult : (verifyRelayTicketOnce env.codecs token sid env.auth nowUnix s.replayCache
      casWon).1 = .ok ticket := by
    simp only [execCore, Option.some.injEq, Prod.mk.injEq] at h
    exact h.1
  unfold verifyRelayTicketOnce at hresult
  split at hresult
  · cases hresult
  · next verified hverify =>
      split at hresult
      · cases hresult
      · cases hresult
        exact hverify

theorem lease_of_verifyOnce {token : String} {nowUnix : UInt64} {casWon : Bool}
    {ticket : VerifiedRelayTicket}
    (h : execCore env t (.verifyOnce token sid nowUnix casWon) s = some (.ok ticket, s')) :
    ticket.lease = true := by
  obtain ⟨_, _, _, _, rfl, -⟩ := verifyRelayTicket_ok (ticket_of_verifyOnce h)
  rfl

/-- `entry` answers with the entry and locks its shard. -/
theorem execCore_entryLock (h : execCore env t (.entryLock sid) s = some (r, s')) :
    r = s.sessions.lookup sid ∧ s'.sessions = s.sessions ∧
      s'.guards (env.dashShardOf sid) = some t := by
  obtain ⟨-, rfl, rfl⟩ := System.of_guarded h
  exact ⟨rfl, rfl, by simp [CoreState.lock]⟩

/-- `get_mut` answers with the entry, and locks its shard if there is one. -/
theorem execCore_getMutLock (h : execCore env t (.getMutLock sid) s = some (r, s')) :
    r = s.sessions.lookup sid ∧ s'.sessions = s.sessions ∧
      (r.isSome = true → s'.guards (env.dashShardOf sid) = some t) := by
  simp only [execCore] at h
  split at h
  · split at h
    · next hnone =>
        cases h
        exact ⟨hnone.symm, rfl, by simp⟩
    · next e he =>
        cases h
        exact ⟨he.symm, rfl, by simp [CoreState.lock]⟩
  · cases h

end Reads

/-! ### Writing the session map and the counts -/

section Writes

variable {env : RelayEnv} {t : Tid} {s s' : CoreState} {r : Unit} {ip : Ipv4Addr}

theorem execCore_entryInsert {sid : SessionId} {entry : SessionEntry}
    (h : execCore env t (.entryInsert sid entry) s = some (r, s')) :
    s'.sessions = s.sessions.insert sid entry := by
  obtain ⟨-, rfl, rfl⟩ := System.of_guarded h
  rfl

theorem execCore_retainErase {sid : SessionId}
    (h : execCore env t (.retainErase sid) s = some (r, s')) :
    s'.sessions = s.sessions.erase sid ∧ s'.guards = s.guards := by
  obtain ⟨-, rfl, rfl⟩ := System.of_guarded h
  exact ⟨rfl, rfl⟩

/-- `retain` visits the entries of a shard under its lock. -/
theorem execCore_retainLock {i : ℕ} {r : List (SessionId × SessionEntry)}
    (h : execCore env t (.retainLock i) s = some (r, s')) :
    r = s.shardEntries env i ∧ s'.sessions = s.sessions ∧ s'.guards i = some t := by
  obtain ⟨-, rfl, rfl⟩ := System.of_guarded h
  exact ⟨rfl, rfl, by simp [CoreState.lock]⟩

/-- A counter is lowered if it stands above one, and otherwise left alone. -/
theorem execCore_countDec {r : Bool} (h : execCore env t (.countDec ip) s = some (r, s')) :
    s'.activeSessions = s.activeSessions ∧
      ((r = true ∧ ∃ count, s.counts.lookup ip = some (count + 1) ∧
          s'.counts = s.counts.insert ip count) ∨
        (r = false ∧ (s.counts.lookup ip).getD 0 ≤ 1 ∧ s'.counts = s.counts)) := by
  simp only [execCore] at h
  split at h
  · next hnone =>
      cases h
      exact ⟨rfl, Or.inr ⟨rfl, by simp [hnone], rfl⟩⟩
  · next count hcount =>
      split at h
      · cases h
        exact ⟨rfl, Or.inl ⟨rfl, count - 1, by rw [hcount, Nat.sub_add_cancel (by omega)], rfl⟩⟩
      · next hle =>
          cases h
          exact ⟨rfl, Or.inr ⟨rfl, by simpa [hcount] using hle, rfl⟩⟩

theorem execCore_countRemove (h : execCore env t (.countRemove ip) s = some (r, s')) :
    s'.activeSessions = s.activeSessions ∧ s'.counts = s.counts.erase ip := by
  cases h
  exact ⟨rfl, rfl⟩

theorem execCore_countInc (h : execCore env t (.countInc ip) s = some (r, s')) :
    s'.activeSessions = s.activeSessions ∧
      s'.counts = s.counts.insert ip ((s.counts.lookup ip).getD 0 + 1) := by
  cases h
  exact ⟨rfl, rfl⟩

theorem execCore_activeAdd (h : execCore env t .activeAdd s = some (r, s')) :
    s'.activeSessions = s.activeSessions + 1 ∧ s'.counts = s.counts := by
  cases h
  exact ⟨rfl, rfl⟩

theorem execCore_activeSub (h : execCore env t .activeSub s = some (r, s')) :
    s'.activeSessions = s.activeSessions - 1 ∧ s'.counts = s.counts := by
  cases h
  exact ⟨rfl, rfl⟩

end Writes

end SwiftRelay
