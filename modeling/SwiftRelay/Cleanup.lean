/-
**The cleanup task.**

Every so often the cleanup task goes over the session map and removes the sessions that were idle
for too long, in the second datapath also those whose lease is long over.  `retain` holds the lock
of one shard of the map at a time while it visits the entries of that shard; what it does for an
entry that has to go happens inside the visit: the session count of the source, the number of active
sessions, and in the second datapath a message to the shard thread of the session, which is lost
when the inbox is full.  The first datapath goes over the flow map and then over its index before
that, one shard after the other.

Main definitions:

* `CleanupPass` — the clock readings of a pass;
* `sessionExpired` — which sessions go;
* `cleanupPass` — the pass, with its parts `retainSessions`, `retainShard` and `cleanupSession`.
-/

import SwiftRelay.Relay

set_option autoImplicit false

namespace SwiftRelay

open Conc

structure CleanupPass where
  now : Instant
  nowUnix : UInt64

/-- How long a lease may be over before the session goes: the grace period of the flows and the
tolerated clock skew, in seconds. -/
def leaseGraceSecs : UInt64 := 30 + authClockSkewSecs

def sessionIdleLimit : ℕ := sessionTimeout + flowGracePeriod

/-- The sessions that a pass removes. -/
def sessionExpired (env : RelayEnv) (p : CleanupPass) (session : SessionEntry) : Bool :=
  let idle := decide (durationSince p.now session.lastActivity ≥ sessionIdleLimit)
  match env.datapath with
  | .v1 => idle
  | .v2 =>
      let leaseLongOver := session.leaseExpiresAtUnix.any fun expiresAt =>
        decide (p.nowUnix ≥ Word64.satAdd expiresAt leaseGraceSecs)
      leaseLongOver || idle

/-- Tell the shard thread of a session that the session is gone, if its inbox has room. -/
def signalRemoval (env : RelayEnv) (sid : SessionId) : RelayProg Unit :=
  match env.datapath with
  | .v1 => return ()
  | .v2 => do
      let _ ← v2 (.shardSend (shardForSession sid env.shardCount) (.removeSession sid))
      return ()

/-- The visit of one entry. -/
def cleanupSession (env : RelayEnv) (p : CleanupPass) (entry : SessionId × SessionEntry) :
    RelayProg Unit := do
  if sessionExpired env p entry.2 then
    decrementSourceSessionCount entry.2.clientAddr.ip
    core .activeSub
    signalRemoval env entry.1
    core (.retainErase entry.1)

/-- The visit of one shard of the session map. -/
def retainShard (env : RelayEnv) (p : CleanupPass) (i : ℕ) : RelayProg Unit := do
  let entries ← core (.retainLock i)
  entries.forM (cleanupSession env p)
  core (.retainRelease i)

def retainSessions (env : RelayEnv) (p : CleanupPass) : RelayProg Unit :=
  (List.range env.dashShards).forM (retainShard env p)

/-- The keys of the flows that still exist. -/
def keepFlows : List FlowKey → RelayProg (List FlowKey)
  | [] => return []
  | key :: keys => do
      let kept ← v1 (.flowContains key)
      let keys ← keepFlows keys
      return if kept then key :: keys else keys

/-- The visit of one entry of the flow index: keys of flows that are gone are dropped, and the entry
goes with the last key or with the session. -/
def retainIndexEntry (entry : SessionId × List FlowKey) : RelayProg Unit := do
  let keys ← keepFlows entry.2
  let known ← if keys.isEmpty then pure false else core (.sessionContains entry.1)
  v1 (.indexStore entry.1 (if known then keys else []))

/-- The visit of one shard of the flow index. -/
def retainIndexShard (i : ℕ) : RelayProg Unit := do
  let entries ← v1 (.indexRetain i)
  entries.forM retainIndexEntry
  v1 (.indexRetainRelease i)

/-- The visit of the flow map and of its index. -/
def retainFlowsV1 (env : RelayEnv) (now : Instant) : RelayProg Unit := do
  (List.range env.flowShards).forM fun i => v1 (.flowsRetain i now)
  (List.range env.indexShards).forM retainIndexShard

/-- One pass of the cleanup task. -/
def cleanupPass (env : RelayEnv) (p : CleanupPass) : RelayProg Unit :=
  match env.datapath with
  | .v1 => do
      retainFlowsV1 env p.now
      retainSessions env p
  | .v2 => retainSessions env p

end SwiftRelay
