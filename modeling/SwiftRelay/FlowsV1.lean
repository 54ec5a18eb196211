/-
**The first datapath: the flow map.**

In the first datapath the receive loop looks flows up in a concurrent map, and each flow has a task
of its own with a socket and a bounded channel.  A second map, the index, lists the flows of each
session.  A flow whose key is reused gets a new *generation*, by which its task recognises that the
entry is no longer its own.

Both maps are divided into shards with a lock each.  What happens to the flow map behind a guard
touches nothing else that is shared, so an access to it is one operation, and so is the visit of one
of its shards.  The guards of the index outlive other operations.

Main definitions:

* `FlowEntry`, `FlowChannel`, `V1State` — an entry of the flow map, the channel to its task, and the
  whole state;
* `V1Op`, `execV1` — the operations on it.

Main results:

* `flowEntryStep` — everything that an operation can do to one flow;
* `execV1_flowRemoveIf` — when a task removes its flow.
-/

import SwiftRelay.Shards

set_option autoImplicit false

namespace SwiftRelay

open Conc

/-! ### The state -/

structure FlowEntry where
  generation : ℕ
  clientAddr : SocketAddr
  lastActivity : Instant
  originalInfo : OriginalPacketInfo
  markedForRemoval : Option Instant
  deriving DecidableEq

/-- The packets on their way to the task of a flow, and whether the task still receives them. -/
structure FlowChannel where
  queue : List (List UInt8)
  isOpen : Bool
  deriving DecidableEq

/-- A response on its way to the task that sends it. -/
structure V1Response where
  clientAddr : SocketAddr
  sessionId : SessionId
  frame : List UInt8
  deriving DecidableEq

/-- The flow map, the flows of each session with the locks of that index, the channels, the flows
whose tasks have been spawned, and the responses that wait to be sent. -/
structure V1State where
  flows : Table FlowKey FlowEntry
  sessionFlowKeys : Table SessionId (List FlowKey)
  indexGuards : ℕ → Option Tid
  channels : ℕ → FlowChannel
  tasks : Table ℕ FlowKey
  nextGeneration : ℕ
  responses : List V1Response

def V1State.new : V1State := ⟨∅, ∅, fun _ => none, fun _ => ⟨[], false⟩, ∅, 0, []⟩

namespace FlowEntry

variable (flow : FlowEntry)

/-- A flow after a client packet for it was handled. -/
def used (addr : SocketAddr) (info : OriginalPacketInfo) (now : Instant) : FlowEntry :=
  { flow with
    clientAddr := addr, originalInfo := info, lastActivity := now, markedForRemoval := none }

/-- A flow after a response came back on it. -/
def touch (now : Instant) : FlowEntry :=
  { flow with lastActivity := now, markedForRemoval := none }

/-- A flow after a keepalive of its session; unlike in the second datapath a mark stays. -/
def keepalive (addr : SocketAddr) (now : Instant) : FlowEntry :=
  { flow with clientAddr := addr, lastActivity := now }

/-- A flow after a cleanup pass, unless that removes it. -/
def cleanup (now : Instant) : Option FlowEntry :=
  match flow.markedForRemoval with
  | some markedAt =>
      if durationSince now markedAt ≥ flowGracePeriod then none
      else if durationSince now flow.lastActivity < secs 10 then
        some { flow with markedForRemoval := none }
      else some flow
  | none =>
      if durationSince now flow.lastActivity ≥ sessionTimeout then
        some { flow with markedForRemoval := some now }
      else some flow

variable {flow}

/-- A cleanup pass changes nothing but the mark of a flow. -/
theorem cleanup_eq {now : Instant} {flow' : FlowEntry} (h : flow.cleanup now = some flow') :
    flow' = { flow with markedForRemoval := flow'.markedForRemoval } := by
  unfold cleanup at h
  split at h
  · split at h
    · cases h
    · split at h <;> cases h <;> rfl
  · split at h <;> cases h <;> rfl

theorem cleanup_of_unmarked {now : Instant} (h : flow.markedForRemoval = none) :
    flow.cleanup now ≠ none := by
  unfold cleanup
  rw [h]
  simp only
  split <;> simp

end FlowEntry

/-! ### The operations -/

/-- What became of a client packet that the receive loop handed to the flow map. -/
inductive V1Forwarded
  | sent
  | full
  | closed (generation : ℕ)
  | opened (generation : ℕ)
  | vacant
  deriving DecidableEq

/-- The operations on the flow map, its index and the channels. -/
inductive V1Op
  | flowContains (key : FlowKey)
  | flowsLen
  | indexLen (sid : SessionId)
  | flowForward (key : FlowKey) (addr : SocketAddr) (info : OriginalPacketInfo)
      (payload : List UInt8) (now : Instant) (newFlow : Bool)
  | indexPush (sid : SessionId) (key : FlowKey)
  | spawn (generation : ℕ) (key : FlowKey)
  | flowKeepalive (key : FlowKey) (addr : SocketAddr) (now : Instant)
  | indexLock (sid : SessionId)
  | flowRemoveIf (key : FlowKey) (generation : ℕ)
  | indexDropKey (sid : SessionId) (key : FlowKey)
  | indexRelease (sid : SessionId)
  | taskKey (generation : ℕ)
  | flowGet (key : FlowKey)
  | flowTouchIf (key : FlowKey) (generation : ℕ) (now : Instant)
  | channelRecv (generation : ℕ)
  | taskExit (generation : ℕ)
  | flowSend (generation : ℕ) (payload : List UInt8)
  | flowReceive (generation : ℕ) (payload : List UInt8)
  | respond (response : V1Response)
  | responseRecv
  | flowsRetain (i : ℕ) (now : Instant)
  | indexRetain (i : ℕ)
  | indexStore (sid : SessionId) (keys : List FlowKey)
  | indexRetainRelease (i : ℕ)

abbrev V1Op.Ret : V1Op → Type
  | .flowContains _ => Bool
  | .flowsLen => ℕ
  | .indexLen _ => ℕ
  | .flowForward .. => V1Forwarded
  | .indexLock _ => List FlowKey
  | .flowRemoveIf .. => Bool
  | .taskKey _ => Option FlowKey
  | .flowGet _ => Option FlowEntry
  | .channelRecv _ => Option (List UInt8)
  | .responseRecv => Option V1Response
  | .indexRetain _ => List (SessionId × List FlowKey)
  | _ => Unit

/-- The shard of the flow map that holds a flow. -/
def FlowKey.shard (env : RelayEnv) (key : FlowKey) : ℕ := env.flowShardOf key.sessionId key.gameAddr

namespace V1State

variable (s : V1State)

/-- The keys of the flows that are listed for a session. -/
def keysOf (sid : SessionId) : List FlowKey := (s.sessionFlowKeys.lookup sid).getD []

/-- Nobody holds the lock of the shard of the index that `sid` is in. -/
def indexFree (env : RelayEnv) (sid : SessionId) : Bool :=
  s.indexGuards (env.indexShardOf sid) = none

/-- Thread `t` holds the lock of the shard of the index that `sid` is in. -/
def indexHeldBy (env : RelayEnv) (t : Tid) (sid : SessionId) : Bool :=
  s.indexGuards (env.indexShardOf sid) = some t

def setIndexGuard (i : ℕ) (holder : Option Tid) : V1State :=
  { s with indexGuards := Function.update s.indexGuards i holder }

/-- The entries of the index in shard `i`. -/
def indexEntries (env : RelayEnv) (i : ℕ) : List (SessionId × List FlowKey) :=
  (s.sessionFlowKeys.entries.map fun e => (e.1, e.2)).filter fun e =>
    decide (env.indexShardOf e.1 = i)

/-- Overwrite a flow, if there is one. -/
def modifyFlow (key : FlowKey) (f : FlowEntry → FlowEntry) : V1State :=
  match s.flows.lookup key with
  | none => s
  | some flow => { s with flows := s.flows.insert key (f flow) }

/-- Put a packet on the channel of a flow, if it is open and has room. -/
def trySend (capacity generation : ℕ) (payload : List UInt8) : V1Forwarded × V1State :=
  let channel := s.channels generation
  if !channel.isOpen then (.closed generation, s)
  else if channel.queue.length ≥ capacity then (.full, s)
  else
    (.sent, { s with
      channels := Function.update s.channels generation
        { channel with queue := channel.queue ++ [payload] } })

/-- A new flow, with its first packet on its channel. -/
def openFlow (key : FlowKey) (addr : SocketAddr) (info : OriginalPacketInfo)
    (payload : List UInt8) (now : Instant) : V1State :=
  { s with
    nextGeneration := s.nextGeneration + 1
    channels := Function.update s.channels s.nextGeneration ⟨[payload], true⟩
    flows := s.flows.insert key ⟨s.nextGeneration, addr, now, info, none⟩ }

/-- Store the flows of a session; a session without flows has no entry. -/
def storeIndex (sid : SessionId) (keys : List FlowKey) : V1State :=
  { s with
    sessionFlowKeys :=
      if keys.isEmpty then s.sessionFlowKeys.erase sid else s.sessionFlowKeys.insert sid keys }

end V1State

/-- What an operation of thread `t` answers and does; nothing if it is blocked. -/
def execV1 (env : RelayEnv) (t : Tid) : (o : V1Op) → V1State → Option (o.Ret × V1State)
  | .flowContains key, s => some ((s.flows.lookup key).isSome, s)
  | .flowsLen, s => some (s.flows.size, s)
  | .indexLen sid, s => if s.indexFree env sid then some ((s.keysOf sid).length, s) else none
  | .flowForward key addr info payload now newFlow, s =>
      -- all of this happens behind the guard of `entry`
      match s.flows.lookup key with
      | some flow =>
          some ((s.modifyFlow key fun flow => flow.used addr info now).trySend
            env.flowChannelCapacity flow.generation payload)
      | none =>
          if newFlow then
            some (.opened s.nextGeneration, s.openFlow key addr info payload now)
          else some (.vacant, s)
  | .indexPush sid key, s =>
      if s.indexFree env sid then some ((), s.storeIndex sid (s.keysOf sid ++ [key])) else none
  | .spawn generation key, s => some ((), { s with tasks := s.tasks.insert generation key })
  | .flowKeepalive key addr now, s =>
      some ((), s.modifyFlow key fun flow => flow.keepalive addr now)
  | .indexLock sid, s =>
      if s.indexFree env sid then
        some (s.keysOf sid, s.setIndexGuard (env.indexShardOf sid) (some t))
      else none
  | .flowRemoveIf key generation, s =>
      match s.flows.lookup key with
      | none => some (false, s)
      | some flow =>
          if flow.generation = generation then some (true, { s with flows := s.flows.erase key })
          else some (false, s)
  | .indexDropKey sid key, s =>
      if s.indexHeldBy env t sid then
        some ((), s.storeIndex sid ((s.keysOf sid).filter (· ≠ key)))
      else none
  | .indexRelease sid, s =>
      if s.indexHeldBy env t sid then some ((), s.setIndexGuard (env.indexShardOf sid) none)
      else none
  | .taskKey generation, s => some (s.tasks.lookup generation, s)
  | .flowGet key, s => some (s.flows.lookup key, s)
  | .flowTouchIf key generation now, s =>
      some ((), s.modifyFlow key fun flow =>
        if flow.generation = generation then flow.touch now else flow)
  | .channelRecv generation, s =>
      let channel := s.channels generation
      match channel.queue with
      | [] => some (none, s)
      | payload :: queue =>
          some (some payload, { s with
            channels := Function.update s.channels generation { channel with queue } })
  | .taskExit generation, s =>
      -- the receiver of the channel goes with the task
      some ((), { s with
        channels := Function.update s.channels generation ⟨[], false⟩
        tasks := s.tasks.erase generation })
  | .flowSend .., s => some ((), s)
  | .flowReceive .., s => some ((), s)
  | .respond response, s => some ((), { s with responses := s.responses ++ [response] })
  | .responseRecv, s =>
      match s.responses with
      | [] => some (none, s)
      | response :: responses => some (some response, { s with responses })
  | .flowsRetain i now, s =>
      some ((), { s with
        flows := s.flows.revise fun key flow =>
          if key.shard env = i then flow.cleanup now else some flow })
  | .indexRetain i, s =>
      if s.indexGuards i = none then some (s.indexEntries env i, s.setIndexGuard i (some t))
      else none
  | .indexStore sid keys, s =>
      if s.indexHeldBy env t sid then some ((), s.storeIndex sid keys) else none
  | .indexRetainRelease i, s =>
      if s.indexGuards i = some t then some ((), s.setIndexGuard i none) else none

namespace V1State

variable (s : V1State)

theorem lookup_modifyFlow (key key' : FlowKey) (f : FlowEntry → FlowEntry) :
    (s.modifyFlow key f).flows.lookup key' =
      if key' = key then (s.flows.lookup key).map f else s.flows.lookup key' := by
  unfold modifyFlow
  split
  · next hnone =>
      split
      · next heq => rw [heq, hnone, Option.map_none]
      · rfl
  · next flow hflow => simp only [Table.lookup_insert_eq, hflow, Option.map_some]

@[simp] theorem trySend_flows (capacity generation : ℕ) (payload : List UInt8) :
    (s.trySend capacity generation payload).2.flows = s.flows := by
  unfold trySend
  simp only
  split
  · rfl
  · split <;> rfl

end V1State

/-! ### What an operation does to one flow -/

/-- The time at which an operation counts as activity of the flow: a client packet for it, a
keepalive of its session that reaches it, a response that its own task has queued. -/
def V1Op.activity (key : FlowKey) (flow : Option FlowEntry) : V1Op → Option Instant
  | .flowForward key' _ _ _ now _ => if key' = key then some now else none
  | .flowKeepalive key' _ now => if key' = key then some now else none
  | .flowTouchIf key' generation now =>
      if key' = key ∧ flow.any (fun flow => flow.generation = generation) then some now else none
  | _ => none

/-- What an operation can do to the flow with a key. -/
inductive FlowEntryStep (env : RelayEnv) (o : V1Op) (s : V1State) (key : FlowKey) :
    Option FlowEntry → Option FlowEntry → Prop
  | opened (addr : SocketAddr) (info : OriginalPacketInfo) (payload : List UInt8) (now : Instant)
      (ho : o = .flowForward key addr info payload now true) :
      FlowEntryStep env o s key none (some ⟨s.nextGeneration, addr, now, info, none⟩)
  | used (flow : FlowEntry) (addr : SocketAddr) (info : OriginalPacketInfo) (payload : List UInt8)
      (now : Instant) (newFlow : Bool) (ho : o = .flowForward key addr info payload now newFlow) :
      FlowEntryStep env o s key (some flow) (some (flow.used addr info now))
  | kept (flow : FlowEntry) (addr : SocketAddr) (now : Instant)
      (ho : o = .flowKeepalive key addr now) :
      FlowEntryStep env o s key (some flow) (some (flow.keepalive addr now))
  | touched (flow : FlowEntry) (now : Instant) (ho : o = .flowTouchIf key flow.generation now) :
      FlowEntryStep env o s key (some flow) (some (flow.touch now))
  | removed (flow : FlowEntry) (ho : o = .flowRemoveIf key flow.generation) :
      FlowEntryStep env o s key (some flow) none
  | swept (flow : FlowEntry) (now : Instant) (ho : o = .flowsRetain (key.shard env) now) :
      FlowEntryStep env o s key (some flow) (flow.cleanup now)
  | absent : FlowEntryStep env o s key none none
  | same (flow : FlowEntry) (ho : o.activity key (some flow) = none) :
      FlowEntryStep env o s key (some flow) (some flow)

variable {env : RelayEnv} {s : V1State} {key : FlowKey}

theorem FlowEntryStep.of_eq {o : V1Op} {x y : Option FlowEntry} (h : y = x)
    (ho : o.activity key x = none) : FlowEntryStep env o s key x y := by
  subst h
  cases y with
  | none => exact .absent
  | some flow => exact .same flow ho

theorem FlowEntryStep.gone {o : V1Op} {flow : FlowEntry} {y : Option FlowEntry}
    (h : FlowEntryStep env o s key (some flow) y) (hy : y = none) :
    o = .flowRemoveIf key flow.generation ∨
      ∃ now, o = .flowsRetain (key.shard env) now ∧ flow.cleanup now = none := by
  cases h with
  | removed _ ho => exact .inl ho
  | swept _ now ho => exact .inr ⟨now, ho, hy⟩
  | _ => cases hy

theorem execV1_flowRemoveIf {t : Tid} {generation : ℕ} {removed : Bool} {s' : V1State}
    (h : execV1 env t (.flowRemoveIf key generation) s = some (removed, s')) :
    (removed = false ∧ s' = s) ∨ (∃ flow, removed = true ∧ s.flows.lookup key = some flow ∧
      flow.generation = generation ∧ s' = { s with flows := s.flows.erase key }) := by
  simp only [execV1] at h
  split at h
  · cases h
    exact .inl ⟨rfl, rfl⟩
  · next flow hflow =>
      split at h
      · next hgen =>
          cases h
          exact .inr ⟨flow, rfl, hflow, hgen, rfl⟩
      · cases h
        exact .inl ⟨rfl, rfl⟩

theorem flowEntryStep {t : Tid} {o : V1Op} {r : o.Ret} {s' : V1State}
    (h : execV1 env t o s = some (r, s')) (key : FlowKey) :
    FlowEntryStep env o s key (s.flows.lookup key) (s'.flows.lookup key) := by
  cases o with
  | flowForward key' addr info payload now newFlow =>
      by_cases hkey : key = key'
      · subst hkey
        simp only [execV1] at h
        split at h
        · next flow hflow =>
            have hs' := congrArg (fun x : Option (V1Forwarded × V1State) =>
              x.map fun r => r.2.flows.lookup key) h
            simp only [Option.map_some, V1State.trySend_flows, V1State.lookup_modifyFlow, if_true,
              hflow, Option.some.injEq] at hs'
            rw [hflow, ← hs']
            exact .used flow addr info payload now newFlow rfl
        · next hnone =>
            split at h
            · next hnew =>
                cases h
                rw [hnone, V1State.openFlow, Table.lookup_insert_eq, if_pos rfl]
                exact .opened addr info payload now (by rw [hnew])
            · cases h
              rw [hnone]
              exact .absent
      · refine .of_eq ?_ (if_neg (Ne.symm hkey))
        simp only [execV1] at h
        split at h
        · have hs' := congrArg (fun x : Option (V1Forwarded × V1State) =>
            x.map fun r => r.2.flows.lookup key) h
          simpa [V1State.lookup_modifyFlow, hkey] using hs'.symm
        · split at h
          · cases h
            simp [V1State.openFlow, Table.lookup_insert_eq, hkey]
          · cases h
            rfl
  | flowKeepalive key' addr now =>
      cases h
      rw [V1State.lookup_modifyFlow]
      split
      · next hkey =>
          subst hkey
          cases s.flows.lookup key with
          | none => exact .absent
          | some flow => exact .kept flow addr now rfl
      · next hkey => exact .of_eq rfl (if_neg (Ne.symm hkey))
  | flowTouchIf key' generation now =>
      cases h
      rw [V1State.lookup_modifyFlow]
      split
      · next hkey =>
          subst hkey
          cases s.flows.lookup key with
          | none => exact .absent
          | some flow =>
              rw [Option.map_some]
              split
              · next hgen => exact .touched flow now (by rw [hgen])
              · next hgen => exact .same flow (if_neg (by simp [hgen]))
      · next hkey => exact .of_eq rfl (if_neg fun h => hkey h.1.symm)
  | flowRemoveIf key' generation =>
      obtain ⟨-, rfl⟩ | ⟨flow, -, hflow, rfl, rfl⟩ := execV1_flowRemoveIf h
      · exact .of_eq rfl rfl
      · rw [Table.lookup_erase_eq]
        split
        · next hkey =>
            subst hkey
            rw [hflow]
            exact .removed flow rfl
        · exact .of_eq rfl rfl
  | flowsRetain i now =>
      cases h
      rw [Table.lookup_revise]
      cases s.flows.lookup key with
      | none => exact .absent
      | some flow =>
          rw [Option.bind_some]
          split
          · next hi => exact .swept flow now (by rw [hi])
          · exact .same flow rfl
  | indexLen sid | indexPush sid key' | indexLock sid | indexDropKey sid key' | indexRelease sid
  | indexRetain i | indexStore sid keys | indexRetainRelease i =>
      obtain ⟨-, -, rfl⟩ := System.of_guarded h
      exact .of_eq rfl rfl
  | channelRecv generation | responseRecv =>
      simp only [execV1] at h
      split at h <;> cases h <;> exact .of_eq rfl rfl
  | _ => cases h; exact .of_eq rfl rfl

/-! ### What an operation does to the index -/

namespace V1State

variable (s : V1State)

/-- The generation of the flow with a key, if there is one. -/
def generationOf (key : FlowKey) : Option ℕ := (s.flows.lookup key).map FlowEntry.generation

theorem generationOf_modifyFlow (key key' : FlowKey) {f : FlowEntry → FlowEntry}
    (hf : ∀ flow, (f flow).generation = flow.generation) :
    (s.modifyFlow key f).generationOf key' = s.generationOf key' := by
  unfold generationOf
  rw [lookup_modifyFlow]
  split
  · next heq =>
      rw [heq, Option.map_map]
      exact congrArg (fun g => (s.flows.lookup key).map g) (funext hf)
  · rfl

theorem generationOf_openFlow (key key' : FlowKey) (addr : SocketAddr) (info : OriginalPacketInfo)
    (payload : List UInt8) (now : Instant) :
    (s.openFlow key addr info payload now).generationOf key' =
      if key' = key then some s.nextGeneration else s.generationOf key' := by
  unfold generationOf openFlow
  rw [Table.lookup_insert_eq]
  split <;> rfl

theorem keysOf_storeIndex (sid sid' : SessionId) (keys : List FlowKey) :
    (s.storeIndex sid keys).keysOf sid' = if sid' = sid then keys else s.keysOf sid' := by
  unfold storeIndex keysOf
  simp only
  split
  · next hempty =>
      rw [Table.lookup_erase_eq]
      split
      · rw [List.isEmpty_iff.1 hempty, Option.getD_none]
      · rfl
  · rw [Table.lookup_insert_eq]
    split
    · rw [Option.getD_some]
    · rfl

/-- The visit of a shard of the index finds the flows of every session in it. -/
theorem mem_indexEntries {env : RelayEnv} {i : ℕ} {sid : SessionId} {keys : List FlowKey}
    (h : (sid, keys) ∈ s.indexEntries env i) : env.indexShardOf sid = i ∧ s.keysOf sid = keys := by
  obtain ⟨hmem, hi⟩ := List.mem_filter.1 h
  obtain ⟨⟨sid', keys'⟩, hentry, heq⟩ := List.mem_map.1 hmem
  cases heq
  refine ⟨of_decide_eq_true hi, ?_⟩
  rw [keysOf, Table.lookup_eq_some_iff.2 hentry, Option.getD_some]

theorem mem_indexEntries_of_mem {env : RelayEnv} {sid : SessionId} {key : FlowKey}
    (h : key ∈ s.keysOf sid) : sid ∈ (s.indexEntries env (env.indexShardOf sid)).map Prod.fst := by
  unfold keysOf at h
  cases hlookup : s.sessionFlowKeys.lookup sid with
  | none => simp [hlookup] at h
  | some keys =>
      refine List.mem_map.2 ⟨(sid, keys), List.mem_filter.2 ⟨List.mem_map.2 ⟨⟨sid, keys⟩, ?_, rfl⟩,
        decide_eq_true rfl⟩, rfl⟩
      exact Table.lookup_eq_some_iff.1 hlookup

theorem nodup_indexEntries (env : RelayEnv) (i : ℕ) :
    ((s.indexEntries env i).map Prod.fst).Nodup := by
  unfold indexEntries
  have hkeys : (s.sessionFlowKeys.entries.map fun e => (e.1, e.2)).map Prod.fst =
      s.sessionFlowKeys.entries.keys := by
    rw [List.map_map]
    rfl
  refine List.Nodup.sublist (List.filter_sublist.map Prod.fst) ?_
  rw [hkeys]
  exact s.sessionFlowKeys.nodupKeys

/-- The same flows, with the same index and the same tasks. -/
structure Agrees (s s' : V1State) : Prop where
  generations : ∀ key, s'.generationOf key = s.generationOf key
  index : s'.sessionFlowKeys = s.sessionFlowKeys
  guards : s'.indexGuards = s.indexGuards
  tasks : s'.tasks = s.tasks
  next : s'.nextGeneration = s.nextGeneration

theorem Agrees.keysOf {s s' : V1State} (h : s.Agrees s') (sid : SessionId) :
    s'.keysOf sid = s.keysOf sid := by
  rw [V1State.keysOf, V1State.keysOf, h.index]

theorem agrees_modifyFlow (key : FlowKey) {f : FlowEntry → FlowEntry}
    (hf : ∀ flow, (f flow).generation = flow.generation) : s.Agrees (s.modifyFlow key f) := by
  have hgen := fun key' => s.generationOf_modifyFlow key key' hf
  unfold modifyFlow at hgen ⊢
  split
  · exact ⟨fun _ => rfl, rfl, rfl, rfl, rfl⟩
  · next flow hflow =>
      simp only [hflow] at hgen
      exact ⟨hgen, rfl, rfl, rfl, rfl⟩

theorem Agrees.trySend {s s' : V1State} (h : s.Agrees s') (capacity generation : ℕ)
    (payload : List UInt8) : s.Agrees (s'.trySend capacity generation payload).2 := by
  unfold V1State.trySend
  simp only
  split
  · exact h
  · split
    · exact h
    · exact ⟨h.generations, h.index, h.guards, h.tasks, h.next⟩

theorem trySend_ne_opened (capacity generation g : ℕ) (payload : List UInt8) :
    (s.trySend capacity generation payload).1 ≠ .opened g := by
  unfold trySend
  simp only
  split
  · simp
  · split <;> simp

end V1State

section Index

variable {env : RelayEnv} {t : Tid} {s s' : V1State}

/-- A client packet opens a flow, or leaves the flows and the index as they are. -/
theorem execV1_flowForward {key : FlowKey} {addr : SocketAddr} {info : OriginalPacketInfo}
    {payload : List UInt8} {now : Instant} {newFlow : Bool} {r : V1Forwarded}
    (h : execV1 env t (.flowForward key addr info payload now newFlow) s = some (r, s')) :
    (s.generationOf key = none ∧ newFlow = true ∧ r = .opened s.nextGeneration ∧
      s' = s.openFlow key addr info payload now) ∨ ((∀ g, r ≠ .opened g) ∧ s.Agrees s') := by
  simp only [execV1] at h
  split at h
  · next flow hflow =>
      have hr := congrArg Prod.fst (Option.some.inj h)
      have hs' := congrArg Prod.snd (Option.some.inj h)
      refine .inr ⟨fun g hg => ?_, ?_⟩
      · exact V1State.trySend_ne_opened _ _ _ _ _ (hr.trans hg)
      · rw [show s' = _ from hs'.symm]
        exact (s.agrees_modifyFlow key fun _ => by rfl).trySend _ _ _
  · next hnone =>
      split at h
      · next hnew =>
          cases h
          exact .inl ⟨by rw [V1State.generationOf, hnone, Option.map_none], hnew, rfl, rfl⟩
      · cases h
        exact .inr ⟨by simp, ⟨fun _ => rfl, rfl, rfl, rfl, rfl⟩⟩

/-- The operations that leave the flows, the index and the tasks as they are. -/
def V1Op.quiet : V1Op → Bool
  | .flowContains _ | .flowsLen | .indexLen _ | .flowKeepalive .. => true
  | .taskKey _ | .flowGet _ | .flowTouchIf .. | .channelRecv _ => true
  | .flowSend .. | .flowReceive .. | .respond _ | .responseRecv => true
  | _ => false

variable {o : V1Op} {r : o.Ret}

theorem execV1_quiet (ho : o.quiet = true) (h : execV1 env t o s = some (r, s')) : s.Agrees s' := by
  have hrefl : s.Agrees s := ⟨fun _ => rfl, rfl, rfl, rfl, rfl⟩
  cases o with
  | flowKeepalive key addr now =>
      cases h
      exact s.agrees_modifyFlow key fun _ => rfl
  | flowTouchIf key generation now =>
      cases h
      refine s.agrees_modifyFlow key fun flow => ?_
      split <;> rfl
  | indexLen sid =>
      obtain ⟨-, -, rfl⟩ := System.of_guarded h
      exact hrefl
  | channelRecv generation | responseRecv =>
      simp only [execV1] at h
      split at h <;> cases h
      · exact hrefl
      · exact ⟨fun _ => rfl, rfl, rfl, rfl, rfl⟩
  | flowContains _ | flowsLen | taskKey _ | flowGet _ | flowSend _ _ | flowReceive _ _ =>
      cases h
      exact hrefl
  | respond response =>
      cases h
      exact ⟨fun _ => rfl, rfl, rfl, rfl, rfl⟩
  | _ => cases ho

/-- The operations that open or remove a single flow, or change the index. -/
def V1Op.writes : V1Op → Bool
  | .flowForward .. | .flowRemoveIf .. => true
  | .indexPush .. | .indexDropKey .. | .indexStore .. => true
  | _ => false

/-- What the other operations can do: flows go when they are cleaned up, and a task is spawned or
ends. -/
structure V1Op.Calm (o : V1Op) (s s' : V1State) : Prop where
  generations : ∀ key, s'.generationOf key = s.generationOf key ∨
    (s'.generationOf key = none ∧ ∃ i now flow, o = .flowsRetain i now ∧
      s.flows.lookup key = some flow ∧ flow.markedForRemoval ≠ none)
  index : ∀ sid, s'.keysOf sid = s.keysOf sid
  tasks : ∀ generation key, s'.tasks.lookup generation = some key →
    s.tasks.lookup generation = some key ∨ o = .spawn generation key
  next : s'.nextGeneration = s.nextGeneration

theorem V1State.Agrees.calm (h : s.Agrees s') : o.Calm s s' :=
  ⟨fun key => .inl (h.generations key), h.keysOf, fun _ _ hkey => .inl (h.tasks ▸ hkey), h.next⟩

theorem execV1_calm (ho : o.writes = false) (h : execV1 env t o s = some (r, s')) :
    o.Calm s s' := by
  have hguard (i : ℕ) (holder : Option Tid) : o.Calm s (s.setIndexGuard i holder) :=
    ⟨fun _ => .inl rfl, fun _ => rfl, fun _ _ hkey => .inl hkey, rfl⟩
  cases o with
  | spawn generation key =>
      cases h
      refine ⟨fun _ => .inl rfl, fun _ => rfl, fun generation' key' hkey => ?_, rfl⟩
      rw [Table.lookup_insert_eq] at hkey
      split at hkey
      · next heq =>
          cases hkey
          exact .inr (by rw [heq])
      · exact .inl hkey
  | taskExit generation =>
      cases h
      refine ⟨fun _ => .inl rfl, fun _ => rfl, fun generation' key' hkey => .inl ?_, rfl⟩
      rw [Table.lookup_erase_eq] at hkey
      split at hkey
      · cases hkey
      · exact hkey
  | flowsRetain i now =>
      cases h
      refine ⟨fun key => ?_, fun _ => rfl, fun _ _ hkey => .inl hkey, rfl⟩
      simp only [V1State.generationOf, Table.lookup_revise]
      cases hflow : s.flows.lookup key with
      | none => exact .inl rfl
      | some flow =>
          rw [Option.bind_some]
          split
          · cases hcleanup : flow.cleanup now with
            | none =>
                exact .inr ⟨rfl, i, now, flow, rfl, rfl, fun hmark =>
                  FlowEntry.cleanup_of_unmarked hmark hcleanup⟩
            | some flow' => exact .inl (by rw [FlowEntry.cleanup_eq hcleanup]; rfl)
          · exact .inl rfl
  | indexLock sid | indexRelease sid | indexRetain i | indexRetainRelease i =>
      obtain ⟨-, -, rfl⟩ := System.of_guarded h
      exact hguard _ _
  | flowForward _ _ _ _ _ _ | flowRemoveIf _ _ | indexPush _ _ | indexDropKey _ _
  | indexStore _ _ => cases ho
  | _ => exact (execV1_quiet rfl h).calm

theorem execV1_tasks (h : execV1 env t o s = some (r, s')) :
    (∃ generation key, o = .spawn generation key ∧ s'.tasks = s.tasks.insert generation key) ∨
    (∃ generation, o = .taskExit generation ∧ s'.tasks = s.tasks.erase generation) ∨
    s'.tasks = s.tasks := by
  cases o with
  | spawn generation key => cases h; exact .inl ⟨generation, key, rfl, rfl⟩
  | taskExit generation => cases h; exact .inr (.inl ⟨generation, rfl, rfl⟩)
  | flowForward key addr info payload now newFlow =>
      obtain ⟨-, -, -, rfl⟩ | ⟨-, hsame⟩ := execV1_flowForward h
      · exact .inr (.inr rfl)
      · exact .inr (.inr hsame.tasks)
  | flowRemoveIf key generation =>
      obtain ⟨-, rfl⟩ | ⟨_, -, -, -, rfl⟩ := execV1_flowRemoveIf h
      · exact .inr (.inr rfl)
      · exact .inr (.inr rfl)
  | indexPush sid key | indexDropKey sid key | indexStore sid keys | indexLock sid
  | indexRelease sid | indexRetain i | indexRetainRelease i =>
      obtain ⟨-, -, rfl⟩ := System.of_guarded h
      exact .inr (.inr rfl)
  | flowsRetain i now => cases h; exact .inr (.inr rfl)
  | _ => exact .inr (.inr (execV1_quiet rfl h).tasks)

theorem execV1_nextGeneration (h : execV1 env t o s = some (r, s')) :
    s.nextGeneration ≤ s'.nextGeneration := by
  cases hwrites : o.writes with
  | false => exact Nat.le_of_eq (execV1_calm hwrites h).next.symm
  | true =>
      cases o with
      | flowForward key addr info payload now newFlow =>
          obtain ⟨-, -, -, rfl⟩ | ⟨-, hsame⟩ := execV1_flowForward h
          · exact Nat.le_succ _
          · exact Nat.le_of_eq hsame.next.symm
      | flowRemoveIf key generation =>
          obtain ⟨-, rfl⟩ | ⟨_, -, -, -, rfl⟩ := execV1_flowRemoveIf h
          · exact Nat.le_refl _
          · exact Nat.le_refl _
      | indexPush sid key | indexDropKey sid key | indexStore sid keys =>
          obtain ⟨-, -, rfl⟩ := System.of_guarded h
          exact Nat.le_refl _
      | _ => cases hwrites

/-- Nobody else takes or releases a lock of the index while a thread holds it. -/
theorem execV1_guard (h : execV1 env t o s = some (r, s')) {u : Tid} (hne : t ≠ u) {i : ℕ}
    (hlock : s.indexGuards i = some u) : s'.indexGuards i = some u := by
  have htake {j : ℕ} (hj : s.indexGuards j = none) :
      (s.setIndexGuard j (some t)).indexGuards i = some u := by
    have hij : i ≠ j := by
      rintro rfl
      rw [hlock] at hj
      cases hj
    exact (Function.update_of_ne hij ..).trans hlock
  have hgive {j : ℕ} (hj : s.indexGuards j = some t) :
      (s.setIndexGuard j none).indexGuards i = some u := by
    have hij : i ≠ j := by
      rintro rfl
      rw [hlock] at hj
      exact hne (Option.some.inj hj).symm
    exact (Function.update_of_ne hij ..).trans hlock
  cases o with
  | flowForward key addr info payload now newFlow =>
      obtain ⟨-, -, -, rfl⟩ | ⟨-, hsame⟩ := execV1_flowForward h
      · exact hlock
      · rw [hsame.guards, hlock]
  | indexLock sid =>
      obtain ⟨hfree, -, rfl⟩ := System.of_guarded h
      exact htake (of_decide_eq_true hfree)
  | indexRetain j =>
      obtain ⟨hfree, -, rfl⟩ := System.of_guarded h
      exact htake hfree
  | indexRelease sid =>
      obtain ⟨hheld, -, rfl⟩ := System.of_guarded h
      exact hgive (of_decide_eq_true hheld)
  | indexRetainRelease j =>
      obtain ⟨hheld, -, rfl⟩ := System.of_guarded h
      exact hgive hheld
  | flowRemoveIf key generation =>
      obtain ⟨-, rfl⟩ | ⟨_, -, -, -, rfl⟩ := execV1_flowRemoveIf h
      · exact hlock
      · exact hlock
  | indexPush sid key | indexDropKey sid key | indexStore sid keys =>
      obtain ⟨-, -, rfl⟩ := System.of_guarded h
      exact hlock
  | spawn _ _ | taskExit _ | flowsRetain _ _ =>
      cases h
      exact hlock
  | _ => rw [(execV1_quiet rfl h).guards, hlock]

end Index

end SwiftRelay
