/-
**Whom a response inside the tunnel is for.**

A flow is found by its session and its game server.  The applications behind one session have
endpoints of their own inside the tunnel, and two of them can talk to one server: then they share
the flow and its socket, the server sees a single peer, and its answers go to the endpoint of
whoever sent last.

As long as there is one inner endpoint for each session and server, both datapaths translate
addresses faithfully: what a socket has carried came from one endpoint, and answers are addressed to
it.

Main definitions:

* `oneEndpoint` — client packets of a session to one server have one inner source;
* `carriedOn`, `handedTo` — the client packets on a socket, in either datapath;
* `shardTranslator`, `flowTranslator` — the two datapaths as translators;
* `Translated` — the invariant;
* `translateContract` — the contract.

Main results:

* `shardTranslator_moves`, `flowTranslator_moves` — the operations are steps of the translators;
* `translateContract_sound` — every thread keeps to the contract;
* `endpoints_translated_faithfully` — one inner endpoint on each socket;
* `two_endpoints_share_socket` — two applications that talk to one server.
-/

import SwiftRelay.Hellos
import SwiftRelay.ResponseCodec
import SwiftRelay.ShardFlows
import SwiftRelay.Translator

set_option autoImplicit false

namespace SwiftRelay

open Conc

/-! ### Sockets and what they carry -/

/-- The endpoint inside the tunnel that a client packet comes from. -/
def OriginalPacketInfo.source (info : OriginalPacketInfo) : SocketAddr := ⟨info.srcIp, info.srcPort⟩

/-- The endpoint inside the tunnel that a frame for a client is addressed to. -/
def addressedTo (frame : List UInt8) : SocketAddr :=
  let info := originalInfoOf (frame.drop sessionIdLen) ipHeaderMin
  ⟨info.dstIp, info.dstPort⟩

/-- The generation whose channel got the packet that the flow map answered with `r`, where the flow
of the packet had the generation `before`. -/
def V1Forwarded.reaches (r : V1Forwarded) (before : Option ℕ) : Option ℕ :=
  match r with
  | .opened generation => some generation
  | .sent => before
  | _ => none

variable {env : RelayEnv}

/-- The inner source of the client packet that an event sends on socket `n` of shard `k`. -/
def sentOn (k n : ℕ) : RelayEvent env → Option SocketAddr
  | .exec _ (.v2 (.flowForward k' key _ info _ _)) _ pre _ =>
      if k' = k ∧ ((pre.v2.shards k).flows.lookup key).map FlowState.socket = some n then
        some info.source
      else none
  | _ => none

/-- The inner sources of the client packets that were sent on socket `n` of shard `k`. -/
def carriedOn (k n : ℕ) (hist : List (RelayEvent env)) : List SocketAddr :=
  hist.filterMap (sentOn k n)

/-- The inner source and the payload of the client packet that an event hands to the task of a flow
of the first datapath. -/
def handsTo (generation : ℕ) : RelayEvent env → Option (SocketAddr × List UInt8)
  | .exec _ (.v1 (.flowForward key _ info payload _ _)) r pre _ =>
      if V1Forwarded.reaches r (pre.v1.generationOf key) = some generation then
        some (info.source, payload)
      else none
  | _ => none

/-- The inner sources and the payloads of the client packets that were handed to the task of a flow
of the first datapath. -/
def handedTo (generation : ℕ) (hist : List (RelayEvent env)) : List (SocketAddr × List UInt8) :=
  hist.filterMap (handsTo generation)

/-- The datagram that an event reads from a socket of shard `k`, and the flow of the socket. -/
def receivedFrom (k : ℕ) : RelayEvent env → Option (FlowKey × List UInt8 × FlowState)
  | .exec _ (.v2 (.flowReceive k' key payload)) found _ _ =>
      if k' = k then Option.map (fun flow => (key, payload, flow)) found else none
  | _ => none

/-- The last datagram that was read from a socket of shard `k`, and the flow of the socket. -/
def lastReceived (k : ℕ) (hist : List (RelayEvent env)) :
    Option (FlowKey × List UInt8 × FlowState) :=
  hist.findSome? (receivedFrom k)

section History

variable {k n : ℕ} {e : RelayEvent env} {hist : List (RelayEvent env)}

theorem mem_carriedOn_cons {x : SocketAddr} :
    x ∈ carriedOn k n (e :: hist) ↔ sentOn k n e = some x ∨ x ∈ carriedOn k n hist := by
  simp only [carriedOn, List.mem_filterMap, List.mem_cons, exists_eq_or_imp]

theorem mem_handedTo_cons {x : SocketAddr × List UInt8} :
    x ∈ handedTo n (e :: hist) ↔ handsTo n e = some x ∨ x ∈ handedTo n hist := by
  simp only [handedTo, List.mem_filterMap, List.mem_cons, exists_eq_or_imp]

theorem sentOn_eq_some {t : Tid} {o : V2Op} {r : o.Ret} {pre post : RelayState} {x : SocketAddr}
    (h : sentOn k n (.exec t (.v2 o) r pre post : RelayEvent env) = some x) :
    ∃ key addr info payload now flow, o = .flowForward k key addr info payload now ∧
      (pre.v2.shards k).flows.lookup key = some flow ∧ flow.socket = n ∧ x = info.source := by
  cases o with
  | flowForward k' key addr info payload now =>
      obtain ⟨⟨rfl, hsocket⟩, hx⟩ := Option.ite_none_right_eq_some.1 h
      obtain ⟨flow, hflow, hn⟩ := Option.map_eq_some_iff.1 hsocket
      exact ⟨key, addr, info, payload, now, flow, rfl, hflow, hn, (Option.some.inj hx).symm⟩
  | _ => cases h

end History

/-- Client packets of a session to one server come from the inner endpoint that `inner` says. -/
def oneEndpoint (env : RelayEnv) (inner : FlowKey → SocketAddr) : System.Test (relaySystem env) :=
  fun _ o _ =>
    match o with
    | .v2 (.shardSend _ (.clientPacket packet)) =>
        decide (packet.originalInfo.source = inner ⟨packet.sessionId, packet.gameAddr⟩)
    | .v1 (.flowForward key _ info _ _ _) => decide (info.source = inner key)
    | _ => true

/-! ### The second datapath as a translator -/

/-- A shard translates by the sockets of its flows. -/
def shardTranslator (k : ℕ) (w : RelayWorld env) : Translator FlowKey SocketAddr where
  bound key := ((w.st.v2.shards k).flows.lookup key).map fun flow =>
    (flow.socket, flow.originalInfo.source)
  taken := (w.st.v2.shards k).nextSocket
  carried n := carriedOn k n w.hist

/-- The first datapath translates by the generations of its flows: each has a task with a socket. -/
def flowTranslator (w : RelayWorld env) : Translator FlowKey SocketAddr where
  bound key := (w.st.v1.flows.lookup key).map fun flow =>
    (flow.generation, flow.originalInfo.source)
  taken := w.st.v1.nextGeneration
  carried generation := (handedTo generation w.hist).map Prod.fst

section Moves

variable {inner : FlowKey → SocketAddr} {w : RelayWorld env} {t : Tid} {st : RelayState} {k : ℕ}
  {key : FlowKey} {n : ℕ} {o : V1Op}

/-- The flows of a shard after an operation: one was opened, with a new socket, or a client packet
has overwritten what it knows, or it is as before. -/
theorem shardTranslator_bound {o : V2Op} {r : o.Ret}
    (h : execRelay env t (.v2 o) w.st = some (r, st)) {e : SocketAddr}
    (hkey : (shardTranslator k (w.after t (.v2 o) r st)).bound key = some (n, e)) :
    (∃ token addr info now account, o = .flowOpen k key token addr info now account ∧
      n = (shardTranslator k w).taken ∧ e = info.source ∧ n < (st.v2.shards k).nextSocket) ∨
    ∃ e', (shardTranslator k w).bound key = some (n, e') ∧
      (e = e' ∨ ∃ addr info payload now, o = .flowForward k key addr info payload now ∧
        e = info.source) := by
  have hv2 := (execRelay_v2 h).1
  obtain ⟨flow', hflow', heq⟩ := Option.map_eq_some_iff.1 hkey
  cases heq
  have hstep := shardFlowStep hv2 k key
  rw [show (st.v2.shards k).flows.lookup key = some flow' from hflow'] at hstep
  have hbound {flow : FlowState} (hflow : (w.st.v2.shards k).flows.lookup key = some flow) :
      (shardTranslator k w).bound key = some (flow.socket, flow.originalInfo.source) :=
    Option.map_eq_some_iff.2 ⟨flow, hflow, rfl⟩
  generalize hx : (w.st.v2.shards k).flows.lookup key = x at hstep
  cases hstep with
  | opened _ token addr info now account ho =>
      refine .inl ⟨token, addr, info, now, account, ho, rfl, rfl, ?_⟩
      subst ho
      rw [← (Prod.mk.inj (Option.some.inj hv2)).2, V2State.setShard_self]
      exact Nat.lt_succ_self _
  | used flow addr info payload now ho =>
      exact .inr ⟨flow.originalInfo.source, hbound hx, .inr ⟨addr, info, payload, now, ho, rfl⟩⟩
  | kept flow _ hcontinues =>
      refine .inr ⟨_, (hbound hx).trans ?_, .inl rfl⟩
      rw [hcontinues.socket, hcontinues.originalInfo]

/-- What the operations that use a flow of a shard must know. -/
def V2Op.sends : V2Op → Option (FlowKey × OriginalPacketInfo)
  | .flowOpen _ key _ _ info _ _ => some (key, info)
  | .flowForward _ key _ info _ _ => some (key, info)
  | _ => none

/-- **An operation is a step of the translator**, if the flows are used for the endpoint of their
key. -/
theorem shardTranslator_moves (hT : (shardTranslator k w).Faithful inner) {o : V2Op} {r : o.Ret}
    (ho : ∀ key info, o.sends = some (key, info) → info.source = inner key)
    (h : execRelay env t (.v2 o) w.st = some (r, st)) :
    (shardTranslator k w).Moves inner (shardTranslator k (w.after t (.v2 o) r st)) := by
  have htaken : (w.st.v2.shards k).nextSocket ≤ (st.v2.shards k).nextSocket := by
    rcases nextSocket_step (execRelay_v2 h).1 k with heq | ⟨-, heq⟩
    · exact Nat.le_of_eq heq.symm
    · rw [heq]
      exact Nat.le_succ _
  refine hT.moves htaken (c := fun key => ∃ token addr info now account,
    o = .flowOpen k key token addr info now account) ?_ (fun key n e hkey => ?_) fun n e he => ?_
  · rintro key key' ⟨_, _, _, _, _, rfl⟩ ⟨_, _, _, _, _, heq⟩
    cases heq
    rfl
  · rcases shardTranslator_bound h hkey with ⟨token, addr, info, now, account, rfl, rfl, rfl, hlt⟩ |
      ⟨e', hkey', rfl | ⟨addr, info, payload, now, rfl, rfl⟩⟩
    · exact .inl ⟨⟨_, _, _, _, _, rfl⟩, hlt, Nat.le_refl _, ho key info rfl⟩
    · exact .inr ⟨e, hkey', .inl rfl⟩
    · exact .inr ⟨e', hkey', .inr (ho key info rfl)⟩
  · rcases mem_carriedOn_cons.1 he with hsent | he
    · obtain ⟨key, addr, info, payload, now, flow, rfl, hflow, rfl, rfl⟩ := sentOn_eq_some hsent
      refine .inr ⟨key, info.source, ?_, ho key info rfl⟩
      have hst := (Prod.mk.inj (Option.some.inj (execRelay_v2 h).1)).2
      simp only [shardTranslator, System.World.after_st, ← hst, V2State.setShard_self,
        FlowTables.lookup_modifyFlow, if_true, hflow, Option.map_some]
      rfl
    · exact .inl he

/-! ### The first datapath as a translator -/

/-- The flows of the flow map after an operation: one was opened, with a new generation and its
first packet, or a client packet has overwritten what it knows, or it is as before. -/
theorem flowTranslator_bound {r : o.Ret} (h : execRelay env t (.v1 o) w.st = some (r, st))
    {e : SocketAddr} (hkey : (flowTranslator (w.after t (.v1 o) r st)).bound key = some (n, e)) :
    (∃ addr info payload now, o = .flowForward key addr info payload now true ∧
      n = w.st.v1.nextGeneration ∧ n < st.v1.nextGeneration ∧ e = info.source ∧
      handsTo n (.exec t (.v1 o) r w.st st : RelayEvent env) = some (info.source, payload)) ∨
    ∃ e', (flowTranslator w).bound key = some (n, e') ∧
      (e = e' ∨ ∃ addr info payload now newFlow,
        o = .flowForward key addr info payload now newFlow ∧ e = info.source) := by
  obtain ⟨flow', hflow', heq⟩ := Option.map_eq_some_iff.1 hkey
  cases heq
  have hstep := flowEntryStep (execRelay_v1 h).1 key
  rw [show st.v1.flows.lookup key = some flow' from hflow'] at hstep
  have hbound {flow : FlowEntry} (hflow : w.st.v1.flows.lookup key = some flow) :
      (flowTranslator w).bound key = some (flow.generation, flow.originalInfo.source) :=
    Option.map_eq_some_iff.2 ⟨flow, hflow, rfl⟩
  generalize hx : w.st.v1.flows.lookup key = x at hstep
  generalize hy : some flow' = y at hstep
  cases hstep with
  | opened addr info payload now ho =>
      cases hy
      subst ho
      have hv1 := (execRelay_v1 h).1
      simp only [execV1, hx, if_true] at hv1
      obtain ⟨hr, hs'⟩ := Prod.mk.inj (Option.some.inj hv1)
      refine .inl ⟨addr, info, payload, now, rfl, rfl, ?_, rfl, if_pos ?_⟩
      · rw [← hs']
        exact Nat.lt_succ_self _
      · rw [← hr]
        rfl
  | used flow addr info payload now newFlow ho =>
      cases hy
      exact .inr ⟨flow.originalInfo.source, hbound hx,
        .inr ⟨addr, info, payload, now, newFlow, ho, rfl⟩⟩
  | kept flow | touched flow =>
      cases hy
      exact .inr ⟨flow.originalInfo.source, (hbound hx :), .inl rfl⟩
  | removed | absent => cases hy
  | swept flow now =>
      rw [FlowEntry.cleanup_eq hy.symm]
      exact .inr ⟨flow.originalInfo.source, (hbound hx :), .inl rfl⟩
  | same flow =>
      cases hy
      exact .inr ⟨flow'.originalInfo.source, hbound hx, .inl rfl⟩

/-- What happens to the channels when a packet is put on that of a flow. -/
theorem V1State.trySend_channels (s : V1State) (capacity generation : ℕ) (payload : List UInt8) :
    ((s.trySend capacity generation payload).1 = .sent ∧
      (s.trySend capacity generation payload).2.channels = Function.update s.channels generation
        { s.channels generation with queue := (s.channels generation).queue ++ [payload] }) ∨
    (∀ before, (s.trySend capacity generation payload).1.reaches before = none) ∧
      (s.trySend capacity generation payload).2.channels = s.channels := by
  unfold trySend
  simp only
  split
  · exact .inr ⟨fun _ => rfl, rfl⟩
  · split
    · exact .inr ⟨fun _ => rfl, rfl⟩
    · exact .inl ⟨rfl, rfl⟩

theorem V1State.modifyFlow_channels (s : V1State) (key : FlowKey) (f : FlowEntry → FlowEntry) :
    (s.modifyFlow key f).channels = s.channels := by
  unfold modifyFlow
  split <;> rfl

/-- A packet that reaches the channel of a flow leaves its source with the flow. -/
theorem flowForward_reaches {addr : SocketAddr} {info : OriginalPacketInfo} {payload : List UInt8}
    {now : Instant} {newFlow : Bool} {r : V1Forwarded} {s s' : V1State}
    (h : execV1 env t (.flowForward key addr info payload now newFlow) s = some (r, s'))
    (hn : r.reaches (s.generationOf key) = some n) :
    ∃ flow, s'.flows.lookup key = some flow ∧ flow.generation = n ∧ flow.originalInfo = info := by
  simp only [execV1] at h
  split at h
  · next flow hflow =>
      have hr : _ = r := congrArg Prod.fst (Option.some.inj h)
      have hs' : _ = s' := congrArg Prod.snd (Option.some.inj h)
      refine ⟨flow.used addr info now, ?_, ?_, rfl⟩
      · rw [← hs', V1State.trySend_flows, V1State.lookup_modifyFlow, if_pos rfl, hflow,
          Option.map_some]
      · rcases V1State.trySend_channels (s.modifyFlow key fun flow => flow.used addr info now)
          env.flowChannelCapacity flow.generation payload with ⟨hsent, -⟩ | ⟨hnone, -⟩
        · rw [← hr, hsent, V1State.generationOf, hflow] at hn
          exact Option.some.inj hn
        · rw [← hr, hnone] at hn
          cases hn
  · split at h
    · cases h
      cases hn
      exact ⟨_, by rw [V1State.openFlow, Table.lookup_insert_eq, if_pos rfl], rfl, rfl⟩
    · cases h
      cases hn

/-- The flow and the packet that an operation on the flow map is for. -/
def V1Op.sends : V1Op → Option (FlowKey × OriginalPacketInfo)
  | .flowForward key _ info _ _ _ => some (key, info)
  | _ => none

theorem flowTranslator_moves (hT : (flowTranslator w).Faithful inner) {r : o.Ret}
    (ho : ∀ key info, o.sends = some (key, info) → info.source = inner key)
    (h : execRelay env t (.v1 o) w.st = some (r, st)) :
    (flowTranslator w).Moves inner (flowTranslator (w.after t (.v1 o) r st)) := by
  have htaken := execV1_nextGeneration (execRelay_v1 h).1
  refine hT.moves htaken (c := fun key => ∃ addr info payload now,
    o = .flowForward key addr info payload now true) ?_ (fun key n e hkey => ?_) fun n e he => ?_
  · rintro key key' ⟨_, _, _, _, rfl⟩ ⟨_, _, _, _, heq⟩
    cases heq
    rfl
  · rcases flowTranslator_bound h hkey with ⟨addr, info, payload, now, rfl, rfl, hlt, rfl, -⟩ |
      ⟨e', hkey', rfl | ⟨addr, info, payload, now, newFlow, rfl, rfl⟩⟩
    · exact .inl ⟨⟨_, _, _, _, rfl⟩, hlt, Nat.le_refl _, ho key info rfl⟩
    · exact .inr ⟨e, hkey', .inl rfl⟩
    · exact .inr ⟨e', hkey', .inr (ho key info rfl)⟩
  · obtain ⟨x, hx, rfl⟩ := List.mem_map.1 he
    rcases mem_handedTo_cons.1 hx with hhands | hx
    · cases o with
      | flowForward key addr info payload now newFlow =>
          obtain ⟨hreaches, hx⟩ := Option.ite_none_right_eq_some.1 hhands
          cases hx
          obtain ⟨flow, hflow, rfl, rfl⟩ := flowForward_reaches (execRelay_v1 h).1 hreaches
          exact .inr ⟨key, flow.originalInfo.source, Option.map_eq_some_iff.2 ⟨flow, hflow, rfl⟩,
            ho key _ rfl⟩
      | _ => cases hhands
    · exact .inl (List.mem_map.2 ⟨x, hx, rfl⟩)

/-- A flow of the first datapath has got a client packet as soon as it is in the map. -/
theorem flowTranslator_serves (hT : (flowTranslator w).Serves fun _ => True) {r : o.Ret}
    (h : execRelay env t (.v1 o) w.st = some (r, st)) :
    (flowTranslator (w.after t (.v1 o) r st)).Serves fun _ => True := by
  refine hT.step (fun key n e _ hkey => ?_) fun n hn => ?_
  · rcases flowTranslator_bound h hkey with ⟨addr, info, payload, now, -, -, -, -, hhands⟩ |
      ⟨e', hkey', -⟩
    · exact .inr (List.ne_nil_of_mem (List.mem_map.2
        ⟨_, mem_handedTo_cons.2 (.inl hhands), rfl⟩))
    · exact .inl ⟨trivial, e', hkey'⟩
  · obtain ⟨e, he⟩ := List.exists_mem_of_ne_nil _ hn
    obtain ⟨x, hx, -⟩ := List.mem_map.1 he
    exact List.ne_nil_of_mem (List.mem_map.2 ⟨x, mem_handedTo_cons.2 (.inr hx), rfl⟩)

/-- What is on a channel was there before, or has just been handed to its task. -/
theorem channel_step {r : o.Ret} (h : execRelay env t (.v1 o) w.st = some (r, st))
    {payload : List UInt8} (hmem : payload ∈ (st.v1.channels n).queue) :
    payload ∈ (w.st.v1.channels n).queue ∨ ∃ source,
      handsTo n (.exec t (.v1 o) r w.st st : RelayEvent env) = some (source, payload) := by
  have hv1 := (execRelay_v1 h).1
  generalize st.v1 = s' at hv1 hmem
  cases o with
  | flowForward key addr info payload' now newFlow =>
      simp only [execV1] at hv1
      split at hv1
      · next flow hflow =>
          have hr : _ = r := congrArg Prod.fst (Option.some.inj hv1)
          obtain rfl : _ = s' := congrArg Prod.snd (Option.some.inj hv1)
          rcases V1State.trySend_channels
            (w.st.v1.modifyFlow key fun flow => flow.used addr info now)
            env.flowChannelCapacity flow.generation payload' with
            ⟨hsent, hchannels⟩ | ⟨-, hchannels⟩
          · rw [hchannels, V1State.modifyFlow_channels] at hmem
            by_cases hn : n = flow.generation
            · subst hn
              rw [Function.update_self] at hmem
              rcases List.mem_append.1 hmem with hmem | hmem
              · exact .inl hmem
              · rw [List.mem_singleton.1 hmem]
                refine .inr ⟨info.source, if_pos ?_⟩
                rw [← hr, hsent, V1State.generationOf, hflow]
                rfl
            · rw [Function.update_of_ne hn] at hmem
              exact .inl hmem
          · rw [hchannels, V1State.modifyFlow_channels] at hmem
            exact .inl hmem
      · split at hv1
        · cases hv1
          by_cases hn : n = w.st.v1.nextGeneration
          · subst hn
            simp only [V1State.openFlow, Function.update_self] at hmem
            rw [List.mem_singleton.1 hmem]
            exact .inr ⟨info.source, if_pos rfl⟩
          · simp only [V1State.openFlow, Function.update_of_ne hn] at hmem
            exact .inl hmem
        · cases hv1
          exact .inl hmem
  | channelRecv generation =>
      simp only [execV1] at hv1
      split at hv1
      · cases hv1
        exact .inl hmem
      · next payload' queue hqueue =>
          cases hv1
          by_cases hn : n = generation
          · subst hn
            simp only [Function.update_self] at hmem
            rw [hqueue]
            exact .inl (List.mem_cons_of_mem _ hmem)
          · simp only [Function.update_of_ne hn] at hmem
            exact .inl hmem
  | taskExit generation =>
      cases hv1
      by_cases hn : n = generation
      · subst hn
        simp only [Function.update_self, List.not_mem_nil] at hmem
      · simp only [Function.update_of_ne hn] at hmem
        exact .inl hmem
  | flowKeepalive | flowTouchIf =>
      cases hv1
      rw [V1State.modifyFlow_channels] at hmem
      exact .inl hmem
  | flowRemoveIf key generation =>
      obtain ⟨-, rfl⟩ | ⟨_, -, -, -, rfl⟩ := execV1_flowRemoveIf hv1 <;> exact .inl hmem
  | responseRecv =>
      simp only [execV1] at hv1
      split at hv1 <;> cases hv1 <;> exact .inl hmem
  | indexLen | indexPush | indexLock | indexDropKey | indexRelease | indexRetain | indexStore
  | indexRetainRelease =>
      obtain ⟨-, -, rfl⟩ := System.of_guarded hv1
      exact .inl hmem
  | _ => cases hv1; exact .inl hmem

end Moves

/-! ### The contract -/

section Contract

variable (inner : FlowKey → SocketAddr)

/-- The client packets on their way have the inner source of their session and server, both
datapaths translate faithfully, and what is on a channel was handed to its task. -/
structure Translated (w : RelayWorld env) : Prop where
  packets : ∀ k packet, .clientPacket packet ∈ (w.st.v2.shards k).inbox →
    packet.originalInfo.source = inner ⟨packet.sessionId, packet.gameAddr⟩
  shards : ∀ k, (shardTranslator k w).Faithful inner
  flows : (flowTranslator w).Faithful inner
  serves : (flowTranslator w).Serves fun _ => True
  channels : ∀ generation, ∀ payload ∈ (w.st.v1.channels generation).queue,
    ∃ source, (source, payload) ∈ handedTo generation w.hist

/-- The frame is addressed to an endpoint whose packets were sent on the socket that the last
datagram came from. -/
def Returned (k : ℕ) (packet : TxPacket) (w : RelayWorld env) : Prop :=
  ∃ key payload flow, lastReceived k w.hist = some (key, payload, flow) ∧
    packet.sessionId = key.sessionId ∧ addressedTo packet.frame ∈ carriedOn k flow.socket w.hist

@[inherit_doc Returned]
def ReturnedV1 (generation : ℕ) (response : V1Response) (w : RelayWorld env) : Prop :=
  ∃ payload, (addressedTo response.frame, payload) ∈ handedTo generation w.hist

/-- A flow is used for the endpoint of its key, and what comes back is addressed to it. -/
def translatePre (t : Tid) : RelayOp → RelayWorld env → Prop
  | .v2 (.flowOpen _ key _ _ info _ _), _ => info.source = inner key
  | .v2 (.flowForward _ key _ info _ _), _ => info.source = inner key
  | .v2 (.txSend packet), w => ∀ k, t = .shard k → Returned k packet w
  | .v1 (.flowSend generation payload), w =>
      ∃ source, (source, payload) ∈ handedTo generation w.hist
  | .v1 (.respond response), w =>
      ∀ generation, t = .v1Flow generation → ReturnedV1 generation response w
  | _, _ => True

variable (env) in
def translateContract : Contract (relaySystem env) where
  cond := System.Passes (oneEndpoint env inner)
  inv := Translated inner
  may := may
  pre := translatePre inner
  post t w := ∀ k, t = .shard k → (shardTranslator k w).Serves fun _ => True

end Contract

section Invariant

variable {inner : FlowKey → SocketAddr} {w : RelayWorld env} {t : Tid} {st : RelayState}

/-- The shards after an operation that is none of theirs. -/
theorem shardTranslator_eq {o : RelayOp} {r : o.Ret} (hst : st.v2 = w.st.v2) (k : ℕ)
    (ho : ∀ n, sentOn k n (.exec t o r w.st st : RelayEvent env) = none) :
    shardTranslator k (w.after t o r st : RelayWorld env) = shardTranslator k w := by
  have hcarried : (fun n => carriedOn k n (.exec t o r w.st st :: w.hist)) =
      fun n => carriedOn k n w.hist := funext fun n => List.filterMap_cons_none (ho n)
  rw [shardTranslator, System.World.after_st, System.World.after_hist, hst, hcarried,
    shardTranslator]

/-- The flow map after an operation that is none of its own. -/
theorem flowTranslator_eq {o : RelayOp} {r : o.Ret} (hst : st.v1 = w.st.v1)
    (ho : ∀ n, handsTo n (.exec t o r w.st st : RelayEvent env) = none) :
    flowTranslator (w.after t o r st : RelayWorld env) = flowTranslator w := by
  have hhanded : (fun n => (handedTo n (.exec t o r w.st st :: w.hist)).map Prod.fst) =
      fun n => (handedTo n w.hist).map Prod.fst :=
    funext fun n => congrArg (List.map Prod.fst) (List.filterMap_cons_none (ho n))
  rw [flowTranslator, System.World.after_st, System.World.after_hist, hst, hhanded, flowTranslator]

theorem Translated.begin (h : Translated inner w) (a : Act) :
    Translated inner (w.begin a : RelayWorld env) :=
  ⟨h.packets, h.shards, h.flows, h.serves, h.channels⟩

theorem Translated.core (h : Translated inner w) {o : CoreOp} {r : o.Ret}
    (hexec : execRelay env t (.core o) w.st = some (r, st)) :
    Translated inner (w.after t (.core o) r st : RelayWorld env) := by
  obtain ⟨-, hv1, hv2⟩ := execRelay_core hexec
  refine ⟨fun k packet hmem => ?_, fun k => ?_, ?_, ?_, fun generation payload hmem => ?_⟩
  · rw [System.World.after_st, hv2] at hmem
    exact h.packets k packet hmem
  · rw [shardTranslator_eq hv2 k fun _ => rfl]
    exact h.shards k
  · rw [flowTranslator_eq hv1 fun _ => rfl]
    exact h.flows
  · rw [flowTranslator_eq hv1 fun _ => rfl]
    exact h.serves
  · rw [System.World.after_st, hv1] at hmem
    exact h.channels generation payload hmem

theorem Translated.v1 (h : Translated inner w) {o : V1Op} {r : o.Ret}
    (hcond : System.Passes (oneEndpoint env inner) w (.exec t (.v1 o) r w.st st))
    (hexec : execRelay env t (.v1 o) w.st = some (r, st)) :
    Translated inner (w.after t (.v1 o) r st : RelayWorld env) := by
  have hv2 := (execRelay_v1 hexec).2.2
  have hsends (key : FlowKey) (info : OriginalPacketInfo) (ho : o.sends = some (key, info)) :
      info.source = inner key := by
    cases o with
    | flowForward key' addr info' payload now newFlow =>
        cases ho
        exact of_decide_eq_true hcond
    | _ => cases ho
  refine ⟨fun k packet hmem => ?_, fun k => ?_,
    h.flows.step (flowTranslator_moves h.flows hsends hexec),
    flowTranslator_serves h.serves hexec, fun generation payload hmem => ?_⟩
  · rw [System.World.after_st, hv2] at hmem
    exact h.packets k packet hmem
  · rw [shardTranslator_eq hv2 k fun _ => rfl]
    exact h.shards k
  · rcases channel_step hexec hmem with hmem | ⟨source, hhands⟩
    · obtain ⟨source, hsource⟩ := h.channels generation payload hmem
      exact ⟨source, mem_handedTo_cons.2 (.inr hsource)⟩
    · exact ⟨source, mem_handedTo_cons.2 (.inl hhands)⟩

theorem Translated.v2 (h : Translated inner w) {o : V2Op} {r : o.Ret}
    (hcond : System.Passes (oneEndpoint env inner) w (.exec t (.v2 o) r w.st st))
    (hpre : translatePre inner t (.v2 o) w)
    (hexec : execRelay env t (.v2 o) w.st = some (r, st)) :
    Translated inner (w.after t (.v2 o) r st : RelayWorld env) := by
  have hv1 := (execRelay_v2 hexec).2.2
  have hsends (key : FlowKey) (info : OriginalPacketInfo) (ho : o.sends = some (key, info)) :
      info.source = inner key := by
    cases o with
    | flowOpen k key' token addr info' now account =>
        cases ho
        exact hpre
    | flowForward k key' addr info' payload now =>
        cases ho
        exact hpre
    | _ => cases ho
  refine ⟨fun k packet hmem => ?_,
    fun k => (h.shards k).step (shardTranslator_moves (h.shards k) hsends hexec), ?_, ?_,
    fun generation payload hmem => ?_⟩
  · rcases inbox_step (execRelay_v2 hexec).1 hmem with hmem | rfl
    · exact h.packets k packet hmem
    · exact of_decide_eq_true hcond
  · rw [flowTranslator_eq hv1 fun _ => rfl]
    exact h.flows
  · rw [flowTranslator_eq hv1 fun _ => rfl]
    exact h.serves
  · rw [System.World.after_st, hv1] at hmem
    exact h.channels generation payload hmem

/-- **Permitted operations keep the invariant.** -/
theorem translated_exec (h : Translated inner w) {o : RelayOp} {r : o.Ret}
    (hcond : System.Passes (oneEndpoint env inner) w (.exec t o r w.st st))
    (hpre : translatePre inner t o w) (hexec : execRelay env t o w.st = some (r, st)) :
    Translated inner (w.after t o r st : RelayWorld env) := by
  rcases o with o | o | o
  · exact h.core hexec
  · exact h.v1 hcond hexec
  · exact h.v2 hcond hpre hexec

end Invariant

/-! ### What a thread can rely on -/

section Stable

variable {inner : FlowKey → SocketAddr} {w : RelayWorld env} {t : Tid} {k : ℕ} {o : RelayOp}
  {r : o.Ret} {st : RelayState}

theorem stable_handedTo (t : Tid) (generation : ℕ) (x : SocketAddr × List UInt8) :
    (translateContract env inner).Stable t fun w => x ∈ handedTo generation w.hist :=
  Contract.Stable.of_hist (P := fun hist => x ∈ handedTo generation hist) fun _ _ hx =>
    mem_handedTo_cons.2 (.inr hx)

/-- The operations that open or use a flow of a shard. -/
def RelayOp.carries : RelayOp → Bool
  | .v2 (.flowOpen ..) | .v2 (.flowForward ..) => true
  | _ => false

theorem carried_after {n : ℕ} (h : (shardTranslator k w).carried n ≠ []) :
    (shardTranslator k (w.after t o r st : RelayWorld env)).carried n ≠ [] := by
  obtain ⟨e, he⟩ := List.exists_mem_of_ne_nil _ h
  exact List.ne_nil_of_mem (mem_carriedOn_cons.2 (.inr he))

theorem serves_of_calm {φ : FlowKey → Prop} (ho : o.carries = false)
    (h : execRelay env t o w.st = some (r, st)) (hw : (shardTranslator k w).Serves φ) :
    (shardTranslator k (w.after t o r st : RelayWorld env)).Serves φ := by
  rcases o with o | o | o
  · rw [shardTranslator_eq (execRelay_core h).2.2 k fun _ => rfl]
    exact hw
  · rw [shardTranslator_eq (execRelay_v1 h).2.2 k fun _ => rfl]
    exact hw
  · refine hw.step (fun key n e hφ hkey => ?_) fun n => carried_after
    rcases shardTranslator_bound h hkey with ⟨_, _, _, _, _, rfl, -⟩ | ⟨e', hkey', -⟩
    · cases ho
    · exact .inl ⟨hφ, e', hkey'⟩

theorem stable_serves (k : ℕ) (φ : FlowKey → Prop) :
    (translateContract env inner).Stable (.shard k) fun w => (shardTranslator k w).Serves φ := by
  refine .of_exec (fun _ _ h => h) fun w u o r st hne _ hmay _ hexec _ hw => ?_
  have hflows : (st.v2.shards k).flows = _ := (shard_of_other hmay hne hexec).1
  refine hw.step (fun key n e hφ hkey => .inl ⟨hφ, e, ?_⟩) fun n => carried_after
  simp only [shardTranslator, System.World.after_st, hflows] at hkey
  exact hkey

theorem lastReceived_cons {e : RelayEvent env} {hist : List (RelayEvent env)}
    (he : receivedFrom k e = none) : lastReceived k (e :: hist) = lastReceived k hist := by
  simp only [lastReceived, List.findSome?_cons, he]

theorem receivedFrom_of_other {pre post : RelayState} (hmay : may t o) (hne : t ≠ .shard k) :
    receivedFrom k (.exec t o r pre post : RelayEvent env) = none := by
  rcases o with o | o | o
  · rfl
  · rfl
  · cases o with
    | flowReceive j key payload =>
        cases t with
        | shard j' =>
            obtain rfl : j = j' := of_decide_eq_true hmay
            exact if_neg fun hj => hne (by rw [hj])
        | _ => cases hmay
    | _ => rfl

end Stable

/-! ### The threads -/

section Threads

variable {inner : FlowKey → SocketAddr} {w : RelayWorld env} {t : Tid} {k : ℕ}

/-- A program of operations that are permitted anyway. -/
theorem translate_wp_permitted {α : Type} {p : RelayProg α}
    (hp : p.Uses fun o => ∀ w : RelayWorld env, translatePre inner t o w) :
    (translateContract env inner).wp t p (fun _ _ => True) w :=
  Contract.wp_of_permitted (hp.mono fun _ ho w _ => ho w)

variable {φ : FlowKey → Prop} {packet : ClientPacket}

/-- An operation of a shard that neither opens nor uses a flow. -/
theorem calm_v2_bind {α : Type} {o : V2Op} {f : o.Ret → RelayProg α} {Q : α → RelayWorld env → Prop}
    (ho : RelayOp.carries (.v2 o) = false)
    (hpre : ∀ w : RelayWorld env, translatePre inner (.shard k) (.v2 o) w)
    (hw : (shardTranslator k w).Serves φ)
    (hnext : ∀ r (w : RelayWorld env), (shardTranslator k w).Serves φ →
      (translateContract env inner).wp (.shard k) (f r) Q w) :
    (translateContract env inner).wp (.shard k) (v2 o >>= f) Q w :=
  wp_v2_bind _ (stable_serves k φ) hw (fun w _ _ => hpre w)
    fun _ r _ _ hw hexec _ => hnext r _ (serves_of_calm ho hexec hw)

@[inherit_doc calm_v2_bind]
theorem calm_v2 {o : V2Op} (ho : RelayOp.carries (.v2 o) = false)
    (hpre : ∀ w : RelayWorld env, translatePre inner (.shard k) (.v2 o) w)
    (hw : (shardTranslator k w).Serves φ) :
    (translateContract env inner).wp (.shard k) (v2 o)
      (fun _ w => (shardTranslator k w).Serves φ) w :=
  calm_v2_bind ho hpre hw fun _ _ hw => hw

/-- An operation of a shard on the shared session state. -/
theorem calm_core_bind {α : Type} {o : CoreOp} {f : o.Ret → RelayProg α}
    {Q : α → RelayWorld env → Prop} (hw : (shardTranslator k w).Serves φ)
    (hnext : ∀ r (w : RelayWorld env), (shardTranslator k w).Serves φ →
      (translateContract env inner).wp (.shard k) (f r) Q w) :
    (translateContract env inner).wp (.shard k) (core o >>= f) Q w :=
  wp_core_bind _ (stable_serves k φ) hw (fun _ _ _ => trivial)
    fun _ r _ _ hw hexec _ => hnext r _ (serves_of_calm rfl hexec hw)

/-- A client packet on its flow: after it, the flow has carried something. -/
theorem forwardOnFlow_translate_wp (m : InboxTurn)
    (hsource : packet.originalInfo.source = inner ⟨packet.sessionId, packet.gameAddr⟩)
    (hw : (shardTranslator k w).Serves (· ≠ ⟨packet.sessionId, packet.gameAddr⟩)) :
    (translateContract env inner).wp (.shard k) (forwardOnFlow k m packet)
      (fun _ w => (shardTranslator k w).Serves fun _ => True) w := by
  refine wp_v2_bind _ (stable_serves k _) hw (fun _ _ _ => hsource) fun w₁ r st _ hw₁ hexec _ =>
    hw₁.step (fun key n e _ hkey => ?_) fun n => carried_after
  rcases shardTranslator_bound hexec hkey with ⟨_, _, _, _, _, ho, -⟩ | ⟨e', hkey', -⟩
  · cases ho
  · by_cases hself : key = ⟨packet.sessionId, packet.gameAddr⟩
    · subst hself
      obtain ⟨flow, hflow, heq⟩ := Option.map_eq_some_iff.1 hkey'
      cases heq
      refine .inr (List.ne_nil_of_mem (mem_carriedOn_cons.2 (.inl (if_pos ⟨rfl, ?_⟩))))
      rw [hflow, Option.map_some]
    · exact .inl ⟨hself, e', hkey'⟩

/-- A flow that has just been opened is the only one that has not carried anything. -/
theorem openFlow_translate_wp (m : InboxTurn)
    (hsource : packet.originalInfo.source = inner ⟨packet.sessionId, packet.gameAddr⟩)
    (hw : (shardTranslator k w).Serves fun _ => True) :
    (translateContract env inner).wp (.shard k) (openFlow k m packet) (fun opened w =>
      (shardTranslator k w).Serves (· ≠ ⟨packet.sessionId, packet.gameAddr⟩) ∧
        (opened = false → (shardTranslator k w).Serves fun _ => True)) w := by
  have hrefuse (reason : DropReason) {w : RelayWorld env}
      (hw : (shardTranslator k w).Serves fun _ => True) :
      (translateContract env inner).wp (.shard k) (dropIn reason >>= fun _ => return false)
        (fun opened w => (shardTranslator k w).Serves (· ≠ ⟨packet.sessionId, packet.gameAddr⟩) ∧
          (opened = false → (shardTranslator k w).Serves fun _ => True)) w :=
    calm_core_bind hw fun _ _ hw => ⟨fun key n e _ hkey => hw key n e trivial hkey, fun _ => hw⟩
  unfold openFlow
  refine calm_v2_bind rfl (fun _ => trivial) hw fun total w₁ hw₁ => ?_
  split
  · exact hrefuse _ hw₁
  refine calm_v2_bind rfl (fun _ => trivial) hw₁ fun count w₂ hw₂ => ?_
  split
  · exact hrefuse _ hw₂
  refine calm_core_bind hw₂ fun allowed w₃ hw₃ => ?_
  split
  · exact hrefuse _ hw₃
  split
  · exact hrefuse _ hw₃
  refine calm_v2_bind rfl (fun _ => trivial) hw₃ fun token w₄ hw₄ => ?_
  cases token with
  | none => exact hrefuse _ hw₄
  | some token =>
      dsimp only
      split
      · exact hrefuse _ hw₄
      refine wp_v2_bind _ (stable_serves k fun _ => True) hw₄ (fun _ _ _ => hsource)
        fun w₅ r st _ hw₅ hexec _ => ?_
      refine ⟨hw₅.step (fun key n e hne hkey => ?_) fun n => carried_after, fun h => by cases h⟩
      rcases shardTranslator_bound hexec hkey with ⟨_, _, _, _, _, ho, -⟩ | ⟨e', hkey', -⟩
      · cases ho
        exact absurd rfl hne
      · exact .inl ⟨trivial, e', hkey'⟩

theorem shardClientPacket_translate_wp (m : InboxTurn)
    (hsource : packet.originalInfo.source = inner ⟨packet.sessionId, packet.gameAddr⟩)
    (hw : (shardTranslator k w).Serves fun _ => True) :
    (translateContract env inner).wp (.shard k) (shardClientPacket k m packet)
      (fun _ w => (shardTranslator k w).Serves fun _ => True) w := by
  unfold shardClientPacket
  split
  · exact calm_core_bind hw fun _ w₁ hw₁ => calm_v2 rfl (fun _ => trivial) hw₁
  refine calm_v2_bind rfl (fun _ => trivial) hw fun known w₁ hw₁ => ?_
  split
  · exact forwardOnFlow_translate_wp m hsource fun key n e _ hkey => hw₁ key n e trivial hkey
  refine Contract.wp_seq (openFlow_translate_wp m hsource hw₁) ?_
  rintro opened w₂ ⟨hw₂, hrefused⟩
  split
  · exact forwardOnFlow_translate_wp m hsource hw₂
  · next hopened => exact calm_v2 rfl (fun _ => trivial) (hrefused (Bool.eq_false_iff.2 hopened))

theorem shardInbox_translate_wp (m : InboxTurn)
    (hw : (shardTranslator k w).Serves fun _ => True) :
    (translateContract env inner).wp (.shard k) (shardInbox k m)
      (fun _ w => (shardTranslator k w).Serves fun _ => True) w := by
  refine wp_v2_bind _ (stable_serves k fun _ => True) hw (fun _ _ _ => trivial)
    fun w₁ msg st hinv hw₁ hexec _ => ?_
  have hw₂ := serves_of_calm rfl hexec hw₁
  rcases msg with - | packet | ⟨sid, addr⟩ | sid
  · exact hw₂
  · refine shardClientPacket_translate_wp m (hinv.packets k packet ?_) hw₂
    have hv2 := (execRelay_v2 hexec).1
    simp only [execV2] at hv2
    split at hv2
    · cases (Prod.mk.inj (Option.some.inj hv2)).1
    · next hinbox =>
        cases (Prod.mk.inj (Option.some.inj hv2)).1
        rw [hinbox]
        exact List.mem_cons_self
  · exact calm_v2 rfl (fun _ => trivial) hw₂
  · exact calm_v2 rfl (fun _ => trivial) hw₂

/-- A response is addressed to the source of the packets that it answers. -/
theorem addressedTo_response (sid : SessionId) (payload : List UInt8) (info : OriginalPacketInfo)
    (tos : UInt8) :
    addressedTo (sessionIdBytes sid ++ buildResponseIpPacketWithTos payload info tos) =
      info.source := by
  rw [addressedTo, List.drop_left' (sessionIdBytes_length sid), ipHeaderMin,
    originalInfoOf_response]
  rfl

/-- Shard `k` has read a datagram from the socket of `flow`, and the endpoint that the flow knows is
one that the socket has carried packets for. -/
structure Reading (k : ℕ) (key : FlowKey) (payload : List UInt8) (flow : FlowState)
    (w : RelayWorld env) : Prop where
  serves : (shardTranslator k w).Serves fun _ => True
  received : lastReceived k w.hist = some (key, payload, flow)
  carried : flow.originalInfo.source ∈ carriedOn k flow.socket w.hist

theorem stable_reading (k : ℕ) (key : FlowKey) (payload : List UInt8) (flow : FlowState) :
    (translateContract env inner).Stable (.shard k) (Reading k key payload flow) := by
  intro w w' hstep hw
  have hserves := stable_serves k _ w w' hstep hw.serves
  cases hstep with
  | start a => exact ⟨hserves, hw.received, mem_carriedOn_cons.2 (.inr hw.carried)⟩
  | exec u o r st hne _ hmay =>
      exact ⟨hserves, (lastReceived_cons (receivedFrom_of_other hmay hne)).trans hw.received,
        mem_carriedOn_cons.2 (.inr hw.carried)⟩

section Response

variable {key : FlowKey} {payload : List UInt8} {flow : FlowState} {o : RelayOp}

theorem RespondingOp.reading (ho : RespondingOp k key flow payload o) {r : o.Ret} {st : RelayState}
    (h : execRelay env (.shard k) o w.st = some (r, st)) (hw : Reading k key payload flow w) :
    Reading k key payload flow (w.after (.shard k) o r st : RelayWorld env) := by
  have hcalm : o.carries = false ∧
      receivedFrom k (.exec (.shard k) o r w.st st : RelayEvent env) = none := by
    rcases o with o | o | o
    · exact ⟨rfl, rfl⟩
    · cases ho
    · cases o <;> first | exact ⟨rfl, rfl⟩ | cases ho
  exact ⟨serves_of_calm hcalm.1 h hw.serves, (lastReceived_cons hcalm.2).trans hw.received,
    mem_carriedOn_cons.2 (.inr hw.carried)⟩

theorem RespondingOp.translatePre (ho : RespondingOp k key flow payload o)
    (hw : Reading k key payload flow w) : SwiftRelay.translatePre inner (.shard k) o w := by
  rcases o with o | o | o
  · trivial
  · cases ho
  · cases o with
    | txSend packet =>
        obtain ⟨hsid, -, tos, hframe⟩ := ho
        rintro k' heq
        cases heq
        refine ⟨key, payload, flow, hw.received, hsid, ?_⟩
        rw [hframe, addressedTo_response]
        exact hw.carried
    | flowTouch => trivial
    | _ => cases ho

end Response

/-- What a flow answers is addressed to the endpoint whose packets its socket has carried. -/
theorem flowResponse_translate_wp (key : FlowKey) (a : Arrival)
    (hw : (shardTranslator k w).Serves fun _ => True) :
    (translateContract env inner).wp (.shard k) (flowResponse k key a)
      (fun _ w => (shardTranslator k w).Serves fun _ => True) w := by
  refine wp_v2_bind _ (stable_serves k fun _ => True) hw (fun _ _ _ => trivial)
    fun w₁ found st hinv hw₁ hexec _ => ?_
  have hw₂ := serves_of_calm rfl hexec hw₁
  cases found with
  | none => exact hw₂
  | some flow =>
      have hbound : (shardTranslator k w₁).bound key =
          some (flow.socket, flow.originalInfo.source) :=
        Option.map_eq_some_iff.2
          ⟨flow, (Prod.mk.inj (Option.some.inj (execRelay_v2 hexec).1)).1, rfl⟩
      have hreading : Reading k key a.payload flow (w₁.after (.shard k)
          (.v2 (.flowReceive k key a.payload)) (some flow) st : RelayWorld env) := by
        refine ⟨hw₂, ?_, ?_⟩
        · have hreceived : receivedFrom k (.exec (.shard k) (.v2 (.flowReceive k key a.payload))
              (some flow) w₁.st st : RelayEvent env) = some (key, a.payload, flow) := if_pos rfl
          rw [System.World.after_hist, lastReceived, List.findSome?_cons, hreceived]
        · exact mem_carriedOn_cons.2
            (.inr ((hinv.shards k).mem_carried hw₁ trivial hbound))
      exact Contract.wp_mono (Contract.wp_of_uses (flowResponse_uses k key flow a) _
        (stable_reading k key a.payload flow)
        (fun _ ho _ _ hw => ⟨ho.translatePre hw, fun _ _ hexec _ => ho.reading hexec hw⟩) hreading)
        fun _ _ hw => hw.serves

theorem shardEvent_translate_wp (token : ℕ) (arrivals : List Arrival)
    (hw : (shardTranslator k w).Serves fun _ => True) :
    (translateContract env inner).wp (.shard k) (shardEvent k token arrivals)
      (fun _ w => (shardTranslator k w).Serves fun _ => True) w := by
  have hburst (key : FlowKey) (arrivals : List Arrival) (w : RelayWorld env)
      (hw : (shardTranslator k w).Serves fun _ => True) :
      (translateContract env inner).wp (.shard k) (flowBurst k key arrivals)
        (fun _ w => (shardTranslator k w).Serves fun _ => True) w := by
    induction arrivals generalizing w with
    | nil => exact hw
    | cons a arrivals ih =>
        refine Contract.wp_seq (flowResponse_translate_wp key a hw) ?_
        intro goesOn w' hw'
        split
        · exact ih w' hw'
        · exact hw'
  refine calm_v2_bind rfl (fun _ => trivial) hw fun found w' hw' => ?_
  cases found with
  | none => exact hw'
  | some found => exact hburst _ _ w' hw'

/-! ### The tasks of the first datapath -/

variable {generation : ℕ}

theorem endFlowTask_permitted (key : FlowKey) :
    (endFlowTask key generation).Uses fun o : RelayOp => ∀ w : RelayWorld env,
      translatePre inner t o w :=
  Prog.uses_bind (removeV1Flow_uses (fun _ => trivial) (fun _ => trivial) (fun _ => trivial)
    fun _ => trivial) fun _ => ⟨fun _ => trivial, fun _ => trivial⟩

/-- The task of a flow, where what it does for its key is permitted. -/
theorem withTask_translate_wp {body : FlowKey → RelayProg Unit}
    (hbody : ∀ key (w : RelayWorld env),
      (translateContract env inner).wp t (body key) (fun _ _ => True) w) :
    (translateContract env inner).wp t (withTask generation body) (fun _ _ => True) w := by
  refine wp_v1_bind _ .true trivial (fun _ _ _ => trivial) fun w₁ key st _ _ _ _ => ?_
  cases key with
  | none => trivial
  | some key => exact hbody key _

/-- What a task sends on its socket was handed to it. -/
theorem flowTaskSend_translate_wp :
    (translateContract env inner).wp t (flowTaskSend generation) (fun _ _ => True) w := by
  refine withTask_translate_wp fun key w => ?_
  refine wp_v1_bind _ .true trivial (fun _ _ _ => trivial) fun w₁ answer st hinv _ hexec _ => ?_
  cases answer with
  | none => trivial
  | some payload =>
      have hqueued : payload ∈ (w₁.st.v1.channels generation).queue := by
        have hv1 := (execRelay_v1 hexec).1
        simp only [execV1] at hv1
        split at hv1
        · cases (Prod.mk.inj (Option.some.inj hv1)).1
        · next hqueue =>
            cases (Prod.mk.inj (Option.some.inj hv1)).1
            rw [hqueue]
            exact List.mem_cons_self
      obtain ⟨source, hsource⟩ := hinv.channels generation payload hqueued
      exact wp_v1_bind _
        (stable_handedTo t generation (source, payload)) (mem_handedTo_cons.2 (.inr hsource))
        (fun _ _ hw => ⟨source, hw⟩) fun _ _ _ _ _ _ _ => trivial

/-- What a task answers is addressed to the endpoint whose packets were handed to it. -/
theorem flowTaskReceive_translate_wp (a : Arrival) :
    (translateContract env inner).wp (.v1Flow generation) (flowTaskReceive generation a)
      (fun _ _ => True) w := by
  have hend (key : FlowKey) (w : RelayWorld env) : (translateContract env inner).wp
      (.v1Flow generation) (endFlowTask key generation) (fun _ _ => True) w :=
    translate_wp_permitted (endFlowTask_permitted key)
  refine withTask_translate_wp fun key w => ?_
  refine wp_v1_bind _ .true trivial (fun _ _ _ => trivial) fun w₁ _ st₁ _ _ _ _ => ?_
  refine wp_core_bind _ .true trivial (fun _ _ _ => trivial) fun w₂ session st₂ _ _ _ _ => ?_
  split
  · refine wp_v1_bind _ .true trivial (fun _ _ _ => trivial) fun w₃ flow st₃ hinv _ hexec _ => ?_
    cases flow with
    | none =>
        refine wp_core_bind _ .true trivial (fun _ _ _ => trivial) fun w₄ known st₄ _ _ _ _ => ?_
        split
        · trivial
        · exact hend key _
    | some flow =>
        dsimp only
        split
        · next hgeneration =>
            have hbound : (flowTranslator w₃).bound key =
                some (flow.generation, flow.originalInfo.source) :=
              Option.map_eq_some_iff.2
                ⟨flow, (Prod.mk.inj (Option.some.inj (execRelay_v1 hexec).1)).1, rfl⟩
            have hcarried := hinv.flows.mem_carried hinv.serves trivial hbound
            obtain ⟨x, hx, hsource⟩ := List.mem_map.1 hcarried
            rw [hgeneration] at hx
            refine wp_v1_bind _ (stable_handedTo _ generation x) (mem_handedTo_cons.2 (.inr hx)) ?_
              fun _ _ _ _ _ _ _ => translate_wp_permitted
                ⟨fun _ => trivial, fun _ => ⟨fun _ => trivial, fun _ => trivial⟩⟩
            rintro w₄ _ hw₄ _ heq
            cases heq
            refine ⟨x.2, ?_⟩
            rw [buildResponseIpPacket, addressedTo_response, ← hsource]
            exact hw₄
        · exact hend key _
  · exact hend key _

end Threads

/-! ### Every run -/

/-- The threads that have neither a flow of a shard nor the socket of a task. -/
theorem translatePre_of_may {inner : FlowKey → SocketAddr} {t : Tid} {o : RelayOp} (hmay : may t o)
    (hshard : ∀ k, t ≠ .shard k) (htask : ∀ generation, t ≠ .v1Flow generation)
    (w : RelayWorld env) : translatePre inner t o w := by
  rcases o with o | o | o
  · trivial
  · cases o with
    | flowSend generation payload =>
        cases t with
        | v1Flow generation => exact absurd rfl (htask generation)
        | _ => cases hmay
    | respond response => exact fun generation h => absurd h (htask generation)
    | _ => trivial
  · cases o with
    | flowOpen | flowForward =>
        cases t with
        | shard k => exact absurd rfl (hshard k)
        | _ => cases hmay
    | txSend packet => exact fun k h => absurd h (hshard k)
    | _ => trivial

/-- **Every thread keeps to the contract.** -/
theorem translateContract_sound (env : RelayEnv) (inner : FlowKey → SocketAddr) :
    (translateContract env inner).Sound where
  start_inv w a hinv _ _ := hinv.begin a
  exec_inv w t o r st hinv _ hpre hexec hcond := translated_exec hinv hcond hpre hexec
  post_stable := by
    rintro t w w' hstep hpost k rfl
    exact stable_serves k _ w w' hstep (hpost k rfl)
  prog_may := prog_uses env
  prog_wp w a _ hpost _ := by
    have hother (hshard : ∀ k, a.tid ≠ .shard k) (w : RelayWorld env)
        (hwp : (translateContract env inner).wp a.tid (a.prog env) (fun _ _ => True) w) :
        (translateContract env inner).wp a.tid (a.prog env)
          (fun _ => (translateContract env inner).post a.tid) w :=
      Contract.wp_mono hwp fun _ _ _ k hk => absurd hk (hshard k)
    have hpermitted (hshard : ∀ k, a.tid ≠ .shard k)
        (htask : ∀ generation, a.tid ≠ .v1Flow generation) :
        (translateContract env inner).wp a.tid (a.prog env)
          (fun _ => (translateContract env inner).post a.tid) (w.begin a) :=
      hother hshard _ (translate_wp_permitted
        ((prog_uses env a).mono fun _ hmay => translatePre_of_may hmay hshard htask))
    have hserves {k : ℕ} {w : RelayWorld env} {p : RelayProg Unit}
        (hwp : (translateContract env inner).wp (.shard k) p
          (fun _ w => (shardTranslator k w).Serves fun _ => True) w) :
        (translateContract env inner).wp (.shard k) p
          (fun _ => (translateContract env inner).post (.shard k)) w :=
      Contract.wp_mono hwp fun _ _ hw k' hk => by
        cases hk
        exact hw
    cases a with
    | shardEvent k token arrivals =>
        exact hserves (shardEvent_translate_wp token arrivals (hpost k rfl))
    | shardInbox k m => exact hserves (shardInbox_translate_wp m (hpost k rfl))
    | shardCleanup k now => exact hserves (calm_v2 rfl (fun _ => trivial) (hpost k rfl))
    | flowTaskSend generation =>
        exact hother (fun _ h => by cases h) _ flowTaskSend_translate_wp
    | flowTaskReceive generation a =>
        exact hother (fun _ h => by cases h) _ (flowTaskReceive_translate_wp a)
    | flowTaskIdle generation =>
        refine hother (fun _ h => by cases h) _ (withTask_translate_wp fun key w => ?_)
        exact translate_wp_permitted (uses_v1_bind (fun _ => trivial) fun _ =>
          .ite trivial (endFlowTask_permitted key))
    | flowTaskEnd generation =>
        exact hother (fun _ h => by cases h) _ (withTask_translate_wp fun key w =>
          translate_wp_permitted (endFlowTask_permitted key))
    | _ => exact hpermitted (fun _ h => by cases h) fun _ h => by cases h

theorem translated_run {inner : FlowKey → SocketAddr} {bucketOf : Ipv4Addr → ℕ}
    {createdAt : Instant} {c : (relaySystem env).Config}
    (h : (relaySystem env).Run (System.Passes (oneEndpoint env inner))
      (relayStart env bucketOf createdAt) c) :
    Contract.Sound.Good (translateContract env inner) c := by
  refine (translateContract_sound env inner).run h (Contract.Sound.good_initial ?_ ?_)
  · refine ⟨fun k packet hmem => ?_, fun k => .of_empty (fun _ => rfl) fun _ => rfl,
      .of_empty (fun _ => rfl) fun _ => rfl, .of_empty fun _ => rfl,
      fun generation payload hmem => ?_⟩ <;> cases hmem
  · exact fun t k _ => .of_empty fun _ => rfl

/-- **One inner endpoint on each socket.** Suppose that the client packets of each session to each
server come from one inner endpoint.  Then all client packets that were sent on a socket come from
one inner endpoint, and whatever comes back on the socket is addressed to an endpoint whose packets
it has carried.  In the first datapath the packets on the socket of a flow are those that were
handed to its task. -/
theorem endpoints_translated_faithfully (inner : FlowKey → SocketAddr) {bucketOf : Ipv4Addr → ℕ}
    {createdAt : Instant} {c : (relaySystem env).Config}
    (hrun : (relaySystem env).Run (System.Passes (oneEndpoint env inner))
      (relayStart env bucketOf createdAt) c) :
    (∀ k n, ∀ x ∈ carriedOn k n c.hist, ∀ y ∈ carriedOn k n c.hist, x = y) ∧
    (∀ generation, ∀ x ∈ handedTo generation c.hist, ∀ y ∈ handedTo generation c.hist,
      x.1 = y.1) ∧
    ∀ t o r pre post c', (relaySystem env).Step c (.exec t o r pre post) c' →
      (∀ k packet, t = .shard k → o = .v2 (.txSend packet) → Returned k packet c.toWorld) ∧
      (∀ generation payload, o = .v1 (.flowSend generation payload) →
        ∃ source, (source, payload) ∈ handedTo generation c.hist) ∧
      ∀ generation response, t = .v1Flow generation → o = .v1 (.respond response) →
        ReturnedV1 generation response c.toWorld := by
  have hgood := translated_run hrun
  refine ⟨fun k n x hx y hy => (hgood.1.shards k).carried_eq hx hy, fun generation x hx y hy => ?_,
    fun t o r pre post c' hstep => ?_⟩
  · exact hgood.1.flows.carried_eq (n := generation) (List.mem_map.2 ⟨x, hx, rfl⟩)
      (List.mem_map.2 ⟨y, hy, rfl⟩)
  · have hpre := (Contract.Sound.pre_of_step hgood hstep).2
    refine ⟨?_, ?_, ?_⟩
    · rintro k packet rfl rfl
      exact hpre k rfl
    · rintro generation payload rfl
      exact hpre
    · rintro generation response rfl rfl
      exact hpre generation rfl

/-- The endpoint of the sample packet. -/
def sampleInnerSource : SocketAddr := ⟨⟨10, 0, 0, 2⟩, 49152⟩

/-- The operations that queue a frame for a client. -/
def RelayOp.queues : RelayOp → Bool
  | .v2 (.txSend _) => true
  | _ => false

/-- A single application that gets an answer. -/
theorem endpoints_translated_faithfully_sample :
    ∃ c c' packet r post, (relaySystem openEnv).Run
        (System.Passes (oneEndpoint openEnv fun _ => sampleInnerSource)) openStart c ∧
      (relaySystem openEnv).Step c (.exec (.shard 0) (.v2 (.txSend packet)) r c.st post) c' ∧
      Returned 0 packet c.toWorld := by
  have hstart : System.Reaches (oneEndpoint openEnv fun _ => sampleInnerSource) openStart
      (openStart.st, openStart.ctl) := ⟨openStart, Relation.ReflTransGen.refl, rfl, rfl⟩
  obtain ⟨c, o, r, st, c', hrun, ho, hstep, -⟩ := (hstart.follow
    [.start (.datagram (sampleFrame samplePacket sampleClient 0)), .fire .rx 30,
      .start (.shardInbox 0 ⟨0, true, true, true⟩), .fire (.shard 0) 30,
      .start (.shardEvent 0 1 [⟨[9], none, secs 1, 1, 1, true⟩]), .fire (.shard 0) 5]
    (by decide +kernel)).step (.shard 0) RelayOp.queues (by decide +kernel)
  unfold RelayOp.queues at ho
  split at ho
  · next packet => exact ⟨c, c', packet, r, st, hrun, hstep,
      ((endpoints_translated_faithfully _ hrun).2.2 _ _ _ _ _ _ hstep).1 0 packet rfl rfl⟩
  · cases ho

/-- The sample packet from another port of the same client. -/
def neighbourPacket : List UInt8 := samplePacket.set 21 1

/-- The shard of session 1 has sent packets of two endpoints on one socket, and is about to queue an
answer that came back on it. -/
def Shared (c : (relaySystem openEnv).Config) : Prop :=
  carriedOn 0 0 c.hist = [⟨⟨10, 0, 0, 2⟩, 49153⟩, ⟨⟨10, 0, 0, 2⟩, 49152⟩] ∧
    (lastReceived 0 c.hist).map (·.2.2.socket) = some 0 ∧
    System.ready (M := relaySystem openEnv) (.shard 0) (fun o => match o with
      | .v2 (.txSend packet) => decide (addressedTo packet.frame = ⟨⟨10, 0, 0, 2⟩, 49153⟩)
      | _ => false) (c.st, c.ctl) = true

instance (c : (relaySystem openEnv).Config) : Decidable (Shared c) :=
  inferInstanceAs (Decidable (_ ∧ _ ∧ _))

/-- **Two applications that talk to one server** share a socket, and the answer to either of them
goes to the one that sent last. -/
theorem two_endpoints_share_socket :
    ∃ c c' packet r post, (relaySystem openEnv).Steps openStart c ∧
      (relaySystem openEnv).Step c (.exec (.shard 0) (.v2 (.txSend packet)) r c.st post) c' ∧
      (lastReceived 0 c.hist).map (·.2.2.socket) = some 0 ∧
      carriedOn 0 0 c.hist = [⟨⟨10, 0, 0, 2⟩, 49153⟩, ⟨⟨10, 0, 0, 2⟩, 49152⟩] ∧
      addressedTo packet.frame = ⟨⟨10, 0, 0, 2⟩, 49153⟩ := by
  have hreplay : ((System.Config.replay (M := relaySystem openEnv) (fun _ _ => true)
      [.start (.datagram (sampleFrame samplePacket sampleClient 0)), .fire .rx 30,
        .start (.datagram (sampleFrame neighbourPacket sampleClient 0)), .fire .rx 30,
        .start (.shardInbox 0 ⟨0, true, true, true⟩), .fire (.shard 0) 30,
        .start (.shardInbox 0 ⟨0, true, true, true⟩), .fire (.shard 0) 30,
        .start (.shardEvent 0 1 [⟨[9], none, secs 1, 1, 1, true⟩]), .fire (.shard 0) 5]
      openStart).map fun c => (Shared c : Bool)) = some true := by
    decide +kernel
  obtain ⟨c, hc, hfacts⟩ := Option.map_eq_some_iff.1 hreplay
  obtain ⟨hcarried, hsocket, hready⟩ := of_decide_eq_true hfacts
  obtain ⟨o, r, st, c', hasked, hstep, -⟩ := System.Config.Shows.step
    (M := relaySystem openEnv) (x := (c.st, c.ctl)) ⟨rfl, rfl⟩ (.shard 0) _ hready
  split at hasked
  · next packet =>
      exact ⟨c, c', packet, r, st, (System.Config.run_of_replay hc).steps, hstep, hsocket,
        hcarried, of_decide_eq_true hasked⟩
  · cases hasked

end SwiftRelay
