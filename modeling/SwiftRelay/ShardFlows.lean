/-
**The flows of a shard, one operation at a time.**

A flow is opened for a client packet, with a socket of its own, and lives until the session is
removed or the flow has been idle for too long.  Client packets for it overwrite what the flow knows
of the packets it carries; nothing else does, and nothing changes its socket or the account that it
was opened for.

Main definitions:

* `FlowState.Continues` — the same flow, but for its endpoint and its activity;
* `ShardState.Keeps` — no message comes or goes, and no flow is opened or used;
* `ShardStep`, `ShardFlowStep` — the ways in which a shard and a flow can change;
* `RespondingOp` — the operations for a datagram on the socket of a flow.

Main results:

* `shardStep`, `shardFlowStep` — everything that an operation can do to one shard and to one flow;
* `inbox_step`, `inHand_step`, `nextSocket_step` — its inbox, the packet in hand and its sockets;
* `shard_of_other` — what the other threads leave alone;
* `flowResponse_uses` — what a shard does with a datagram.
-/

import SwiftRelay.System

set_option autoImplicit false

namespace SwiftRelay

open Conc

/-! ### Flows that go on -/

/-- A later state of the same flow, without a client packet in between. -/
structure FlowState.Continues (flow' flow : FlowState) : Prop where
  socket : flow'.socket = flow.socket
  originalInfo : flow'.originalInfo = flow.originalInfo
  opener : flow'.opener = flow.opener

theorem FlowState.Continues.refl (flow : FlowState) : flow.Continues flow := ⟨rfl, rfl, rfl⟩

theorem FlowState.touch_continues (flow : FlowState) (now : Instant) :
    (flow.touch now).Continues flow := ⟨rfl, rfl, rfl⟩

theorem FlowState.keepalive_continues (flow : FlowState) (addr : SocketAddr) (now : Instant) :
    (flow.keepalive addr now).Continues flow := ⟨rfl, rfl, rfl⟩

namespace ShardState

/-- No message comes or goes, and no flow is opened or used: the flows of `s'` are flows of `s` that
go on. -/
structure Keeps (s s' : ShardState) : Prop where
  inbox : s'.inbox = s.inbox
  inHand : s'.inHand = s.inHand
  nextSocket : s'.nextSocket = s.nextSocket
  flows : ∀ key flow', s'.flows.lookup key = some flow' →
    ∃ flow, s.flows.lookup key = some flow ∧ flow'.Continues flow

variable {s s' : ShardState}

theorem Keeps.of_eq (hinbox : s'.inbox = s.inbox) (hhand : s'.inHand = s.inHand)
    (hsocket : s'.nextSocket = s.nextSocket) (hflows : s'.flows = s.flows) : s.Keeps s' :=
  ⟨hinbox, hhand, hsocket, fun _ flow h => ⟨flow, hflows ▸ h, .refl flow⟩⟩

theorem Keeps.refl (s : ShardState) : s.Keeps s := .of_eq rfl rfl rfl rfl

variable (s)

/-- New tables, whose flows are flows that go on. -/
theorem keeps_setTables {t : FlowTables} (hflows : ∀ key flow', t.flows.lookup key = some flow' →
      ∃ flow, s.flows.lookup key = some flow ∧ flow'.Continues flow) :
    s.Keeps { s with toFlowTables := t } :=
  ⟨rfl, rfl, rfl, hflows⟩

theorem keeps_touch (key : FlowKey) (now : Instant) :
    s.Keeps { s with toFlowTables := s.modifyFlow key fun flow => flow.touch now } := by
  refine s.keeps_setTables fun key' flow' hflow' => ?_
  rw [FlowTables.lookup_modifyFlow] at hflow'
  split at hflow'
  · next heq =>
      subst heq
      obtain ⟨flow, hflow, rfl⟩ := Option.map_eq_some_iff.1 hflow'
      exact ⟨flow, hflow, flow.touch_continues now⟩
  · exact ⟨flow', hflow', .refl flow'⟩

theorem keeps_keepalive (sid : SessionId) (addr : SocketAddr) (now : Instant) :
    s.Keeps { s with toFlowTables := s.keepalive sid addr now } := by
  refine s.keeps_setTables fun key flow' hflow' => ?_
  rw [FlowTables.lookup_keepalive] at hflow'
  obtain ⟨flow, hflow, rfl⟩ := Option.map_eq_some_iff.1 hflow'
  refine ⟨flow, hflow, ?_⟩
  split
  · exact flow.keepalive_continues addr now
  · exact .refl flow

theorem keeps_removeSession (sid : SessionId) :
    s.Keeps { s with toFlowTables := s.removeSession sid } :=
  s.keeps_setTables fun _ flow hflow => ⟨flow, s.lookup_of_removeSession hflow, .refl flow⟩

theorem keeps_cleanup (now : Instant) (flowCount : ℕ) :
    s.Keeps { s with toFlowTables := s.cleanup now, flowCount } := by
  refine ⟨rfl, rfl, rfl, fun key flow' hflow' => ?_⟩
  obtain ⟨flow, hflow, hcleanup⟩ := Option.bind_eq_some_iff.1
    ((s.lookup_cleanup now key).symm.trans hflow')
  exact ⟨flow, hflow, FlowState.cleanup_eq hcleanup ▸ ⟨rfl, rfl, rfl⟩⟩

theorem keeps_allocateFlowToken : s.Keeps { s with toFlowTables := s.allocateFlowToken.2 } :=
  .of_eq rfl rfl rfl rfl

end ShardState

/-! ### What an operation does to one shard -/

/-- The shard whose state an operation is about; only its thread uses the operation. -/
def V2Op.owner : V2Op → Option ℕ
  | .shardRecv k | .slotRelease k | .allocateToken k | .flowOpen k .. | .flowForward k .. => some k
  | .flowsKeepalive k .. | .flowsRemove k _ | .flowsCleanup k _ | .flowTouch k .. => some k
  | _ => none

theorem V2Op.eq_of_owner {o : V2Op} {k : ℕ} (ho : o.owner = some k) {u : Tid}
    (hmay : may u (.v2 o)) : u = .shard k := by
  cases u with
  | shard j => cases o <;> cases ho <;> rw [of_decide_eq_true hmay]
  | _ => cases o <;> cases ho <;> cases hmay

/-- What an operation can do to shard `k`. -/
inductive ShardStep (k : ℕ) (s : ShardState) : (o : V2Op) → o.Ret → ShardState → Prop
  | sent (msg : ShardMsg) :
      ShardStep k s (.shardSend k msg) true { s with inbox := s.inbox ++ [msg] }
  | taken (msg : ShardMsg) (inbox : List ShardMsg) (inHand : Option ClientPacket)
      (hinbox : s.inbox = msg :: inbox)
      (hhand : ∀ packet, inHand = some packet ↔ msg = .clientPacket packet) :
      ShardStep k s (.shardRecv k) (some msg) { s with inbox, inHand }
  | released : ShardStep k s (.slotRelease k) () { s with inHand := none }
  | opened (key : FlowKey) (token : ℕ) (addr : SocketAddr) (info : OriginalPacketInfo)
      (now : Instant) (account : String) :
      ShardStep k s (.flowOpen k key token addr info now account) ()
        (s.openFlow key token addr info now account)
  | used (key : FlowKey) (addr : SocketAddr) (info : OriginalPacketInfo) (payload : List UInt8)
      (now : Instant) :
      ShardStep k s (.flowForward k key addr info payload now) ()
        { s with
          toFlowTables := s.modifyFlow key fun flow => flow.used addr info now, inHand := none }
  | kept (o : V2Op) (r : o.Ret) (s' : ShardState) (hkeeps : s.Keeps s')
      (hown : s' = s ∨ o.owner = some k) : ShardStep k s o r s'

section Step

variable {env : RelayEnv} {o : V2Op} {r : o.Ret} {s s' : V2State}

/-- **What an operation does to one shard.** -/
theorem shardStep (h : execV2 env o s = some (r, s')) (k : ℕ) :
    ShardStep k (s.shards k) o r (s'.shards k) := by
  have hsame (r : o.Ret) : ShardStep k (s.shards k) o r (s.shards k) :=
    .kept _ _ _ (.refl _) (.inl rfl)
  have hset (r : o.Ret) (j : ℕ) (shard : ShardState)
      (hself : ShardStep j (s.shards j) o r shard) :
      ShardStep k (s.shards k) o r ((s.setShard j shard).shards k) := by
    by_cases hk : k = j
    · subst hk
      rw [V2State.setShard_self]
      exact hself
    · rw [V2State.setShard_of_ne _ _ hk]
      exact hsame r
  cases o with
  | shardSend j msg =>
      simp only [execV2] at h
      split at h <;> cases h
      · exact hset _ j _ (.sent msg)
      · exact hsame _
  | shardRecv j =>
      simp only [execV2] at h
      split at h
      · cases h
        exact hsame _
      · next msg inbox hinbox =>
          cases h
          refine hset _ j _ (.taken msg inbox _ hinbox fun packet => ?_)
          cases msg <;> simp
  | slotRelease j =>
      cases h
      exact hset _ j _ .released
  | flowOpen j key token addr info now account =>
      cases h
      exact hset _ j _ (.opened key token addr info now account)
  | flowForward j key addr info payload now =>
      cases h
      exact hset _ j _ (.used key addr info payload now)
  | allocateToken j =>
      cases h
      exact hset _ j _ (.kept _ _ _ (ShardState.keeps_allocateFlowToken _) (.inr rfl))
  | flowsKeepalive j sid addr now =>
      cases h
      exact hset _ j _ (.kept _ _ _ (ShardState.keeps_keepalive _ _ _ _) (.inr rfl))
  | flowsRemove j sid =>
      cases h
      exact hset _ j _ (.kept _ _ _ (ShardState.keeps_removeSession _ _) (.inr rfl))
  | flowsCleanup j now =>
      cases h
      exact hset _ j _ (.kept _ _ _ (ShardState.keeps_cleanup _ _ _) (.inr rfl))
  | flowTouch j key now =>
      cases h
      exact hset _ j _ (.kept _ _ _
        (ShardState.keeps_touch _ key now) (.inr rfl))
  | txSend packet =>
      simp only [execV2] at h
      split at h <;> split at h <;> cases h <;> exact hsame _
  | txRecv =>
      simp only [execV2] at h
      split at h <;> cases h <;> exact hsame _
  | _ =>
      cases h
      exact hsame _

theorem execV2_inbox (ho : o.mails = false) (h : execV2 env o s = some (r, s')) (k : ℕ) :
    (s'.shards k).inbox = (s.shards k).inbox := by
  have hstep := shardStep h k
  generalize s.shards k = shard, s'.shards k = shard' at hstep ⊢
  cases hstep with
  | sent | taken => cases ho
  | released | opened | used => rfl
  | kept _ _ _ hkeeps => exact hkeeps.inbox

/-- A message in the inbox of a shard was there before, or is the one that was sent. -/
theorem inbox_step (h : execV2 env o s = some (r, s')) {k : ℕ} {msg : ShardMsg}
    (hmsg : msg ∈ (s'.shards k).inbox) : msg ∈ (s.shards k).inbox ∨ o = .shardSend k msg := by
  have hstep := shardStep h k
  generalize s.shards k = shard, s'.shards k = shard' at hstep hmsg ⊢
  cases hstep with
  | sent msg' =>
      rcases List.mem_append.1 hmsg with hmsg | hmsg
      · exact .inl hmsg
      · rw [List.mem_singleton.1 hmsg]
        exact .inr rfl
  | taken msg' inbox _ hinbox => exact .inl (hinbox ▸ List.mem_cons_of_mem _ hmsg)
  | released | opened | used => exact .inl hmsg
  | kept _ _ _ hkeeps => exact .inl (hkeeps.inbox ▸ hmsg)

/-- The packet in the hands of a shard was there before, or was the first one in its inbox. -/
theorem inHand_step (h : execV2 env o s = some (r, s')) {k : ℕ} {packet : ClientPacket}
    (hpacket : (s'.shards k).inHand = some packet) :
    (s.shards k).inHand = some packet ∨ .clientPacket packet ∈ (s.shards k).inbox := by
  have hstep := shardStep h k
  generalize s.shards k = shard, s'.shards k = shard' at hstep hpacket ⊢
  cases hstep with
  | sent | opened => exact .inl hpacket
  | taken msg inbox inHand hinbox hhand =>
      rw [hinbox, (hhand packet).1 hpacket]
      exact .inr List.mem_cons_self
  | released | used => cases hpacket
  | kept _ _ _ hkeeps => exact .inl (hkeeps.inHand ▸ hpacket)

/-- Sockets are numbered in the order in which they are opened. -/
theorem nextSocket_step (h : execV2 env o s = some (r, s')) (k : ℕ) :
    (s'.shards k).nextSocket = (s.shards k).nextSocket ∨
      (∃ key token addr info now account, o = .flowOpen k key token addr info now account) ∧
        (s'.shards k).nextSocket = (s.shards k).nextSocket + 1 := by
  have hstep := shardStep h k
  generalize s.shards k = shard, s'.shards k = shard' at hstep ⊢
  cases hstep with
  | opened key token addr info now account =>
      exact .inr ⟨⟨key, token, addr, info, now, account, rfl⟩, rfl⟩
  | kept _ _ _ hkeeps => exact .inl hkeeps.nextSocket
  | sent | taken | released | used => exact .inl rfl

/-- Only a shard itself touches its flows and what it has in hand. -/
theorem shard_of_other {k : ℕ} {u : Tid} {o : RelayOp} {r : o.Ret} {s s' : RelayState}
    (hmay : may u o) (hne : u ≠ .shard k) (h : execRelay env u o s = some (r, s')) :
    (s'.v2.shards k).flows = (s.v2.shards k).flows ∧
      (s'.v2.shards k).inHand = (s.v2.shards k).inHand := by
  rcases o with o | o | o
  · rw [(execRelay_core h).2.2]
    exact ⟨rfl, rfl⟩
  · rw [(execRelay_v1 h).2.2]
    exact ⟨rfl, rfl⟩
  · have hstep := shardStep (execRelay_v2 h).1 k
    generalize s.v2.shards k = shard, s'.v2.shards k = shard' at hstep ⊢
    cases hstep with
    | sent => exact ⟨rfl, rfl⟩
    | kept _ _ _ _ hown =>
        rcases hown with rfl | hown
        · exact ⟨rfl, rfl⟩
        · exact absurd (V2Op.eq_of_owner hown hmay) hne
    | _ => exact absurd (V2Op.eq_of_owner rfl hmay) hne

end Step

/-! ### What an operation does to one flow -/

/-- What an operation can do to the flow with a key in shard `k`. -/
inductive ShardFlowStep (o : V2Op) (s : V2State) (k : ℕ) (key : FlowKey) :
    Option FlowState → Option FlowState → Prop
  | opened (x : Option FlowState) (token : ℕ) (addr : SocketAddr) (info : OriginalPacketInfo)
      (now : Instant) (account : String)
      (ho : o = .flowOpen k key token addr info now account) :
      ShardFlowStep o s k key x
        (some ⟨(s.shards k).nextSocket, addr, info, now, none, token, account⟩)
  | used (flow : FlowState) (addr : SocketAddr) (info : OriginalPacketInfo) (payload : List UInt8)
      (now : Instant) (ho : o = .flowForward k key addr info payload now) :
      ShardFlowStep o s k key (some flow) (some (flow.used addr info now))
  | kept (flow flow' : FlowState) (hcontinues : flow'.Continues flow) :
      ShardFlowStep o s k key (some flow) (some flow')
  | gone (x : Option FlowState) : ShardFlowStep o s k key x none

theorem ShardState.Keeps.step {o : V2Op} {s : V2State} {k : ℕ} {key : FlowKey}
    {shard shard' : ShardState} (h : shard.Keeps shard') :
    ShardFlowStep o s k key (shard.flows.lookup key) (shard'.flows.lookup key) := by
  cases hflow' : shard'.flows.lookup key with
  | none => exact .gone _
  | some flow' =>
      obtain ⟨flow, hflow, hcontinues⟩ := h.flows key flow' hflow'
      rw [hflow]
      exact .kept flow flow' hcontinues

/-- **What an operation does to one flow.** -/
theorem shardFlowStep {env : RelayEnv} {o : V2Op} {r : o.Ret} {s s' : V2State}
    (h : execV2 env o s = some (r, s')) (k : ℕ) (key : FlowKey) :
    ShardFlowStep o s k key ((s.shards k).flows.lookup key) ((s'.shards k).flows.lookup key) := by
  have hstep := shardStep h k
  have hopens (token : ℕ) (addr : SocketAddr) (info : OriginalPacketInfo) (now : Instant)
      (account : String) (ho : o = .flowOpen k key token addr info now account) :=
    ShardFlowStep.opened ((s.shards k).flows.lookup key) token addr info now account ho (s := s)
  generalize s.shards k = shard, s'.shards k = shard' at hstep hopens ⊢
  cases hstep with
  | opened key' token addr info now account =>
      simp only [ShardState.openFlow, FlowTables.insertFlow, Table.lookup_insert_eq]
      split
      · next hkey =>
          subst hkey
          exact hopens token addr info now account rfl
      · exact (ShardState.Keeps.refl _).step
  | used key' addr info payload now =>
      simp only [FlowTables.lookup_modifyFlow]
      split
      · next hkey =>
          subst hkey
          cases shard.flows.lookup key with
          | none => exact .gone _
          | some flow => exact .used flow addr info payload now rfl
      · exact (ShardState.Keeps.refl _).step
  | kept _ _ _ hkeeps => exact hkeeps.step
  | sent | taken | released => exact (ShardState.Keeps.refl shard).step

/-! ### A datagram on the socket of a flow -/

/-- The operations of a shard for a datagram on the socket of `flow`: the response is built from
what the flow knows of the packets that it carries. -/
def RespondingOp (k : ℕ) (key : FlowKey) (flow : FlowState) (payload : List UInt8) :
    RelayOp → Prop
  | .core o => o.ofFlow
  | .v2 (.flowTouch k' ..) => k' = k
  | .v2 (.txSend packet) =>
      packet.sessionId = key.sessionId ∧ packet.account = flow.opener ∧
        ∃ tos, packet.frame = sessionIdBytes key.sessionId ++
          buildResponseIpPacketWithTos payload flow.originalInfo tos
  | _ => False

theorem carryResponse_uses (k : ℕ) (key : FlowKey) (flow : FlowState) (a : Arrival) :
    (carryResponse k key flow a).Uses (RespondingOp k key flow a.payload) := by
  have hdrop (reason : DropReason) : RespondingOp k key flow a.payload (.core (.drop reason)) := rfl
  refine uses_v2_bind rfl fun _ => uses_core_bind rfl fun _ => ?_
  refine .ite (uses_core_bind (hdrop _) fun _ => trivial) ?_
  split
  · trivial
  · next ipPacket hpacket =>
      have hframe := (Option.ite_none_left_eq_some.1 hpacket).2
      refine uses_v2_bind ⟨rfl, rfl, a.responseTos.getD flow.originalInfo.tos, ?_⟩ fun sent => ?_
      · rw [Option.some.inj hframe]
      · cases sent with
        | true => trivial
        | false => exact uses_core_bind (hdrop _) fun _ => trivial

theorem flowResponse_uses (k : ℕ) (key : FlowKey) (flow : FlowState) (a : Arrival) :
    (core (.sessionGet key.sessionId) >>= fun session =>
      if session.any fun e => sessionLeaseIsCurrent e a.nowUnix then carryResponse k key flow a
      else return false : RelayProg Bool).Uses (RespondingOp k key flow a.payload) :=
  uses_core_bind rfl fun _ => .ite (carryResponse_uses k key flow a) trivial

end SwiftRelay
