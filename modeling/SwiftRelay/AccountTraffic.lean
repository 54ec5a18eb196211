/-
**Whose return traffic a client gets.**

A shard knows a flow by its session and its game server.  The flow outlives the session: it is
closed when the shard reads that the session was removed, and that message can wait in the inbox, or
be lost when the inbox is full.  What comes back on the flow is sent to whoever has the session by
then.

So return traffic stays with its account as long as a session changes hands only when nothing of the
former account is left: no flow, no client packet on its way to a flow, no frame on its way to the
client.  Under this condition everything that the datapath holds for a session belongs to the
account of the last hello of the session, and a frame is sent only to an endpoint of that account.

Main definitions:

* `remains` — the accounts of what the datapath still holds for a session;
* `vacated` — a hello is applied only where nothing of another account remains;
* `Traced` — the invariant;
* `Delivered` — the frame in hand belongs to the account of the endpoint that was read;
* `traceContract` — the contract.

Main results:

* `transmitStep` — everything that an operation can do to the transmit queues;
* `accountsOf_step`, `transmitAccountsOf_step` — what an operation adds to the traffic of a session;
* `traceContract_sound` — every thread keeps to the contract;
* `no_cross_account_traffic` — return traffic stays with its account;
* `cross_account_traffic_after_removal` — a session that changes hands too early.
-/

import SwiftRelay.Admission
import SwiftRelay.ShardFlows

set_option autoImplicit false

namespace SwiftRelay

open Conc

/-! ### What the datapath holds for a session -/

/-- The account of a client packet, if it belongs to session `sid`. -/
def ClientPacket.accountFor (packet : ClientPacket) (sid : SessionId) : Option String :=
  if packet.sessionId = sid then some packet.account else none

@[inherit_doc ClientPacket.accountFor]
def ShardMsg.accountFor (msg : ShardMsg) (sid : SessionId) : Option String :=
  match msg with
  | .clientPacket packet => packet.accountFor sid
  | _ => none

/-- The account of a data frame, if it belongs to session `sid`. -/
def TxPacket.accountFor (packet : TxPacket) (sid : SessionId) : Option String :=
  if packet.kind = .data ∧ packet.sessionId = sid then some packet.account else none

/-- The accounts of the flows and of the client packets that a shard has for a session. -/
def ShardState.accountsOf (s : ShardState) (sid : SessionId) : List String :=
  (s.flows.entries.filterMap fun e => if e.1.sessionId = sid then some e.2.opener else none) ++
    s.inbox.filterMap (·.accountFor sid) ++ s.inHand.toList.filterMap (·.accountFor sid)

/-- The accounts of the frames that wait for the transmit thread or are in its hands. -/
def V2State.transmitAccountsOf (s : V2State) (sid : SessionId) : List String :=
  s.txData.filterMap (·.accountFor sid) ++ s.txInHand.toList.filterMap (·.accountFor sid)

/-- The accounts of everything that the datapath holds for a session. -/
def remains (env : RelayEnv) (s : RelayState) (sid : SessionId) : List String :=
  (s.v2.shards (shardForSession sid env.shardCount)).accountsOf sid ++ s.v2.transmitAccountsOf sid

/-- A hello is applied only where nothing of another account remains. -/
def vacated (env : RelayEnv) : System.Test (relaySystem env) := fun _ o s =>
  match o with
  | .core (.helloApply sid ticket _ _ _) =>
      (remains env s sid).all fun account => decide (account = ticket.userId)
  | _ => true

section Accounts

variable {sid : SessionId} {account : String}

theorem ClientPacket.accountFor_eq_some {packet : ClientPacket} :
    packet.accountFor sid = some account ↔ packet.sessionId = sid ∧ packet.account = account := by
  simp [accountFor]

theorem ShardMsg.accountFor_eq_some {msg : ShardMsg} :
    msg.accountFor sid = some account ↔
      ∃ packet, msg = .clientPacket packet ∧ packet.accountFor sid = some account := by
  cases msg <;> simp [accountFor]

theorem TxPacket.accountFor_eq_some {packet : TxPacket} :
    packet.accountFor sid = some account ↔
      packet.kind = .data ∧ packet.sessionId = sid ∧ packet.account = account := by
  simp [accountFor, and_assoc]

theorem ShardState.mem_accountsOf {s : ShardState} :
    account ∈ s.accountsOf sid ↔
      (∃ key flow, s.flows.lookup key = some flow ∧ key.sessionId = sid ∧ flow.opener = account) ∨
      (∃ packet, .clientPacket packet ∈ s.inbox ∧ packet.accountFor sid = some account) ∨
      ∃ packet, s.inHand = some packet ∧ packet.accountFor sid = some account := by
  simp only [accountsOf, List.append_assoc, List.mem_append, List.mem_filterMap,
    Option.mem_toList]
  refine or_congr ?_ (or_congr ?_ Iff.rfl)
  · constructor
    · rintro ⟨⟨key, flow⟩, hmem, haccount⟩
      obtain ⟨hsid, hopener⟩ := Option.ite_none_right_eq_some.1 haccount
      exact ⟨key, flow, Table.lookup_eq_some_iff.2 hmem, hsid, Option.some.inj hopener⟩
    · rintro ⟨key, flow, hflow, hsid, rfl⟩
      exact ⟨⟨key, flow⟩, Table.lookup_eq_some_iff.1 hflow, if_pos hsid⟩
  · constructor
    · rintro ⟨msg, hmem, haccount⟩
      obtain ⟨packet, rfl, haccount⟩ := ShardMsg.accountFor_eq_some.1 haccount
      exact ⟨packet, hmem, haccount⟩
    · rintro ⟨packet, hmem, haccount⟩
      exact ⟨_, hmem, haccount⟩

theorem V2State.mem_transmitAccountsOf {s : V2State} :
    account ∈ s.transmitAccountsOf sid ↔
      ∃ packet, (packet ∈ s.txData ∨ s.txInHand = some packet) ∧
        packet.accountFor sid = some account := by
  simp only [transmitAccountsOf, List.mem_append, List.mem_filterMap, Option.mem_toList,
    ← exists_or, or_and_right]

end Accounts

/-! ### What an operation adds -/

/-- The session and the account of what an operation brings to shard `k`. -/
def V2Op.bringsTo (k : ℕ) : V2Op → Option (SessionId × String)
  | .shardSend k' (.clientPacket packet) =>
      if k' = k then some (packet.sessionId, packet.account) else none
  | .flowOpen k' key _ _ _ _ account => if k' = k then some (key.sessionId, account) else none
  | _ => none

/-- The session and the account of what an operation hands to the transmit thread. -/
def V2Op.transmits : V2Op → Option (SessionId × String)
  | .txSend packet => if packet.kind = .data then some (packet.sessionId, packet.account) else none
  | _ => none

section Step

variable {env : RelayEnv} {o : V2Op} {r : o.Ret} {s s' : V2State}

/-- **What an operation adds to the traffic of a session in a shard.** -/
theorem accountsOf_step (h : execV2 env o s = some (r, s')) {k : ℕ} {sid : SessionId}
    {account : String} (haccount : account ∈ (s'.shards k).accountsOf sid) :
    account ∈ (s.shards k).accountsOf sid ∨ o.bringsTo k = some (sid, account) := by
  rw [ShardState.mem_accountsOf] at haccount ⊢
  rcases haccount with ⟨key, flow', hflow', hsid, hopener⟩ | ⟨packet, hmem, hpacket⟩ |
    ⟨packet, hhand, hpacket⟩
  · have hstep := shardFlowStep h k key
    rw [hflow'] at hstep
    generalize hx : (s.shards k).flows.lookup key = x at hstep
    cases hstep with
    | opened _ token addr info now account' ho =>
        subst ho
        refine .inr ?_
        rw [V2Op.bringsTo, if_pos rfl, hsid, ← hopener]
    | used flow addr info payload now ho => exact .inl (.inl ⟨key, flow, hx, hsid, hopener⟩)
    | kept flow _ hcontinues =>
        exact .inl (.inl ⟨key, flow, hx, hsid, hcontinues.opener.symm.trans hopener⟩)
  · rcases inbox_step h hmem with hmem | rfl
    · exact .inl (.inr (.inl ⟨packet, hmem, hpacket⟩))
    · obtain ⟨rfl, rfl⟩ := ClientPacket.accountFor_eq_some.1 hpacket
      exact .inr (if_pos rfl)
  · rcases inHand_step h hhand with hhand | hmem
    · exact .inl (.inr (.inr ⟨packet, hhand, hpacket⟩))
    · exact .inl (.inr (.inl ⟨packet, hmem, hpacket⟩))

/-- What an operation can do to the frames for the transmit thread. -/
inductive TransmitStep (s s' : V2State) : (o : V2Op) → o.Ret → Prop
  | controlQueued (packet : TxPacket) (hkind : packet.kind = .control)
      (hs' : s' = { s with txControl := s.txControl ++ [packet] }) :
      TransmitStep s s' (.txSend packet) true
  | dataQueued (packet : TxPacket) (hs' : s' = { s with txData := s.txData ++ [packet] }) :
      TransmitStep s s' (.txSend packet) true
  | controlTaken (packet : TxPacket) (txControl : List TxPacket)
      (hqueue : s.txControl = packet :: txControl)
      (hs' : s' = { s with txControl, txInHand := some packet }) :
      TransmitStep s s' .txRecv (some packet)
  | dataTaken (packet : TxPacket) (txData : List TxPacket) (hqueue : s.txData = packet :: txData)
      (hs' : s' = { s with txData, txInHand := some packet }) :
      TransmitStep s s' .txRecv (some packet)
  | released (hs' : s' = { s with txInHand := none }) : TransmitStep s s' .txRelease ()
  | kept (o : V2Op) (r : o.Ret) (shards : ℕ → ShardState) (hs' : s' = { s with shards }) :
      TransmitStep s s' o r

theorem transmitStep (h : execV2 env o s = some (r, s')) : TransmitStep s s' o r := by
  cases o with
  | txSend packet =>
      simp only [execV2] at h
      split at h
      · next hkind =>
          split at h <;> cases h
          · exact .controlQueued packet hkind rfl
          · exact .kept _ _ _ rfl
      · split at h <;> cases h
        · exact .dataQueued packet rfl
        · exact .kept _ _ _ rfl
  | txRecv =>
      simp only [execV2] at h
      split at h
      · next packet txControl hqueue =>
          cases h
          exact .controlTaken packet txControl hqueue rfl
      · next packet txData _ hqueue =>
          cases h
          exact .dataTaken packet txData hqueue rfl
      · cases h
        exact .kept _ _ _ rfl
  | txRelease =>
      cases h
      exact .released rfl
  | shardSend j msg =>
      simp only [execV2] at h
      split at h <;> cases h <;> exact .kept _ _ _ rfl
  | shardRecv j =>
      simp only [execV2] at h
      split at h <;> cases h <;> exact .kept _ _ _ rfl
  | _ =>
      cases h
      exact .kept _ _ _ rfl

/-- The frames for the transmit thread were there before, or one is the frame that was queued. -/
theorem frame_step (h : execV2 env o s = some (r, s')) {packet : TxPacket}
    (hpacket : packet ∈ s'.txData ∨ s'.txInHand = some packet) (hkind : packet.kind = .data)
    (hcontrol : ∀ p ∈ s.txControl, p.kind = .control) :
    (packet ∈ s.txData ∨ s.txInHand = some packet) ∨ o = .txSend packet := by
  cases transmitStep h with
  | controlQueued packet' _ hs' | kept _ _ _ hs' =>
      subst hs'
      exact .inl hpacket
  | dataQueued packet' hs' =>
      subst hs'
      rcases hpacket with hmem | hhand
      · rcases List.mem_append.1 hmem with hmem | hmem
        · exact .inl (.inl hmem)
        · rw [List.mem_singleton.1 hmem]
          exact .inr rfl
      · exact .inl (.inr hhand)
  | controlTaken packet' txControl hqueue hs' =>
      subst hs'
      rcases hpacket with hmem | hhand
      · exact .inl (.inl hmem)
      · -- a control frame is no data frame
        cases hhand
        have hcontrol := hcontrol packet (by rw [hqueue]; exact List.mem_cons_self)
        rw [hkind] at hcontrol
        cases hcontrol
  | dataTaken packet' txData hqueue hs' =>
      subst hs'
      rw [hqueue]
      rcases hpacket with hmem | hhand
      · exact .inl (.inl (List.mem_cons_of_mem _ hmem))
      · cases hhand
        exact .inl (.inl List.mem_cons_self)
  | released hs' =>
      subst hs'
      exact .inl (.inl (hpacket.resolve_right nofun))

theorem control_step (h : execV2 env o s = some (r, s'))
    (hcontrol : ∀ p ∈ s.txControl, p.kind = .control) :
    ∀ p ∈ s'.txControl, p.kind = .control := by
  cases transmitStep h with
  | controlQueued packet hkind hs' =>
      subst hs'
      intro p hp
      rcases List.mem_append.1 hp with hp | hp
      · exact hcontrol p hp
      · rw [List.mem_singleton.1 hp]
        exact hkind
  | controlTaken packet txControl hqueue hs' =>
      subst hs'
      exact fun p hp => hcontrol p (by rw [hqueue]; exact List.mem_cons_of_mem _ hp)
  | dataQueued _ hs' | dataTaken _ _ _ hs' | released hs' | kept _ _ _ hs' =>
      subst hs'
      exact hcontrol

/-- **What an operation adds to the traffic of a session on its way out.** -/
theorem transmitAccountsOf_step (h : execV2 env o s = some (r, s'))
    (hcontrol : ∀ p ∈ s.txControl, p.kind = .control) {sid : SessionId} {account : String}
    (haccount : account ∈ s'.transmitAccountsOf sid) :
    account ∈ s.transmitAccountsOf sid ∨ o.transmits = some (sid, account) := by
  rw [V2State.mem_transmitAccountsOf] at haccount ⊢
  obtain ⟨packet, hpacket, hfor⟩ := haccount
  obtain ⟨hkind, hsid, haccount⟩ := TxPacket.accountFor_eq_some.1 hfor
  rcases frame_step h hpacket hkind hcontrol with hpacket | rfl
  · exact .inl ⟨packet, hpacket, hfor⟩
  · exact .inr (by rw [V2Op.transmits, if_pos hkind, hsid, haccount])

end Step

/-! ### The contract -/

variable {env : RelayEnv}

/-- The account of the last hello for a session. -/
def ownerOf (sid : SessionId) (hist : List (RelayEvent env)) : Option String :=
  (lastHello sid hist).map fun hello => hello.ticket.userId

/-- What the datapath holds for a session belongs to the account of the last hello, and a shard
holds only what belongs to its sessions. -/
structure Traced (w : RelayWorld env) : Prop where
  shard : ∀ k sid, ∀ account ∈ (w.st.v2.shards k).accountsOf sid,
    k = shardForSession sid env.shardCount ∧ ownerOf sid w.hist = some account
  transmit : ∀ sid, ∀ account ∈ w.st.v2.transmitAccountsOf sid, ownerOf sid w.hist = some account
  control : ∀ p ∈ w.st.v2.txControl, p.kind = .control

/-- Since its last activation, the transmit thread asked the session map for the endpoint of the
session of the frame in its hands; the session that it found there was owned by the account of the
frame. -/
def Delivered (w : RelayWorld env) (sid : SessionId) (addr : SocketAddr) (frame : List UInt8) :
    Prop :=
  ∃ packet, w.st.v2.txInHand = some packet ∧ packet.kind = .data ∧ packet.sessionId = sid ∧
    packet.frame = frame ∧
    ∃ later nowUnix pre post earlier e,
      w.hist = later ++ .exec .tx (.core (.forwardingAddr sid nowUnix)) (some addr) pre post ::
        earlier ∧
      (∀ a, .start a ∈ later → a.tid ≠ .tx) ∧
      pre.core.sessions.lookup sid = some e ∧ e.clientAddr = addr ∧ e.userId = packet.account

/-- Client packets go to the shard of their session in the name of its owner, a flow is opened in
the name of a packet that the shard has, a response is queued in the name of its flow, and a frame
is sent to the owner of its session. -/
def tracePre (t : Tid) : RelayOp → RelayWorld env → Prop
  | .v2 (.shardSend k (.clientPacket packet)), w =>
      k = shardForSession packet.sessionId env.shardCount ∧
        ownerOf packet.sessionId w.hist = some packet.account
  | .v2 (.flowOpen k key _ _ _ _ account), w =>
      account ∈ (w.st.v2.shards k).accountsOf key.sessionId
  | .v2 (.txSend packet), w =>
      packet.kind = .data → ∃ k, packet.account ∈ (w.st.v2.shards k).accountsOf packet.sessionId
  | .core (.sendTo .data sid addr frame), w => t = .tx → Delivered w sid addr frame
  | _, _ => True

variable (env) in
def traceContract : Contract (relaySystem env) where
  cond w e := System.Passes (vacated env) w e ∧ (authContract env).cond w e ∧
    (authContract env).inv w ∧ (authContract env).Allows w e
  inv := Traced
  may := may
  pre := tracePre
  post _ _ := True

theorem traceContract_extends : (traceContract env).Extends (authContract env) := fun _ _ h => h.2

/-- The owner of a session changes with a hello only. -/
theorem ownerOf_exec {sid : SessionId} {t : Tid} {o : RelayOp} {r : o.Ret} {pre post : RelayState}
    {hist : List (RelayEvent env)} (ho : o.noHello = true) :
    ownerOf sid (.exec t o r pre post :: hist) = ownerOf sid hist := by
  rcases lastHello_exec sid t o r pre post hist with hlast | ⟨ticket, addr, _, _, rfl, -⟩
  · rw [ownerOf, hlast, ownerOf]
  · cases ho

section Invariant

variable {w : RelayWorld env} {t : Tid} {o : RelayOp} {r : o.Ret} {st : RelayState}

theorem Traced.begin (h : Traced w) (a : Act) : Traced (w.begin a : RelayWorld env) :=
  ⟨h.shard, h.transmit, h.control⟩

/-- What an operation that applies no hello leaves alone. -/
theorem Traced.of_v2_eq (h : Traced w) (ho : o.noHello = true) (hst : st.v2 = w.st.v2) :
    Traced (w.after t o r st : RelayWorld env) := by
  refine ⟨fun k sid account haccount => ?_, fun sid account haccount => ?_, ?_⟩
  · rw [System.World.after_st, hst] at haccount
    rw [System.World.after_hist, ownerOf_exec ho]
    exact h.shard k sid account haccount
  · rw [System.World.after_st, hst] at haccount
    rw [System.World.after_hist, ownerOf_exec ho]
    exact h.transmit sid account haccount
  · rw [System.World.after_st, hst]
    exact h.control

/-- A hello where nothing of another account remains. -/
theorem Traced.hello (h : Traced w) {sid : SessionId} {ticket : VerifiedRelayTicket}
    {addr : SocketAddr} {now : Instant} {nowUnix : UInt64} {r : Unit}
    (hvacated : vacated env t (.core (.helloApply sid ticket addr now nowUnix)) w.st = true)
    (hst : st.v2 = w.st.v2) :
    Traced (w.after t (.core (.helloApply sid ticket addr now nowUnix)) r st :
      RelayWorld env) := by
  have howner (sid' : SessionId) (account : String) (hbefore : ownerOf sid' w.hist = some account)
      (hremains : sid' = sid → account ∈ remains env w.st sid) :
      ownerOf sid' (.exec t (.core (.helloApply sid ticket addr now nowUnix)) r w.st st :: w.hist) =
        some account := by
    rw [ownerOf, lastHello_cons, helloFor]
    split
    · next hsid =>
        have haccount := List.all_eq_true.1 hvacated account (hremains hsid.symm)
        rw [of_decide_eq_true haccount]
        rfl
    · exact hbefore
  refine ⟨fun k sid' account haccount => ?_, fun sid' account haccount => ?_, ?_⟩
  · rw [System.World.after_st, hst] at haccount
    obtain ⟨hk, hbefore⟩ := h.shard k sid' account haccount
    refine ⟨hk, howner sid' account hbefore ?_⟩
    rintro rfl
    exact List.mem_append_left _ (hk ▸ haccount)
  · rw [System.World.after_st, hst] at haccount
    refine howner sid' account (h.transmit sid' account haccount) ?_
    rintro rfl
    exact List.mem_append_right _ haccount
  · rw [System.World.after_st, hst]
    exact h.control

/-- An operation of the second datapath, where it is permitted. -/
theorem Traced.exec_v2 (h : Traced w) {o : V2Op} {r : o.Ret} (hpre : tracePre t (.v2 o) w)
    (hexec : execRelay env t (.v2 o) w.st = some (r, st)) :
    Traced (w.after t (.v2 o) r st : RelayWorld env) := by
  have hv2 := (execRelay_v2 hexec).1
  refine ⟨fun k sid account haccount => ?_, fun sid account haccount => ?_,
    control_step hv2 h.control⟩
  · rw [System.World.after_hist, ownerOf_exec rfl]
    rcases accountsOf_step hv2 haccount with haccount | hbrings
    · exact h.shard k sid account haccount
    · unfold V2Op.bringsTo at hbrings
      split at hbrings
      · obtain ⟨rfl, heq⟩ := Option.ite_none_right_eq_some.1 hbrings
        cases heq
        exact hpre
      · obtain ⟨rfl, heq⟩ := Option.ite_none_right_eq_some.1 hbrings
        cases heq
        exact h.shard _ _ _ hpre
      · cases hbrings
  · rw [System.World.after_hist, ownerOf_exec rfl]
    rcases transmitAccountsOf_step hv2 h.control haccount with haccount | htransmits
    · exact h.transmit sid account haccount
    · unfold V2Op.transmits at htransmits
      split at htransmits
      · obtain ⟨hkind, heq⟩ := Option.ite_none_right_eq_some.1 htransmits
        cases heq
        obtain ⟨k, haccount⟩ := hpre hkind
        exact (h.shard k _ _ haccount).2
      · cases htransmits

/-- **Permitted operations keep the invariant.** -/
theorem traced_exec (h : Traced w) (hpre : tracePre t o w)
    (hexec : execRelay env t o w.st = some (r, st))
    (hcond : System.Passes (vacated env) w (.exec t o r w.st st)) :
    Traced (w.after t o r st : RelayWorld env) := by
  rcases o with o | o | o
  · have hv2 := (execRelay_core hexec).2.2
    cases o with
    | helloApply sid ticket addr now nowUnix => exact h.hello hcond hv2
    | _ => exact h.of_v2_eq rfl hv2
  · exact h.of_v2_eq rfl (execRelay_v1 hexec).2.2
  · exact h.exec_v2 hpre hexec

end Invariant

/-! ### The receive loop -/

section Rx

variable {w : RelayWorld env} {d : Datagram} {account : String}

/-- Client packets go to the shard of their session. -/
def Addressed (env : RelayEnv) : RelayOp → Prop
  | .v2 (.shardSend k (.clientPacket packet)) =>
      k = shardForSession packet.sessionId env.shardCount
  | _ => True

theorem FrontOp.addressed {o : RelayOp} (h : FrontOp o) : Addressed env o := by
  rcases o with o | o | o
  · trivial
  · cases h
  · obtain ⟨packet, rfl⟩ := h
    trivial

theorem rxFrame_addressed (authenticated sourceAllowed : Bool) :
    (rxFrame env d authenticated sourceAllowed account).Uses (Addressed env) := by
  refine Prog.Ends.uses (rxFrame_ends authenticated sourceAllowed) (fun _ => FrontOp.addressed) ?_
  rintro p (⟨gameAddr, info, payload⟩ | ⟨account, gameAddr, info, payload⟩ | -)
  · have hforward (newFlow : Bool) : (forwardToFlowV1 d ⟨d.sid, gameAddr⟩ info payload newFlow).Uses
        (Addressed env) := by
      refine uses_v1_bind trivial fun r => ?_
      cases r with
      | closed generation => exact removeV1Flow_uses trivial trivial trivial trivial
      | _ => simp [Addressed]
    have hnew : (newFlowAllowedV1 d).Uses (Addressed env) := by simp [newFlowAllowedV1, Addressed]
    refine uses_v1_bind trivial fun known => .ite (hforward _) ?_
    exact Prog.uses_bind hnew fun _ => .ite (hforward _) trivial
  · simp [rxForwardV2, Addressed]
  · unfold rxKeepalive
    split
    · refine uses_v1_bind trivial fun keys => Prog.uses_bind (Prog.uses_forM fun key _ => ?_) ?_
      · exact ⟨trivial, fun _ => trivial⟩
      · exact fun _ => ⟨trivial, fun _ => trivial⟩
    · simp [Addressed]

/-- What the receive loop does apart from handing client packets on. -/
def RxFrontOp (o : RelayOp) : Prop := FrontOp o ∧ may .rx o

theorem RxFrontOp.pre {o : RelayOp} (ho : RxFrontOp o) : tracePre .rx o w := by
  obtain ⟨hfront, hmay⟩ := ho
  rcases o with o | o | o
  · cases o with
    | sendTo kind sid addr frame =>
        cases kind with
        | data => exact fun h => by cases h
        | control => trivial
    | _ => trivial
  · cases hfront
  · obtain ⟨packet, rfl⟩ := hfront
    intro hkind
    have hcontrol : packet.kind = .control := of_decide_eq_true hmay
    rw [hkind] at hcontrol
    cases hcontrol

theorem rxFront_wp {p : RelayProg Unit} (hp : p.Uses RxFrontOp) :
    (traceContract env).wp .rx p (fun _ _ => True) w :=
  Contract.wp_of_uses hp (fun _ => True) Contract.Stable.true
    (fun _ ho _ _ _ => ⟨ho.pre, fun _ _ _ _ => trivial⟩) trivial

theorem stable_ownerOf (sid : SessionId) (φ : Option String → Prop) :
    (traceContract env).Stable .rx fun w => φ (ownerOf sid w.hist) :=
  traceContract_extends.stable
    (stable_lastHello sid fun hello => φ (hello.map fun hello => hello.ticket.userId))

/-- A frame of an authenticated session is handed on in the name of its owner. -/
theorem rxFrame_trace_wp (hauth : env.authRequired = true) {authenticated sourceAllowed : Bool}
    (hw : authenticated = true → ownerOf d.sid w.hist = some account) :
    (traceContract env).wp .rx (rxFrame env d authenticated sourceAllowed account)
      (fun _ _ => True) w := by
  cases authenticated with
  | false =>
      refine rxFront_wp ((rxFrame_refused_uses hauth).mono ?_)
      rintro _ ⟨reason, rfl⟩
      exact ⟨trivial, rfl⟩
  | true =>
      refine Contract.wp_mono (Contract.wp_of_uses
        ((rxFrame_uses true sourceAllowed).and (rxFrame_addressed true sourceAllowed)) _
        (stable_ownerOf d.sid (· = some account)) (fun o ho w _ hw => ⟨?_, fun r st _ _ => ?_⟩)
        (hw rfl)) fun _ _ _ => trivial
      · obtain ⟨hframe, haddressed⟩ := ho
        rcases o with o | o | o
        · cases o with
          | sendTo kind sid addr frame =>
              cases kind with
              | data => exact fun h => by cases h
              | control => trivial
          | _ => trivial
        · trivial
        · cases o with
          | shardSend k msg =>
              cases msg with
              | clientPacket packet =>
                  obtain ⟨hsid, -, haccount⟩ := hframe
                  exact ⟨haddressed, by rw [hsid, haccount]; exact hw⟩
              | _ => trivial
          | txSend packet =>
              intro hkind
              have hcontrol : packet.kind = .control := hframe
              rw [hkind] at hcontrol
              cases hcontrol
          | flowOpen => cases hframe
          | _ => trivial
      · rw [System.World.after_hist, ownerOf_exec ho.1.noHello]
        exact hw

/-- The session entry: what is handed on for it, is in the name of the owner that was found there.
-/
theorem rxSession_trace_wp (hauth : env.authRequired = true)
    (ticket : Option VerifiedRelayTicket) :
    (traceContract env).wp .rx (rxSession env d ticket) (fun _ _ => True) w := by
  have hhello (w : RelayWorld env) : (traceContract env).wp .rx (rxHello env d ticket)
      (fun _ _ => True) w := rxFront_wp ((rxHello_entry ticket).mono fun _ h => ⟨h.2, h.1.may⟩)
  refine wp_core_bind _ .true trivial (fun _ _ _ => trivial) ?_
  intro w' session st _ _ hexec hcond
  obtain ⟨hsession, -, -⟩ := execCore_entryLock (execRelay_core hexec).1
  have hinv : AuthInv w' := hcond.2.2.1
  cases session with
  | some session =>
      -- the owner of an authenticated entry is that of the last hello
      have howner : sessionAuthIsCurrent session d.nowUnix = true →
          ownerOf d.sid (w'.after .rx (.core (.entryLock d.sid)) (some session) st :
            RelayWorld env).hist = some session.userId := by
        intro hcurrent
        obtain ⟨hstate, -⟩ := sessionAuthIsCurrent_iff.1 hcurrent
        obtain ⟨hello, hlast, huser, -⟩ := hinv.owned d.sid session hsession.symm hstate
        rw [System.World.after_hist, ownerOf_exec rfl, ownerOf, hlast, huser]
        rfl
      have hstable := Contract.Stable.imp (q := sessionAuthIsCurrent session d.nowUnix = true)
        fun _ => @stable_ownerOf env d.sid (· = some session.userId)
      have htouch : (touchSession env d session).Uses fun o : RelayOp =>
          RxFrontOp o ∧ o.noHello = true := by
        refine Prog.uses_ite.2 ⟨fun _ => ?_, fun _ => uses_core_bind ⟨⟨trivial, rfl⟩, rfl⟩
          fun _ => trivial⟩
        refine Prog.uses_bind ((updateSourceSessionCountForRebind_uses _ _).mono fun o ho => ?_)
          fun _ => uses_core_bind ⟨⟨trivial, rfl⟩, rfl⟩ fun _ => trivial
        refine ⟨⟨ho.front, ho.may⟩, ?_⟩
        rcases o with o | o | o
        · cases o <;> first | rfl | cases ho
        · rfl
        · rfl
      refine Contract.wp_seq (Contract.wp_of_uses htouch _ hstable
        (fun o ho w _ hw => ⟨ho.1.pre, fun r st _ _ hcurrent => ?_⟩) howner) fun _ w₁ hw₁ => ?_
      · rw [System.World.after_hist, ownerOf_exec ho.2]
        exact hw hcurrent
      · split
        · exact hhello w₁
        · exact rxFrame_trace_wp hauth hw₁
  | none =>
      have hcreate : (createSession d).Uses RxFrontOp := by
        simp [createSession, incrementSourceSessionCount, RxFrontOp, FrontOp, may, CoreOp.ofRx]
      refine Contract.wp_seq (rxFront_wp hcreate) fun _ w₁ _ => ?_
      split
      · exact hhello w₁
      · exact rxFrame_trace_wp hauth fun h => by cases h

theorem rxPass_trace_wp (hauth : env.authRequired = true) :
    (traceContract env).wp .rx (rxPass env d) (fun _ _ => True) w := by
  refine Contract.wp_of_ends rxPass_ends_session (fun _ => True) Contract.Stable.true
    (fun _ ho _ _ _ => ⟨RxFrontOp.pre ⟨ho.front, ho.may⟩, fun _ _ _ _ => trivial⟩)
    (fun _ _ _ => trivial) ?_ trivial
  rintro p ⟨ticket, rfl⟩ w _
  exact rxSession_trace_wp hauth ticket

end Rx

/-! ### The shards -/

section Shard

variable {w : RelayWorld env} {k : ℕ}

/-- Shard `k` has a client packet in hand. -/
def InHand (k : ℕ) (packet : ClientPacket) (w : RelayWorld env) : Prop :=
  (w.st.v2.shards k).inHand = some packet

/-- Shard `k` has a flow that was opened for the account. -/
def HasFlow (k : ℕ) (key : FlowKey) (account : String) (w : RelayWorld env) : Prop :=
  ∃ flow, (w.st.v2.shards k).flows.lookup key = some flow ∧ flow.opener = account

variable {packet : ClientPacket}

theorem InHand.mem_accountsOf (h : InHand k packet w) :
    packet.account ∈ (w.st.v2.shards k).accountsOf packet.sessionId :=
  ShardState.mem_accountsOf.2
    (.inr (.inr ⟨packet, h, ClientPacket.accountFor_eq_some.2 ⟨rfl, rfl⟩⟩))

variable {key : FlowKey} {o : RelayOp}

theorem HasFlow.mem_accountsOf {account : String} (h : HasFlow k key account w) :
    account ∈ (w.st.v2.shards k).accountsOf key.sessionId := by
  obtain ⟨flow, hflow, rfl⟩ := h
  exact ShardState.mem_accountsOf.2 (.inl ⟨key, flow, hflow, rfl, rfl⟩)

theorem stable_inHand (k : ℕ) (packet : ClientPacket) :
    (traceContract env).Stable (.shard k) (InHand k packet) := by
  refine .of_exec (fun _ _ hw => hw) fun w u o r st hne _ hmay _ hexec _ hw => ?_
  exact (shard_of_other hmay hne hexec).2.trans hw

theorem stable_hasFlow (k : ℕ) (key : FlowKey) (account : String) :
    (traceContract env).Stable (.shard k) (HasFlow k key account) := by
  refine .of_exec (fun _ _ hw => hw) fun w u o r st hne _ hmay _ hexec _ hw => ?_
  unfold HasFlow
  rw [System.World.after_st, (shard_of_other hmay hne hexec).1]
  exact hw

/-- A program of operations that are permitted anyway. -/
theorem wp_permitted {α : Type} {t : Tid} {p : RelayProg α}
    (hp : p.Uses fun o => ∀ w : RelayWorld env, tracePre t o w) :
    (traceContract env).wp t p (fun _ _ => True) w :=
  Contract.wp_of_permitted (hp.mono fun _ ho w _ => ho w)

/-- The operations of a shard on the way to opening the flow of a packet. -/
def OpeningOp (k : ℕ) (packet : ClientPacket) : RelayOp → Prop
  | .core o => o.ofFlow
  | .v2 .flowTotal => True
  | .v2 (.flowExists ..) | .v2 (.sessionFlowCount ..) => True
  | .v2 (.allocateToken k') => k' = k
  | .v2 (.flowOpen k' key _ _ _ _ account) =>
      k' = k ∧ key.sessionId = packet.sessionId ∧ account = packet.account
  | _ => False

theorem openFlow_uses (m : InboxTurn) (packet : ClientPacket) :
    (openFlow k m packet).Uses (OpeningOp k packet) := by
  simp only [openFlow, Prog.pure_eq]
  refine uses_v2_bind trivial fun _ => .ite (by simp [OpeningOp, CoreOp.ofFlow]) ?_
  refine uses_v2_bind trivial fun _ => .ite (by simp [OpeningOp, CoreOp.ofFlow]) ?_
  refine uses_core_bind rfl fun _ => .ite (by simp [OpeningOp, CoreOp.ofFlow]) ?_
  refine .ite (by simp [OpeningOp, CoreOp.ofFlow]) ?_
  refine uses_v2_bind rfl fun token => ?_
  cases token <;> simp [OpeningOp, CoreOp.ofFlow]

theorem OpeningOp.inHand (ho : OpeningOp k packet o) {r : o.Ret} {s s' : RelayState}
    (h : execRelay env (.shard k) o s = some (r, s')) :
    (s'.v2.shards k).inHand = (s.v2.shards k).inHand := by
  rcases o with o | o | o
  · rw [(execRelay_core h).2.2]
  · cases ho
  · have hstep := shardStep (execRelay_v2 h).1 k
    generalize s.v2.shards k = shard, s'.v2.shards k = shard' at hstep ⊢
    cases hstep with
    | opened => rfl
    | kept _ _ _ hkeeps => exact hkeeps.inHand
    | _ => cases ho

theorem OpeningOp.pre (ho : OpeningOp k packet o) (hw : InHand k packet w) :
    tracePre (.shard k) o w := by
  rcases o with o | o | o
  · cases o with
    | sendTo => cases ho
    | _ => trivial
  · cases ho
  · cases o with
    | flowOpen k' key token addr info now account =>
        obtain ⟨rfl, hsid, rfl⟩ := ho
        change packet.account ∈ (w.st.v2.shards k').accountsOf key.sessionId
        rw [hsid]
        exact hw.mem_accountsOf
    | shardSend => cases ho
    | txSend => cases ho
    | _ => trivial

/-- The packet stays in hand while its flow is opened. -/
theorem opening_wp {α : Type} {p : RelayProg α} (hp : p.Uses (OpeningOp k packet))
    (hw : InHand k packet w) : (traceContract env).wp (.shard k) p (fun _ => InHand k packet) w :=
  Contract.wp_of_uses hp _ (stable_inHand k packet)
    (fun _ ho _ _ hw => ⟨ho.pre hw, fun _ _ hexec _ => (ho.inHand hexec).trans hw⟩) hw

theorem shardClientPacket_trace_wp (m : InboxTurn) (hw : InHand k packet w) :
    (traceContract env).wp (.shard k) (shardClientPacket k m packet) (fun _ _ => True) w := by
  have hforward (w : RelayWorld env) : (traceContract env).wp (.shard k) (forwardOnFlow k m packet)
      (fun _ _ => True) w := wp_permitted ⟨fun _ => trivial, fun _ => trivial⟩
  unfold shardClientPacket
  split
  · exact wp_permitted ⟨fun _ => trivial, fun _ => ⟨fun _ => trivial, fun _ => trivial⟩⟩
  refine Contract.wp_seq (opening_wp ⟨trivial, fun _ => trivial⟩ hw) ?_
  intro known w₁ hw₁
  split
  · exact hforward w₁
  refine Contract.wp_seq (opening_wp (openFlow_uses m packet) hw₁) ?_
  intro opened w₂ _
  split
  · exact hforward w₂
  · exact wp_permitted ⟨fun _ => trivial, fun _ => trivial⟩

theorem shardInbox_trace_wp (m : InboxTurn) :
    (traceContract env).wp (.shard k) (shardInbox k m) (fun _ _ => True) w := by
  refine wp_v2_bind _ .true trivial (fun _ _ _ => trivial) ?_
  intro w₁ msg st₁ _ _ hexec _
  rcases msg with - | packet | ⟨sid, addr⟩ | sid
  · trivial
  · refine shardClientPacket_trace_wp m ?_
    have hv2 := (execRelay_v2 hexec).1
    simp only [execV2] at hv2
    split at hv2
    · cases (Prod.mk.inj (Option.some.inj hv2)).1
    · obtain ⟨hmsg, hst⟩ := Prod.mk.inj (Option.some.inj hv2)
      cases hmsg
      rw [InHand, System.World.after_st, ← hst, V2State.setShard_self]
  · exact wp_permitted ⟨fun _ => trivial, fun _ => trivial⟩
  · exact wp_permitted ⟨fun _ => trivial, fun _ => trivial⟩

theorem RespondingOp.hasFlow {opened : FlowState} {payload : List UInt8}
    (ho : RespondingOp k key opened payload o) {r : o.Ret} {st : RelayState}
    (h : execRelay env (.shard k) o w.st = some (r, st)) (hw : HasFlow k key opened.opener w) :
    HasFlow k key opened.opener (w.after (.shard k) o r st : RelayWorld env) := by
  obtain ⟨flow, hflow, hopener⟩ := hw
  rcases o with o | o | o
  · exact ⟨flow, by rw [System.World.after_st, (execRelay_core h).2.2]; exact hflow, hopener⟩
  · cases ho
  · have hv2 := (execRelay_v2 h).1
    unfold HasFlow
    rw [System.World.after_st]
    cases o with
    | flowTouch k' key' now =>
        obtain rfl : k' = k := ho
        rw [← (Prod.mk.inj (Option.some.inj hv2)).2, V2State.setTables_self]
        simp only [FlowTables.lookup_modifyFlow]
        split
        · next heq =>
            subst heq
            exact ⟨flow.touch now, by rw [hflow, Option.map_some], hopener⟩
        · exact ⟨flow, hflow, hopener⟩
    | txSend packet =>
        simp only [execV2] at hv2
        split at hv2 <;> split at hv2 <;> rw [← (Prod.mk.inj (Option.some.inj hv2)).2] <;>
          exact ⟨flow, hflow, hopener⟩
    | _ => cases ho

theorem RespondingOp.pre {opened : FlowState} {payload : List UInt8}
    (ho : RespondingOp k key opened payload o) (hw : HasFlow k key opened.opener w) :
    tracePre (.shard k) o w := by
  rcases o with o | o | o
  · cases o with
    | sendTo => cases ho
    | _ => trivial
  · cases ho
  · cases o with
    | txSend packet =>
        obtain ⟨hsid, haccount, -⟩ := ho
        intro _
        rw [hsid, haccount]
        exact ⟨k, hw.mem_accountsOf⟩
    | flowTouch => trivial
    | _ => cases ho

/-- What a flow answers is queued in the name of the account that opened it. -/
theorem flowResponse_trace_wp (key : FlowKey) (a : Arrival) :
    (traceContract env).wp (.shard k) (flowResponse k key a) (fun _ _ => True) w := by
  refine wp_v2_bind _ .true trivial (fun _ _ _ => trivial) ?_
  intro w₁ found st₁ _ _ hexec _
  cases found with
  | none => trivial
  | some flow =>
      have hflow : HasFlow k key flow.opener (w₁.after (.shard k)
          (.v2 (.flowReceive k key a.payload)) (some flow) st₁ : RelayWorld env) := by
        obtain ⟨hfound, hst⟩ := Prod.mk.inj (Option.some.inj (execRelay_v2 hexec).1)
        unfold HasFlow
        rw [System.World.after_st, ← hst]
        exact ⟨flow, hfound, rfl⟩
      exact Contract.wp_mono (Contract.wp_of_uses (flowResponse_uses k key flow a) _
        (stable_hasFlow k key flow.opener)
        (fun _ ho _ _ hw => ⟨ho.pre hw, fun _ _ hexec _ => ho.hasFlow hexec hw⟩) hflow)
        fun _ _ _ => trivial

theorem shardEvent_trace_wp (token : ℕ) (arrivals : List Arrival) :
    (traceContract env).wp (.shard k) (shardEvent k token arrivals) (fun _ _ => True) w := by
  have hburst (key : FlowKey) (arrivals : List Arrival) (w : RelayWorld env) :
      (traceContract env).wp (.shard k) (flowBurst k key arrivals) (fun _ _ => True) w := by
    induction arrivals generalizing w with
    | nil => trivial
    | cons a arrivals ih =>
        refine Contract.wp_seq (flowResponse_trace_wp key a) ?_
        intro goesOn w' _
        split
        · exact ih w'
        · trivial
  refine Contract.wp_seq (wp_permitted ⟨fun _ => trivial, fun _ => trivial⟩) ?_
  intro found w' _
  cases found with
  | none => trivial
  | some found => exact hburst _ _ w'

end Shard

/-! ### The transmit thread -/

section Transmit

variable {w : RelayWorld env}

/-- Only the transmit thread changes what it has in hand. -/
theorem txInHand_of_other {u : Tid} {o : RelayOp} {r : o.Ret} {s s' : RelayState}
    (hmay : may u o) (hne : u ≠ .tx) (h : execRelay env u o s = some (r, s')) :
    s'.v2.txInHand = s.v2.txInHand := by
  rcases o with o | o | o
  · rw [(execRelay_core h).2.2]
  · rw [(execRelay_v1 h).2.2]
  · cases transmitStep (execRelay_v2 h).1 with
    | controlTaken | dataTaken | released =>
        cases u with
        | tx => exact absurd rfl hne
        | _ => cases hmay
    | controlQueued _ _ hs' | dataQueued _ hs' | kept _ _ _ hs' => rw [hs']

theorem stable_txInHand (packet : TxPacket) :
    (traceContract env).Stable .tx fun w => w.st.v2.txInHand = some packet := by
  refine .of_exec (fun _ _ hw => hw) fun w u o r st hne _ hmay _ hexec _ hw => ?_
  exact (txInHand_of_other hmay hne hexec).trans hw

variable {sid : SessionId} {addr : SocketAddr}

theorem Delivered.begin {frame : List UInt8} (h : Delivered w sid addr frame) {a : Act}
    (hne : a.tid ≠ .tx) : Delivered (w.begin a : RelayWorld env) sid addr frame := by
  obtain ⟨packet, hhand, hkind, hsid, hframe, later, nowUnix, pre, post, earlier, e, hhist, hstart,
    hrest⟩ := h
  refine ⟨packet, hhand, hkind, hsid, hframe, .start a :: later, nowUnix, pre, post, earlier, e, ?_,
    ?_, hrest⟩
  · rw [System.World.begin_hist, hhist, List.cons_append]
  · intro a' ha'
    rcases List.mem_cons.1 ha' with heq | ha'
    · cases heq
      exact hne
    · exact hstart a' ha'

theorem Delivered.after {u : Tid} {o : RelayOp} {r : o.Ret} {st : RelayState} {frame : List UInt8}
    (h : Delivered w sid addr frame) (hst : st.v2.txInHand = w.st.v2.txInHand) :
    Delivered (w.after u o r st : RelayWorld env) sid addr frame := by
  obtain ⟨packet, hhand, hkind, hsid, hframe, later, nowUnix, pre, post, earlier, e, hhist, hstart,
    hrest⟩ := h
  refine ⟨packet, hst.trans hhand, hkind, hsid, hframe, .exec u o r w.st st :: later, nowUnix, pre,
    post, earlier, e, ?_, ?_, hrest⟩
  · rw [System.World.after_hist, hhist, List.cons_append]
  · intro a' ha'
    rcases List.mem_cons.1 ha' with heq | ha'
    · cases heq
    · exact hstart a' ha'

theorem stable_delivered (sid : SessionId) (addr : SocketAddr) (frame : List UInt8) :
    (traceContract env).Stable .tx fun w => Delivered w sid addr frame := by
  intro w w' hstep hw
  cases hstep with
  | start a hne => exact hw.begin hne
  | exec u o r st hne _ hmay _ hexec => exact hw.after (txInHand_of_other hmay hne hexec)

/-- The endpoint of a session is that of its entry, which is authenticated. -/
theorem forwardingAddr_eq_some (hauth : env.authRequired = true)
    {sessions : Table SessionId SessionEntry} {nowUnix : UInt64}
    (h : forwardingAddr sessions sid env.authRequired nowUnix = some addr) :
    ∃ e, sessions.lookup sid = some e ∧ e.authState = .authenticated ∧ e.clientAddr = addr := by
  unfold forwardingAddr at h
  cases he : sessions.lookup sid with
  | none => simp [he] at h
  | some e =>
      simp only [he, hauth, if_true, Option.ite_none_right_eq_some, Option.some.injEq] at h
      obtain ⟨hcurrent, haddr⟩ := h
      exact ⟨e, rfl, (sessionAuthIsCurrent_iff.1 hcurrent).1, haddr⟩

/-- The endpoint that the transmit thread reads belongs to the account of the frame in its hands. -/
theorem forwardData_trace_wp (hauth : env.authRequired = true) (turn : SendTurn) {packet : TxPacket}
    (hkind : packet.kind = .data) (hw : w.st.v2.txInHand = some packet) :
    (traceContract env).wp .tx (forwardData turn packet.sessionId packet.frame (dropOut .auth))
      (fun _ _ => True) w := by
  have hdrop (reason : DropReason) (w : RelayWorld env) :
      (traceContract env).wp .tx (dropOut reason) (fun _ _ => True) w :=
    wp_permitted ⟨fun _ => trivial, fun _ => trivial⟩
  refine wp_core_bind _ (stable_txInHand packet) hw (fun _ _ _ => trivial) ?_
  intro w₁ answer st hinv hw₁ hexec hcond
  cases answer with
  | none => exact hdrop _ _
  | some addr =>
      have hread := (execRelay_core hexec).1
      simp only [execCore] at hread
      split at hread
      · obtain ⟨haddr, -⟩ := Prod.mk.inj (Option.some.inj hread)
        obtain ⟨e, he, hstate, hfrom⟩ := forwardingAddr_eq_some hauth haddr
        have hauthInv : AuthInv w₁ := hcond.2.2.1
        obtain ⟨hello, hlast, huser, -⟩ := hauthInv.owned _ e he hstate
        -- the frame belongs to the account of the last hello, and so does the entry
        have howner := hinv.transmit packet.sessionId packet.account
          (V2State.mem_transmitAccountsOf.2
            ⟨packet, .inr hw₁, TxPacket.accountFor_eq_some.2 ⟨hkind, rfl, rfl⟩⟩)
        rw [ownerOf, hlast, Option.map_some, ← huser] at howner
        have hdelivered : Delivered (w₁.after .tx (.core (.forwardingAddr packet.sessionId
            turn.nowUnix)) (some addr) st : RelayWorld env) packet.sessionId addr packet.frame :=
          ⟨packet, by rw [System.World.after_st, (execRelay_core hexec).2.2]; exact hw₁, hkind, rfl,
            rfl, [], turn.nowUnix, w₁.st, st, w₁.hist, e, rfl, by simp, he, hfrom,
            Option.some.inj howner⟩
        have hallow : (accountAllow packet.sessionId turn.withinBudget).Uses fun o : RelayOp =>
            o = .core (.sessionGet packet.sessionId) := accountAllow_uses rfl
        refine Contract.wp_seq (Contract.wp_of_uses hallow _
          (stable_delivered _ _ _) ?_ hdelivered) ?_
        · rintro o rfl w _ hw
          exact ⟨trivial, fun r st hexec _ =>
            hw.after (by rw [(execRelay_core hexec).2.2])⟩
        · intro allowed w₂ hw₂
          split
          · exact wp_core _ (stable_delivered _ _ _) hw₂ (fun _ _ hw _ => hw)
              fun _ _ _ _ _ _ _ => trivial
          · exact hdrop _ _
      · cases hread

theorem txPass_trace_wp (hauth : env.authRequired = true) (turn : SendTurn) :
    (traceContract env).wp .tx (txPass turn) (fun _ _ => True) w := by
  refine wp_v2_bind _ .true trivial (fun _ _ _ => trivial) ?_
  intro w₁ answer st _ _ hexec _
  cases answer with
  | none => trivial
  | some packet =>
      have hw : (w₁.after .tx (.v2 .txRecv) (some packet) st : RelayWorld env).st.v2.txInHand =
          some packet := by
        have hv2 := (execRelay_v2 hexec).1
        simp only [execV2] at hv2
        rw [System.World.after_st]
        split at hv2
        · obtain ⟨hpacket, hst⟩ := Prod.mk.inj (Option.some.inj hv2)
          rw [← hst]
          exact hpacket
        · obtain ⟨hpacket, hst⟩ := Prod.mk.inj (Option.some.inj hv2)
          rw [← hst]
          exact hpacket
        · cases (Prod.mk.inj (Option.some.inj hv2)).1
      refine Contract.wp_seq (R := fun _ _ => True) ?_ ?_
      · unfold sendTxPacket
        split
        · exact wp_permitted ⟨fun _ => trivial, fun _ => trivial⟩
        · split
          · next hkind => exact forwardData_trace_wp hauth turn hkind hw
          · exact wp_permitted ⟨fun _ => trivial, fun _ => trivial⟩
      · exact fun _ w _ => wp_permitted ⟨fun _ => trivial, fun _ => trivial⟩

end Transmit

/-! ### Return traffic stays with its account -/

/-- The threads that have nothing to do with the traffic of the second datapath. -/
theorem tracePre_of_may {t : Tid} {o : RelayOp} (hmay : may t o)
    (ht : t = .cleanup ∨ t = .v1Response ∨ t = .tunResponse ∨ ∃ generation, t = .v1Flow generation)
    (w : RelayWorld env) : tracePre t o w := by
  rcases o with o | o | o
  · cases o with
    | sendTo kind sid addr frame =>
        cases kind with
        | data =>
            rintro rfl
            rcases ht with h | h | h | ⟨generation, h⟩ <;> cases h
        | control => trivial
    | _ => trivial
  · trivial
  · rcases ht with rfl | rfl | rfl | ⟨generation, rfl⟩
    · cases o with
      | shardSend k msg =>
          cases msg with
          | removeSession sid => trivial
          | _ => cases hmay
      | _ => cases hmay
    · cases hmay
    · cases hmay
    · cases hmay

theorem traceContract_sound (hauth : env.authRequired = true) : (traceContract env).Sound where
  start_inv := fun w a hinv _ _ => hinv.begin a
  exec_inv := fun w t o r st hinv _ hpre hexec hcond => traced_exec hinv hpre hexec hcond.1
  post_stable := fun _ _ _ _ _ => trivial
  prog_may := prog_uses env
  prog_wp := by
    intro w a _ _ _
    have hother (ht : a.tid = .cleanup ∨ a.tid = .v1Response ∨ a.tid = .tunResponse ∨
        ∃ generation, a.tid = .v1Flow generation) (w : RelayWorld env) :
        (traceContract env).wp a.tid (a.prog env) (fun _ _ => True) w :=
      wp_permitted ((prog_uses env a).mono fun _ hmay => tracePre_of_may hmay ht)
    cases a with
    | datagram d => exact rxPass_trace_wp hauth
    | cleanup p => exact hother (.inl rfl) _
    | v1Response turn => exact hother (.inr (.inl rfl)) _
    | tunResponse turn packet => exact hother (.inr (.inr (.inl rfl))) _
    | flowTaskSend generation | flowTaskReceive generation | flowTaskIdle generation
    | flowTaskEnd generation => exact hother (.inr (.inr (.inr ⟨generation, rfl⟩))) _
    | transmit turn => exact txPass_trace_wp hauth turn
    | shardEvent k token arrivals => exact shardEvent_trace_wp token arrivals
    | shardInbox k m => exact shardInbox_trace_wp m
    | shardCleanup k now => exact wp_permitted ⟨fun _ => trivial, fun _ => trivial⟩

/-- **Return traffic stays with its account.** Suppose that a hello is applied only where nothing of
another account remains.  Whenever the transmit thread sends a data frame, the frame is the one in
its hands, and the endpoint is that of a session of the account that the frame belongs to. -/
theorem no_cross_account_traffic (hauth : env.authRequired = true) {bucketOf : Ipv4Addr → ℕ}
    {createdAt : Instant} {c c' : (relaySystem env).Config}
    (hrun : (relaySystem env).Run (System.Passes (vacated env))
      (relayStart env bucketOf createdAt) c)
    {sid : SessionId} {addr : SocketAddr} {frame : List UInt8} {r : Unit} {pre post : RelayState}
    (hstep : (relaySystem env).Step c (.exec .tx (.core (.sendTo .data sid addr frame)) r pre post)
      c') : Delivered c.toWorld sid addr frame := by
  have hstart : Contract.Sound.Good (authContract env) (relayStart env bucketOf createdAt) :=
    authContract_good hauth Relation.ReflTransGen.refl
  have hallowed := (authContract_sound hauth).run_allowed (fun _ _ _ => trivial) hrun hstart
  have htraced : Traced (⟨RelayState.new bucketOf createdAt, []⟩ : RelayWorld env) := by
    refine ⟨fun k sid account h => ?_, fun sid account h => ?_, fun p h => ?_⟩ <;> cases h
  have hgood := (traceContract_sound hauth).run hallowed
    (Contract.Sound.good_initial htraced fun _ => trivial)
  exact (Contract.Sound.pre_of_step hgood hstep).2 rfl

/-- Another client. -/
def sampleSuccessor : SocketAddr := ⟨⟨198, 51, 100, 9⟩, 41000⟩

/-- The client of account `a` has used session 1 and has gone; the session has been removed, and its
shard has not read about it yet. -/
def sampleRemoved : (relaySystem sampleEnv).Snapshot :=
  System.outcome (vacated sampleEnv)
    [.fire .rx 30, .start (.datagram (sampleFrame samplePacket sampleClient 745)), .fire .rx 30,
      .start (.shardInbox 0 ⟨secs 745, true, true, true⟩), .fire (.shard 0) 30,
      .start (.cleanup ⟨secs 811, 811⟩), .fire .cleanup 30]
    (ticketPassed sampleRenewalA sampleClient 740 ⟨"a", "j2", 750, true⟩
      (sampleStart.st, sampleStart.ctl))

theorem vacated_of_onTickets (o : CoreOp) (ho : o.onTickets = true) (s : RelayState) :
    vacated sampleEnv .rx (.core o) s = true := by
  cases o <;> first | rfl | cases ho

theorem reaches_sampleRemoved :
    System.Reaches (vacated sampleEnv) sampleStart sampleRemoved := by
  have hpassed : System.Reaches (vacated sampleEnv) sampleStart (ticketPassed sampleRenewalA
      sampleClient 740 ⟨"a", "j2", 750, true⟩ (sampleStart.st, sampleStart.ctl)) :=
    reaches_ticketPassed (by simp [sampleTickets]) vacated_of_onTickets
      ⟨sampleStart, Relation.ReflTransGen.refl, rfl, rfl⟩ rfl rfl (by decide +kernel) rfl
  exact hpassed.follow _ (by decide +kernel)

/-- The transmit thread sends data of session 1 to the other client. -/
def RelayOp.sendsToSuccessor (frame : List UInt8) : RelayOp → Bool
  | .core (.sendTo .data sid addr frame') =>
      decide (sid = 1 ∧ addr = sampleSuccessor ∧ frame' = frame)
  | _ => false

theorem RelayOp.eq_of_sendsToSuccessor {o : RelayOp} {frame : List UInt8}
    (h : o.sendsToSuccessor frame = true) :
    o = .core (.sendTo .data 1 sampleSuccessor frame) := by
  unfold RelayOp.sendsToSuccessor at h
  split at h
  · obtain ⟨rfl, rfl, rfl⟩ := of_decide_eq_true h
    rfl
  · cases h

/-- A response of the game server of the sample packet. -/
def sampleArrival : Arrival := ⟨[9], none, secs 811, 811, 811, true⟩

/-- The frame for that response. -/
def sampleResponse : List UInt8 :=
  [0, 0, 0, 0, 0, 0, 0, 1, 69, 0, 0, 29, 0, 0, 64, 0, 64, 17, 175, 89, 128, 116, 1, 1, 10, 0, 0, 2,
    195, 80, 192, 0, 0, 9, 0, 0, 9]

theorem reaches_successorPassed {ok : System.Test (relaySystem sampleEnv)}
    (hok : ∀ o : CoreOp, o.onTickets = true → ∀ s, ok .rx (.core o) s = true)
    {x : (relaySystem sampleEnv).Snapshot} (h : System.Reaches ok sampleStart x)
    (hidle : System.idle (M := relaySystem sampleEnv) .rx x = true)
    (hpending : (x.1.core.pendingAuth.allow sampleSuccessor.ip (secs 811)).1 = true)
    (hfresh : (x.1.core.replayCache.acceptOnce "j3" 1000 (UInt64.ofNat 811) true).1 = true) :
    System.Reaches ok sampleStart
      (ticketPassed sampleTicketB sampleSuccessor 811 ⟨"b", "j3", 1000, true⟩ x) :=
  reaches_ticketPassed (by simp [sampleTickets]) hok h (System.ctl_of_idle hidle) hpending
    (by decide +kernel) hfresh

/-- The shard has read about the removal before account `b` takes the session over and uses it. -/
theorem no_cross_account_traffic_sample :
    ∃ c c' r post, (relaySystem sampleEnv).Run (System.Passes (vacated sampleEnv)) sampleStart c ∧
      (relaySystem sampleEnv).Step c
        (.exec .tx (.core (.sendTo .data 1 sampleSuccessor sampleResponse)) r c.st post) c' ∧
      Delivered c.toWorld 1 sampleSuccessor sampleResponse := by
  have hread := reaches_sampleRemoved.follow
    [.start (.shardInbox 0 ⟨secs 811, true, true, true⟩), .fire (.shard 0) 30] (by decide +kernel)
  have hpassed := reaches_successorPassed vacated_of_onTickets hread (by decide +kernel)
    (by decide +kernel) (by decide +kernel)
  obtain ⟨c, o, r, st, c', hrun, ho, hstep, -⟩ := (hpassed.follow
    [.fire .rx 30, .start (.datagram (sampleFrame samplePacket sampleSuccessor 811)), .fire .rx 30,
      .start (.shardInbox 0 ⟨secs 811, true, true, true⟩), .fire (.shard 0) 30,
      .start (.shardEvent 0 2 [sampleArrival]), .fire (.shard 0) 30,
      .start (.transmit ⟨secs 811, 811, true⟩), .fire .tx 10,
      .start (.transmit ⟨secs 811, 811, true⟩), .fire .tx 10,
      .start (.transmit ⟨secs 811, 811, true⟩), .fire .tx 3] (by decide +kernel)).step .tx
    (RelayOp.sendsToSuccessor sampleResponse) (by decide +kernel)
  obtain rfl := RelayOp.eq_of_sendsToSuccessor ho
  exact ⟨c, c', r, st, hrun, hstep, no_cross_account_traffic rfl hrun hstep⟩

/-- **A session that changes hands too early.**  Account `b` takes the session over before the shard
has read about the removal, and gets what comes back on the flow of account `a`. -/
theorem cross_account_traffic_after_removal :
    ∃ c c' r post, (relaySystem sampleEnv).Steps sampleStart c ∧
      (relaySystem sampleEnv).Step c
        (.exec .tx (.core (.sendTo .data 1 sampleSuccessor sampleResponse)) r c.st post) c' ∧
      ∃ packet e, c.st.v2.txInHand = some packet ∧ packet.kind = .data ∧
        packet.frame = sampleResponse ∧ packet.account = "a" ∧
        c.st.core.sessions.lookup 1 = some e ∧ e.clientAddr = sampleSuccessor ∧ e.userId = "b" := by
  have hremoved : System.Reaches System.free sampleStart sampleRemoved := by
    obtain ⟨c, hrun, hc⟩ := reaches_sampleRemoved
    refine ⟨c, hrun.mono fun _ e _ => ?_, hc⟩
    cases e with
    | start a => trivial
    | exec t o r pre post => rfl
  have hpassed := reaches_successorPassed (fun _ _ _ => rfl) hremoved (by decide +kernel)
    (by decide +kernel) (by decide +kernel)
  obtain ⟨c, hrun, hc⟩ := hpassed.follow
    [.fire .rx 30, .start (.shardEvent 0 1 [sampleArrival]), .fire (.shard 0) 30,
      .start (.transmit ⟨secs 811, 811, true⟩), .fire .tx 10,
      .start (.transmit ⟨secs 811, 811, true⟩), .fire .tx 10,
      .start (.transmit ⟨secs 811, 811, true⟩), .fire .tx 3] (by decide +kernel)
  obtain ⟨o, r, st, c', ho, hstep, -⟩ := hc.step .tx (RelayOp.sendsToSuccessor sampleResponse)
    (by decide +kernel)
  obtain rfl := RelayOp.eq_of_sendsToSuccessor ho
  have hhand : c.st.v2.txInHand.any (fun packet => decide (packet.kind = .data ∧
      packet.frame = sampleResponse ∧ packet.account = "a")) = true := by
    rw [hc.1]
    decide +kernel
  have hsession : (c.st.core.sessions.lookup 1).any (fun e => decide (
      e.clientAddr = sampleSuccessor ∧ e.userId = "b")) = true := by
    rw [hc.1]
    decide +kernel
  obtain ⟨packet, hpacket, hfacts⟩ := (Option.any_eq_true _ _).1 hhand
  obtain ⟨e, he, howner⟩ := (Option.any_eq_true _ _).1 hsession
  obtain ⟨hkind, hframe, haccount⟩ := of_decide_eq_true hfacts
  exact ⟨c, c', r, st, hrun.steps, hstep, packet, e, hpacket, hkind, hframe, haccount, he,
    of_decide_eq_true howner⟩

end SwiftRelay
