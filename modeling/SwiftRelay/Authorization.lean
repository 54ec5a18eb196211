/-
**The contract of authorization.**

Where tickets are asked for, an authenticated entry always follows the last hello that was applied
to its session, and every applied hello carried a ticket that was verified before.  This invariant
is kept under conditions on a few operations: an entry is created only where there is none and
without an owner, its endpoint is overwritten only by itself, and a hello is applied only with a
verified ticket of the owner.  The same contract states what must hold when a packet is handed on,
when a frame is sent back and when a hello is acknowledged; that the programs of the threads meet it
is shown here for all threads but the receive loop, which has a module of its own.

Main definitions:

* `AuthInv` — the invariant;
* `HandedOn`, `ForwardedTo`, `Acknowledged` — the conditions on the outputs of the relay;
* `HelloSettled` — what a finished pass for a hello has established;
* `authContract` — the contract.

Main results:

* `authInv_exec` — permitted operations keep the invariant;
* `forwardData_wp` — the senders meet the contract.
-/

import SwiftRelay.Hellos

set_option autoImplicit false

namespace SwiftRelay

open Conc

variable {env : RelayEnv}

/-! ### The contract -/

/-- Authenticated entries follow the last hello, and hellos carry verified tickets. -/
structure AuthInv (w : RelayWorld env) : Prop where
  owned : ∀ sid e, w.st.core.sessions.lookup sid = some e → e.authState = .authenticated →
    ∃ hello, lastHello sid w.hist = some hello ∧ e.Follows hello
  verified : ∀ later e earlier sid hello, w.hist = later ++ e :: earlier →
    helloFor sid e = some hello → ∃ v ∈ earlier, Verified sid hello.ticket v

/-- The receive loop is busy with a datagram of session `sid` from the address `addr`, which is the
source of the last hello of the session, and the ticket of that hello has not expired. -/
def HandedOn (w : RelayWorld env) (sid : SessionId) (addr : SocketAddr) : Prop :=
  ∃ d hello, currentAct .rx w.hist = some (.datagram d) ∧ d.sid = sid ∧ d.src = addr ∧
    lastHello sid w.hist = some hello ∧ hello.addr = addr ∧ d.nowUnix < hello.ticket.exp

/-- Since its last activation, thread `t` asked the session map for the endpoint of session `sid`
and was told `addr`, which was the source of the last hello of the session at that time, and the
ticket of that hello had not expired. -/
def ForwardedTo (t : Tid) (w : RelayWorld env) (sid : SessionId) (addr : SocketAddr) : Prop :=
  ∃ later nowUnix pre post earlier hello,
    w.hist = later ++ .exec t (.core (.forwardingAddr sid nowUnix)) (some addr) pre post ::
      earlier ∧
    (∀ a, .start a ∈ later → a.tid ≠ t) ∧
    lastHello sid earlier = some hello ∧ hello.addr = addr ∧ nowUnix < hello.ticket.exp

/-- The operations on the session map. -/
def CoreOp.onSessions : CoreOp → Bool
  | .sessionGet _ | .sessionContains _ | .sessionsLen | .forwardingAddr .. => true
  | .entryLock _ | .entryInsert .. | .entryTouch .. | .entryRelease _ => true
  | .getMutLock _ | .helloApply .. | .setLegacyUser .. | .refresh .. => true
  | .retainLock _ | .retainErase _ | .retainRelease _ => true
  | _ => false

/-- The state right after the last operation on the session map, among the given operations. -/
def afterLastSessionOp (ops : List (RelayEvent env)) : Option RelayState :=
  ops.findSome? fun
    | .exec _ (.core o) _ _ post => if o.onSessions then some post else none
    | _ => none

/-- The state right before the last `get_mut` that came with a guard, among the given operations. -/
def beforeGetMut (ops : List (RelayEvent env)) : Option RelayState :=
  ops.findSome? fun
    | .exec _ (.core (.getMutLock _)) _ pre _ => some pre
    | _ => none

/-- The session map holds session `sid` as the given ticket and address say. -/
def Grants (s : RelayState) (sid : SessionId) (ticket : VerifiedRelayTicket) (addr : SocketAddr) :
    Prop :=
  ∃ e, s.core.sessions.lookup sid = some e ∧ e.authState = .authenticated ∧
    e.userId = ticket.userId ∧ e.clientAddr = addr ∧ e.leaseExpiresAtUnix = some ticket.exp

/-- The receive loop is busy with a hello of session `sid` from the address `addr` with a verified
ticket, and after its last operation on the session map the map held what the hello asked for just
in case the session was there right before its `get_mut`. -/
def Acknowledged (w : RelayWorld env) (sid : SessionId) (addr : SocketAddr) : Prop :=
  ∃ d ticket before after, currentAct .rx w.hist = some (.datagram d) ∧ d.sid = sid ∧ d.src = addr ∧
    (∃ v ∈ passOps .rx w.hist, Verified sid ticket v) ∧
    beforeGetMut (passOps .rx w.hist) = some before ∧
    afterLastSessionOp (passOps .rx w.hist) = some after ∧
    (Grants after sid ticket addr ↔ (before.core.sessions.lookup sid).isSome = true)

/-- The event produces an acknowledgement of a hello. -/
def IsOkAck : RelayEvent env → Prop
  | .exec _ (.core (.ack _ _ status)) _ _ _ => status = .ok
  | _ => False

/-- The event leaves the session map and the session counts as they are. -/
def Silent : RelayEvent env → Prop
  | .exec _ _ _ pre post =>
      post.core.sessions = pre.core.sessions ∧ post.core.counts = pre.core.counts
  | _ => True

/-- The pass of the receive loop for a hello acknowledged it, or changed neither the session map nor
the session counts. -/
def HelloSettled (w : RelayWorld env) : Prop :=
  ∀ d, currentAct .rx w.hist = some (.datagram d) → d.isAuthHello = true →
    (∃ e ∈ passOps .rx w.hist, IsOkAck e) ∨ ∀ e ∈ passOps .rx w.hist, Silent e

/-- The condition under which thread `t` may perform an operation. -/
def authPre (t : Tid) : RelayOp → RelayWorld env → Prop
  | .core (.entryInsert sid e), w =>
      e.authState = .legacy ∧ w.st.core.sessions.lookup sid = none
  | .core (.entryTouch sid addr _ _), w =>
      ∀ e, w.st.core.sessions.lookup sid = some e → e.authState = .authenticated →
        e.clientAddr = addr
  | .core (.helloApply sid ticket _ _ _), w =>
      (∃ v ∈ w.hist, Verified sid ticket v) ∧
      ∀ e, w.st.core.sessions.lookup sid = some e → e.authState = .authenticated →
        e.userId = ticket.userId
  | .core (.tunSend packet _), w => HandedOn w packet.sessionId packet.clientAddr
  | .v1 (.flowForward key addr _ _ _ _), w => HandedOn w key.sessionId addr
  | .v2 (.shardSend _ (.clientPacket packet)), w => HandedOn w packet.sessionId packet.clientAddr
  | .core (.sendTo .data sid addr _), w => ForwardedTo t w sid addr
  | .core (.ack addr sid .ok), w => Acknowledged w sid addr
  | _, _ => True

/-- The operations on which the contract puts no condition. -/
def RelayOp.plain : RelayOp → Bool
  | .core (.entryInsert ..) | .core (.entryTouch ..) | .core (.helloApply ..) => false
  | .core (.tunSend ..) | .v1 (.flowForward ..) | .v2 (.shardSend _ (.clientPacket _)) => false
  | .core (.sendTo kind _ _ _) => kind = .control
  | .core (.ack _ _ status) => status ≠ .ok
  | _ => true

variable {t : Tid} {w : RelayWorld env} {sid : SessionId} {o : RelayOp} {addr : SocketAddr}

theorem authPre_of_plain (ho : o.plain = true) : authPre t o w := by
  unfold authPre
  split <;> trivial

variable (env) in
/-- The contract of authorization. -/
def authContract : Contract (relaySystem env) where
  cond := fun _ _ => True
  inv := AuthInv
  may := may
  pre := authPre
  post := fun t w => t = .rx → HelloSettled w

/-! ### The invariant -/

theorem observe_of_authenticated {e : SessionEntry} {srcIp : Ipv4Addr}
    (h : (e.observe srcIp).authState = .authenticated) : e.observe srcIp = e := by
  rw [observe_authState] at h
  simp [SessionEntry.observe, h]

/-- The last hello is as before, or the operation is a hello for the session. -/
theorem lastHello_exec (sid : SessionId) (t : Tid) (o : RelayOp) (r : o.Ret)
    (pre post : RelayState) (hist : List (RelayEvent env)) :
    lastHello sid (.exec t o r pre post :: hist) = lastHello sid hist ∨
      ∃ ticket addr now nowUnix, o = .core (.helloApply sid ticket addr now nowUnix) ∧
        lastHello sid (.exec t o r pre post :: hist) = some ⟨ticket, addr⟩ := by
  rw [lastHello_cons]
  cases hfor : helloFor sid (.exec t o r pre post : RelayEvent env) with
  | none => exact Or.inl rfl
  | some hello =>
      obtain ⟨now, nowUnix, rfl⟩ := helloFor_eq_some hfor
      exact Or.inr ⟨_, _, _, _, rfl, rfl⟩

/-- The entry that an operation leaves follows the last hello. -/
theorem owned_exec {r : o.Ret} {st : RelayState} (hinv : AuthInv w) (hpre : authPre t o w)
    (hexec : execRelay env t o w.st = some (r, st)) {e' : SessionEntry}
    (he' : st.core.sessions.lookup sid = some e') (hauth : e'.authState = .authenticated) :
    ∃ hello, lastHello sid (.exec t o r w.st st :: w.hist) = some hello ∧ e'.Follows hello := by
  rcases lastHello_exec sid t o r w.st st w.hist with hlast |
    ⟨ticket, addr, now, nowUnix, rfl, hlast⟩
  · have hstep := entryStep hexec sid
    rw [he'] at hstep
    rw [hlast]
    generalize hx : w.st.core.sessions.lookup sid = x at hstep
    cases hstep with
    | insert _ _ ho =>
        subst ho
        simp [hpre.1] at hauth
    | same => exact hinv.owned sid e' hx hauth
    | modify o' f e ho hmod =>
        subst ho
        cases o' <;> simp only [CoreOp.modifies, Option.some.injEq, Prod.mk.injEq,
          reduceCtorEq] at hmod <;> obtain ⟨rfl, rfl⟩ := hmod
        case entryTouch addr now nowUnix hlock =>
          obtain ⟨hello, hlast, hfollows⟩ := hinv.owned _ e hx hauth
          have haddr : addr = hello.addr := (hpre e hx hauth).symm.trans hfollows.2.1
          exact ⟨hello, hlast, hfollows.1, haddr, hfollows.2.2⟩
        case helloApply ticket addr now nowUnix hlock =>
          rw [← hlast, lastHello_cons]
          exact ⟨⟨ticket, addr⟩, by simp [helloFor], rfl, rfl, rfl⟩
        case setLegacyUser srcIp hlock =>
          have hsame : e.observe srcIp = e := observe_of_authenticated hauth
          simp only [hsame] at hauth ⊢
          exact hinv.owned _ e hx hauth
        case refresh now nowUnix hlock => exact hinv.owned _ e hx hauth
  · rw [entry_of_modifies rfl hexec, Option.map_eq_some_iff] at he'
    obtain ⟨e, -, rfl⟩ := he'
    exact ⟨⟨ticket, addr⟩, hlast, rfl, rfl, rfl⟩

theorem authInv_start (a : Act) (hinv : AuthInv w) : AuthInv (w.begin a : RelayWorld env) := by
  refine ⟨hinv.owned, ?_⟩
  intro later e earlier sid hello hhist hfor
  cases later with
  | nil =>
      cases hhist
      cases hfor
  | cons _ later =>
      simp only [System.World.begin_hist, List.cons_append, List.cons.injEq] at hhist
      exact hinv.verified later e earlier sid hello hhist.2 hfor

theorem authInv_exec {r : o.Ret} {st : RelayState} (hinv : AuthInv w) (hpre : authPre t o w)
    (hexec : execRelay env t o w.st = some (r, st)) :
    AuthInv (w.after t o r st : RelayWorld env) := by
  refine ⟨fun sid e he hauth => owned_exec hinv hpre hexec he hauth, ?_⟩
  intro later e earlier sid hello hhist hfor
  cases later with
  | nil =>
      cases hhist
      obtain ⟨now, nowUnix, rfl⟩ := helloFor_eq_some hfor
      exact hpre.1
  | cons _ later =>
      simp only [System.World.after_hist, List.cons_append, List.cons.injEq] at hhist
      exact hinv.verified later e earlier sid hello hhist.2 hfor

/-! ### What the receive loop can rely on -/

section Stable

theorem stable_lastHello (sid : SessionId) (φ : Option Hello → Prop) :
    (authContract env).Stable .rx fun w => φ (lastHello sid w.hist) := by
  refine .of_exec (fun _ _ hw => hw) fun w u o r st hne _ hmay _ _ _ hw => ?_
  rw [System.World.after_hist, lastHello_exec_of_ne hmay hne]
  exact hw

/-- A property of the entry of a session, if there is one, that activity does not affect. -/
theorem stable_entry (sid : SessionId) {φ : SessionEntry → Prop}
    (hφ : ∀ e now nowUnix, φ e → φ (e.refresh now nowUnix)) :
    (authContract env).Stable .rx fun w =>
      ∀ e, w.st.core.sessions.lookup sid = some e → φ e := by
  refine .of_exec (fun _ _ hw => hw) fun w u o r st hne _ hmay _ hexec _ hw => ?_
  intro e' he'
  obtain ⟨e, he, rfl | ⟨now, nowUnix, rfl⟩⟩ := entry_of_other hexec hmay hne he'
  · exact hw _ he
  · exact hφ e now nowUnix (hw e he)

end Stable

/-! ### The other threads -/

/-- A program that performs only operations without a condition, and an assertion that they keep. -/
theorem wp_of_plain {α : Type} {p : RelayProg α} (hp : p.Uses fun o : RelayOp => o.plain = true)
    (P : RelayWorld env → Prop) (hP : (authContract env).Stable t P)
    (hkeep : ∀ (o : RelayOp) (r : o.Ret) (w : RelayWorld env) st, P w →
      execRelay env t o w.st = some (r, st) → P (w.after t o r st : RelayWorld env)) (hw : P w) :
    (authContract env).wp t p (fun _ w => P w) w :=
  Contract.wp_of_uses hp P hP
    (fun o ho w _ hw => ⟨authPre_of_plain ho, fun r st hexec _ => hkeep o r w st hw hexec⟩) hw

/-- A program that performs only operations without a condition, and another one after it. -/
theorem wp_plain_bind {α β : Type} {p : RelayProg α} {f : α → RelayProg β}
    {Q : β → RelayWorld env → Prop} (hp : p.Uses fun o : RelayOp => o.plain = true)
    (hf : ∀ a w, (authContract env).wp t (f a) Q w) : (authContract env).wp t (p >>= f) Q w :=
  Contract.wp_seq (wp_of_plain hp _ Contract.Stable.true
    (fun _ _ _ _ _ _ => trivial) trivial) fun a w _ => hf a w

theorem ForwardedTo.begin (h : ForwardedTo t w sid addr) {a : Act} (hne : a.tid ≠ t) :
    ForwardedTo t (w.begin a : RelayWorld env) sid addr := by
  obtain ⟨later, nowUnix, pre, post, earlier, hello, hhist, hstart, hrest⟩ := h
  refine ⟨.start a :: later, nowUnix, pre, post, earlier, hello, ?_, ?_, hrest⟩
  · rw [System.World.begin_hist, hhist, List.cons_append]
  · intro a' ha'
    rcases List.mem_cons.1 ha' with heq | ha'
    · cases heq
      exact hne
    · exact hstart a' ha'

theorem ForwardedTo.after {u : Tid} (h : ForwardedTo t w sid addr) (o : RelayOp) (r : o.Ret)
    (st : RelayState) : ForwardedTo t (w.after u o r st : RelayWorld env) sid addr := by
  obtain ⟨later, nowUnix, pre, post, earlier, hello, hhist, hstart, hrest⟩ := h
  refine ⟨.exec u o r w.st st :: later, nowUnix, pre, post, earlier, hello, ?_, ?_, hrest⟩
  · rw [System.World.after_hist, hhist, List.cons_append]
  · intro a' ha'
    rcases List.mem_cons.1 ha' with heq | ha'
    · cases heq
    · exact hstart a' ha'

theorem stable_forwardedTo (t : Tid) (sid : SessionId) (addr : SocketAddr) :
    (authContract env).Stable t fun w => ForwardedTo t w sid addr := by
  intro w w' hstep hw
  cases hstep with
  | start a hne => exact hw.begin hne
  | exec u o r st => exact hw.after o r st

/-- The session map knows the endpoint of a session from its last hello. -/
theorem forwardingAddr_authorized (hauth : env.authRequired = true) (hinv : AuthInv w)
    {nowUnix : UInt64}
    (h : forwardingAddr w.st.core.sessions sid env.authRequired nowUnix = some addr) :
    ∃ hello, lastHello sid w.hist = some hello ∧ hello.addr = addr ∧
      nowUnix < hello.ticket.exp := by
  unfold forwardingAddr at h
  cases he : w.st.core.sessions.lookup sid with
  | none => simp [he] at h
  | some e =>
      simp only [he, hauth, if_true, Option.ite_none_right_eq_some, Option.some.injEq] at h
      obtain ⟨hcurrent, rfl⟩ := h
      obtain ⟨hstate, expiresAt, hlease, hlt⟩ := sessionAuthIsCurrent_iff.1 hcurrent
      obtain ⟨hello, hlast, -, haddr, hexp⟩ := hinv.owned sid e he hstate
      refine ⟨hello, hlast, haddr.symm, ?_⟩
      rw [hlease] at hexp
      split at hexp
      · rwa [← Option.some.inj hexp]
      · cases hexp

theorem forwardData_wp (hauth : env.authRequired = true) {turn : SendTurn} {frame : List UInt8}
    {refused : RelayProg Unit} (hrefused : refused.Uses fun o : RelayOp => o.plain = true)
    (w : RelayWorld env) :
    (authContract env).wp t (forwardData turn sid frame refused) (fun _ _ => True) w := by
  refine wp_core_bind _ .true trivial (fun _ _ _ => trivial) ?_
  intro w' answer st hinv _ hexec _
  cases answer with
  | none => exact wp_of_plain hrefused _ Contract.Stable.true (fun _ _ _ _ _ _ => trivial) trivial
  | some addr =>
      have hforwarded : ForwardedTo t
          (w'.after t (.core (.forwardingAddr sid turn.nowUnix)) (some addr) st) sid addr := by
        have hread := (execRelay_core hexec).1
        simp only [execCore] at hread
        split at hread
        · obtain ⟨haddr, -⟩ := Prod.mk.inj (Option.some.inj hread)
          obtain ⟨hello, hlast, hfrom, hexp⟩ := forwardingAddr_authorized hauth hinv haddr
          exact ⟨[], turn.nowUnix, w'.st, st, w'.hist, hello, rfl, by simp, hlast, hfrom, hexp⟩
        · cases hread
      have hstable := @stable_forwardedTo env t sid addr
      refine Contract.wp_seq (wp_of_plain (accountAllow_uses rfl) _ hstable
        (fun o r w st hw _ => hw.after o r st) hforwarded) ?_
      intro allowed w'' hforwarded
      split
      · exact wp_core _ hstable hforwarded (fun _ _ h => h) fun _ _ _ _ _ _ _ => trivial
      · exact wp_core _ .true trivial (fun _ _ _ => trivial)
          fun _ _ _ _ _ _ _ => trivial

/-- The threads that neither receive from clients nor send to them. -/
theorem plain_of_may (hmay : may t o)
    (ht : t = .cleanup ∨ (∃ k, t = .shard k) ∨ ∃ g, t = .v1Flow g) : o.plain = true := by
  rcases ht with rfl | ⟨k, rfl⟩ | ⟨generation, rfl⟩
  · rcases o with o | o | o <;> cases o <;>
      simp_all [may, RelayOp.plain, CoreOp.ofCleanup, V1Op.ofCleanup, V2Op.ofCleanup]
    split <;> simp_all
  · rcases o with o | o | o <;> cases o <;>
      simp_all [may, RelayOp.plain, CoreOp.ofFlow, V2Op.ofShard]
  · rcases o with o | o | o <;> cases o <;>
      simp_all [may, RelayOp.plain, CoreOp.ofFlow, V1Op.ofTask]

/-- The threads other than the receive loop meet the contract. -/
theorem other_wp (hauth : env.authRequired = true) {a : Act} (hne : a.tid ≠ .rx)
    (w : RelayWorld env) :
    (authContract env).wp a.tid (a.prog env) (fun _ => (authContract env).post a.tid) w := by
  have done : ∀ {t : Tid} {p : RelayProg Unit} {w : RelayWorld env},
      (p.Uses fun o : RelayOp => o.plain = true) →
      (authContract env).wp t p (fun _ _ => True) w := fun hp =>
    wp_of_plain hp _ Contract.Stable.true (fun _ _ _ _ _ _ => trivial) trivial
  have hplain : (a.tid = .cleanup ∨ (∃ k, a.tid = .shard k) ∨ ∃ g, a.tid = .v1Flow g) →
      (authContract env).wp a.tid (a.prog env) (fun _ _ => True) w := fun ht =>
    done ((prog_uses env a).mono fun _ hmay => plain_of_may hmay ht)
  refine Contract.wp_mono (Q := fun _ _ => True) ?_ fun _ _ _ hrx => absurd hrx hne
  cases a with
  | datagram d => exact absurd rfl hne
  | cleanup p => exact hplain (Or.inl rfl)
  | shardEvent k => exact hplain (Or.inr (Or.inl ⟨k, rfl⟩))
  | shardInbox k => exact hplain (Or.inr (Or.inl ⟨k, rfl⟩))
  | shardCleanup k => exact hplain (Or.inr (Or.inl ⟨k, rfl⟩))
  | flowTaskSend generation => exact hplain (Or.inr (Or.inr ⟨generation, rfl⟩))
  | flowTaskReceive generation => exact hplain (Or.inr (Or.inr ⟨generation, rfl⟩))
  | flowTaskIdle generation => exact hplain (Or.inr (Or.inr ⟨generation, rfl⟩))
  | flowTaskEnd generation => exact hplain (Or.inr (Or.inr ⟨generation, rfl⟩))
  | tunResponse turn packet => exact forwardData_wp hauth (Prog.uses_ret ()) w
  | v1Response turn =>
      refine wp_plain_bind (by simp [RelayOp.plain]) fun response w => ?_
      cases response with
      | none => trivial
      | some response => exact forwardData_wp hauth (Prog.uses_ret ()) w
  | transmit turn =>
      refine wp_plain_bind (by simp [RelayOp.plain]) fun packet w => ?_
      cases packet with
      | none => trivial
      | some packet =>
          refine Contract.wp_seq (R := fun _ _ => True) ?_ ?_
          · unfold sendTxPacket
            split
            · exact done (by simp [dropOut, RelayOp.plain])
            · split
              · exact forwardData_wp hauth (by simp [dropOut, RelayOp.plain]) w
              · exact done (by simp [RelayOp.plain])
          · exact fun _ w _ => done (by simp [RelayOp.plain])

end SwiftRelay
