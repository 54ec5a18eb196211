/-
**Who may send, and who receives.**

What the contract of authorization says about runs of the relay, where tickets are asked for.  All
of it holds for every sequence of datagrams and every interleaving of the threads.

Main results:

* `handed_on_frame_authorized` — a data frame is handed on only for the source of the last hello of
  its session;
* `data_sent_to_last_hello` — a data frame is sent back only there;
* `no_takeover_and_refusals_silent` — an owner does not change, and a hello that is not acknowledged
  changes nothing;
* `ok_ack_truthful_iff` — when an acknowledgement is truthful.
-/

import SwiftRelay.ReceiveLoop

set_option autoImplicit false

namespace SwiftRelay

open Conc

variable {env : RelayEnv} {c : (relaySystem env).Config} {w : RelayWorld env} {sid : SessionId}

theorem authContract_good (hauth : env.authRequired = true) {bucketOf : Ipv4Addr → ℕ}
    {createdAt : Instant} (hrun : (relaySystem env).Steps (relayStart env bucketOf createdAt) c) :
    Contract.Sound.Good (authContract env) c := by
  refine (authContract_sound hauth).run hrun (Contract.Sound.good_initial ⟨?_, ?_⟩ ?_)
  · intro sid e he
    cases he
  · intro later e earlier sid hello hhist
    simp at hhist
  · intro t _ d hd
    cases hd

/-! ### A sample relay -/

/-- A relay in the second datapath that asks for tickets and knows the sample tickets. -/
def sampleEnv : RelayEnv where
  auth := sampleAuth
  codecs := sampleCodecs
  policy := ⟨.off, ⟨[]⟩, ⟨[]⟩, [], 16⟩
  datapath := .v2
  tcpEnabled := false
  tunUdpEnabled := false
  tunAvailable := false
  resolveSocket := true
  dashShards := 1
  dashShardOf := fun _ => 0
  dashShardOf_lt := fun _ => Nat.zero_lt_one
  flowShards := 1
  flowShardOf := fun _ _ => 0
  flowShardOf_lt := fun _ _ => Nat.one_pos
  indexShards := 1
  indexShardOf := fun _ => 0
  indexShardOf_lt := fun _ => Nat.one_pos
  shardCount := 1
  shardQueueCap := 4096
  txQueueCap := 8192
  flowChannelCapacity := 256

theorem helloFrame_length (sid : SessionId) (token : String) :
    sessionIdLen + 3 + token.utf8ByteSize ≤ (helloFrame sid token).length := by
  simp only [helloFrame, List.length_append, sessionIdBytes_length]
  exact Nat.le_of_eq rfl

/-- A hello for session 1 with a sample ticket. -/
def sampleHello (t : SampleTicket) (src : SocketAddr) (n : ℕ) : Datagram :=
  sampleDatagram (helloFrame 1 t.token) (sessionIdLen + 3 + t.size)
    (t.size_eq ▸ helloFrame_length 1 t.token) src n

/-- The receive loop has got a sample hello, and its ticket has passed. -/
def ticketPassed (t : SampleTicket) (src : SocketAddr) (n : ℕ) (ticket : VerifiedRelayTicket)
    (x : (relaySystem sampleEnv).Snapshot) : (relaySystem sampleEnv).Snapshot :=
  ({ x.1 with core := { x.1.core with
    pendingAuth := (x.1.core.pendingAuth.allow src.ip (secs n)).2
    replayCache :=
      (x.1.core.replayCache.acceptOnce ticket.jti ticket.exp (UInt64.ofNat n) true).2 } },
    Function.update x.2 .rx (rxAdmit sampleEnv (sampleHello t src n) (some ticket)))

theorem reaches_ticketPassed {t : SampleTicket} (ht : t ∈ sampleTickets) {src : SocketAddr} {n : ℕ}
    {ticket : VerifiedRelayTicket} {c₀ : (relaySystem sampleEnv).Config}
    {ok : System.Test (relaySystem sampleEnv)}
    (hok : ∀ o : CoreOp, o.onTickets = true → ∀ s, ok .rx (.core o) s = true)
    {x : (relaySystem sampleEnv).Snapshot} (h : System.Reaches ok c₀ x) (hidle : x.2 .rx = .ret ())
    (hpending : (x.1.core.pendingAuth.allow src.ip (secs n)).1 = true)
    (hclaims : checkClaims t.claims 1 sampleAuth (UInt64.ofNat n) = .ok ticket)
    (hfresh : (x.1.core.replayCache.acceptOnce ticket.jti ticket.exp (UInt64.ofNat n) true).1 =
      true) :
    System.Reaches ok c₀ (ticketPassed t src n ticket x) := by
  obtain ⟨c, hrun, hc⟩ := h
  have hsize : t.token.utf8ByteSize ≠ 0 ∧ t.token.utf8ByteSize ≤ maxAuthTokenLen := by
    rw [show t.token.utf8ByteSize = t.size from t.size_eq]
    exact (by decide : ∀ t ∈ sampleTickets, t.size ≠ 0 ∧ t.size ≤ maxAuthTokenLen) t ht
  have hactivate : System.activate (M := relaySystem sampleEnv) (.datagram (sampleHello t src n))
      x = some (x.1, Function.update x.2 .rx (rxPass sampleEnv (sampleHello t src n))) := by
    simp only [System.activate, Act.tid, hidle]
    rfl
  obtain ⟨c₁, hrun₁, hc₁, -⟩ := System.run_of_activate hc hactivate
  have hverify : verifyRelayTicketOnce sampleCodecs t.token 1 sampleAuth (UInt64.ofNat n)
      x.1.core.replayCache true = (.ok ticket,
        (x.1.core.replayCache.acceptOnce ticket.jti ticket.exp (UInt64.ofNat n) true).2) := by
    simp only [verifyRelayTicketOnce, (verifyRelayTicket_sample ht 1 _).trans hclaims]
    rw [← Prod.eta (x.1.core.replayCache.acceptOnce ticket.jti ticket.exp _ true), hfresh]
  have hello : (sampleHello t src n).isAuthHello = true := by
    have hlen : sessionIdLen + 3 ≤ (sampleHello t src n).len := Nat.le_add_right _ _
    have htype : (sampleHello t src n).frameType = authHelloFrameType := rfl
    simp [Datagram.isAuthHello, htype, hlen]
  have hparse : parseAuthHelloToken (sampleHello t src n).buf (sampleHello t src n).len =
      .ok t.token := by
    simp only [sampleHello, sampleDatagram, ← t.size_eq]
    exact parseAuthHelloToken_helloFrame 1 hsize.1 hsize.2
  obtain ⟨c₂, hrun₂, hc₂⟩ := run_hello rfl hc₁ (Function.update_self ..)
    (by simp only [sampleHello, sampleDatagram]; omega) hello
    hparse hpending hverify hok
  refine ⟨c₂, hrun.trans (hrun₁.trans hrun₂), ?_⟩
  rwa [Function.update_idem] at hc₂

/-- The sample relay at the start. -/
abbrev sampleStart : (relaySystem sampleEnv).Config := relayStart sampleEnv (fun _ => 0) 0

/-- The state of the sample relay when the ticket of a first hello, after 390 seconds, has passed.
-/
def sampleVerified : (relaySystem sampleEnv).Snapshot :=
  ticketPassed sampleTicketA sampleClient 390 ⟨"a", "j1", 400, true⟩
    (sampleStart.st, sampleStart.ctl)

theorem reaches_sampleVerified : System.Reaches System.free sampleStart sampleVerified :=
  reaches_ticketPassed (by simp [sampleTickets]) (fun _ _ _ => rfl)
    ⟨sampleStart, Relation.ReflTransGen.refl, rfl, rfl⟩ rfl rfl (by decide +kernel) rfl

/-- A snapshot with its session map written out, which keeps what is computed from it small. -/
def withSessions (sessions : Table SessionId SessionEntry) (x : (relaySystem sampleEnv).Snapshot) :
    (relaySystem sampleEnv).Snapshot :=
  ({ x.1 with core := { x.1.core with sessions := sessions } }, x.2)

theorem reaches_withSessions {ok : System.Test (relaySystem sampleEnv)}
    {c : (relaySystem sampleEnv).Config} {x : (relaySystem sampleEnv).Snapshot}
    (h : System.Reaches ok c x)
    {sessions : Table SessionId SessionEntry}
    (hsessions : x.1.core.sessions.entries = sessions.entries) :
    System.Reaches ok c (withSessions sessions x) := by
  obtain rfl := AList.ext hsessions
  exact h

/-- The session of the sample client after its first hello. -/
def sampleSession : SessionEntry where
  userId := "a"
  authState := .authenticated
  leaseExpiresAtUnix := some 400
  clientAddr := sampleClient
  createdAtUnix := 390
  lastActivity := secs 390
  lastActivityUnix := 390

/-- The state of the sample relay when the first hello is finished. -/
def sampleServed : (relaySystem sampleEnv).Snapshot :=
  withSessions (AList.singleton 1 sampleSession)
    (System.outcome System.free [.fire .rx 20] sampleVerified)

theorem reaches_sampleServed : System.Reaches System.free sampleStart sampleServed :=
  reaches_withSessions (reaches_sampleVerified.follow [.fire .rx 20] (by decide +kernel))
    (by decide +kernel)

/-! ### Ingress -/

/-- The session and the client address of a packet that an operation hands on. -/
def RelayOp.handsOn : RelayOp → Option (SessionId × SocketAddr)
  | .core (.tunSend packet _) => some (packet.sessionId, packet.clientAddr)
  | .v1 (.flowForward key addr _ _ _ _) => some (key.sessionId, addr)
  | .v2 (.shardSend _ (.clientPacket packet)) => some (packet.sessionId, packet.clientAddr)
  | _ => none

variable {t : Tid} {o : RelayOp} {addr : SocketAddr}

theorem handedOn_of_authPre (h : authPre t o w) (ho : o.handsOn = some (sid, addr)) :
    HandedOn w sid addr := by
  unfold RelayOp.handsOn at ho
  split at ho <;> cases ho <;> exact h

/-- **Ingress authorization.**  Whenever a data frame of a session is handed on, the receive loop is
busy with a datagram of that session from the same address, and some earlier hello for the session
was applied from exactly that address, with a ticket that had passed and that expires after the time
of the datagram; no other hello for the session was applied in between. -/
theorem handed_on_frame_authorized (hauth : env.authRequired = true) {bucketOf : Ipv4Addr → ℕ}
    {createdAt : Instant} {c c' : (relaySystem env).Config}
    (hrun : (relaySystem env).Steps (relayStart env bucketOf createdAt) c) {t : Tid} {o : RelayOp}
    {r : o.Ret} {pre post : RelayState} (hstep : (relaySystem env).Step c (.exec t o r pre post) c')
    {sid : SessionId} {addr : SocketAddr} (ho : o.handsOn = some (sid, addr)) :
    ∃ d, currentAct .rx c.hist = some (.datagram d) ∧ d.sid = sid ∧ d.src = addr ∧
      ∃ later e earlier hello, c.hist = later ++ e :: earlier ∧ helloFor sid e = some hello ∧
        hello.addr = addr ∧ d.nowUnix < hello.ticket.exp ∧
        (∃ v ∈ earlier, Verified sid hello.ticket v) ∧ ∀ e' ∈ later, helloFor sid e' = none := by
  have hgood := authContract_good hauth hrun
  obtain ⟨d, hello, hact, hsid, hsrc, hlast, haddr, hexp⟩ :=
    handedOn_of_authPre (Contract.Sound.pre_of_step hgood hstep).2 ho
  obtain ⟨later, e, earlier, hhist, hfor, hnone⟩ := lastHello_eq_some_iff.1 hlast
  exact ⟨d, hact, hsid, hsrc, later, e, earlier, hello, hhist, hfor, haddr, hexp,
    hgood.1.verified later e earlier sid hello hhist hfor, hnone⟩

/-- The first hello is finished, and a data frame of the client arrives five seconds later. -/
theorem handed_on_frame_authorized_sample :
    ∃ c c' o r pre post, (relaySystem sampleEnv).Steps sampleStart c ∧
      (relaySystem sampleEnv).Step c (.exec .rx o r pre post) c' ∧
      o.handsOn = some (1, sampleClient) ∧
      ∃ d, currentAct .rx c.hist = some (.datagram d) ∧ d.sid = 1 ∧ d.src = sampleClient ∧
        ∃ later e earlier hello, c.hist = later ++ e :: earlier ∧ helloFor 1 e = some hello ∧
          hello.addr = sampleClient ∧ d.nowUnix < hello.ticket.exp ∧
          (∃ v ∈ earlier, Verified 1 hello.ticket v) ∧ ∀ e' ∈ later, helloFor 1 e' = none := by
  obtain ⟨c, o, r, st, c', hrun, ho, hstep, -⟩ := (reaches_sampleServed.follow
    [.start (.datagram (sampleFrame samplePacket sampleClient 395)), .fire .rx 9]
    (by decide +kernel)).step .rx (fun o => decide (RelayOp.handsOn o = some (1, sampleClient)))
    (by decide +kernel)
  exact ⟨c, c', o, r, c.st, st, hrun.steps, hstep, of_decide_eq_true ho,
    handed_on_frame_authorized rfl hrun.steps hstep (of_decide_eq_true ho)⟩

/-! ### Egress -/

/-- The session and the address of a data frame that an operation sends to a client. -/
def RelayOp.sendsData : RelayOp → Option (SessionId × SocketAddr)
  | .core (.sendTo .data sid addr _) => some (sid, addr)
  | _ => none

theorem forwardedTo_of_authPre (h : authPre t o w) (ho : o.sendsData = some (sid, addr)) :
    ForwardedTo t w sid addr := by
  unfold RelayOp.sendsData at ho
  split at ho <;> cases ho
  exact h

/-- **Egress authorization.** Whenever a data frame of a session is sent to a client, the sending
thread has, for this very frame, read the session map at some unix time, and at that point of the
run the address was the source of the last hello that was applied to the session; its ticket expires
after that time. -/
theorem data_sent_to_last_hello (hauth : env.authRequired = true) {bucketOf : Ipv4Addr → ℕ}
    {createdAt : Instant} {c c' : (relaySystem env).Config}
    (hrun : (relaySystem env).Steps (relayStart env bucketOf createdAt) c) {t : Tid} {o : RelayOp}
    {r : o.Ret} {pre post : RelayState} (hstep : (relaySystem env).Step c (.exec t o r pre post) c')
    {sid : SessionId} {addr : SocketAddr} (ho : o.sendsData = some (sid, addr)) :
    ∃ later nowUnix readPre readPost atRead,
      c.hist = later ++
        .exec t (.core (.forwardingAddr sid nowUnix)) (some addr) readPre readPost :: atRead ∧
      (∀ a, .start a ∈ later → a.tid ≠ t) ∧
      ∃ newer e older hello, atRead = newer ++ e :: older ∧ helloFor sid e = some hello ∧
        hello.addr = addr ∧ nowUnix < hello.ticket.exp ∧
        (∃ v ∈ older, Verified sid hello.ticket v) ∧ ∀ e' ∈ newer, helloFor sid e' = none := by
  have hgood := authContract_good hauth hrun
  obtain ⟨later, nowUnix, readPre, readPost, atRead, hello, hhist, hpass, hlast, haddr, hexp⟩ :=
    forwardedTo_of_authPre (Contract.Sound.pre_of_step hgood hstep).2 ho
  obtain ⟨newer, e, older, rfl, hfor, hnone⟩ := lastHello_eq_some_iff.1 hlast
  have hverified : ∃ v ∈ older, Verified sid hello.ticket v :=
    hgood.1.verified _ e older sid hello
      (hhist.trans (List.append_assoc later (_ :: newer) (e :: older)).symm) hfor
  exact ⟨later, nowUnix, readPre, readPost, _, hhist, hpass, newer, e, older, hello, rfl, hfor,
    haddr, hexp, hverified, hnone⟩

/-- A response of the TUN device carries another address than the client has. -/
theorem data_sent_to_last_hello_sample :
    ∃ c c' o r pre post, (relaySystem sampleEnv).Steps sampleStart c ∧
      (relaySystem sampleEnv).Step c (.exec .tunResponse o r pre post) c' ∧
      o.sendsData = some (1, sampleClient) ∧
      ∃ later nowUnix readPre readPost atRead,
        c.hist = later ++ .exec .tunResponse (.core (.forwardingAddr 1 nowUnix)) (some sampleClient)
          readPre readPost :: atRead ∧
        (∀ a, .start a ∈ later → a.tid ≠ .tunResponse) ∧
        ∃ newer e older hello, atRead = newer ++ e :: older ∧ helloFor 1 e = some hello ∧
          hello.addr = sampleClient ∧ nowUnix < hello.ticket.exp ∧
          (∃ v ∈ older, Verified 1 hello.ticket v) ∧ ∀ e' ∈ newer, helloFor 1 e' = none := by
  obtain ⟨c, o, r, st, c', hrun, ho, hstep, -⟩ := (reaches_sampleServed.follow
    [.start (.tunResponse ⟨secs 395, 395, true⟩ ⟨1, ⟨⟨198, 51, 100, 9⟩, 7⟩, [1, 2, 3]⟩),
      .fire .tunResponse 2] (by decide +kernel)).step .tunResponse
    (fun o => decide (RelayOp.sendsData o = some (1, sampleClient))) (by decide +kernel)
  exact ⟨c, c', o, r, c.st, st, hrun.steps, hstep, of_decide_eq_true ho,
    data_sent_to_last_hello rfl hrun.steps hstep (of_decide_eq_true ho)⟩

/-! ### Owners and refused hellos -/

/-- Session `sid` is in the map after the step. -/
def Keeps (sid : SessionId) (_ : RelayWorld env) : RelayEvent env → Prop
  | .exec _ _ _ _ post => (post.core.sessions.lookup sid).isSome = true
  | .start _ => True

/-- An operation that leaves an authenticated entry in the map leaves its owner. -/
theorem owner_exec {r : o.Ret} {st : RelayState} (hpre : authPre t o w)
    (hexec : execRelay env t o w.st = some (r, st)) {e e' : SessionEntry}
    (he : w.st.core.sessions.lookup sid = some e) (hauth : e.authState = .authenticated)
    (he' : st.core.sessions.lookup sid = some e') :
    e'.authState = .authenticated ∧ e'.userId = e.userId := by
  have hstep := entryStep hexec sid
  rw [he, he'] at hstep
  cases hstep with
  | insert _ _ ho =>
      subst ho
      cases he.symm.trans hpre.2
  | same => exact ⟨hauth, rfl⟩
  | modify o' f _ ho hmod =>
      subst ho
      cases o' <;> simp only [CoreOp.modifies, Option.some.injEq, Prod.mk.injEq,
        reduceCtorEq] at hmod <;> obtain ⟨rfl, rfl⟩ := hmod
      case entryTouch => exact ⟨hauth, rfl⟩
      case helloApply => exact ⟨rfl, (hpre.2 e he hauth).symm⟩
      case setLegacyUser srcIp hlock =>
        have hsame : e.observe srcIp = e :=
          observe_of_authenticated (by rw [observe_authState]; exact hauth)
        simp only [hsame]
        exact ⟨hauth, trivial⟩
      case refresh => exact ⟨hauth, rfl⟩

/-- The owner of an authenticated entry along a run that leaves the entry in the map. -/
theorem owner_run (hauth : env.authRequired = true) {c' : (relaySystem env).Config}
    (hgood : Contract.Sound.Good (authContract env) c)
    (hkept : (relaySystem env).Run (Keeps sid) c c') {e : SessionEntry}
    (he : c.st.core.sessions.lookup sid = some e) (hstate : e.authState = .authenticated) :
    ∃ e', c'.st.core.sessions.lookup sid = some e' ∧ e'.authState = .authenticated ∧
      e'.userId = e.userId := by
  induction hkept with
  | refl => exact ⟨e, he, hstate, rfl⟩
  | @tail c₁ c₂ hbefore hstep ih =>
      obtain ⟨e₁, he₁, hstate₁, huser₁⟩ := ih
      obtain ⟨ev, hkeep, hstep⟩ := hstep
      have hgood₁ := (authContract_sound hauth).run
        (System.Run.mono (fun _ _ _ => trivial) hbefore) hgood
      cases hstep with
      | start a _ => exact ⟨e₁, he₁, hstate₁, huser₁⟩
      | exec t o k r st hctl hexec =>
          obtain ⟨e₂, he₂⟩ := Option.isSome_iff_exists.1 hkeep
          have hpre := (Contract.Sound.pre_of_step hgood₁ (.exec c₁ t o k r st hctl hexec)).2
          obtain ⟨hstate₂, huser₂⟩ := owner_exec hpre hexec he₁ hstate₁ he₂
          exact ⟨e₂, he₂, hstate₂, huser₂.trans huser₁⟩

/-- **No takeover, and refused hellos change nothing.**  As long as an authenticated entry stays in
the map, its owner stays; and a finished pass for a hello that produced no acknowledgement left the
session map and the session counts exactly as they were, in each of its steps. -/
theorem no_takeover_and_refusals_silent (hauth : env.authRequired = true)
    {bucketOf : Ipv4Addr → ℕ} {createdAt : Instant} {c : (relaySystem env).Config}
    (hrun : (relaySystem env).Steps (relayStart env bucketOf createdAt) c) :
    (∀ c' sid e, (relaySystem env).Run (Keeps sid) c c' →
      c.st.core.sessions.lookup sid = some e → e.authState = .authenticated →
      ∃ e', c'.st.core.sessions.lookup sid = some e' ∧ e'.authState = .authenticated ∧
        e'.userId = e.userId) ∧
    ∀ d, c.ctl .rx = .ret () → currentAct .rx c.hist = some (.datagram d) →
      d.isAuthHello = true → (¬ ∃ e ∈ passOps .rx c.hist, IsOkAck e) →
      ∀ e ∈ passOps .rx c.hist, Silent e := by
  have hgood := authContract_good hauth hrun
  refine ⟨fun c' sid e hkept he hstate => owner_run hauth hgood hkept he hstate, ?_⟩
  intro d hidle hact hello hack
  exact (Contract.Sound.post_of_idle hgood hidle rfl d hact hello).resolve_left hack

/-- A hello without a token, from elsewhere. -/
def sampleBadHello : Datagram :=
  sampleDatagram (sessionIdBytes 1 ++ [authHelloFrameType, 0, 0]) 11 (by decide)
    ⟨⟨198, 51, 100, 9⟩, 7⟩ 395

/-- The session and the address of an acknowledgement of a hello. -/
def RelayOp.acksOk : RelayOp → Option (SessionId × SocketAddr)
  | .core (.ack addr sid .ok) => some (sid, addr)
  | _ => none

theorem acksOk_of_isOkAck {r : o.Ret} {pre post : RelayState}
    (h : IsOkAck (.exec t o r pre post : RelayEvent env)) : (RelayOp.acksOk o).isNone = false := by
  unfold IsOkAck at h
  split at h
  · next heq =>
      cases heq
      rw [h]
      rfl
  · cases h

/-- A hello without a token arrives for the session of the sample client, and is refused. -/
theorem no_takeover_and_refusals_silent_sample :
    ∃ c e, (relaySystem sampleEnv).Steps sampleStart c ∧
      c.st.core.sessions.lookup 1 = some e ∧ e.authState = .authenticated ∧ e.userId = "a" ∧
      (∀ c', (relaySystem sampleEnv).Run (Keeps 1) c c' →
        ∃ e', c'.st.core.sessions.lookup 1 = some e' ∧ e'.authState = .authenticated ∧
          e'.userId = e.userId) ∧
      c.ctl .rx = .ret () ∧ currentAct .rx c.hist = some (.datagram sampleBadHello) ∧
      sampleBadHello.isAuthHello = true ∧ (¬ ∃ e ∈ passOps .rx c.hist, IsOkAck e) ∧
      ∀ e ∈ passOps .rx c.hist, Silent e := by
  obtain ⟨c, hrun, hc, hact, hpassed⟩ := reaches_sampleServed.pass (.datagram sampleBadHello) 20
    (fun _ o _ => (RelayOp.acksOk o).isNone) (by decide +kernel)
  have hentry : ∃ e, c.st.core.sessions.lookup 1 = some e ∧ e.authState = .authenticated ∧
      e.userId = "a" := by
    rw [hc.1]
    exact ⟨sampleSession, by decide +kernel, rfl, rfl⟩
  have hidle : c.ctl .rx = .ret () := by
    rw [hc.2]
    exact System.ctl_of_idle (by decide +kernel)
  have hrefused : ¬ ∃ e ∈ passOps .rx c.hist, IsOkAck e := by
    rintro ⟨e, he, hack⟩
    obtain ⟨w, hw⟩ := hpassed e he
    cases e with
    | start => exact hack
    | exec t o r pre post => cases hw.symm.trans (acksOk_of_isOkAck hack)
  obtain ⟨e, he, hstate, huser⟩ := hentry
  obtain ⟨hkept, hsilent⟩ := no_takeover_and_refusals_silent rfl hrun
  exact ⟨c, e, hrun, he, hstate, huser, fun c' hrun' => hkept c' 1 e hrun' he hstate, hidle,
    hact, rfl, hrefused, hsilent sampleBadHello hidle hact rfl hrefused⟩

/-! ### Acknowledgements -/

theorem acknowledged_of_authPre (h : authPre t o w) (ho : o.acksOk = some (sid, addr)) :
    Acknowledged w sid addr := by
  unfold RelayOp.acksOk at ho
  split at ho <;> cases ho
  exact h

/-- **When an acknowledgement is truthful.** Whenever a hello is acknowledged, its ticket has passed
in this pass of the receive loop, and the session map after the last operation of the pass on it
holds the session as the ticket and the source of the hello say, just in case the session was in the
map right before the `get_mut` of the pass. -/
theorem ok_ack_truthful_iff (hauth : env.authRequired = true) {bucketOf : Ipv4Addr → ℕ}
    {createdAt : Instant} {c c' : (relaySystem env).Config}
    (hrun : (relaySystem env).Steps (relayStart env bucketOf createdAt) c) {t : Tid} {o : RelayOp}
    {r : o.Ret} {pre post : RelayState} (hstep : (relaySystem env).Step c (.exec t o r pre post) c')
    {sid : SessionId} {addr : SocketAddr} (ho : o.acksOk = some (sid, addr)) :
    ∃ d ticket before after, currentAct .rx c.hist = some (.datagram d) ∧ d.sid = sid ∧
      d.src = addr ∧ (∃ v ∈ passOps .rx c.hist, Verified sid ticket v) ∧
      beforeGetMut (passOps .rx c.hist) = some before ∧
      afterLastSessionOp (passOps .rx c.hist) = some after ∧
      (Grants after sid ticket addr ↔ (before.core.sessions.lookup sid).isSome = true) :=
  acknowledged_of_authPre (Contract.Sound.pre_of_step (authContract_good hauth hrun) hstep).2 ho

/-- The first hello of the sample client is acknowledged truthfully. -/
theorem ok_ack_truthful_iff_sample :
    ∃ c c' o r pre post, (relaySystem sampleEnv).Steps sampleStart c ∧
      (relaySystem sampleEnv).Step c (.exec .rx o r pre post) c' ∧
      o.acksOk = some (1, sampleClient) ∧
      ∃ d ticket before after, currentAct .rx c.hist = some (.datagram d) ∧ d.sid = 1 ∧
        d.src = sampleClient ∧ (∃ v ∈ passOps .rx c.hist, Verified 1 ticket v) ∧
        beforeGetMut (passOps .rx c.hist) = some before ∧
        afterLastSessionOp (passOps .rx c.hist) = some after ∧
        (Grants after 1 ticket sampleClient ↔
          (before.core.sessions.lookup 1).isSome = true) := by
  obtain ⟨c, o, r, st, c', hrun, ho, hstep, -⟩ := (reaches_sampleVerified.follow
    [.fire .rx 12] (by decide +kernel)).step .rx
    (fun o => decide (RelayOp.acksOk o = some (1, sampleClient))) (by decide +kernel)
  exact ⟨c, c', o, r, c.st, st, hrun.steps, hstep, of_decide_eq_true ho,
    ok_ack_truthful_iff rfl hrun.steps hstep (of_decide_eq_true ho)⟩

/-- The state of the sample relay when the ticket of a renewal, after 459 seconds, has passed. -/
def sampleRenewing : (relaySystem sampleEnv).Snapshot :=
  ticketPassed sampleRenewalA sampleClient 459 ⟨"a", "j2", 750, true⟩ sampleServed

theorem reaches_sampleRenewing : System.Reaches System.free sampleStart sampleRenewing :=
  reaches_ticketPassed (by simp [sampleTickets]) (fun _ _ _ => rfl) reaches_sampleServed
    (System.ctl_of_idle (by decide +kernel)) (by decide +kernel) (by decide +kernel)
    (by decide +kernel)

/-- The session whose entry an operation looks up for a change. -/
def RelayOp.getsMut : RelayOp → Option SessionId
  | .core (.getMutLock sid) => some sid
  | _ => none

/-- The `get_mut` of a pass that found nothing. -/
theorem afterLastSessionOp_getMut {c' : (relaySystem env).Config} {r : o.Ret} {st : RelayState}
    (hstep : (relaySystem env).Step c (.exec .rx o r c.st st) c') (ho : o.getsMut = some sid) :
    afterLastSessionOp (passOps .rx c'.hist) = some c'.st := by
  unfold RelayOp.getsMut at ho
  split at ho <;> cases ho
  cases hstep
  simp only [System.World.after_hist, passOps_exec]
  rfl

/-- The ticket of the renewal has passed and the session was found, and before the `get_mut` of the
hello a cleanup pass runs, a minute after the first ticket has expired.  The renewal is
acknowledged, and after its `get_mut` the session is not in the map. -/
theorem ok_ack_for_removed_session :
    ∃ c c' o r pre post after, (relaySystem sampleEnv).Steps sampleStart c ∧
      (relaySystem sampleEnv).Step c (.exec .rx o r pre post) c' ∧
      o.acksOk = some (1, sampleClient) ∧
      afterLastSessionOp (passOps .rx c.hist) = some after ∧
      ∀ ticket, ¬ Grants after 1 ticket sampleClient := by
  have hswept := reaches_sampleRenewing.follow
    [.fire .rx 5, .start (.cleanup ⟨secs 460, 460⟩), .fire .cleanup 20] (by decide +kernel)
  obtain ⟨c, o, r, st, c₁, hrun, ho, hstep, hc₁⟩ := hswept.step .rx
    (fun o => decide (RelayOp.getsMut o = some 1)) (by decide +kernel)
  obtain ⟨o', r', st', c₂, ho', hstep', -⟩ := hc₁.step .rx
    (fun o => decide (RelayOp.acksOk o = some (1, sampleClient))) (by decide +kernel)
  have hgone : c₁.st.core.sessions.lookup 1 = none :=
    (congrArg (fun s => s.core.sessions.lookup 1) hc₁.1).trans (by decide +kernel)
  refine ⟨c₁, c₂, o', r', c₁.st, st', c₁.st, hrun.steps.tail ⟨_, trivial, hstep⟩, hstep',
    of_decide_eq_true ho', afterLastSessionOp_getMut hstep (of_decide_eq_true ho), ?_⟩
  rintro ticket ⟨e, he, -⟩
  cases hgone.symm.trans he

end SwiftRelay
