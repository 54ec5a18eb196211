/-
**The two receive loops.**

Each datapath has a receive loop of its own, and the second is a copy of the first.  What has been
written down so far as one pass is here written down twice, after the text of each loop, up to the
points where they have to differ: how a control frame is put on its way, who looks a host name up,
what a keepalive does to the flows, and where a UDP packet goes.  The first of these is a parameter
of the pass, because a pass can go on after it; at the others a pass hands over.

The two texts are the same program.  So from the same session map, counts, limiters and replay
cache, for the same datagram and clock readings, they decide alike; and continued as their datapath
does, each is the pass of which the rest of the development speaks.

Main definitions:

* `Handover` — what a pass leaves to its datapath;
* `V1.receive`, `V2.receive` — the two loops;
* `V1.handOver`, `V2.handOver` — how the datapaths go on;
* `CoreOp.isOutput`, `decisionSystem` — a pass and what it makes known.

Main results:

* `receive_loops_run_pass` — each loop is the pass of the relay;
* `receive_achieves` — a pass is not blocked when nobody holds a lock;
* `receive_same` — the two texts are the same program;
* `datapaths_decide_alike` — both loops yield the same state and the same outcome.
-/

import SwiftRelay.Sequential
import SwiftRelay.System

set_option autoImplicit false

namespace SwiftRelay

open Conc

/-- What a pass leaves to its datapath.  `account` is the account of the session when the packet was
accepted. -/
inductive Handover
  | nothing
  | resolve (requestId : UInt16) (hosts : List String)
  | keepalive
  | udp (gameAddr : SocketAddr) (payload : List UInt8) (originalInfo : OriginalPacketInfo)
      (account : String)

/-- Ask the limiter, and count the datagram as dropped if it refuses. -/
def allowSourceEvent (d : Datagram) (kind : SourceLimitKind) : RelayProg Bool := do
  if ← core (.sourceAllow d.ip kind d.now d.casWon) then return true
  dropIn .rateLimit
  return false

/-- The token of a hello is parsed and then verified. -/
def parseAndVerify (d : Datagram) :
    RelayProg (Except RelayAuthVerifyError VerifiedRelayTicket) := do
  match parseAuthHelloToken d.buf d.len with
  | .error err => return .error err
  | .ok token => core (.verifyOnce token d.sid d.nowUnix d.casWon)

/-! ### The loop of the first datapath -/

namespace V1

variable (control : List UInt8 → RelayProg Unit) (env : RelayEnv) (d : Datagram)

def sendAuthAck (status : AckStatus) : RelayProg Unit := do
  core (.ack d.src d.sid status)
  control (sessionIdBytes d.sid ++ [authAckFrameType, status.byte])

def sessionCapacityAvailable : RelayProg Bool := do
  if (← core .sessionsLen) ≥ maxSessionsTotal then
    dropIn .capacity
    return false
  if (← core (.countGet d.ip)) ≥ maxSessionsPerSrcIp then
    dropIn .capacity
    return false
  return true

/-- The answer to a ping. -/
def pongResponse : List UInt8 :=
  let seq : UInt32 := .ofNat (fromBeBytes ((d.buf.take (sessionIdLen + 5)).drop (sessionIdLen + 1)))
  let clientTsMonoMs : UInt64 :=
    .ofNat (fromBeBytes ((d.buf.take (sessionIdLen + 13)).drop (sessionIdLen + 5)))
  let serverRxTsMonoMs : UInt64 := .ofNat (d.later / 1000000)
  sessionIdBytes d.sid ++ [pongFrameType] ++ toBeBytes seq.toNat 4 ++
    toBeBytes clientTsMonoMs.toNat 8 ++ toBeBytes serverRxTsMonoMs.toNat 8

/-- Offer a packet to the TUN device. -/
def tunTrySend (rawIpPacket : List UInt8) : RelayProg Unit := do
  if env.tunAvailable then
    if !(← core (.tunSend ⟨d.sid, d.src, rawIpPacket⟩ d.tunAccepts)) then dropIn .tunQueue
  else dropIn .tunQueue

def packet (account : String) : ParsedPacket → RelayProg Handover
  | .forbiddenDst => do
      dropIn .forbiddenDst
      return .nothing
  | .fragment protocol srcIp rawIpPacket => do
      let canTun := (protocol = 17 && env.tunUdpEnabled) || (protocol = 6 && env.tcpEnabled)
      if canTun then tunTrySend env d rawIpPacket else dropIn .fragment
      core (.setLegacyUser d.sid srcIp)
      return .nothing
  | .tcp originalInfo rawIpPacket => do
      if env.tcpEnabled then tunTrySend env d rawIpPacket else dropIn .tcpDisabled
      core (.setLegacyUser d.sid originalInfo.srcIp)
      return .nothing
  | .udp gameAddr payload originalInfo rawIpPacket => do
      if env.tunUdpEnabled then
        tunTrySend env d rawIpPacket
        core (.setLegacyUser d.sid originalInfo.srcIp)
        return .nothing
      core (.setLegacyUser d.sid originalInfo.srcIp)
      return .udp gameAddr payload originalInfo account

/-- The hello. -/
def hello (verifiedTicket : Option VerifiedRelayTicket) : RelayProg Unit := do
  if env.auth.mode = .off then
    sendAuthAck control d .authDisabled
    return
  match verifiedTicket with
  | some ticket =>
      let existing ← core (.sessionGet d.sid)
      if existing.any fun e => e.authState = .authenticated && e.userId ≠ ticket.userId then
        sendAuthAck control d .ownerMismatch
        return
      if let some session ← core (.getMutLock d.sid) then
        updateSourceSessionCountForRebind session.clientAddr.ip d.ip
        core (.helloApply d.sid ticket d.src d.now d.nowUnix)
      sendAuthAck control d .ok
  | none => sendAuthAck control d RelayAuthVerifyError.badFormat.ackStatus

/-- From the session entry on. -/
def frame (verifiedTicket : Option VerifiedRelayTicket) (authenticated sourceAllowed : Bool)
    (account : String) : RelayProg Handover := do
  if d.isAuthHello then
    hello control env d verifiedTicket
    return .nothing
  if !sourceAllowed then
    dropIn .auth
    return .nothing
  if d.len = pingFrameLen && d.frameType = pingFrameType then
    if env.authRequired && !authenticated then
      dropIn .auth
      return .nothing
    core (.pong d.src (pongResponse d))
    control (pongResponse d)
    return .nothing
  if d.len = pongFrameLen && d.frameType = pongFrameType then
    return .nothing
  if d.len = rttReportFrameLen && d.frameType = rttReportFrameType then
    if env.authRequired && !authenticated then
      dropIn .auth
      return .nothing
    core (.rttReport d.sid (rttUsOf d))
    return .nothing
  if d.len > sessionIdLen && d.frameType = resolveRequestFrameType then
    if env.authRequired && !authenticated then
      dropIn .auth
      return .nothing
    if let some (requestId, hosts) := parseResolveRequest d.buf d.len then
      return .resolve requestId hosts
    return .nothing
  if d.len = sessionIdLen then
    if env.authRequired && !authenticated then
      dropIn .auth
      return .nothing
    return .keepalive
  if env.authRequired && !authenticated then
    dropIn .auth
    return .nothing
  if d.len < sessionIdLen + ipHeaderMin then
    dropIn .tooSmall
    return .nothing
  match ← core (.parsePacket d.ipPacket) with
  | none =>
      dropIn .parse
      return .nothing
  | some parsed =>
      if parsed ≠ .forbiddenDst then
        if !(← accountAllow d.sid d.withinBudget) then
          dropIn .rateLimit
          return .nothing
      packet env d account parsed

/-- The session entry. -/
def session (verifiedTicket : Option VerifiedRelayTicket) : RelayProg Handover := do
  match ← core (.entryLock d.sid) with
  | some session =>
      let authenticated := sessionAuthIsCurrent session d.nowUnix
      let sourceAllowed :=
        authenticatedSessionSourceAllowed session env.authRequired d.src d.isAuthHello
      if !env.authRequired || (!d.isAuthHello && session.clientAddr = d.src) then
        updateSourceSessionCountForRebind session.clientAddr.ip d.ip
        core (.entryTouch d.sid d.src d.now d.nowUnix)
      else core (.entryRelease d.sid)
      frame control env d verifiedTicket authenticated sourceAllowed session.userId
  | none =>
      core (.entryInsert d.sid (.new d.sid d.src d.now d.nowUnix))
      incrementSourceSessionCount d.ip
      core .activeAdd
      frame control env d verifiedTicket false true (deriveUserId d.sid)

/-- The limits. -/
def limits (verifiedTicket : Option VerifiedRelayTicket) : RelayProg Handover := do
  if !(← allowSourceEvent d .packet) then return .nothing
  if !(← core (.sessionContains d.sid)) then
    if !(← sessionCapacityAvailable d) then return .nothing
    if !(← allowSourceEvent d .newSession) then return .nothing
  session control env d verifiedTicket

/-- A sender that is not the endpoint of its session is asked to authenticate again. -/
def askReauth (verifiedTicket : Option VerifiedRelayTicket) : RelayProg Unit := do
  if env.authRequired && verifiedTicket.isNone then
    if (← core (.sessionGet d.sid)).any fun e => e.clientAddr ≠ d.src then
      if ← core (.pendingAllow d.ip d.now) then sendAuthAck control d .reauthRequired

/-- The gate in front of senders without a ticket. -/
def gate (verifiedTicket : Option VerifiedRelayTicket) : RelayProg Handover := do
  askReauth control env d verifiedTicket
  if env.authRequired && verifiedTicket.isNone then
    if !(← core (.sessionGet d.sid)).any fun e => sessionAuthIsCurrent e d.nowUnix &&
        authenticatedSessionSourceAllowed e true d.src false then
      dropIn .auth
      return .nothing
  limits control env d verifiedTicket

/-- One pass, up to where the datapaths differ. -/
def receive : RelayProg Handover := do
  if d.len < sessionIdLen then
    dropIn .tooSmall
    return .nothing
  if env.authRequired && d.isAuthHello then
    if !(← core (.pendingAllow d.ip d.now)) then
      dropIn .rateLimit
      return .nothing
    match ← parseAndVerify d with
    | .ok ticket => gate control env d (some ticket)
    | .error err =>
        sendAuthAck control d err.ackStatus
        return .nothing
  else gate control env d none

/-- How the first datapath goes on. -/
def handOver : Handover → RelayProg Unit
  | .nothing => return ()
  | .resolve requestId hosts => core (.resolve d.src d.sid requestId hosts)
  | .keepalive => rxKeepalive env d
  | .udp gameAddr payload originalInfo _ => rxForwardV1 d gameAddr originalInfo payload

end V1

/-! ### The loop of the second datapath -/

namespace V2

variable (control : List UInt8 → RelayProg Unit) (env : RelayEnv) (d : Datagram)

/-- A control frame of one byte.  The relay only sends acknowledgements this way. -/
def sendSmallControlFrame (frameType : UInt8) (status : AckStatus) : RelayProg Unit := do
  core (.ack d.src d.sid status)
  control (sessionIdBytes d.sid ++ [frameType, status.byte])

/-- The answer to a ping. -/
def pongResponse : List UInt8 :=
  let seq : UInt32 := .ofNat (fromBeBytes ((d.buf.take (sessionIdLen + 5)).drop (sessionIdLen + 1)))
  let clientTsMonoMs : UInt64 :=
    .ofNat (fromBeBytes ((d.buf.take (sessionIdLen + 13)).drop (sessionIdLen + 5)))
  let serverRxTsMonoMs : UInt64 := .ofNat (d.later / 1000000)
  sessionIdBytes d.sid ++ [pongFrameType] ++ toBeBytes seq.toNat 4 ++
    toBeBytes clientTsMonoMs.toNat 8 ++ toBeBytes serverRxTsMonoMs.toNat 8

/-- Offer a packet to the TUN device. -/
def tunTrySend (rawIpPacket : List UInt8) : RelayProg Unit := do
  if env.tunAvailable then
    if !(← core (.tunSend ⟨d.sid, d.src, rawIpPacket⟩ d.tunAccepts)) then dropIn .tunQueue
  else dropIn .tunQueue

def packet (account : String) : ParsedPacket → RelayProg Handover
  | .forbiddenDst => do
      dropIn .forbiddenDst
      return .nothing
  | .fragment protocol srcIp rawIpPacket => do
      let canTun := (protocol = 17 && env.tunUdpEnabled) || (protocol = 6 && env.tcpEnabled)
      if canTun then tunTrySend env d rawIpPacket else dropIn .fragment
      core (.setLegacyUser d.sid srcIp)
      return .nothing
  | .tcp originalInfo rawIpPacket => do
      if env.tcpEnabled then tunTrySend env d rawIpPacket else dropIn .tcpDisabled
      core (.setLegacyUser d.sid originalInfo.srcIp)
      return .nothing
  | .udp gameAddr payload originalInfo rawIpPacket => do
      if env.tunUdpEnabled then
        tunTrySend env d rawIpPacket
        core (.setLegacyUser d.sid originalInfo.srcIp)
        return .nothing
      core (.setLegacyUser d.sid originalInfo.srcIp)
      return .udp gameAddr payload originalInfo account

/-- The hello. -/
def hello (verifiedTicket : Option VerifiedRelayTicket) : RelayProg Unit := do
  if env.auth.mode = .off then
    sendSmallControlFrame control d authAckFrameType .authDisabled
    return
  match verifiedTicket with
  | some ticket =>
      let existing ← core (.sessionGet d.sid)
      if existing.any fun e => e.authState = .authenticated && e.userId ≠ ticket.userId then
        sendSmallControlFrame control d authAckFrameType .ownerMismatch
        return
      if let some session ← core (.getMutLock d.sid) then
        updateSourceSessionCountForRebind session.clientAddr.ip d.ip
        core (.helloApply d.sid ticket d.src d.now d.nowUnix)
      sendSmallControlFrame control d authAckFrameType .ok
  | none =>
      sendSmallControlFrame control d authAckFrameType RelayAuthVerifyError.badFormat.ackStatus

/-- From the session entry on. -/
def frame (verifiedTicket : Option VerifiedRelayTicket) (authenticated sourceAllowed : Bool)
    (account : String) : RelayProg Handover := do
  if d.isAuthHello then
    hello control env d verifiedTicket
    return .nothing
  if !sourceAllowed then
    dropIn .auth
    return .nothing
  if d.len = pingFrameLen && d.frameType = pingFrameType then
    if env.authRequired && !authenticated then
      dropIn .auth
      return .nothing
    core (.pong d.src (pongResponse d))
    control (pongResponse d)
    return .nothing
  if d.len = pongFrameLen && d.frameType = pongFrameType then
    return .nothing
  if d.len = rttReportFrameLen && d.frameType = rttReportFrameType then
    if env.authRequired && !authenticated then
      dropIn .auth
      return .nothing
    core (.rttReport d.sid (rttUsOf d))
    return .nothing
  if d.len > sessionIdLen && d.frameType = resolveRequestFrameType then
    if env.authRequired && !authenticated then
      dropIn .auth
      return .nothing
    if let some (requestId, hosts) := parseResolveRequest d.buf d.len then
      return .resolve requestId hosts
    return .nothing
  if d.len = sessionIdLen then
    if env.authRequired && !authenticated then
      dropIn .auth
      return .nothing
    return .keepalive
  if env.authRequired && !authenticated then
    dropIn .auth
    return .nothing
  if d.len < sessionIdLen + ipHeaderMin then
    dropIn .tooSmall
    return .nothing
  match ← core (.parsePacket d.ipPacket) with
  | none =>
      dropIn .parse
      return .nothing
  | some parsed =>
      if parsed ≠ .forbiddenDst then
        if !(← accountAllow d.sid d.withinBudget) then
          dropIn .rateLimit
          return .nothing
      packet env d account parsed

/-- The session entry. -/
def session (verifiedTicket : Option VerifiedRelayTicket) : RelayProg Handover := do
  match ← core (.entryLock d.sid) with
  | some session =>
      let authenticated := sessionAuthIsCurrent session d.nowUnix
      let sourceAllowed :=
        authenticatedSessionSourceAllowed session env.authRequired d.src d.isAuthHello
      if !env.authRequired || (!d.isAuthHello && session.clientAddr = d.src) then
        updateSourceSessionCountForRebind session.clientAddr.ip d.ip
        core (.entryTouch d.sid d.src d.now d.nowUnix)
      else core (.entryRelease d.sid)
      frame control env d verifiedTicket authenticated sourceAllowed session.userId
  | none =>
      core (.entryInsert d.sid (.new d.sid d.src d.now d.nowUnix))
      incrementSourceSessionCount d.ip
      core .activeAdd
      frame control env d verifiedTicket false true (deriveUserId d.sid)

/-- The limits. -/
def limits (verifiedTicket : Option VerifiedRelayTicket) : RelayProg Handover := do
  if !(← allowSourceEvent d .packet) then return .nothing
  if !(← core (.sessionContains d.sid)) then
    if (← core .sessionsLen) ≥ maxSessionsTotal then
      dropIn .capacity
      return .nothing
    if (← core (.countGet d.ip)) ≥ maxSessionsPerSrcIp then
      dropIn .capacity
      return .nothing
    if !(← allowSourceEvent d .newSession) then return .nothing
  session control env d verifiedTicket

/-- A sender that is not the endpoint of its session is asked to authenticate again. -/
def askReauth (verifiedTicket : Option VerifiedRelayTicket) : RelayProg Unit := do
  if env.authRequired && verifiedTicket.isNone then
    if (← core (.sessionGet d.sid)).any fun e => e.clientAddr ≠ d.src then
      if ← core (.pendingAllow d.ip d.now) then
        sendSmallControlFrame control d authAckFrameType .reauthRequired

/-- The gate in front of senders without a ticket. -/
def gate (verifiedTicket : Option VerifiedRelayTicket) : RelayProg Handover := do
  askReauth control env d verifiedTicket
  if env.authRequired && verifiedTicket.isNone then
    if !(← core (.sessionGet d.sid)).any fun e => sessionAuthIsCurrent e d.nowUnix &&
        authenticatedSessionSourceAllowed e true d.src false then
      dropIn .auth
      return .nothing
  limits control env d verifiedTicket

/-- One pass, up to where the datapaths differ. -/
def receive : RelayProg Handover := do
  if d.len < sessionIdLen then
    dropIn .tooSmall
    return .nothing
  if env.authRequired && d.isAuthHello then
    if !(← core (.pendingAllow d.ip d.now)) then
      dropIn .rateLimit
      return .nothing
    match ← parseAndVerify d with
    | .ok ticket => gate control env d (some ticket)
    | .error err =>
        sendSmallControlFrame control d authAckFrameType err.ackStatus
        return .nothing
  else gate control env d none

/-- How the second datapath goes on.  The answer to a resolve request goes out on a socket of its
own, which the relay may have failed to get. -/
def handOver (resolveSocket : Bool) : Handover → RelayProg Unit
  | .nothing => return ()
  | .resolve requestId hosts => do
      if resolveSocket then core (.resolve d.src d.sid requestId hosts)
  | .keepalive => rxKeepalive env d
  | .udp gameAddr payload originalInfo account =>
      rxForwardV2 env d account gameAddr originalInfo payload

end V2

/-! ### The two texts are the same program -/

section Same

variable (control : List UInt8 → RelayProg Unit) (env : RelayEnv) (d : Datagram)

/-- The first loop has a function for the capacity, the second has its text in place. -/
theorem limits_same (ticket : Option VerifiedRelayTicket) :
    V2.limits control env d ticket = V1.limits control env d ticket := by
  unfold V1.limits V2.limits V1.sessionCapacityAvailable
  refine congrArg _ (funext fun allowed => ?_)
  split
  · rfl
  · refine congrArg _ (funext fun known => ?_)
    split
    · refine congrArg _ (funext fun total => ?_)
      simp only [Prog.bind]
      split
      · rfl
      · refine congrArg _ (funext fun count => ?_)
        simp only [Prog.bind]
        split <;> rfl
    · rfl

theorem receive_same : V2.receive control env d = V1.receive control env d := by
  have hgate (ticket : Option VerifiedRelayTicket) :
      V2.gate control env d ticket = V1.gate control env d ticket := by
    simp only [V2.gate, V1.gate, limits_same]
    rfl
  simp only [V1.receive, V2.receive, hgate]
  rfl

end Same

/-! ### The passes of the two datapaths -/

/-- A way to go on that is that of the datapath of the relay. -/
structure Onward (env : RelayEnv) (d : Datagram) (onward : Handover → RelayProg Unit) : Prop where
  nothing : onward .nothing = .ret ()
  resolve : ∀ requestId hosts, onward (.resolve requestId hosts) =
    if env.datapath = .v1 || env.resolveSocket then core (.resolve d.src d.sid requestId hosts)
    else .ret ()
  keepalive : onward .keepalive = rxKeepalive env d
  udp : ∀ gameAddr payload originalInfo account,
    onward (.udp gameAddr payload originalInfo account) =
      match env.datapath with
      | .v1 => rxForwardV1 d gameAddr originalInfo payload
      | .v2 => rxForwardV2 env d account gameAddr originalInfo payload

section Pass

variable {env : RelayEnv} {d : Datagram} {onward : Handover → RelayProg Unit}

/-- The bytes of a ping are read as numbers and written back. -/
theorem pongResponse_eq (h : d.len = pingFrameLen) : V1.pongResponse d = pongFrame d := by
  have hlen : 21 ≤ d.buf.length := by
    have := d.len_le
    rwa [h] at this
  have hseq : ((d.buf.take 13).drop 9).length = 4 := by
    simp
    omega
  have hts : ((d.buf.take 21).drop 13).length = 8 := by
    simp
    omega
  have hsplit : (d.buf.take 21).drop 9 = (d.buf.take 13).drop 9 ++ (d.buf.take 21).drop 13 := by
    rw [← List.take_append_drop 4 ((d.buf.take 21).drop 9), List.drop_drop, List.take_drop,
      List.take_take]
    rfl
  have hword (bytes : List UInt8) (w : ℕ) (hw : bytes.length = w) :
      toBeBytes (fromBeBytes bytes % 256 ^ w) w = bytes := by
    rw [← hw, Nat.mod_eq_of_lt (fromBeBytes_lt bytes), toBeBytes_fromBeBytes]
  have hseq' : toBeBytes (fromBeBytes ((d.buf.take 13).drop 9) % 2 ^ 32) 4 =
      (d.buf.take 13).drop 9 := hword _ 4 hseq
  have hts' : toBeBytes (fromBeBytes ((d.buf.take 21).drop 13) % 2 ^ 64) 8 =
      (d.buf.take 21).drop 13 := hword _ 8 hts
  simp only [V1.pongResponse, pongFrame, sessionIdLen, pingFrameLen, Nat.reduceAdd,
    UInt32.toNat_ofNat', UInt64.toNat_ofNat', hsplit, hseq', hts', List.append_assoc]
  rfl

theorem packet_bind (h : Onward env d onward) (account : String) (parsed : ParsedPacket) :
    (V1.packet env d account parsed >>= onward) = rxPacket env d account parsed := by
  have htun (raw : List UInt8) : V1.tunTrySend env d raw = rxTun env d raw := by
    unfold V1.tunTrySend rxTun
    cases env.tunAvailable <;> rfl
  cases parsed with
  | forbiddenDst => simp [V1.packet, rxPacket, h.nothing]
  | fragment protocol srcIp rawIpPacket =>
      simp [V1.packet, rxPacket, rxTunIf, htun, Prog.ite_bind, h.nothing]
  | tcp originalInfo rawIpPacket =>
      simp [V1.packet, rxPacket, rxTunIf, htun, Prog.ite_bind, h.nothing]
  | udp gameAddr payload originalInfo rawIpPacket =>
      refine Prog.ite_bind_eq (fun _ => ?_) fun _ => ?_
      · simp [htun, h.nothing]
      · exact Prog.op_congr fun _ => h.udp ..

theorem hello_eq (ticket : Option VerifiedRelayTicket) :
    V1.hello (sendControl env d) env d ticket = rxHello env d ticket := by
  have hack (status : AckStatus) : (do
      V1.sendAuthAck (sendControl env d) d status
      pure ()) = sendAuthAck env d status := bind_pure _
  unfold V1.hello rxHello
  refine ite_congr rfl (fun _ => hack _) fun _ => ?_
  cases ticket with
  | none => rfl
  | some ticket =>
      refine Prog.op_congr fun existing => ite_congr rfl (fun _ => hack _) fun _ => ?_
      refine Prog.op_congr fun session => ?_
      cases session with
      | none => rfl
      | some session => exact (Prog.bind_bind _ _ _).symm

theorem drop_bind (h : Onward env d onward) (reason : DropReason) :
    ((do
      dropIn reason
      return Handover.nothing) >>= onward) = dropIn reason :=
  Prog.op_congr fun _ => h.nothing

/-- The frames that an unauthenticated sender may not send. -/
theorem refuse_bind (h : Onward env d onward) {c : Prop} [Decidable c] {p : RelayProg Handover}
    {q : RelayProg Unit} (hp : (p >>= onward) = q) :
    ((if c then (do
      dropIn .auth
      return Handover.nothing) else p) >>= onward) = if c then dropIn .auth else q :=
  Prog.ite_bind_eq (fun _ => drop_bind h .auth) fun _ => hp

/-- A frame that is dropped unless a check lets it pass. -/
theorem drop_unless_bind (h : Onward env d onward) (reason : DropReason) (allowed : Bool)
    {p : RelayProg Handover} {q : RelayProg Unit} (hp : (p >>= onward) = q) :
    ((if !allowed then (do
      dropIn reason
      return Handover.nothing) else p) >>= onward) = if allowed then q else dropIn reason := by
  cases allowed with
  | true => exact hp
  | false => exact drop_bind h reason

theorem frame_bind (h : Onward env d onward) (ticket : Option VerifiedRelayTicket)
    (authenticated sourceAllowed : Bool) (account : String) :
    (V1.frame (sendControl env d) env d ticket authenticated sourceAllowed account >>= onward) =
      if d.isAuthHello then rxHello env d ticket
      else rxFrame env d authenticated sourceAllowed account := by
  have hnothing (p : RelayProg Unit) : ((do
      p
      return Handover.nothing) >>= onward) = p := by
    rw [bind_assoc, pure_bind, h.nothing]
    exact p.bind_ret
  refine Prog.ite_bind_eq (fun _ => ?_) fun _ => ?_
  · rw [hello_eq]
    exact hnothing _
  refine Prog.ite_bind_eq (fun _ => drop_bind h _) fun _ => ?_
  refine Prog.ite_bind_eq (fun hping => ?_) fun _ => ?_
  · rw [Bool.and_eq_true, decide_eq_true_eq] at hping
    rw [pongResponse_eq hping.1]
    exact refuse_bind h (Prog.op_congr fun _ => hnothing _)
  refine Prog.ite_bind_eq (fun _ => h.nothing) fun _ => ?_
  refine Prog.ite_bind_eq (fun _ => ?_) fun _ => ?_
  · exact refuse_bind h (Prog.op_congr fun _ => h.nothing)
  refine Prog.ite_bind_eq (fun _ => ?_) fun _ => ?_
  · refine refuse_bind h ?_
    unfold rxResolve
    cases parseResolveRequest d.buf d.len with
    | none => exact h.nothing
    | some request => exact h.resolve ..
  refine Prog.ite_bind_eq (fun _ => refuse_bind h h.keepalive) fun _ => ?_
  refine refuse_bind h ?_
  refine Prog.ite_bind_eq (fun _ => drop_bind h _) fun _ => ?_
  refine Prog.op_congr fun parsed => ?_
  cases parsed with
  | none => exact drop_bind h _
  | some parsed =>
      have hpacket := packet_bind h account parsed
      by_cases hforbidden : parsed = .forbiddenDst
      · subst hforbidden
        exact hpacket
      · change ((if parsed ≠ .forbiddenDst then (do
            let allowed ← accountAllow d.sid d.withinBudget
            if !allowed then (do
              dropIn .rateLimit
              return Handover.nothing) else V1.packet env d account parsed)
          else V1.packet env d account parsed) >>= onward) = (do
            let allowed ← packetAllowed d parsed
            if allowed then rxPacket env d account parsed else dropIn .rateLimit)
        rw [if_pos hforbidden, packetAllowed, if_neg hforbidden, bind_assoc]
        exact congrArg _ (funext fun allowed => drop_unless_bind h .rateLimit allowed hpacket)

theorem session_bind (h : Onward env d onward) (ticket : Option VerifiedRelayTicket) :
    (V1.session (sendControl env d) env d ticket >>= onward) = rxSession env d ticket := by
  refine Prog.op_congr fun session => ?_
  cases session with
  | some session =>
      have hframe := frame_bind h ticket (sessionAuthIsCurrent session d.nowUnix)
        (authenticatedSessionSourceAllowed session env.authRequired d.src d.isAuthHello)
        session.userId
      refine Eq.trans ?_ (Prog.ite_bind ..).symm
      refine Prog.ite_bind_eq (fun _ => ?_) fun _ => Prog.op_congr fun _ => hframe
      refine (bind_assoc ..).trans (Eq.trans ?_ (bind_assoc ..).symm)
      exact congrArg _ (funext fun _ => Prog.op_congr fun _ => hframe)
  | none =>
      exact Prog.op_congr fun _ => Prog.op_congr fun _ => Prog.op_congr fun _ => frame_bind h ..

theorem limits_bind (h : Onward env d onward) (ticket : Option VerifiedRelayTicket) :
    (V1.limits (sendControl env d) env d ticket >>= onward) = rxAdmit env d ticket := by
  have hsession := session_bind h ticket
  refine Prog.op_congr fun allowed => ?_
  cases allowed with
  | false => exact drop_bind h _
  | true =>
      refine Prog.op_congr fun known => ?_
      cases known with
      | true => exact hsession
      | false =>
          -- room in the map, room for the address, and leave from the limiter
          refine Prog.op_congr fun total => ?_
          by_cases htotal : total ≥ maxSessionsTotal
          · simp only [Prog.bind, if_pos htotal]
            exact drop_bind h _
          simp only [Prog.bind, if_neg htotal]
          refine Prog.op_congr fun count => ?_
          by_cases hcount : count ≥ maxSessionsPerSrcIp
          · simp only [Prog.bind, if_pos hcount]
            exact drop_bind h _
          simp only [Prog.bind, if_neg hcount]
          refine Prog.op_congr fun allowed => ?_
          cases allowed with
          | false => exact drop_bind h _
          | true => exact hsession

theorem gate_bind (h : Onward env d onward) (ticket : Option VerifiedRelayTicket) :
    (V1.gate (sendControl env d) env d ticket >>= onward) =
      if env.authRequired && ticket.isNone then rxGate env d else rxAdmit env d ticket := by
  have hadmit := limits_bind h ticket
  by_cases hgate : (env.authRequired && ticket.isNone) = true
  · obtain rfl : ticket = none := by
      cases ticket with
      | none => rfl
      | some ticket => simp at hgate
    have hask : V1.askReauth (sendControl env d) env d none = askReauth env d := if_pos hgate
    unfold V1.gate
    rw [if_pos hgate, if_pos hgate, hask, bind_assoc]
    refine congrArg _ (funext fun _ => Prog.op_congr fun session => ?_)
    exact drop_unless_bind h .auth _ hadmit
  · have hask : V1.askReauth (sendControl env d) env d ticket = .ret () := if_neg hgate
    unfold V1.gate
    rw [if_neg hgate, if_neg hgate, hask]
    exact hadmit

/-- **The pass of the relay** is the common program of the two loops, continued as the datapath of
the relay does. -/
theorem receive_bind (h : Onward env d onward) :
    (V1.receive (sendControl env d) env d >>= onward) = rxPass env d := by
  refine Prog.ite_bind_eq (fun _ => drop_bind h _) fun _ => ?_
  have hgate := gate_bind h
  cases hauth : env.authRequired with
  | false =>
      simp only [hauth, Bool.false_and, Bool.false_eq_true, if_false] at hgate ⊢
      exact hgate none
  | true =>
      cases hhello : d.isAuthHello with
      | false =>
          simp only [hauth, Bool.and_false, Bool.false_eq_true, if_false, if_true] at hgate ⊢
          exact hgate none
      | true =>
          refine Prog.op_congr fun allowed => ?_
          cases allowed with
          | false => exact drop_bind h _
          | true =>
              have hrefused (err : RelayAuthVerifyError) : ((do
                  V1.sendAuthAck (sendControl env d) d err.ackStatus
                  return Handover.nothing) >>= onward) = sendAuthAck env d err.ackStatus := by
                rw [bind_assoc, pure_bind, h.nothing]
                exact (V1.sendAuthAck _ d _).bind_ret
              have hadmit (ticket : VerifiedRelayTicket) :
                  (V1.gate (sendControl env d) env d (some ticket) >>= onward) =
                    rxAdmit env d (some ticket) := by
                simp only [hgate, Option.isNone_some, Bool.and_false, Bool.false_eq_true, if_false]
              change (parseAndVerify d >>= _) >>= onward = _
              unfold parseAndVerify
              cases parseAuthHelloToken d.buf d.len with
              | error err => exact hrefused err
              | ok token =>
                  refine Prog.op_congr fun result => ?_
                  cases result with
                  | error err => exact hrefused err
                  | ok ticket => exact hadmit ticket

end Pass

theorem V1.rxPass_eq {env : RelayEnv} (h : env.datapath = .v1) (d : Datagram) :
    rxPass env d = V1.receive (sendControl env d) env d >>= V1.handOver env d := by
  refine (receive_bind ⟨rfl, fun _ _ => ?_, rfl, fun _ _ _ _ => ?_⟩).symm
  · rw [h]
    rfl
  · rw [h]
    rfl

theorem V2.rxPass_eq {env : RelayEnv} (h : env.datapath = .v2) (d : Datagram) :
    rxPass env d =
      V2.receive (sendControl env d) env d >>= V2.handOver env d env.resolveSocket := by
  rw [receive_same]
  refine (receive_bind ⟨rfl, fun _ _ => ?_, rfl, fun _ _ _ _ => ?_⟩).symm
  · rw [h]
    rfl
  · rw [h]
    rfl

/-- **The receive loops run the pass.**  On either datapath, a pass of the relay is a round of its
loop, as the source has it, continued by what that loop does with what it hands over. -/
theorem receive_loops_run_pass (env : RelayEnv) (d : Datagram) :
    (env.datapath = .v1 →
      rxPass env d = V1.receive (sendControl env d) env d >>= V1.handOver env d) ∧
    (env.datapath = .v2 →
      rxPass env d =
        V2.receive (sendControl env d) env d >>= V2.handOver env d env.resolveSocket) :=
  ⟨fun h => V1.rxPass_eq h d, fun h => V2.rxPass_eq h d⟩

/-! ### What a pass decides -/

/-- The operations by which a pass makes known what it has decided. -/
def CoreOp.isOutput : CoreOp → Bool
  | .drop _ | .ack .. | .pong .. | .rttReport .. | .resolve .. | .tunSend .. | .sendTo .. => true
  | _ => false

/-- The shared session state, and what has been made known so far. -/
abbrev Decision := CoreState × List CoreOp

def execDecision (env : RelayEnv) (t : Tid) : (o : RelayOp) → Decision → Option (o.Ret × Decision)
  | .core o, s =>
      (execCore env t o s.1).map fun r => (r.1, r.2, if o.isOutput then s.2 ++ [o] else s.2)
  | .v1 _, _ => none
  | .v2 _, _ => none

/-- A control frame goes to the source of the datagram. -/
def sendFrame (d : Datagram) (frame : List UInt8) : RelayProg Unit :=
  core (.sendTo .control d.sid d.src frame)

/-- The receive loop alone with the shared session state. -/
abbrev decisionSystem (env : RelayEnv) : System relaySig where
  State := Decision
  Tid := Tid
  Act := Datagram
  exec := execDecision env
  tidOf := fun _ => .rx
  prog := fun d => do
    let _ ← V1.receive (sendFrame d) env d

/-- Nobody holds a lock of the session map. -/
def Decision.Free (s : Decision) : Prop := s.1.guards = fun _ => none

/-- The receive loop holds the lock of shard `i`, and nobody holds another. -/
def Decision.Holds (i : ℕ) (s : Decision) : Prop :=
  s.1.guards = Function.update (fun _ => none) i (some .rx)

/-- The operations that take or need a lock that outlives them. -/
def CoreOp.locks : CoreOp → Bool
  | .entryLock _ | .entryInsert .. | .entryTouch .. | .entryRelease _ | .getMutLock _
  | .helloApply .. | .retainLock _ | .retainErase _ | .retainRelease _ => true
  | _ => false

def FreeOp : RelayOp → Prop
  | .core o => o.locks = false
  | _ => False

/-- The operations that give the lock of an entry back. -/
def CoreOp.releases : CoreOp → Option SessionId
  | .entryInsert sid _ | .entryTouch sid .. | .entryRelease sid | .helloApply sid .. => some sid
  | _ => none

section Decide

variable (env : RelayEnv) {d : Datagram} {s : Decision}

theorem countDec_runs (ip : Ipv4Addr) (s : CoreState) :
    ∃ r s', execCore env .rx (.countDec ip) s = some (r, s') ∧ s'.guards = s.guards := by
  simp only [execCore]
  split
  · exact ⟨_, _, rfl, rfl⟩
  · split <;> exact ⟨_, _, rfl, rfl⟩

theorem execCore_free {o : CoreOp} (ho : o.locks = false) {s : CoreState}
    (hs : s.guards = fun _ => none) :
    ∃ r s', execCore env .rx o s = some (r, s') ∧ s'.guards = fun _ => none := by
  have hunlocked (sid : SessionId) : s.unlocked env sid = true := by
    simp [CoreState.unlocked, hs]
  cases o with
  | countDec ip =>
      obtain ⟨r, s', hexec, hs'⟩ := countDec_runs env ip s
      exact ⟨r, s', hexec, hs'.trans hs⟩
  | setLegacyUser sid srcIp =>
      exact ⟨_, _, if_pos (hunlocked sid), (modify_guards ..).trans hs⟩
  | refresh sid now nowUnix =>
      exact ⟨_, _, if_pos (hunlocked sid), (modify_guards ..).trans hs⟩
  | sessionGet sid | sessionContains sid | forwardingAddr sid nowUnix =>
      exact ⟨_, _, if_pos (hunlocked sid), hs⟩
  | entryLock | entryInsert | entryTouch | entryRelease | getMutLock | helloApply | retainLock
  | retainErase | retainRelease => cases ho
  | _ => exact ⟨_, _, rfl, hs⟩

theorem free_achieves {α : Type} {p : RelayProg α} (hp : p.Uses FreeOp) (hs : s.Free) :
    p.Achieves (decisionSystem env) .rx (fun _ s => s.Free) s := by
  refine Prog.achieves_of_uses (M := decisionSystem env) hp Decision.Free (fun o ho s hs => ?_) hs
  rcases o with o | o | o
  · obtain ⟨r, s', hexec, hs'⟩ := execCore_free env ho hs
    exact ⟨r, _, congrArg (Option.map _) hexec, hs'⟩
  · cases ho
  · cases ho

/-- The session counts are kept while the lock of an entry is held. -/
theorem count_achieves {α : Type} {p : RelayProg α} (hp : p.Uses CountOp) {i : ℕ}
    (hs : s.Holds i) : p.Achieves (decisionSystem env) .rx (fun _ s => s.Holds i) s := by
  refine Prog.achieves_of_uses (M := decisionSystem env) hp (Decision.Holds i)
    (fun o ho s hs => ?_) hs
  rcases o with o | o | o
  · cases o with
    | countDec ip =>
        obtain ⟨r, s', hexec, hs'⟩ := countDec_runs env ip s.1
        exact ⟨r, _, congrArg (Option.map _) hexec, hs'.trans hs⟩
    | countRemove ip | countInc ip => exact ⟨_, _, rfl, hs⟩
    | _ => cases ho
  · cases ho
  · cases ho

theorem release_achieves {o : CoreOp} {sid : SessionId} (ho : o.releases = some sid)
    (hs : s.Holds (env.dashShardOf sid)) :
    ∃ r s', execDecision env .rx (.core o) s = some (r, s') ∧ s'.Free := by
  have hheld : s.1.heldBy env .rx sid = true := by
    simp [CoreState.heldBy, show s.1.guards = _ from hs]
  have hfree {s' : CoreState} (h : s'.guards = s.1.guards) :
      (s'.unlock (env.dashShardOf sid)).guards = fun _ => none := by
    simp [CoreState.unlock, h, show s.1.guards = _ from hs]
  cases o with
  | entryInsert sid' entry =>
      cases ho
      exact ⟨_, _, congrArg (Option.map _) (if_pos hheld), hfree rfl⟩
  | entryTouch sid' addr now nowUnix =>
      cases ho
      exact ⟨_, _, congrArg (Option.map _) (if_pos hheld), hfree (modify_guards ..)⟩
  | entryRelease sid' =>
      cases ho
      exact ⟨_, _, congrArg (Option.map _) (if_pos hheld), hfree rfl⟩
  | helloApply sid' ticket addr now nowUnix =>
      cases ho
      exact ⟨_, _, congrArg (Option.map _) (if_pos hheld), hfree (modify_guards ..)⟩
  | _ => cases ho

/-- A locked section: the session counts, and then the operation that gives the lock back. -/
theorem locked_achieves {α : Type} {p : RelayProg Unit} (hp : p.Uses CountOp) {o : CoreOp}
    {sid : SessionId} (ho : o.releases = some sid) {f : o.Ret → RelayProg α}
    {Q : α → Decision → Prop} (hs : s.Holds (env.dashShardOf sid))
    (hf : ∀ r s, s.Free → (f r).Achieves (decisionSystem env) .rx Q s) :
    (p >>= fun _ => core o >>= f).Achieves (decisionSystem env) .rx Q s := by
  refine Prog.achieves_bind ((count_achieves env hp hs).mono fun _ s hs => ?_)
  obtain ⟨r, s', hexec, hs'⟩ := release_achieves env ho hs
  exact Prog.achieves_op ⟨r, s', hexec, hf r s' hs'⟩

theorem hello_achieves (ticket : Option VerifiedRelayTicket) (hs : s.Free) :
    (V1.hello (sendFrame d) env d ticket).Achieves (decisionSystem env) .rx
      (fun _ s => s.Free) s := by
  have hack (status : AckStatus) : (V1.sendAuthAck (sendFrame d) d status).Uses FreeOp :=
    ⟨rfl, fun _ => ⟨rfl, fun _ => trivial⟩⟩
  have hunlocked {s : Decision} (hs : s.Free) : s.1.unlocked env d.sid = true := by
    simp [CoreState.unlocked, show s.1.guards = _ from hs]
  unfold V1.hello
  have hrefused (status : AckStatus) : Prog.Uses FreeOp (do
      V1.sendAuthAck (sendFrame d) d status
      return) := Prog.uses_bind (hack status) fun _ => trivial
  refine Prog.achieves_ite (fun _ => free_achieves env (hrefused _) hs) fun _ => ?_
  cases ticket with
  | none => exact free_achieves env (hack _) hs
  | some ticket =>
      refine Prog.achieves_op ⟨_, _, congrArg (Option.map _) (if_pos (hunlocked hs)), ?_⟩
      refine Prog.achieves_ite (fun _ => free_achieves env (hrefused _) hs) fun _ => ?_
      -- `get_mut` takes the lock if the session is there
      cases hfound : s.1.sessions.lookup d.sid with
      | none =>
          refine Prog.achieves_op ⟨none, s, ?_, free_achieves env (hack _) hs⟩
          simp [execDecision, execCore, hunlocked hs, hfound, CoreOp.isOutput]
      | some session =>
          have hlock : (s.1.lock .rx (env.dashShardOf d.sid)).guards =
              Function.update (fun _ => none) (env.dashShardOf d.sid) (some .rx) := by
            simp only [CoreState.lock, show s.1.guards = _ from hs]
          refine Prog.achieves_op
            ⟨some session, (s.1.lock .rx (env.dashShardOf d.sid), s.2), ?_, ?_⟩
          · simp [execDecision, execCore, hunlocked hs, hfound, CoreOp.isOutput]
          · exact locked_achieves env (updateSourceSessionCountForRebind_uses _ _) rfl hlock
              fun _ _ hs => free_achieves env (hack _) hs

theorem frame_achieves (ticket : Option VerifiedRelayTicket) (authenticated sourceAllowed : Bool)
    (account : String) (hs : s.Free) :
    (V1.frame (sendFrame d) env d ticket authenticated sourceAllowed account).Achieves
      (decisionSystem env) .rx (fun _ s => s.Free) s := by
  unfold V1.frame
  refine Prog.achieves_ite (fun _ => ?_) fun _ => free_achieves env ?_ hs
  · have hhello := hello_achieves env (d := d) ticket hs
    exact Prog.achieves_bind (hhello.mono fun _ _ hs => Prog.achieves_ret hs)
  have hdrop (reason : DropReason) : Prog.Uses FreeOp (do
      dropIn reason
      return Handover.nothing) := ⟨rfl, fun _ => trivial⟩
  have htun (raw : List UInt8) : (V1.tunTrySend env d raw).Uses FreeOp := by
    simp [V1.tunTrySend, FreeOp, CoreOp.locks]
  have hlast (op : CoreOp) (hop : op.locks = false) (r : Handover) : Prog.Uses FreeOp (do
      let _ ← core op
      return r) := ⟨hop, fun _ => trivial⟩
  have hpacket (parsed : ParsedPacket) : (V1.packet env d account parsed).Uses FreeOp := by
    cases parsed with
    | forbiddenDst => exact hdrop _
    | fragment protocol srcIp rawIpPacket =>
        exact Prog.uses_ite.2 ⟨fun _ => Prog.uses_bind (htun _) fun _ => hlast _ rfl _,
          fun _ => ⟨rfl, fun _ => hlast _ rfl _⟩⟩
    | tcp originalInfo rawIpPacket =>
        exact Prog.uses_ite.2 ⟨fun _ => Prog.uses_bind (htun _) fun _ => hlast _ rfl _,
          fun _ => ⟨rfl, fun _ => hlast _ rfl _⟩⟩
    | udp gameAddr payload originalInfo rawIpPacket =>
        exact Prog.uses_ite.2 ⟨fun _ => Prog.uses_bind (htun _) fun _ => hlast _ rfl _,
          fun _ => hlast _ rfl _⟩
  have hrefuse {c : Prop} [Decidable c] {p : RelayProg Handover} (hp : p.Uses FreeOp) :
      Prog.Uses FreeOp (if c then (do
        dropIn .auth
        return Handover.nothing) else p) := .ite (hdrop _) hp
  refine hrefuse (.ite (hrefuse ?_) ?_)
  · exact ⟨rfl, fun _ => ⟨rfl, fun _ => trivial⟩⟩
  refine .ite trivial ?_
  refine .ite (hrefuse (hlast _ rfl _)) ?_
  refine .ite (hrefuse ?_) ?_
  · cases parseResolveRequest d.buf d.len <;> trivial
  refine .ite (hrefuse trivial) (hrefuse ?_)
  refine .ite (hdrop _) ⟨rfl, fun parsed => ?_⟩
  cases parsed with
  | none => exact hdrop _
  | some parsed =>
      refine .ite (Prog.uses_bind ?_ fun allowed => ?_) (hpacket _)
      · exact accountAllow_uses rfl
      · exact .ite (hdrop _) (hpacket _)

theorem session_achieves (ticket : Option VerifiedRelayTicket) (hs : s.Free) :
    (V1.session (sendFrame d) env d ticket).Achieves (decisionSystem env) .rx
      (fun _ s => s.Free) s := by
  have hunlocked : s.1.unlocked env d.sid = true := by
    simp [CoreState.unlocked, show s.1.guards = _ from hs]
  have hlock : (s.1.lock .rx (env.dashShardOf d.sid)).guards =
      Function.update (fun _ => none) (env.dashShardOf d.sid) (some .rx) := by
    simp only [CoreState.lock, show s.1.guards = _ from hs]
  refine Prog.achieves_op ⟨_, _, congrArg (Option.map _) (if_pos hunlocked), ?_⟩
  have hframe (authenticated sourceAllowed : Bool) (account : String) {s : Decision}
      (hs : s.Free) := frame_achieves env (d := d) ticket authenticated sourceAllowed account hs
  generalize s.1.sessions.lookup d.sid = session
  cases session with
  | some session =>
      refine Prog.achieves_ite (fun _ => ?_) fun _ => ?_
      · exact locked_achieves env (updateSourceSessionCountForRebind_uses _ _) rfl hlock
          fun _ _ hs => hframe _ _ _ hs
      · exact locked_achieves env (p := .ret ()) trivial (o := .entryRelease d.sid) rfl hlock
          fun _ _ hs => hframe _ _ _ hs
  | none =>
      refine locked_achieves env (p := .ret ()) trivial
        (o := .entryInsert d.sid (.new d.sid d.src d.now d.nowUnix)) rfl hlock fun _ s hs => ?_
      have hcount : (incrementSourceSessionCount d.ip).Uses FreeOp := ⟨rfl, fun _ => trivial⟩
      have hactive : (core .activeAdd).Uses FreeOp := ⟨rfl, fun _ => trivial⟩
      refine Prog.achieves_bind ((free_achieves env hcount hs).mono fun _ s hs => ?_)
      exact Prog.achieves_bind ((free_achieves env hactive hs).mono fun _ _ hs => hframe _ _ _ hs)

theorem limits_achieves (ticket : Option VerifiedRelayTicket) (hs : s.Free) :
    (V1.limits (sendFrame d) env d ticket).Achieves (decisionSystem env) .rx
      (fun _ s => s.Free) s := by
  have hallow (kind : SourceLimitKind) : (allowSourceEvent d kind).Uses FreeOp :=
    ⟨rfl, fun _ => .ite trivial ⟨rfl, fun _ => trivial⟩⟩
  have hroom : (V1.sessionCapacityAvailable d).Uses FreeOp := by
    simp [V1.sessionCapacityAvailable, FreeOp, CoreOp.locks]
  have hcontains : (core (.sessionContains d.sid)).Uses FreeOp := ⟨rfl, fun _ => trivial⟩
  have hsession {s : Decision} (hs : s.Free) := session_achieves env (d := d) ticket hs
  refine Prog.achieves_bind ((free_achieves env (hallow _) hs).mono fun _ s hs => ?_)
  refine Prog.achieves_ite (fun _ => Prog.achieves_ret hs) fun _ => ?_
  refine Prog.achieves_bind ((free_achieves env hcontains hs).mono fun _ s hs => ?_)
  refine Prog.achieves_ite (fun _ => ?_) fun _ => hsession hs
  refine Prog.achieves_bind ((free_achieves env hroom hs).mono fun _ s hs => ?_)
  refine Prog.achieves_ite (fun _ => Prog.achieves_ret hs) fun _ => ?_
  refine Prog.achieves_bind ((free_achieves env (hallow _) hs).mono fun _ s hs => ?_)
  exact Prog.achieves_ite (fun _ => Prog.achieves_ret hs) fun _ => hsession hs

theorem gate_achieves (ticket : Option VerifiedRelayTicket) (hs : s.Free) :
    (V1.gate (sendFrame d) env d ticket).Achieves (decisionSystem env) .rx
      (fun _ s => s.Free) s := by
  have hask : (V1.askReauth (sendFrame d) env d ticket).Uses FreeOp := by
    simp [V1.askReauth, V1.sendAuthAck, sendFrame, FreeOp, CoreOp.locks]
  have hget : (core (.sessionGet d.sid)).Uses FreeOp := ⟨rfl, fun _ => trivial⟩
  have hdrop : Prog.Uses FreeOp (do
      dropIn .auth
      return Handover.nothing) := ⟨rfl, fun _ => trivial⟩
  refine Prog.achieves_bind ((free_achieves env hask hs).mono fun _ s hs => ?_)
  refine Prog.achieves_ite (fun _ => ?_) fun _ => limits_achieves env ticket hs
  refine Prog.achieves_bind ((free_achieves env hget hs).mono fun _ s hs => ?_)
  exact Prog.achieves_ite (fun _ => free_achieves env hdrop hs) fun _ =>
    limits_achieves env ticket hs

/-- A pass that finds no lock held is not blocked, and holds none in the end. -/
theorem receive_achieves (hs : s.Free) :
    (V1.receive (sendFrame d) env d).Achieves (decisionSystem env) .rx (fun _ s => s.Free) s := by
  have hdrop (reason : DropReason) : Prog.Uses FreeOp (do
      dropIn reason
      return Handover.nothing) := ⟨rfl, fun _ => trivial⟩
  have hpending : (core (.pendingAllow d.ip d.now)).Uses FreeOp := ⟨rfl, fun _ => trivial⟩
  have hverify : (parseAndVerify d).Uses FreeOp := by
    unfold parseAndVerify
    cases parseAuthHelloToken d.buf d.len with
    | error err => trivial
    | ok token => exact ⟨rfl, fun _ => trivial⟩
  have hack (status : AckStatus) : Prog.Uses FreeOp (do
      V1.sendAuthAck (sendFrame d) d status
      return Handover.nothing) := ⟨rfl, fun _ => ⟨rfl, fun _ => trivial⟩⟩
  refine Prog.achieves_ite (fun _ => free_achieves env (hdrop _) hs) fun _ => ?_
  refine Prog.achieves_ite (fun _ => ?_) fun _ => gate_achieves env none hs
  refine Prog.achieves_bind ((free_achieves env hpending hs).mono fun _ s hs => ?_)
  refine Prog.achieves_ite (fun _ => free_achieves env (hdrop _) hs) fun _ => ?_
  refine Prog.achieves_bind ((free_achieves env hverify hs).mono fun result s hs => ?_)
  cases result with
  | error err => exact free_achieves env (hack _) hs
  | ok ticket => exact gate_achieves env (some ticket) hs

/-- **Both datapaths decide alike.**  From any shared state in which no lock is held, for any
configuration and datagram with its clock readings, one pass of either loop runs through, and both
yield the same state, make the same things known and hand the same over. -/
theorem datapaths_decide_alike (d : Datagram) (s : CoreState) (hs : s.guards = fun _ => none) :
    ∃ handover s' outputs,
      (V1.receive (sendFrame d) env d).run (decisionSystem env) .rx (s, []) =
        some (handover, s', outputs) ∧
      (V2.receive (sendFrame d) env d).run (decisionSystem env) .rx (s, []) =
        some (handover, s', outputs) ∧
      s'.guards = fun _ => none := by
  obtain ⟨handover, s', hrun, hfree⟩ := receive_achieves env (d := d) (s := (s, [])) hs
  exact ⟨handover, s'.1, s'.2, hrun, by rw [receive_same, hrun], hfree⟩

theorem datapaths_decide_alike_sample :
    let d := sampleKeepalive 1 ⟨⟨0, 0, 0, 0⟩, 0⟩ 0
    let s := openStart.st.core
    ∃ handover s' outputs,
      (V1.receive (sendFrame d) openEnv d).run (decisionSystem openEnv) .rx (s, []) =
        some (handover, s', outputs) ∧
      (V2.receive (sendFrame d) openEnv d).run (decisionSystem openEnv) .rx (s, []) =
        some (handover, s', outputs) ∧
      s'.guards = fun _ => none :=
  datapaths_decide_alike openEnv _ _ rfl

end Decide

end SwiftRelay
