/-
**The receive loop.**

One pass of the receive loop handles one datagram of a client.  The two datapaths run the same
decisions in the same order: the gate in front of unauthenticated senders, the capacity checks, the
session entry, the hello, and then the frame itself.  They differ in how a control frame is sent, in
what a keepalive does, and in where a UDP packet goes.

The pass is cut into the programs below at the points where the source reaches a new decision; each
ends by running the next one, where the source goes on, or returns, where the source continues with
the next datagram.

Main definitions:

* `Datagram` — a datagram, the clock readings of its pass, and what is decided outside of the relay
  while it is handled;
* `Datagram.isAuthHello`, `parseAuthHelloToken` — recognising a hello;
* `rxPass` — the pass, with its parts `rxGate`, `rxAdmit`, `rxSession`, `rxHello` and `rxFrame`.

Main results:

* `parseAuthHelloToken_helloFrame` — the token of a well-formed hello is read back.
-/

import SwiftRelay.Relay
import SwiftRelay.Resolve

set_option autoImplicit false

namespace SwiftRelay

open Conc

/-! ### Datagrams -/

def maxPacketSize : ℕ := 1600

def authHelloFrameType : UInt8 := 0xA1

def authAckFrameType : UInt8 := 0xA2

def pingFrameType : UInt8 := 0xA3

def pongFrameType : UInt8 := 0xA4

def rttReportFrameType : UInt8 := 0xA5

def resolveRequestFrameType : UInt8 := 0xA6

def pingFrameLen : ℕ := sessionIdLen + 1 + 4 + 8

def pongFrameLen : ℕ := sessionIdLen + 1 + 4 + 8 + 8

def rttReportFrameLen : ℕ := sessionIdLen + 1 + 4

/-- A received datagram: the first `len` bytes of the receive buffer, and where they came from.
`now` and `nowUnix` are the clock readings at the start of the pass and `later` one in its course.
The rest are outcomes decided elsewhere: who wins a `compare_exchange`, what the account budgets
say, whether the TUN queue and the buffer pool have room. -/
structure Datagram where
  buf : List UInt8
  len : ℕ
  len_le : len ≤ buf.length
  src : SocketAddr
  now : Instant
  nowUnix : UInt64
  later : Instant
  casWon : Bool
  withinBudget : Bool
  tunAccepts : Bool
  poolGrants : Bool

namespace Datagram

variable (d : Datagram)

def sid : SessionId := sessionIdOf d.buf

def ip : Ipv4Addr := d.src.ip

/-- The byte behind the session identifier. -/
def frameType : UInt8 := byteAt d.buf sessionIdLen

def isAuthHello : Bool := d.len ≥ sessionIdLen + 3 && d.frameType = authHelloFrameType

/-- The packet behind the session identifier. -/
def ipPacket : List UInt8 := (d.buf.take d.len).drop sessionIdLen

end Datagram

def parseAuthHelloToken (frame : List UInt8) (len : ℕ) : Except RelayAuthVerifyError String :=
  if len < sessionIdLen + 3 then .error .badFormat
  else
    let tokenLen := (u16At frame (sessionIdLen + 1)).toNat
    let payloadStart := sessionIdLen + 3
    let payloadEnd := payloadStart + tokenLen
    if tokenLen = 0 || tokenLen > maxAuthTokenLen || payloadEnd > len || payloadEnd ≠ len then
      .error .badFormat
    else
      match String.fromUTF8? ⟨((frame.take payloadEnd).drop payloadStart).toArray⟩ with
      | none => .error .badFormat
      | some token => .ok token

/-- A well-formed hello with the given token. -/
def helloFrame (sid : SessionId) (token : String) : List UInt8 :=
  sessionIdBytes sid ++
    [authHelloFrameType, highByte token.utf8ByteSize, lowByte token.utf8ByteSize] ++
    token.toUTF8.data.toList

theorem sessionIdBytes_length (sid : SessionId) : (sessionIdBytes sid).length = sessionIdLen := by
  simp [sessionIdBytes]

theorem sessionIdOf_append (sid : SessionId) (rest : List UInt8) :
    sessionIdOf (sessionIdBytes sid ++ rest) = sid := by
  have hbytes : sessionIdBytes sid = toBeBytes sid.toNat sessionIdLen := rfl
  rw [sessionIdOf, List.take_left' (sessionIdBytes_length sid), hbytes,
    fromBeBytes_toBeBytes sid.toNat_lt, UInt64.ofNat_toNat]

theorem u16At_helloFrame (sid : SessionId) {token : String} (h : token.utf8ByteSize < 65536) :
    (u16At (helloFrame sid token) (sessionIdLen + 1)).toNat = token.utf8ByteSize := by
  have hbytes : u16At (helloFrame sid token) (sessionIdLen + 1) =
      UInt16.ofNat (fromBeBytes [highByte token.utf8ByteSize, lowByte token.utf8ByteSize]) := rfl
  rw [hbytes]
  simp only [fromBeBytes, highByte, lowByte, List.foldl_cons, List.foldl_nil, UInt8.toNat_ofNat',
    UInt16.toNat_ofNat']
  omega

theorem parseAuthHelloToken_helloFrame (sid : SessionId) {token : String}
    (hne : token.utf8ByteSize ≠ 0) (hmax : token.utf8ByteSize ≤ maxAuthTokenLen) :
    parseAuthHelloToken (helloFrame sid token) (sessionIdLen + 3 + token.utf8ByteSize) =
      .ok token := by
  have hlt : token.utf8ByteSize < 65536 := by
    rw [maxAuthTokenLen] at hmax
    omega
  have hlen := u16At_helloFrame sid hlt
  have hpayload : ((helloFrame sid token).take (sessionIdLen + 3 + token.utf8ByteSize)).drop
      (sessionIdLen + 3) = token.toUTF8.data.toList := by
    have hfront : (sessionIdBytes sid ++
        [authHelloFrameType, highByte token.utf8ByteSize, lowByte token.utf8ByteSize]).length =
        sessionIdLen + 3 := by simp [sessionIdBytes_length]
    have hall : (helloFrame sid token).length = sessionIdLen + 3 + token.utf8ByteSize := by
      rw [helloFrame, List.length_append, hfront]
      rfl
    rw [List.take_of_length_le (Nat.le_of_eq hall), helloFrame, ← hfront, List.drop_left]
  have hutf8 : String.fromUTF8? ⟨token.toUTF8.data.toList.toArray⟩ = some token := by
    rw [Array.toArray_toList]
    exact dif_pos token.isValidUTF8
  unfold parseAuthHelloToken
  simp only [hlen, hpayload, hutf8]
  rw [if_neg (by omega), if_neg]
  simp only [Bool.or_eq_true, decide_eq_true_eq]
  omega

/-! ### What the datapaths do differently -/

/-- Send a small control frame to the source of the datagram. -/
def sendControl (env : RelayEnv) (d : Datagram) (frame : List UInt8) : RelayProg Unit :=
  match env.datapath with
  | .v1 => core (.sendTo .control d.sid d.src frame)
  | .v2 => do
      if !d.poolGrants then dropOut .pool
      else if !(← v2 (.txSend ⟨d.src, d.sid, frame, d.later, .control, ""⟩)) then dropOut .txQueue

/-- Acknowledge a hello, or ask for one. -/
def sendAuthAck (env : RelayEnv) (d : Datagram) (status : AckStatus) : RelayProg Unit := do
  core (.ack d.src d.sid status)
  sendControl env d (sessionIdBytes d.sid ++ [authAckFrameType, status.byte])

/-- The answer to a ping: the sequence number and the timestamp that it carries, and the time of the
relay in milliseconds. -/
def pongFrame (d : Datagram) : List UInt8 :=
  sessionIdBytes d.sid ++ [pongFrameType] ++
    ((d.buf.take pingFrameLen).drop (sessionIdLen + 1)) ++
    sessionIdBytes (UInt64.ofNat (d.later / 1000000))

def sendPong (env : RelayEnv) (d : Datagram) : RelayProg Unit := do
  core (.pong d.src (pongFrame d))
  sendControl env d (pongFrame d)

/-- The round-trip time that a client reports, in microseconds. -/
def rttUsOf (d : Datagram) : UInt32 :=
  UInt32.ofNat (fromBeBytes ((d.buf.take rttReportFrameLen).drop (sessionIdLen + 1)))

/-- A resolve request, if it is well formed.  The lookup and the answer are left to a task; in the
second datapath there is none without a socket of its own for the answers. -/
def rxResolve (env : RelayEnv) (d : Datagram) : RelayProg Unit :=
  match parseResolveRequest d.buf d.len with
  | none => return ()
  | some (requestId, hosts) => do
      if env.datapath = .v1 || env.resolveSocket then
        core (.resolve d.src d.sid requestId hosts)

def rxKeepalive (env : RelayEnv) (d : Datagram) : RelayProg Unit :=
  match env.datapath with
  | .v1 => do
      let keys ← v1 (.indexLock d.sid)
      keys.forM fun key => v1 (.flowKeepalive key d.src d.later)
      v1 (.indexRelease d.sid)
  | .v2 => do
      if !(← v2 (.shardSend (shardForSession d.sid env.shardCount) (.keepalive d.sid d.src))) then
        dropIn .shardQueue

/-- Remove a flow of the first datapath, if the entry is still of the given generation. -/
def removeV1Flow (key : FlowKey) (generation : ℕ) : RelayProg Unit := do
  let _ ← v1 (.indexLock key.sessionId)
  if ← v1 (.flowRemoveIf key generation) then
    v1 (.indexDropKey key.sessionId key)
  v1 (.indexRelease key.sessionId)

/-- Whether a new flow may be opened in the first datapath: the two caps, and the rate of its
source. -/
def newFlowAllowedV1 (d : Datagram) : RelayProg Bool := do
  if (← v1 .flowsLen) ≥ maxFlowsTotal then
    dropIn .capacity
    return false
  if (← v1 (.indexLen d.sid)) ≥ maxFlowsPerSession then
    dropIn .capacity
    return false
  if !(← core (.sourceAllow d.ip .newFlow d.now d.casWon)) then
    dropIn .rateLimit
    return false
  return true

/-- Hand a UDP packet to its entry in the flow map. -/
def forwardToFlowV1 (d : Datagram) (key : FlowKey) (info : OriginalPacketInfo)
    (payload : List UInt8) (newFlow : Bool) : RelayProg Unit := do
  match ← v1 (.flowForward key d.src info payload d.later newFlow) with
  | .sent => return ()
  | .full => dropIn .flowQueue
  | .closed generation => removeV1Flow key generation
  | .opened generation =>
      v1 (.indexPush d.sid key)
      v1 (.spawn generation key)
  | .vacant => dropIn .flowCreate

/-- A UDP packet in the first datapath.  Whether its flow is new is settled before the flow map is
locked for it. -/
def rxForwardV1 (d : Datagram) (gameAddr : SocketAddr) (info : OriginalPacketInfo)
    (payload : List UInt8) : RelayProg Unit := do
  let key : FlowKey := ⟨d.sid, gameAddr⟩
  if ← v1 (.flowContains key) then forwardToFlowV1 d key info payload false
  else if ← newFlowAllowedV1 d then forwardToFlowV1 d key info payload true
  else return ()

/-- Hand a UDP packet to the shard of its session in the second datapath. -/
def rxForwardV2 (env : RelayEnv) (d : Datagram) (account : String) (gameAddr : SocketAddr)
    (info : OriginalPacketInfo) (payload : List UInt8) : RelayProg Unit := do
  if !d.poolGrants then return ← dropIn .pool
  let packet : ClientPacket := ⟨d.sid, d.src, gameAddr, info, payload, d.now, account⟩
  if !(← v2 (.shardSend (shardForSession d.sid env.shardCount) (.clientPacket packet))) then
    dropIn .shardQueue

/-- Hand a packet to the TUN device. -/
def rxTun (env : RelayEnv) (d : Datagram) (rawIpPacket : List UInt8) : RelayProg Unit := do
  if !env.tunAvailable then return ← dropIn .tunQueue
  if !(← core (.tunSend ⟨d.sid, d.src, rawIpPacket⟩ d.tunAccepts)) then dropIn .tunQueue

/-- Hand a packet to the TUN device, if packets of its kind go there. -/
def rxTunIf (env : RelayEnv) (d : Datagram) (enabled : Bool) (otherwise : DropReason)
    (rawIpPacket : List UInt8) : RelayProg Unit :=
  if enabled then rxTun env d rawIpPacket else dropIn otherwise

/-! ### The pass -/

/-- A parsed packet.  The tunnel address of the client becomes its identity as long as the session
is not authenticated. -/
def rxPacket (env : RelayEnv) (d : Datagram) (account : String) : ParsedPacket → RelayProg Unit
  | .forbiddenDst => dropIn .forbiddenDst
  | .fragment protocol srcIp rawIpPacket => do
      rxTunIf env d ((protocol = 17 && env.tunUdpEnabled) || (protocol = 6 && env.tcpEnabled))
        .fragment rawIpPacket
      core (.setLegacyUser d.sid srcIp)
  | .tcp originalInfo rawIpPacket => do
      rxTunIf env d env.tcpEnabled .tcpDisabled rawIpPacket
      core (.setLegacyUser d.sid originalInfo.srcIp)
  | .udp gameAddr payload originalInfo rawIpPacket => do
      if env.tunUdpEnabled then
        rxTun env d rawIpPacket
        core (.setLegacyUser d.sid originalInfo.srcIp)
      else
        core (.setLegacyUser d.sid originalInfo.srcIp)
        match env.datapath with
        | .v1 => rxForwardV1 d gameAddr originalInfo payload
        | .v2 => rxForwardV2 env d account gameAddr originalInfo payload

/-- Whether the account may send the packet.  A refused destination is not charged to it. -/
def packetAllowed (d : Datagram) (parsed : ParsedPacket) : RelayProg Bool :=
  if parsed = .forbiddenDst then return true else accountAllow d.sid d.withinBudget

/-- A data frame: whatever is none of the frames that the relay itself answers. -/
def rxData (env : RelayEnv) (d : Datagram) (account : String) : RelayProg Unit := do
  if d.len < sessionIdLen + ipHeaderMin then return ← dropIn .tooSmall
  match ← core (.parsePacket d.ipPacket) with
  | none => dropIn .parse
  | some parsed =>
      if ← packetAllowed d parsed then rxPacket env d account parsed else dropIn .rateLimit

/-- A frame that is not a hello.  What `authenticated` and `sourceAllowed` say was read off the
session entry before. -/
def rxFrame (env : RelayEnv) (d : Datagram) (authenticated sourceAllowed : Bool)
    (account : String) : RelayProg Unit :=
  let refused := env.authRequired && !authenticated
  if !sourceAllowed then dropIn .auth
  else if d.len = pingFrameLen && d.frameType = pingFrameType then
    if refused then dropIn .auth else sendPong env d
  else if d.len = pongFrameLen && d.frameType = pongFrameType then
    return ()
  else if d.len = rttReportFrameLen && d.frameType = rttReportFrameType then
    if refused then dropIn .auth else core (.rttReport d.sid (rttUsOf d))
  else if d.len > sessionIdLen && d.frameType = resolveRequestFrameType then
    if refused then dropIn .auth else rxResolve env d
  else if d.len = sessionIdLen then
    if refused then dropIn .auth else rxKeepalive env d
  else if refused then dropIn .auth
  else rxData env d account

/-- The update of the session entry for a verified hello, if the entry is still there. -/
def applyHello (d : Datagram) (ticket : VerifiedRelayTicket) : RelayProg Unit := do
  match ← core (.getMutLock d.sid) with
  | none => return ()
  | some session =>
      updateSourceSessionCountForRebind session.clientAddr.ip d.ip
      core (.helloApply d.sid ticket d.src d.now d.nowUnix)

/-- A hello.  `ticket` is there whenever tickets are asked for, because a hello without a verified
ticket got no further than `rxPass`.  The acknowledgement does not depend on whether the entry was
still there. -/
def rxHello (env : RelayEnv) (d : Datagram) (ticket : Option VerifiedRelayTicket) :
    RelayProg Unit := do
  if env.auth.mode = .off then return ← sendAuthAck env d .authDisabled
  match ticket with
  | none => sendAuthAck env d RelayAuthVerifyError.badFormat.ackStatus
  | some ticket =>
      let existing ← core (.sessionGet d.sid)
      if existing.any fun e => e.authState = .authenticated && e.userId ≠ ticket.userId then
        sendAuthAck env d .ownerMismatch
      else
        applyHello d ticket
        sendAuthAck env d .ok

/-- The update of an existing session entry, behind its guard.  Where tickets are asked for, only
a frame from the endpoint of the session counts as activity, and a hello does not. -/
def touchSession (env : RelayEnv) (d : Datagram) (session : SessionEntry) : RelayProg Unit := do
  if !env.authRequired || (!d.isAuthHello && session.clientAddr = d.src) then
    updateSourceSessionCountForRebind session.clientAddr.ip d.ip
    core (.entryTouch d.sid d.src d.now d.nowUnix)
  else core (.entryRelease d.sid)

/-- A new session entry.  The guard is gone before the counters are raised. -/
def createSession (d : Datagram) : RelayProg Unit := do
  core (.entryInsert d.sid (.new d.sid d.src d.now d.nowUnix))
  incrementSourceSessionCount d.ip
  core .activeAdd

/-- The session entry: an existing one is updated, a new one is created. -/
def rxSession (env : RelayEnv) (d : Datagram) (ticket : Option VerifiedRelayTicket) :
    RelayProg Unit := do
  match ← core (.entryLock d.sid) with
  | some session =>
      touchSession env d session
      if d.isAuthHello then rxHello env d ticket
      else
        rxFrame env d (sessionAuthIsCurrent session d.nowUnix)
          (authenticatedSessionSourceAllowed session env.authRequired d.src d.isAuthHello)
          session.userId
  | none =>
      createSession d
      if d.isAuthHello then rxHello env d ticket
      else rxFrame env d false true (deriveUserId d.sid)

/-- Whether there is room for a new session: the two caps, and the rate of its source. -/
def newSessionAllowed (d : Datagram) : RelayProg Bool := do
  if (← core .sessionsLen) ≥ maxSessionsTotal then
    dropIn .capacity
    return false
  if (← core (.countGet d.ip)) ≥ maxSessionsPerSrcIp then
    dropIn .capacity
    return false
  if !(← core (.sourceAllow d.ip .newSession d.now d.casWon)) then
    dropIn .rateLimit
    return false
  return true

/-- The limits: packets of a source, and for a new session the room for it. -/
def rxAdmit (env : RelayEnv) (d : Datagram) (ticket : Option VerifiedRelayTicket) :
    RelayProg Unit := do
  if !(← core (.sourceAllow d.ip .packet d.now d.casWon)) then return ← dropIn .rateLimit
  if ← core (.sessionContains d.sid) then rxSession env d ticket
  else if ← newSessionAllowed d then rxSession env d ticket
  else return ()

/-- Ask a sender that is not the endpoint of its session to authenticate again. -/
def askReauth (env : RelayEnv) (d : Datagram) : RelayProg Unit := do
  let session ← core (.sessionGet d.sid)
  if session.any fun e => e.clientAddr ≠ d.src then
    if ← core (.pendingAllow d.ip d.now) then sendAuthAck env d .reauthRequired

/-- The gate in front of senders without a ticket, where tickets are asked for. -/
def rxGate (env : RelayEnv) (d : Datagram) : RelayProg Unit := do
  askReauth env d
  let session ← core (.sessionGet d.sid)
  if session.any fun e => sessionAuthIsCurrent e d.nowUnix &&
      authenticatedSessionSourceAllowed e true d.src false then
    rxAdmit env d none
  else dropIn .auth

/-- One pass of the receive loop. -/
def rxPass (env : RelayEnv) (d : Datagram) : RelayProg Unit := do
  if d.len < sessionIdLen then return ← dropIn .tooSmall
  if env.authRequired then
    if d.isAuthHello then
      if !(← core (.pendingAllow d.ip d.now)) then return ← dropIn .rateLimit
      match parseAuthHelloToken d.buf d.len with
      | .error err => sendAuthAck env d err.ackStatus
      | .ok token =>
          match ← core (.verifyOnce token d.sid d.nowUnix d.casWon) with
          | .error err => sendAuthAck env d err.ackStatus
          | .ok ticket => rxAdmit env d (some ticket)
    else rxGate env d
  else rxAdmit env d none

end SwiftRelay
