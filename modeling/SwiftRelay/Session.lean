/-
**Sessions.**

A session belongs to the client endpoint that last spoke for it.  It starts as a *legacy* session,
whose identity is a guess, and becomes *authenticated* when a hello with a verified ticket is
applied to it; from then on it has an owner and a lease.

Main definitions:

* `SessionEntry` — what the relay knows about a session;
* `sessionAuthIsCurrent`, `sessionLeaseIsCurrent`, `authenticatedSessionSourceAllowed` — the three
  questions asked about it;
* `forwardingAddr` — where data of a session may be sent.

Main results:

* `sessionAuthIsCurrent_iff` — an authenticated session with a running lease.
-/

import SwiftRelay.Ticket

set_option autoImplicit false

namespace SwiftRelay

def maxSessionsPerSrcIp : ℕ := 512

def sessionTimeout : ℕ := secs 180

def flowGracePeriod : ℕ := secs 30

inductive SessionAuthState
  | legacy
  | authenticated
  deriving DecidableEq

structure SessionEntry where
  userId : String
  authState : SessionAuthState
  leaseExpiresAtUnix : Option UInt64
  clientAddr : SocketAddr
  createdAtUnix : UInt64
  lastActivity : Instant
  lastActivityUnix : UInt64
  deriving DecidableEq

/-- The identity of a session before anything else is known about it. -/
def deriveUserId (sid : SessionId) : String := "session-" ++ formatHex016 sid

/-- The entry of a session that was not known before. -/
def SessionEntry.new (sid : SessionId) (clientAddr : SocketAddr) (now : Instant)
    (nowUnix : UInt64) : SessionEntry :=
  { userId := deriveUserId sid
    authState := .legacy
    leaseExpiresAtUnix := none
    clientAddr
    createdAtUnix := nowUnix
    lastActivity := now
    lastActivityUnix := nowUnix }

/-- The entry after a packet from the endpoint `clientAddr`. -/
def SessionEntry.touch (entry : SessionEntry) (clientAddr : SocketAddr) (now : Instant)
    (nowUnix : UInt64) : SessionEntry :=
  { entry with clientAddr, lastActivity := now, lastActivityUnix := nowUnix }

/-- The entry after activity in the other direction. -/
def SessionEntry.refresh (entry : SessionEntry) (now : Instant) (nowUnix : UInt64) :
    SessionEntry :=
  { entry with lastActivity := now, lastActivityUnix := nowUnix }

/-- The entry after a hello with a verified ticket was applied to it. -/
def SessionEntry.authenticate (entry : SessionEntry) (ticket : VerifiedRelayTicket)
    (clientAddr : SocketAddr) (now : Instant) (nowUnix : UInt64) : SessionEntry :=
  { entry with
    userId := ticket.userId
    authState := .authenticated
    leaseExpiresAtUnix := if ticket.lease then some ticket.exp else none
    clientAddr
    lastActivity := now
    lastActivityUnix := nowUnix }

/-- The tunnel address of the client serves as its identity, as long as there is no owner. -/
def SessionEntry.observe (entry : SessionEntry) (srcIp : Ipv4Addr) : SessionEntry :=
  if entry.authState = .authenticated then entry else { entry with userId := srcIp.toText }

def authenticatedSessionSourceAllowed (entry : SessionEntry) (authRequired : Bool)
    (clientAddr : SocketAddr) (isAuthHello : Bool) : Bool :=
  if !authRequired || entry.authState ≠ .authenticated then true
  else isAuthHello || entry.clientAddr = clientAddr

def sessionLeaseIsCurrent (entry : SessionEntry) (nowUnix : UInt64) : Bool :=
  match entry.leaseExpiresAtUnix with
  | none => true
  | some expiresAt => nowUnix < expiresAt

def sessionAuthIsCurrent (entry : SessionEntry) (nowUnix : UInt64) : Bool :=
  entry.authState = .authenticated && entry.leaseExpiresAtUnix.any fun expiresAt =>
    decide (nowUnix < expiresAt)

/-- The endpoint to which data of a session may be sent. -/
def forwardingAddr (sessions : Table SessionId SessionEntry) (sid : SessionId)
    (authRequired : Bool) (nowUnix : UInt64) : Option SocketAddr :=
  match sessions.lookup sid with
  | none => none
  | some entry =>
      let current :=
        if authRequired then sessionAuthIsCurrent entry nowUnix
        else sessionLeaseIsCurrent entry nowUnix
      if current then some entry.clientAddr else none

theorem sessionAuthIsCurrent_iff {entry : SessionEntry} {nowUnix : UInt64} :
    sessionAuthIsCurrent entry nowUnix = true ↔
      entry.authState = .authenticated ∧
      ∃ expiresAt, entry.leaseExpiresAtUnix = some expiresAt ∧ nowUnix < expiresAt := by
  simp [sessionAuthIsCurrent, Option.any_eq_true]

@[simp] theorem observe_authState (entry : SessionEntry) (srcIp : Ipv4Addr) :
    (entry.observe srcIp).authState = entry.authState := by
  unfold SessionEntry.observe
  split <;> rfl

@[simp] theorem observe_clientAddr (entry : SessionEntry) (srcIp : Ipv4Addr) :
    (entry.observe srcIp).clientAddr = entry.clientAddr := by
  unfold SessionEntry.observe
  split <;> rfl

end SwiftRelay
