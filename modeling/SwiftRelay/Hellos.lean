/-
**Hellos and what they leave behind.**

An authenticated session entry is the trace of the last hello that was applied to the session: its
owner, its endpoint and its lease are those of that hello, whatever happened to the entry since.
This module says what a hello is in the history of a run, and what the operations of each thread do
to a session entry.

Main definitions:

* `currentAct`, `passOps` — what a thread is busy with;
* `Hello`, `helloFor`, `lastHello` — applied hellos in a history;
* `Verified` — the check that a ticket passed;
* `SessionEntry.Follows` — the entry is what a hello left;
* `Locked` — a thread holds the lock of a session.

Main results:

* `lastHello_eq_some_iff` — what the last hello is;
* `entry_of_other` — what the other threads can do to an entry while the receive loop is busy;
* `stable_locked` — what is locked stays as it is.
-/

import SwiftRelay.System

set_option autoImplicit false

namespace SwiftRelay

open Conc

/-- What happens in a run of the relay. -/
abbrev RelayEvent (env : RelayEnv) := (relaySystem env).Event

/-- The state of the relay with the history. -/
abbrev RelayWorld (env : RelayEnv) := (relaySystem env).World

variable {env : RelayEnv}

/-! ### Passes -/

/-- What thread `t` is busy with. -/
def currentAct (t : Tid) (hist : List (RelayEvent env)) : Option Act :=
  System.lastAct (M := relaySystem env) t hist

/-- What thread `t` has done about it so far. -/
def passOps (t : Tid) (hist : List (RelayEvent env)) : List (RelayEvent env) :=
  System.opsSince (M := relaySystem env) t hist

section Pass

variable {t u : Tid} {hist : List (RelayEvent env)} {o : RelayOp} {r : o.Ret}
  {pre post : RelayState}

theorem currentAct_start (a : Act) :
    currentAct a.tid (.start a :: hist : List (RelayEvent env)) = some a :=
  System.lastAct_start_self

theorem currentAct_exec :
    currentAct t (.exec u o r pre post :: hist : List (RelayEvent env)) = currentAct t hist :=
  System.lastAct_exec

theorem passOps_start (a : Act) : passOps a.tid (.start a :: hist : List (RelayEvent env)) = [] :=
  System.opsSince_start_self

theorem passOps_exec :
    passOps t (.exec t o r pre post :: hist : List (RelayEvent env)) =
      .exec t o r pre post :: passOps t hist :=
  System.opsSince_exec_self

variable (C : Contract (relaySystem env))

theorem stable_currentAct (φ : Option Act → Prop) :
    C.Stable t fun w => φ (currentAct t w.hist) :=
  Contract.Stable.lastAct (M := relaySystem env) φ

theorem stable_passOps (φ : List (RelayEvent env) → Prop) :
    C.Stable t fun w => φ (passOps t w.hist) :=
  Contract.Stable.opsSince (M := relaySystem env) φ

end Pass

/-! ### Hellos in the history -/

/-- The ticket and the source address of an applied hello. -/
structure Hello where
  ticket : VerifiedRelayTicket
  addr : SocketAddr

/-- The hello for session `sid` that an event applies. -/
def helloFor (sid : SessionId) : RelayEvent env → Option Hello
  | .exec _ (.core (.helloApply s ticket addr _ _)) _ _ _ =>
      if s = sid then some ⟨ticket, addr⟩ else none
  | _ => none

/-- The last hello that was applied to session `sid`. -/
def lastHello (sid : SessionId) (hist : List (RelayEvent env)) : Option Hello :=
  hist.findSome? (helloFor sid)

/-- The event in which a ticket for session `sid` passed `verify_relay_ticket_once`. -/
def Verified (sid : SessionId) (ticket : VerifiedRelayTicket) : RelayEvent env → Prop
  | .exec _ (.core (.verifyOnce _ s _ _)) result _ _ => s = sid ∧ result = .ok ticket
  | _ => False

variable {sid : SessionId} {hist : List (RelayEvent env)}

theorem lastHello_eq_some_iff {hello : Hello} :
    lastHello sid hist = some hello ↔
      ∃ later e earlier, hist = later ++ e :: earlier ∧ helloFor sid e = some hello ∧
        ∀ e' ∈ later, helloFor sid e' = none :=
  List.findSome?_eq_some_iff

theorem lastHello_cons {e : RelayEvent env} :
    lastHello sid (e :: hist) = (helloFor sid e).or (lastHello sid hist) := by
  unfold lastHello
  rw [List.findSome?_cons]
  cases helloFor sid e <;> rfl

theorem helloFor_eq_some {t : Tid} {o : RelayOp} {r : o.Ret} {pre post : RelayState} {hello : Hello}
    (h : helloFor sid (.exec t o r pre post : RelayEvent env) = some hello) :
    ∃ now nowUnix, o = .core (.helloApply sid hello.ticket hello.addr now nowUnix) := by
  unfold helloFor at h
  split at h
  · next heq =>
      cases heq
      split at h
      · next hsid =>
          cases h
          exact ⟨_, _, by rw [hsid]⟩
      · cases h
  · cases h

theorem lastHello_exec_of_ne {t : Tid} {o : RelayOp} {r : o.Ret} {pre post : RelayState}
    (hmay : may t o) (hne : t ≠ .rx) :
    lastHello sid (.exec t o r pre post :: hist) = lastHello sid hist := by
  rw [lastHello_cons]
  cases hfor : helloFor sid (.exec t o r pre post : RelayEvent env) with
  | none => rfl
  | some hello =>
      obtain ⟨now, nowUnix, rfl⟩ := helloFor_eq_some hfor
      cases t <;> simp_all [may, CoreOp.ofCleanup, CoreOp.ofSender, CoreOp.ofFlow]

/-! ### Entries -/

/-- The entry has the owner, the endpoint and the lease that a hello gave it. -/
def SessionEntry.Follows (e : SessionEntry) (hello : Hello) : Prop :=
  e.userId = hello.ticket.userId ∧ e.clientAddr = hello.addr ∧
    e.leaseExpiresAtUnix = if hello.ticket.lease then some hello.ticket.exp else none

/-- An operation that overwrites the entry of a session does nothing else to it. -/
theorem entry_of_modifies {t : Tid} {o : CoreOp} {r : o.Ret} {s s' : RelayState}
    {f : SessionEntry → SessionEntry} (hmod : o.modifies = some (sid, f))
    (h : execRelay env t (.core o) s = some (r, s')) :
    s'.core.sessions.lookup sid = (s.core.sessions.lookup sid).map f := by
  rw [(execCore_modifies hmod (execRelay_core h).1).2]
  rcases modify_sessions s.core sid f with ⟨e, he, hs⟩ | ⟨he, hs⟩
  · simp [hs, he, Table.lookup_insert_eq]
  · simp [hs, he]

/-- While the receive loop is busy, an entry can disappear and its activity can be refreshed. -/
theorem entry_of_other {t : Tid} {o : RelayOp} {r : o.Ret} {s s' : RelayState}
    (h : execRelay env t o s = some (r, s')) (hmay : may t o) (hne : t ≠ .rx) {e' : SessionEntry}
    (he' : s'.core.sessions.lookup sid = some e') :
    ∃ e, s.core.sessions.lookup sid = some e ∧
      (e' = e ∨ ∃ now nowUnix, e' = e.refresh now nowUnix) := by
  have hstep := entryStep h sid
  rw [he'] at hstep
  generalize s.core.sessions.lookup sid = x at hstep
  cases hstep with
  | insert _ _ ho =>
      subst ho
      cases t <;> simp_all [may, CoreOp.ofCleanup, CoreOp.ofSender, CoreOp.ofFlow]
  | modify o' f e ho hmod =>
      subst ho
      cases o' <;> simp only [CoreOp.modifies, Option.some.injEq, Prod.mk.injEq,
        reduceCtorEq] at hmod
      case refresh => exact ⟨e, rfl, Or.inr ⟨_, _, by rw [← hmod.2]⟩⟩
      all_goals cases t <;> simp_all [may, CoreOp.ofCleanup, CoreOp.ofSender, CoreOp.ofFlow]
  | same => exact ⟨e', rfl, Or.inl rfl⟩

/-- Thread `t` holds the lock of session `sid`, whose entry is `x`. -/
def Locked (t : Tid) (sid : SessionId) (x : Option SessionEntry) (w : RelayWorld env) : Prop :=
  w.st.core.guards (env.dashShardOf sid) = some t ∧ w.st.core.sessions.lookup sid = x

theorem stable_locked (C : Contract (relaySystem env)) (t : Tid) (sid : SessionId)
    (x : Option SessionEntry) : C.Stable t (Locked t sid x) := by
  refine .of_exec (fun _ _ hw => hw) fun w u o r st hne _ hmay _ hexec _ hw => ?_
  exact ⟨execRelay_guard hexec hne hw.1, (execRelay_locked hexec hne hw.1).trans hw.2⟩

end SwiftRelay
