/-
**The receive loop meets the contract.**

A pass of the receive loop is followed through its programs, with the other threads free to act
between any two of its operations.  What it knows on the way is written down as assertions that the
others cannot invalidate: that the ticket of the hello at hand was verified, that the pass has
changed nothing so far, that the entry it locked is still the one it read, that the session has no
owner or that its owner is the one of the ticket.

Main definitions:

* `Checked`, `SilentSoFar`, `EntrySatisfies` — assertions about a pass for a hello;
* `BusyAfter` — the assertion about a pass for a data frame.

Main results:

* `applyHello_wp`, `rxHello_wp` — hellos;
* `rxFrame_wp` — data frames;
* `rxPass_wp` — a whole pass;
* `authContract_sound` — the contract holds of the relay.
-/

import SwiftRelay.Authorization

set_option autoImplicit false

namespace SwiftRelay

open Conc

variable {env : RelayEnv}

/-! ### Assertions -/

/-- The receive loop is busy with datagram `d`. -/
def Busy (d : Datagram) (w : RelayWorld env) : Prop := currentAct .rx w.hist = some (.datagram d)

/-- The receive loop is busy with datagram `d`, and has verified a ticket for its session. -/
structure Checked (d : Datagram) (ticket : VerifiedRelayTicket) (w : RelayWorld env) : Prop where
  busy : Busy d w
  verified : ∃ v ∈ passOps .rx w.hist, Verified d.sid ticket v
  lease : ticket.lease = true

/-- The pass has changed neither the session map nor the session counts so far. -/
def SilentSoFar (w : RelayWorld env) : Prop := ∀ e ∈ passOps .rx w.hist, Silent e

/-- The entry of session `sid`, if there is one, satisfies `φ`. -/
def EntrySatisfies (sid : SessionId) (φ : SessionEntry → Prop) (w : RelayWorld env) : Prop :=
  ∀ e, w.st.core.sessions.lookup sid = some e → φ e

theorem stable_busy (d : Datagram) : (authContract env).Stable .rx (Busy d) :=
  stable_currentAct _ (· = some (.datagram d))

theorem stable_checked (d : Datagram) (ticket : VerifiedRelayTicket) :
    (authContract env).Stable .rx (Checked d ticket) := by
  intro w w' hstep hw
  exact ⟨stable_busy d w w' hstep hw.busy,
    stable_passOps _ (fun ops => ∃ v ∈ ops, Verified d.sid ticket v) w w' hstep hw.verified,
    hw.lease⟩

theorem stable_silentSoFar : (authContract env).Stable .rx SilentSoFar :=
  stable_passOps _ fun ops => ∀ e ∈ ops, Silent e

section After

variable {w : RelayWorld env} {o : RelayOp} {r : o.Ret} {st : RelayState} {d : Datagram}
  {ticket : VerifiedRelayTicket}

theorem Busy.after (h : Busy d w) : Busy d (w.after .rx o r st : RelayWorld env) := by
  unfold Busy
  rw [System.World.after_hist, currentAct_exec]
  exact h

theorem Checked.after (h : Checked d ticket w) :
    Checked d ticket (w.after .rx o r st : RelayWorld env) := by
  obtain ⟨v, hv, hverified⟩ := h.verified
  refine ⟨h.busy.after, ⟨v, ?_, hverified⟩, h.lease⟩
  rw [System.World.after_hist, passOps_exec]
  exact List.mem_cons_of_mem _ hv

theorem SilentSoFar.after (h : SilentSoFar w) (ho : o.neutral = true)
    (hexec : execRelay env .rx o w.st = some (r, st)) :
    SilentSoFar (w.after .rx o r st : RelayWorld env) := by
  unfold SilentSoFar
  rw [System.World.after_hist, passOps_exec]
  intro e he
  rcases List.mem_cons.1 he with rfl | he
  · exact execRelay_neutral ho hexec
  · exact h e he

end After

variable {w : RelayWorld env} {d : Datagram} {o : RelayOp} {ticket : VerifiedRelayTicket}

theorem SilentSoFar.settled (h : SilentSoFar w) : HelloSettled w :=
  fun _ _ _ => Or.inr h

/-- A pass for a frame that is not a hello is settled. -/
theorem Busy.settled (h : Busy d w) (hello : d.isAuthHello = false) : HelloSettled w := by
  intro d' hd' hhello
  have heq : d' = d := by simpa [Busy] using hd'.symm.trans h
  simp [heq, hello] at hhello

/-! ### Operations that only look -/

theorem QuietOp.plain (h : QuietOp o) : o.plain = true := by
  rcases o with o | o | o
  · cases o <;> simp_all [QuietOp, RelayOp.plain]
  · cases h
  · cases o <;> simp_all [QuietOp, RelayOp.plain]

/-- A program of the receive loop that only looks, and an assertion that this keeps. -/
theorem wp_quiet {α : Type} {p : RelayProg α} (hp : p.Uses QuietOp) (P : RelayWorld env → Prop)
    (hP : (authContract env).Stable .rx P)
    (hkeep : ∀ (o : RelayOp) (r : o.Ret) (w : RelayWorld env) st, o.neutral = true → P w →
      execRelay env .rx o w.st = some (r, st) → P (w.after .rx o r st : RelayWorld env))
    (hw : P w) : (authContract env).wp .rx p (fun _ w => P w) w :=
  Contract.wp_of_uses hp P hP
    (fun o ho w _ hw =>
      ⟨authPre_of_plain ho.plain, fun r st hexec _ => hkeep o r w st ho.neutral hw hexec⟩) hw

theorem refused_wp {p : RelayProg Unit} (hp : p.Uses QuietOp) (hw : SilentSoFar w) :
    (authContract env).wp .rx p (fun _ w => HelloSettled w) w :=
  Contract.wp_mono (wp_quiet hp _ stable_silentSoFar
    (fun _ _ _ _ ho hw hexec => hw.after ho hexec) hw) fun _ _ hw => hw.settled

/-! ### Operations on the counts -/

theorem CountOp.plain (h : CountOp o) : o.plain = true := by
  rcases o with o | o | o
  · cases o <;> simp_all [CountOp, RelayOp.plain]
  · cases h
  · cases h

theorem execRelay_countOp {t : Tid} {r : o.Ret} {s s' : RelayState} (ho : CountOp o)
    (h : execRelay env t o s = some (r, s')) :
    s'.core.sessions = s.core.sessions ∧ s'.core.guards = s.core.guards := by
  rcases o with o | o | o
  · refine execCore_counting ?_ (execRelay_core h).1
    cases o <;> simp_all [CountOp, CoreOp.counting]
  · cases ho
  · cases ho

/-- A session moves between sources: the entry at hand stays locked and as it is. -/
theorem rebind_wp {oldIp newIp : Ipv4Addr} (P : RelayWorld env → Prop)
    (hP : (authContract env).Stable .rx P)
    (hkeep : ∀ (o : RelayOp) (r : o.Ret) (w : RelayWorld env) st, CountOp o → P w →
      P (w.after .rx o r st : RelayWorld env)) {sid : SessionId} {x : Option SessionEntry}
    (hw : P w ∧ Locked .rx sid x w) :
    (authContract env).wp .rx (updateSourceSessionCountForRebind oldIp newIp)
      (fun _ w => P w ∧ Locked .rx sid x w) w := by
  refine Contract.wp_of_uses (updateSourceSessionCountForRebind_uses oldIp newIp) _
    (hP.and (stable_locked _ .rx sid x)) ?_ hw
  intro o ho w _ hw
  refine ⟨authPre_of_plain ho.plain, fun r st hexec _ => ⟨hkeep o r w st ho hw.1, ?_⟩⟩
  obtain ⟨hsessions, hguards⟩ := execRelay_countOp ho hexec
  unfold Locked
  rw [System.World.after_st, hsessions, hguards]
  exact hw.2

/-! ### Hellos -/

/-- What the receive loop has done for a hello by the time it acknowledges it. -/
def Answered (d : Datagram) (ticket : VerifiedRelayTicket) (w : RelayWorld env) : Prop :=
  ∃ before after, beforeGetMut (passOps .rx w.hist) = some before ∧
    afterLastSessionOp (passOps .rx w.hist) = some after ∧
    (Grants after d.sid ticket d.src ↔ (before.core.sessions.lookup d.sid).isSome = true)

theorem stable_answered (d : Datagram) (ticket : VerifiedRelayTicket) :
    (authContract env).Stable .rx (Answered d ticket) :=
  stable_passOps _ fun ops => ∃ before after, beforeGetMut ops = some before ∧
    afterLastSessionOp ops = some after ∧
    (Grants after d.sid ticket d.src ↔ (before.core.sessions.lookup d.sid).isSome = true)

theorem beforeGetMut_countOp (ho : CountOp o) {t : Tid} {r : o.Ret} {pre post : RelayState}
    {ops : List (RelayEvent env)} :
    beforeGetMut (.exec t o r pre post :: ops) = beforeGetMut ops := by
  rcases o with o | o | o
  · cases o <;> first | rfl | cases ho
  · cases ho
  · cases ho

theorem grants_of_helloApply {t : Tid} {s s' : RelayState} {e : SessionEntry} {r : Unit}
    (hlease : ticket.lease = true) (he : s.core.sessions.lookup d.sid = some e)
    (h : execRelay env t (.core (.helloApply d.sid ticket d.src d.now d.nowUnix)) s =
      some (r, s')) : Grants s' d.sid ticket d.src := by
  refine ⟨e.authenticate ticket d.src d.now d.nowUnix, ?_, rfl, rfl, rfl, ?_⟩
  · rw [entry_of_modifies rfl h, he]
    rfl
  · simp [SessionEntry.authenticate, hlease]

theorem applyHello_wp (hchecked : Checked d ticket w) (howner : EntrySatisfies d.sid
      (fun e => e.authState = .authenticated → e.userId = ticket.userId) w) :
    (authContract env).wp .rx (applyHello d ticket)
      (fun _ w => Checked d ticket w ∧ Answered d ticket w) w := by
  refine wp_core_bind _ ((stable_checked d ticket).and (stable_entry d.sid ?_))
    ⟨hchecked, howner⟩ (fun _ _ _ => trivial) ?_
  · exact fun e now nowUnix h => h
  intro w' session st _ ⟨hchecked, howner⟩ hexec _
  obtain ⟨hsession, hsessions, hguard⟩ := execCore_getMutLock (execRelay_core hexec).1
  cases session with
  | none =>
      -- the entry is gone: nothing is granted, and the session was not there before either
      refine ⟨hchecked.after, w'.st, st, ?_, ?_, ?_⟩
      · rw [System.World.after_hist, passOps_exec]
        rfl
      · rw [System.World.after_hist, passOps_exec]
        rfl
      · simp [Grants, hsessions, ← hsession]
  | some session =>
      let P : RelayWorld env → Prop := fun w =>
        Checked d ticket w ∧ beforeGetMut (passOps .rx w.hist) = some w'.st
      have hP : (authContract env).Stable .rx P :=
        (stable_checked d ticket).and (stable_passOps _ fun ops => beforeGetMut ops = some w'.st)
      have hkeep : ∀ (o : RelayOp) (r : o.Ret) (w : RelayWorld env) st, CountOp o → P w →
          P (w.after .rx o r st : RelayWorld env) := by
        intro o r w st ho hw
        refine ⟨hw.1.after, ?_⟩
        rw [System.World.after_hist, passOps_exec, beforeGetMut_countOp ho]
        exact hw.2
      have hlocked : Locked .rx d.sid (some session)
          (w'.after .rx (.core (.getMutLock d.sid)) (some session) st : RelayWorld env) :=
        ⟨hguard rfl, by rw [System.World.after_st, hsessions, ← hsession]⟩
      refine Contract.wp_seq (rebind_wp P hP hkeep ⟨⟨hchecked.after, ?_⟩, hlocked⟩) ?_
      · rw [System.World.after_hist, passOps_exec]
        rfl
      intro _ w₁ hw₁
      refine wp_core _ (hP.and (stable_locked _ .rx d.sid (some session))) hw₁ ?_ ?_
      · intro w₂ _ hw₂
        obtain ⟨v, hv, hverified⟩ := hw₂.1.1.verified
        refine ⟨⟨v, System.mem_of_mem_opsSince hv, hverified⟩, ?_⟩
        intro e he
        rw [hw₂.2.2, hsession] at he
        exact howner e he
      · intro w₂ _ st₂ _ hw₂ hexec₂ _
        refine ⟨hw₂.1.1.after, w'.st, st₂, ?_, ?_, ?_⟩
        · rw [System.World.after_hist, passOps_exec]
          exact hw₂.1.2
        · rw [System.World.after_hist, passOps_exec]
          rfl
        · simp only [grants_of_helloApply hw₂.1.1.lease hw₂.2.2 hexec₂, ← hsession,
            Option.isSome_some]

theorem sendAuthAck_ok_wp (hw : Checked d ticket w ∧ Answered d ticket w) :
    (authContract env).wp .rx (sendAuthAck env d .ok) (fun _ w => HelloSettled w) w := by
  refine wp_core_bind _ ((stable_checked d ticket).and (stable_answered d ticket)) hw ?_ ?_
  · intro w' _ ⟨hchecked, before, after, hanswered⟩
    exact ⟨d, ticket, before, after, hchecked.busy, rfl, rfl, hchecked.verified, hanswered⟩
  · intro w' r st _ _ hexec _
    let P : RelayWorld env → Prop := fun w => ∃ e ∈ passOps .rx w.hist, IsOkAck e
    have hP : (authContract env).Stable .rx P :=
      stable_passOps _ fun ops => ∃ e ∈ ops, IsOkAck e
    refine Contract.wp_mono (wp_quiet (sendControl_uses _) P hP ?_ ?_)
      fun _ w hw _ _ _ => Or.inl hw
    · intro o r w st _ ⟨e, he, hack⟩ _
      refine ⟨e, ?_, hack⟩
      rw [System.World.after_hist, passOps_exec]
      exact List.mem_cons_of_mem _ he
    · refine ⟨.exec .rx (.core (.ack d.src d.sid .ok)) r w'.st st, ?_, rfl⟩
      rw [System.World.after_hist, passOps_exec]
      exact List.mem_cons_self

/-- A hello with a verified ticket, for a session that the pass has not touched or that it has just
created. -/
theorem rxHello_wp (hauth : env.authRequired = true) (hchecked : Checked d ticket w)
    (hstate : SilentSoFar w ∨ EntrySatisfies d.sid (fun e => e.authState = .legacy) w) :
    (authContract env).wp .rx (rxHello env d (some ticket)) (fun _ w => HelloSettled w) w := by
  have hmode : env.auth.mode ≠ .off := by
    intro hoff
    simp [RelayEnv.authRequired, hoff, RelayAuthMode.requiresAuth] at hauth
  unfold rxHello
  rw [if_neg hmode]
  refine wp_core_bind _ ((stable_checked d ticket).and
    (stable_silentSoFar.or (stable_entry d.sid fun e now nowUnix h => h)))
    ⟨hchecked, hstate⟩ (fun _ _ _ => trivial) ?_
  intro w' existing st _ ⟨hchecked, hstate⟩ hexec _
  obtain ⟨rfl, hst⟩ := execCore_sessionGet (execRelay_core hexec).1
  split
  · next hconflict =>
      -- an entry with another owner cannot be one that this pass created
      obtain ⟨e, he, hother⟩ := (Option.any_eq_true _ _).1 hconflict
      rcases hstate with hsilent | hlegacy
      · exact refused_wp (sendAuthAck_quiet (by decide)) (hsilent.after rfl hexec)
      · simp [hlegacy e he] at hother
  · next hconflict =>
      have howner : EntrySatisfies d.sid
          (fun e => e.authState = .authenticated → e.userId = ticket.userId)
          (w'.after .rx (.core (.sessionGet d.sid)) (w'.st.core.sessions.lookup d.sid) st :
            RelayWorld env) := by
        intro e he hstate
        rw [System.World.after_st, hst] at he
        simpa [he, hstate] using hconflict
      exact Contract.wp_seq (applyHello_wp hchecked.after howner) fun _ w hw => sendAuthAck_ok_wp hw

/-! ### The session entry -/

theorem createSession_wp (P : RelayWorld env → Prop) (hP : (authContract env).Stable .rx P)
    (hkeep : ∀ (o : RelayOp) (r : o.Ret) (w : RelayWorld env) st, P w →
      P (w.after .rx o r st : RelayWorld env)) (hw : P w ∧ Locked .rx d.sid none w) :
    (authContract env).wp .rx (createSession d)
      (fun _ w => P w ∧ EntrySatisfies d.sid (fun e => e.authState = .legacy) w) w := by
  let Q : RelayWorld env → Prop :=
    fun w => P w ∧ EntrySatisfies d.sid (fun e => e.authState = .legacy) w
  have hQ : (authContract env).Stable .rx Q :=
    hP.and (stable_entry d.sid fun e now nowUnix h => h)
  have hcount : ∀ {o : CoreOp} {r : o.Ret} {w : RelayWorld env} {st : RelayState},
      o.counting = true → Q w → execRelay env .rx (.core o) w.st = some (r, st) →
      Q (w.after .rx (.core o) r st : RelayWorld env) := by
    intro o r w st ho hw hexec
    refine ⟨hkeep (.core o) r w st hw.1, ?_⟩
    unfold EntrySatisfies
    rw [System.World.after_st, (execCore_counting ho (execRelay_core hexec).1).1]
    exact hw.2
  refine wp_core_bind _ (hP.and (stable_locked _ .rx d.sid none)) hw ?_ ?_
  · exact fun w' _ hw' => ⟨rfl, hw'.2.2⟩
  intro w₁ _ st₁ _ hw₁ hexec₁ _
  have hw₁' : Q (w₁.after .rx (.core (.entryInsert d.sid (.new d.sid d.src d.now d.nowUnix)))
      () st₁ : RelayWorld env) := by
    refine ⟨hkeep _ _ w₁ st₁ hw₁.1, ?_⟩
    intro e he
    have hsessions := (execRelay_core hexec₁).1
    simp only [execCore] at hsessions
    split at hsessions
    · obtain ⟨-, hst₁⟩ := Prod.mk.inj (Option.some.inj hsessions)
      rw [System.World.after_st, ← hst₁, Table.lookup_insert_eq, if_pos rfl] at he
      rw [← Option.some.inj he]
      rfl
    · cases hsessions
  refine wp_core_bind Q hQ hw₁' (fun _ _ _ => trivial) fun w₂ _ st₂ _ hw₂ hexec₂ _ => ?_
  exact wp_core Q hQ (hcount rfl hw₂ hexec₂) (fun _ _ _ => trivial)
    fun w₃ _ st₃ _ hw₃ hexec₃ _ => hcount rfl hw₃ hexec₃

/-- The session entry, for a hello with a verified ticket: an existing entry is left alone. -/
theorem rxSession_hello_wp (hauth : env.authRequired = true) (hello : d.isAuthHello = true)
    (hw : Checked d ticket w ∧ SilentSoFar w) :
    (authContract env).wp .rx (rxSession env d (some ticket)) (fun _ w => HelloSettled w) w := by
  have hstable := (@stable_checked env d ticket).and stable_silentSoFar
  refine wp_core_bind _ hstable hw (fun _ _ _ => trivial) ?_
  intro w' session st _ ⟨hchecked, hsilent⟩ hexec _
  obtain ⟨hsession, hsessions, hguard⟩ := execCore_entryLock (execRelay_core hexec).1
  cases session with
  | some session =>
      simp only [touchSession, hauth, hello, Bool.not_true, Bool.false_and, Bool.or_self,
        Bool.false_eq_true, if_false, if_true]
      refine wp_core_bind _ hstable ⟨hchecked.after, hsilent.after rfl hexec⟩
        (fun _ _ _ => trivial) ?_
      intro w₁ _ st₁ _ ⟨hchecked, hsilent⟩ hexec₁ _
      exact rxHello_wp hauth hchecked.after (Or.inl (hsilent.after rfl hexec₁))
  | none =>
      have hlocked : Locked .rx d.sid none
          (w'.after .rx (.core (.entryLock d.sid)) none st : RelayWorld env) :=
        ⟨hguard, by rw [System.World.after_st, hsessions, ← hsession]⟩
      refine Contract.wp_seq (createSession_wp _ (stable_checked d ticket)
        (fun _ _ _ _ h => h.after) ⟨hchecked.after, hlocked⟩) ?_
      intro _ w₁ hw₁
      simp only [hello, if_true]
      exact rxHello_wp hauth hw₁.1 (Or.inr hw₁.2)

/-! ### Data frames -/

/-- The receive loop is busy with datagram `d`, and the last hello of its session is `hello`. -/
def BusyAfter (d : Datagram) (hello : Option Hello) (w : RelayWorld env) : Prop :=
  Busy d w ∧ lastHello d.sid w.hist = hello

/-- The hello came from the source of the datagram, with a ticket that has not expired. -/
def Hello.Covers (hello : Hello) (d : Datagram) : Prop :=
  hello.addr = d.src ∧ d.nowUnix < hello.ticket.exp

theorem stable_busyAfter (d : Datagram) (hello : Option Hello) :
    (authContract env).Stable .rx (BusyAfter d hello) :=
  (stable_busy d).and (stable_lastHello d.sid (· = hello))

/-- The operations that apply no hello. -/
def RelayOp.noHello : RelayOp → Bool
  | .core (.helloApply ..) => false
  | _ => true

theorem BusyAfter.after {hello : Option Hello} {r : o.Ret} {st : RelayState}
    (h : BusyAfter d hello w) (ho : o.noHello = true) :
    BusyAfter d hello (w.after .rx o r st : RelayWorld env) := by
  refine ⟨h.1.after, ?_⟩
  rw [System.World.after_hist]
  rcases lastHello_exec d.sid .rx o r w.st st w.hist with hlast | ⟨ticket, addr, _, _, rfl, -⟩
  · rw [hlast, h.2]
  · cases ho

theorem FrameOp.noHello {account : String} (h : FrameOp d account o) : o.noHello = true := by
  rcases o with o | o | o
  · cases o <;> first | rfl | cases h
  · rfl
  · rfl

/-- What is handed on for a frame that the last hello covers. -/
theorem FrameOp.pre {account : String} (h : FrameOp d account o) {hello : Hello}
    (hcovers : hello.Covers d) (hw : BusyAfter d (some hello) w) : authPre .rx o w := by
  have hhand : ∀ {sid addr}, sid = d.sid → addr = d.src → HandedOn w sid addr := by
    rintro _ _ rfl rfl
    exact ⟨d, hello, hw.1, rfl, rfl, hw.2, hcovers.1, hcovers.2⟩
  rcases o with o | o | o
  · cases o with
    | tunSend packet accepted => exact hhand h.1 h.2
    | sendTo kind => cases kind <;> trivial
    | _ => trivial
  · cases o with
    | flowForward key addr => exact hhand h.1 h.2
    | _ => trivial
  · cases o with
    | shardSend k msg =>
        cases msg with
        | clientPacket packet => exact hhand h.1 h.2.1
        | _ => trivial
    | _ => trivial

theorem rxFrame_wp (hauth : env.authRequired = true) (hello : d.isAuthHello = false)
    {authenticated sourceAllowed : Bool} {account : String} {last : Option Hello}
    (hw : BusyAfter d last w) (hcovered : authenticated = true → sourceAllowed = true →
      ∃ hello, last = some hello ∧ hello.Covers d) :
    (authContract env).wp .rx (rxFrame env d authenticated sourceAllowed account)
      (fun _ w => HelloSettled w) w := by
  have hquiet : ∀ {p : RelayProg Unit}, p.Uses QuietOp →
      (authContract env).wp .rx p (fun _ w => HelloSettled w) w := fun hp =>
    Contract.wp_mono (wp_quiet hp _ (stable_busy d) (fun _ _ _ _ _ h _ => h.after) hw.1)
      fun _ _ h => h.settled hello
  cases authenticated with
  | false =>
      refine hquiet ((rxFrame_refused_uses hauth).mono ?_)
      rintro _ ⟨reason, rfl⟩
      trivial
  | true =>
      cases sourceAllowed with
      | false => exact hquiet (dropIn_quiet .auth)
      | true =>
          obtain ⟨hello', rfl, hcovers⟩ := hcovered rfl rfl
          refine Contract.wp_mono (Contract.wp_of_uses (rxFrame_uses true true) _
            (stable_busyAfter d (some hello')) ?_ hw) fun _ _ h => h.1.settled hello
          exact fun o ho w _ hw => ⟨ho.pre hcovers hw, fun r st _ _ => hw.after ho.noHello⟩

/-- An entry that is authenticated now, and whose endpoint is the source of the datagram, follows a
hello that covers the datagram. -/
theorem covered_of_current (hauth : env.authRequired = true) (hello : d.isAuthHello = false)
    (hinv : AuthInv w) {e : SessionEntry} (he : w.st.core.sessions.lookup d.sid = some e)
    (hcurrent : sessionAuthIsCurrent e d.nowUnix = true)
    (hallowed : authenticatedSessionSourceAllowed e env.authRequired d.src d.isAuthHello = true) :
    ∃ hello, lastHello d.sid w.hist = some hello ∧ hello.Covers d := by
  obtain ⟨hstate, expiresAt, hlease, hlt⟩ := sessionAuthIsCurrent_iff.1 hcurrent
  obtain ⟨last, hlast, -, haddr, hexp⟩ := hinv.owned d.sid e he hstate
  refine ⟨last, hlast, ?_, ?_⟩
  · rw [← haddr]
    simpa [authenticatedSessionSourceAllowed, hauth, hstate, hello] using hallowed
  · rw [hlease] at hexp
    split at hexp
    · rwa [← Option.some.inj hexp]
    · cases hexp

/-- An existing entry under a data frame: only its own endpoint refreshes it. -/
theorem touchSession_data_wp (hauth : env.authRequired = true) {session : SessionEntry}
    {last : Option Hello} (hw : BusyAfter d last w ∧ Locked .rx d.sid (some session) w) :
    (authContract env).wp .rx (touchSession env d session) (fun _ w => BusyAfter d last w) w := by
  have hstable := (@stable_busyAfter env d last).and (stable_locked _ .rx d.sid (some session))
  unfold touchSession
  split
  · next hsource =>
      have haddr : session.clientAddr = d.src := by
        simp only [hauth, Bool.not_true, Bool.false_or, Bool.and_eq_true, decide_eq_true_eq]
          at hsource
        exact hsource.2
      refine Contract.wp_seq (rebind_wp _ (stable_busyAfter d last)
        (fun o r w st ho hw => hw.after ?_) hw) ?_
      · rcases o with o | o | o
        · cases o <;> first | rfl | cases ho
        · rfl
        · rfl
      intro _ w₁ hw₁
      refine wp_core _ hstable hw₁ ?_ fun w₂ _ st₂ _ hw₂ _ _ => hw₂.1.after rfl
      intro w₂ _ hw₂ e he _
      rw [hw₂.2.2] at he
      rw [← Option.some.inj he, haddr]
  · exact wp_core _ hstable hw (fun _ _ _ => trivial) fun w₂ _ st₂ _ hw₂ _ _ => hw₂.1.after rfl

/-- The session entry, for a frame that is not a hello. -/
theorem rxSession_data_wp (hauth : env.authRequired = true) (hello : d.isAuthHello = false)
    (ticket : Option VerifiedRelayTicket) (hw : Busy d w) :
    (authContract env).wp .rx (rxSession env d ticket) (fun _ w => HelloSettled w) w := by
  refine wp_core_bind _ (stable_busy d) hw (fun _ _ _ => trivial) ?_
  intro w' session st hinv hw' hexec _
  obtain ⟨hsession, hsessions, hguard⟩ := execCore_entryLock (execRelay_core hexec).1
  have hlocked : Locked .rx d.sid session
      (w'.after .rx (.core (.entryLock d.sid)) session st : RelayWorld env) :=
    ⟨hguard, by rw [System.World.after_st, hsessions, ← hsession]⟩
  have hafter : BusyAfter d (lastHello d.sid w'.hist)
      (w'.after .rx (.core (.entryLock d.sid)) session st : RelayWorld env) :=
    BusyAfter.after ⟨hw', rfl⟩ rfl
  cases session with
  | some session =>
      refine Contract.wp_seq (touchSession_data_wp hauth ⟨hafter, hlocked⟩) ?_
      intro _ w₁ hw₁
      simp only [hello, Bool.false_eq_true, if_false]
      refine rxFrame_wp hauth hello hw₁ fun hcurrent hallowed => ?_
      exact covered_of_current hauth hello hinv hsession.symm hcurrent (hello.symm ▸ hallowed)
  | none =>
      refine Contract.wp_seq (createSession_wp _ (stable_busy d)
        (fun _ _ _ _ h => h.after) ⟨hafter.1, hlocked⟩) ?_
      intro _ w₁ hw₁
      simp only [hello, Bool.false_eq_true, if_false]
      exact rxFrame_wp hauth hello ⟨hw₁.1, rfl⟩ fun h => absurd h (by simp)

/-! ### The pass -/

/-- A program of the receive loop that only looks, up to one of some programs that settle the pass
where the assertion holds. -/
theorem wp_of_quiet_ends {p : RelayProg Unit} {B : RelayProg Unit → Prop} (hp : p.Ends QuietOp B)
    (P : RelayWorld env → Prop) (hP : (authContract env).Stable .rx P)
    (hkeep : ∀ (o : RelayOp) (r : o.Ret) (w : RelayWorld env) st, o.neutral = true → P w →
      execRelay env .rx o w.st = some (r, st) → P (w.after .rx o r st : RelayWorld env))
    (hsettled : ∀ w, P w → HelloSettled w)
    (hB : ∀ p, B p → ∀ w, P w → (authContract env).wp .rx p (fun _ w => HelloSettled w) w)
    (hw : P w) : (authContract env).wp .rx p (fun _ w => HelloSettled w) w :=
  Contract.wp_of_ends hp P hP
    (fun o ho w _ hw =>
      ⟨authPre_of_plain ho.plain, fun r st hexec _ => hkeep o r w st ho.neutral hw hexec⟩)
    (fun _ w => hsettled w) hB hw

theorem rxPass_hello_wp (hauth : env.authRequired = true) (hello : d.isAuthHello = true)
    (hw : Busy d w ∧ SilentSoFar w) :
    (authContract env).wp .rx (rxPass env d) (fun _ w => HelloSettled w) w := by
  have hstable := (@stable_busy env d).and stable_silentSoFar
  unfold rxPass
  split
  · exact refused_wp (dropIn_quiet _) hw.2
  refine wp_core_bind _ hstable hw (fun _ _ _ => trivial) fun w₁ _ st₁ _ hw₁ hexec₁ _ => ?_
  have hsilent₁ := hw₁.2.after rfl hexec₁
  split
  · exact refused_wp (dropIn_quiet _) hsilent₁
  split
  · next err _ => exact refused_wp (sendAuthAck_quiet (by cases err <;> decide)) hsilent₁
  next token _ =>
  refine wp_core_bind _ hstable ⟨hw₁.1.after, hsilent₁⟩ (fun _ _ _ => trivial) ?_
  intro w₂ result st₂ _ hw₂ hexec₂ _
  have hsilent₂ := hw₂.2.after rfl hexec₂
  cases result with
  | error err => exact refused_wp (sendAuthAck_quiet (by cases err <;> decide)) hsilent₂
  | ok ticket =>
      have hlease : ticket.lease = true := lease_of_verifyOnce (execRelay_core hexec₂).1
      have hchecked : Checked d ticket
          (w₂.after .rx (.core (.verifyOnce token d.sid d.nowUnix d.casWon)) (.ok ticket) st₂ :
            RelayWorld env) := by
        refine ⟨hw₂.1.after, ⟨.exec .rx (.core (.verifyOnce token d.sid d.nowUnix d.casWon))
          (.ok ticket) w₂.st st₂, ?_, rfl, rfl⟩, hlease⟩
        rw [System.World.after_hist, passOps_exec]
        exact List.mem_cons_self
      refine wp_of_quiet_ends (rxAdmit_ends _) _ ((stable_checked d ticket).and stable_silentSoFar)
        (fun _ _ _ _ ho h hexec => ⟨h.1.after, h.2.after ho hexec⟩) (fun _ h => h.2.settled) ?_
        ⟨hchecked, hsilent₂⟩
      rintro p rfl w h
      exact rxSession_hello_wp hauth hello h

theorem rxPass_data_wp (hauth : env.authRequired = true) (hello : d.isAuthHello = false)
    (hw : Busy d w) : (authContract env).wp .rx (rxPass env d) (fun _ w => HelloSettled w) w := by
  refine wp_of_quiet_ends rxPass_ends_session _ (stable_busy d) (fun _ _ _ _ _ h _ => h.after)
    (fun _ h => h.settled hello) ?_ hw
  rintro p ⟨ticket, rfl⟩ w h
  exact rxSession_data_wp hauth hello ticket h

theorem stable_helloSettled : (authContract env).Stable .rx HelloSettled := by
  intro w w' hstep hw
  have hact := stable_currentAct (authContract env) (· = currentAct .rx w.hist) w w' hstep rfl
  have hops := stable_passOps (authContract env) (· = passOps .rx w.hist) w w' hstep rfl
  unfold HelloSettled
  rw [hact, hops]
  exact hw

/-- **The contract of authorization holds of the relay.** -/
theorem authContract_sound (hauth : env.authRequired = true) : (authContract env).Sound where
  start_inv := fun w a hinv _ _ => authInv_start a hinv
  exec_inv := fun w t o r st hinv _ hpre hexec _ => authInv_exec hinv hpre hexec
  post_stable := by
    intro t w w' hstep hpost ht
    subst ht
    exact stable_helloSettled w w' hstep (hpost rfl)
  prog_may := prog_uses env
  prog_wp := by
    intro w a _ _ _
    by_cases hrx : a.tid = .rx
    · obtain ⟨d, rfl⟩ := Act.tid_eq_rx hrx
      have hbusy : Busy d (w.begin (.datagram d) : RelayWorld env) :=
        currentAct_start (.datagram d)
      have hsilent : SilentSoFar (w.begin (.datagram d) : RelayWorld env) := by
        intro e he
        have hnone : passOps .rx (w.begin (.datagram d) : RelayWorld env).hist = [] :=
          passOps_start (.datagram d)
        rw [hnone] at he
        cases he
      refine Contract.wp_mono ?_ fun _ _ h _ => h
      cases hello : d.isAuthHello with
      | true => exact rxPass_hello_wp hauth hello ⟨hbusy, hsilent⟩
      | false => exact rxPass_data_wp hauth hello hbusy
    · exact other_wp hauth hrx _

end SwiftRelay
