/-
**The caps on sessions.**

There is a cap on all sessions and one on the sessions of each source address, and both are checked
where a session is created.  A session can also come to a source by moving: where no tickets are
asked for every datagram takes its session along, and a hello does so in any mode.  Nothing is
checked then, so the second cap holds only as long as sessions do not move to a source that is full.
Passes are taken one after another here.

Main definitions:

* `Capped` — both caps, with exact counters;
* `Uncrowded` — the datagram does not come from a full source to which its session would have to
  move.

Main results:

* `rxPass_capped`, `cleanupPass_capped` — one pass keeps the caps;
* `crowd_reached` — any number of sessions can move to one source;
* `caps_hold_when_uncrowded` — the caps hold in every state that is reached;
* `source_cap_exceeded_by_moves` — they do not hold in general.
-/

import SwiftRelay.Sequential
import SwiftRelay.SessionCounts

set_option autoImplicit false

namespace SwiftRelay

open Conc

variable {env : RelayEnv}

/-- The counters are exact, and neither cap is exceeded. -/
structure Capped (s : RelayState) : Prop where
  exact : gap s = 0
  total : s.core.sessions.size ≤ maxSessionsTotal
  perSource : ∀ ip, s.sessionsFrom ip ≤ maxSessionsPerSrcIp

/-- If the datagram can move its session (it is a hello, or no tickets are asked for) and the
session has another source, then the source of the datagram is not full. -/
def Uncrowded (env : RelayEnv) (d : Datagram) (s : RelayState) : Prop :=
  (env.authRequired = true → d.isAuthHello = true) →
    ∀ e, s.core.sessions.lookup d.sid = some e → e.clientAddr.ip ≠ d.ip →
      s.sessionsFrom d.ip < maxSessionsPerSrcIp

variable {s : RelayState}

theorem Uncrowded.of_sessions {d : Datagram} {s' : RelayState} (h : Uncrowded env d s)
    (hsessions : s'.core.sessions = s.core.sessions) : Uncrowded env d s' := by
  unfold Uncrowded RelayState.sessionsFrom
  rw [hsessions]
  exact h

theorem Capped.of_same {s' : RelayState} (h : Capped s) (hsame : SameSources s s') : Capped s' :=
  ⟨hsame.gap.trans h.exact, Nat.le_trans (Nat.le_of_eq hsame.size) h.total,
    fun ip => Nat.le_trans (Nat.le_of_eq (hsame.sessionsFrom ip)) (h.perSource ip)⟩

/-- The counter of a source where the counters are exact. -/
theorem sessionCount_of_exact (h : gap s = 0) (ip : Ipv4Addr) :
    s.sessionCount ip = s.sessionsFrom ip := by
  have hsource := congrFun (congrArg Prod.fst h) ip
  simp only [gap, Prod.fst_zero, Pi.zero_apply] at hsource
  omega

theorem sessionCount_pos (h : gap s = 0) {sid : SessionId} {e : SessionEntry}
    (he : s.core.sessions.lookup sid = some e) : 1 ≤ s.sessionCount e.clientAddr.ip := by
  rw [sessionCount_of_exact h]
  exact Table.count_pos _ he (decide_eq_true rfl)

/-! ### Operations -/

/-- What holds after an operation on the shared session state, followed by the rest of a program. -/
theorem ensures_core_bind {t : Tid} {o : CoreOp} {α : Type} {f : o.Ret → RelayProg α}
    {Q : α → RelayState → Prop}
    (h : ∀ (r : o.Ret) s', execRelay env t (.core o) s = some (r, s') →
      (f r).Ensures (relaySystem env) t Q s') : (core o >>= f).Ensures (relaySystem env) t Q s :=
  Prog.ensures_op h

theorem ensures_core {t : Tid} {o : CoreOp} {Q : o.Ret → RelayState → Prop}
    (h : ∀ (r : o.Ret) s', execRelay env t (.core o) s = some (r, s') → Q r s') :
    (core o).Ensures (relaySystem env) t Q s :=
  Prog.ensures_op fun r s' hexec => Prog.ensures_ret (h r s' hexec)

section Counting

variable {t : Tid} {s : RelayState}

/-- The counters close the gap by `x`, and nothing else changes. -/
def Counted (s : RelayState) (x : Gap) (s' : RelayState) : Prop :=
  gap s' = x + gap s ∧ s'.core.sessions = s.core.sessions ∧ s'.core.guards = s.core.guards

theorem Counted.of_exec {o : CoreOp} {r : o.Ret} {s' : RelayState} (ho : o.counting = true)
    (h : execRelay env t (.core o) s = some (r, s')) {x : Gap} (hgap : gap s' - gap s = x) :
    Counted s x s' :=
  ⟨eq_add_of_sub_eq hgap, execCore_counting ho (execRelay_core h).1⟩

theorem Counted.trans {x y : Gap} {s' s'' : RelayState} (h : Counted s x s')
    (h' : Counted s' y s'') : Counted s (y + x) s'' :=
  ⟨by rw [h'.1, h.1, add_assoc], h'.2.1.trans h.2.1, h'.2.2.trans h.2.2⟩

/-- Without anything in between, the counter that is removed stands at one. -/
theorem decrement_ensures {ip : Ipv4Addr} (hpos : 1 ≤ s.sessionCount ip) :
    (decrementSourceSessionCount ip).Ensures (relaySystem env) t
      (fun _ s' => Counted s (.source ip) s') s := by
  refine ensures_core_bind fun lowered s₁ hexec => ?_
  have hdec : Counted s (if lowered then .source ip else 0) s₁ :=
    .of_exec rfl hexec (gap_countDec hexec)
  obtain ⟨-, ⟨rfl, -⟩ | ⟨rfl, hle, hcounts⟩⟩ := execCore_countDec (execRelay_core hexec).1
  · exact Prog.ensures_ret hdec
  · have hone : s₁.core.counts.lookup ip = some 1 := by
      rw [hcounts]
      unfold RelayState.sessionCount at hpos
      cases hlookup : s.core.counts.lookup ip with
      | none => simp [hlookup] at hpos
      | some count =>
          simp only [hlookup, Option.getD_some] at hpos hle
          rw [Nat.le_antisymm hle hpos]
    refine ensures_core fun r s₂ hexec₂ => ?_
    simpa using hdec.trans (.of_exec rfl hexec₂ (gap_countRemove hexec₂ hone))

theorem rebind_ensures {oldIp newIp : Ipv4Addr} (hpos : 1 ≤ s.sessionCount oldIp) :
    (updateSourceSessionCountForRebind oldIp newIp).Ensures (relaySystem env) t
      (fun _ s' => Counted s (.source oldIp - .source newIp) s') s := by
  unfold updateSourceSessionCountForRebind
  split
  · next hip =>
      subst hip
      refine Prog.ensures_ret ⟨?_, rfl, rfl⟩
      rw [sub_self, zero_add]
  · refine Prog.ensures_bind ((decrement_ensures hpos).mono fun _ s₁ hdec => ?_)
    refine ensures_core fun r s₂ hexec => ?_
    have hboth := hdec.trans (.of_exec rfl hexec (gap_countInc hexec))
    rwa [neg_add_eq_sub] at hboth

end Counting

/-! ### The receive loop -/

section Rx

variable {t : Tid} {d : Datagram} {s : RelayState}

theorem ensures_gapless {α : Type} {p : RelayProg α}
    (hp : p.Uses fun o : RelayOp => o.gapless = true) (hcap : Capped s) :
    p.Ensures (relaySystem env) t (fun _ s' => Capped s') s :=
  Prog.ensures_of_uses hp _ (fun _ ho _ _ _ hexec hcap => hcap.of_same (execRelay_gapless ho hexec))
    hcap

theorem QuietOp.keeps {o : RelayOp} (ho : QuietOp o) {r : o.Ret} {s s' : RelayState}
    (h : execRelay env t o s = some (r, s')) (hcap : Capped s) :
    Capped s' ∧ s'.core.sessions = s.core.sessions :=
  ⟨hcap.of_same (execRelay_gapless ho.gapless h), (execRelay_neutral ho.neutral h).1⟩

/-- The number of sessions of each source when one of them moves. -/
theorem sessionsFrom_of_insert {s s' : RelayState} {sid : SessionId} {e e' : SessionEntry}
    (he : s.core.sessions.lookup sid = some e)
    (hs : s'.core.sessions = s.core.sessions.insert sid e') (ip : Ipv4Addr) :
    s'.sessionsFrom ip ≤ s.sessionsFrom ip ∨
      (e'.clientAddr.ip = ip ∧ e.clientAddr.ip ≠ ip ∧
        s'.sessionsFrom ip = s.sessionsFrom ip + 1) := by
  have hcount := Table.count_insert_of_some (fun e => decide (e.clientAddr.ip = ip)) e' he
  simp only [RelayState.sessionsFrom, hs, decide_eq_true_eq] at hcount ⊢
  split at hcount
  · exact Or.inl (by split at hcount <;> omega)
  · next hne =>
      split at hcount
      · next hip => exact Or.inr ⟨hip, hne, by omega⟩
      · exact Or.inl (by omega)

theorem move_capped {o : CoreOp} {sid : SessionId} {f : SessionEntry → SessionEntry}
    (hmod : o.modifies = some (sid, f)) {e : SessionEntry} {newIp : Ipv4Addr}
    (hnew : (f e).clientAddr.ip = newIp) (he : s.core.sessions.lookup sid = some e)
    (hcap : Capped s)
    (hroom : e.clientAddr.ip ≠ newIp → s.sessionsFrom newIp < maxSessionsPerSrcIp) :
    (updateSourceSessionCountForRebind e.clientAddr.ip newIp >>= fun _ => core o).Ensures
      (relaySystem env) t
      (fun _ s' => Capped s' ∧ s'.core.sessions.lookup sid = some (f e)) s := by
  refine Prog.ensures_bind ((rebind_ensures (sessionCount_pos hcap.exact he)).mono
    fun _ s₁ hcounted => ?_)
  obtain ⟨hgap, hsessions, -⟩ := hcounted
  refine ensures_core fun r s₂ hexec => ?_
  have he₁ : s₁.core.sessions.lookup sid = some e := by rw [hsessions, he]
  have hs₂ : s₂.core.sessions = s₁.core.sessions.insert sid (f e) := by
    rw [(execCore_modifies hmod (execRelay_core hexec).1).2]
    simp only [CoreState.modify, he₁]
  have hfrom : ∀ ip, s₁.sessionsFrom ip = s.sessionsFrom ip := fun ip => by
    rw [RelayState.sessionsFrom, hsessions, RelayState.sessionsFrom]
  refine ⟨⟨?_, ?_, fun ip => ?_⟩, by rw [entry_of_modifies hmod hexec, he₁, Option.map_some]⟩
  · have hmove := eq_add_of_sub_eq (gap_modify hmod hexec he₁)
    rw [hmove, hgap, hnew, hcap.exact]
    abel
  · rw [hs₂, Table.size_insert_of_some _ he₁, hsessions]
    exact hcap.total
  · rcases sessionsFrom_of_insert he₁ hs₂ ip with hle | ⟨hip, hne, heq⟩
    · exact hle.trans (hfrom ip ▸ hcap.perSource ip)
    · rw [heq, hfrom, ← hip, hnew]
      exact hroom (hnew ▸ hip ▸ hne)

theorem touchSession_capped {session : SessionEntry}
    (he : s.core.sessions.lookup d.sid = some session) (hcap : Capped s)
    (huncrowded : Uncrowded env d s) :
    (touchSession env d session).Ensures (relaySystem env) t
      (fun _ s' => Capped s' ∧ Uncrowded env d s') s := by
  unfold touchSession
  split
  · next hmoves =>
      have hnew : (session.touch d.src d.now d.nowUnix).clientAddr.ip = d.ip := rfl
      have hroom : session.clientAddr.ip ≠ d.ip → s.sessionsFrom d.ip < maxSessionsPerSrcIp := by
        intro hne
        refine huncrowded (fun hauth => absurd ?_ hne) session he hne
        simp only [hauth, Bool.not_true, Bool.false_or, Bool.and_eq_true, decide_eq_true_eq]
          at hmoves
        exact congrArg SocketAddr.ip hmoves.2
      refine (move_capped (o := .entryTouch d.sid d.src d.now d.nowUnix) rfl hnew he hcap
        hroom).mono fun _ s' hs' => ⟨hs'.1, ?_⟩
      intro _ e he' hne
      rw [hs'.2, Option.some.injEq] at he'
      exact absurd (he' ▸ rfl) hne
  · exact ensures_core fun r s' hexec => ⟨hcap.of_same (execRelay_gapless rfl hexec),
      huncrowded.of_sessions (execRelay_neutral rfl hexec).1⟩

theorem createSession_capped (hnone : s.core.sessions.lookup d.sid = none) (hcap : Capped s)
    (hspare : s.core.sessions.size < maxSessionsTotal)
    (hroom : s.sessionsFrom d.ip < maxSessionsPerSrcIp) :
    (createSession d).Ensures (relaySystem env) t
      (fun _ s' => Capped s' ∧ Uncrowded env d s') s := by
  refine ensures_core_bind fun r₁ s₁ hexec₁ => ensures_core_bind fun r₂ s₂ hexec₂ =>
    ensures_core fun r₃ s₃ hexec₃ => ?_
  have hs₁ := execCore_entryInsert (execRelay_core hexec₁).1
  obtain ⟨hgap, hsessions, -⟩ := (Counted.of_exec rfl hexec₂ (gap_countInc hexec₂)).trans
    (.of_exec rfl hexec₃ (gap_activeAdd hexec₃))
  rw [hs₁] at hsessions
  refine ⟨⟨?_, ?_, fun ip => ?_⟩, ?_⟩
  · have hinsert := eq_add_of_sub_eq (gap_entryInsert hexec₁ hnone)
    rw [hgap, hinsert, hcap.exact,
      show (SessionEntry.new d.sid d.src d.now d.nowUnix).clientAddr.ip = d.ip from rfl]
    abel
  · rw [hsessions, Table.size_insert_of_none _ hnone]
    exact hspare
  · rw [RelayState.sessionsFrom, hsessions, Table.count_insert_of_none _ _ hnone]
    split
    · next hip =>
        have hip : d.ip = ip := of_decide_eq_true hip
        exact hip ▸ hroom
    · exact hcap.perSource ip
  · intro _ e he hne
    rw [hsessions, Table.lookup_insert_eq, if_pos rfl, Option.some.injEq] at he
    exact absurd (he ▸ rfl) hne

theorem applyHello_capped (ticket : VerifiedRelayTicket) (hhello : d.isAuthHello = true)
    (hcap : Capped s) (huncrowded : Uncrowded env d s) :
    (applyHello d ticket).Ensures (relaySystem env) t (fun _ s' => Capped s') s := by
  refine ensures_core_bind fun session s₁ hexec => ?_
  have hcap₁ := hcap.of_same (execRelay_gapless rfl hexec)
  obtain ⟨hlookup, hsessions, -⟩ := execCore_getMutLock (execRelay_core hexec).1
  cases session with
  | none => exact Prog.ensures_ret hcap₁
  | some session =>
      have hnew : (session.authenticate ticket d.src d.now d.nowUnix).clientAddr.ip = d.ip := rfl
      refine (move_capped (o := .helloApply d.sid ticket d.src d.now d.nowUnix) rfl hnew
        (by rw [hsessions, ← hlookup]) hcap₁ fun hne => ?_).mono fun _ s' hs' => hs'.1
      rw [RelayState.sessionsFrom, hsessions]
      exact huncrowded (fun _ => hhello) session hlookup.symm hne

theorem rxHello_capped (ticket : Option VerifiedRelayTicket) (hhello : d.isAuthHello = true)
    (hcap : Capped s) (huncrowded : Uncrowded env d s) :
    (rxHello env d ticket).Ensures (relaySystem env) t (fun _ s' => Capped s') s := by
  unfold rxHello
  split
  · exact ensures_gapless (sendAuthAck_gapless _) hcap
  · split
    · exact ensures_gapless (sendAuthAck_gapless _) hcap
    · next ticket =>
        refine ensures_core_bind fun existing s₁ hexec => ?_
        obtain ⟨-, hsame⟩ := execCore_sessionGet (execRelay_core hexec).1
        have hcap₁ := hcap.of_same (execRelay_gapless rfl hexec)
        split
        · exact ensures_gapless (sendAuthAck_gapless _) hcap₁
        · have huncrowded₁ := huncrowded.of_sessions (congrArg CoreState.sessions hsame)
          exact Prog.ensures_bind ((applyHello_capped ticket hhello hcap₁ huncrowded₁).mono
            fun _ s₂ hcap₂ => ensures_gapless (sendAuthAck_gapless _) hcap₂)

/-- The session of a datagram: it is there, or there is room for it under both caps. -/
theorem rxSession_capped (ticket : Option VerifiedRelayTicket) (hcap : Capped s)
    (huncrowded : Uncrowded env d s)
    (hroom : s.core.sessions.lookup d.sid = none →
      s.core.sessions.size < maxSessionsTotal ∧ s.sessionsFrom d.ip < maxSessionsPerSrcIp) :
    (rxSession env d ticket).Ensures (relaySystem env) t (fun _ s' => Capped s') s := by
  have hrest : ∀ authenticated sourceAllowed account (s : RelayState),
      Capped s ∧ Uncrowded env d s →
      (if d.isAuthHello then rxHello env d ticket
        else rxFrame env d authenticated sourceAllowed account).Ensures (relaySystem env) t
          (fun _ s' => Capped s') s := by
    intro authenticated sourceAllowed account s hs
    split
    · next hhello => exact rxHello_capped ticket hhello hs.1 hs.2
    · exact ensures_gapless ((rxFrame_uses _ _).mono fun _ => FrameOp.gapless) hs.1
  refine ensures_core_bind fun session s₁ hexec => ?_
  have hcap₁ := hcap.of_same (execRelay_gapless rfl hexec)
  obtain ⟨hlookup, hsessions, -⟩ := execCore_entryLock (execRelay_core hexec).1
  have huncrowded₁ := huncrowded.of_sessions hsessions
  cases session with
  | some session =>
      exact Prog.ensures_bind ((touchSession_capped (by rw [hsessions, ← hlookup]) hcap₁
        huncrowded₁).mono fun _ s₂ hs₂ => hrest _ _ _ s₂ hs₂)
  | none =>
      obtain ⟨hspare, hroom⟩ := hroom hlookup.symm
      refine Prog.ensures_bind ((createSession_capped (by rw [hsessions, ← hlookup]) hcap₁ ?_
        ?_).mono fun _ s₂ hs₂ => hrest _ _ _ s₂ hs₂)
      · rw [hsessions]
        exact hspare
      · rw [RelayState.sessionsFrom, hsessions]
        exact hroom

/-- A new session is let in only if there is room for it under both caps. -/
theorem newSessionAllowed_capped (hcap : Capped s) :
    (newSessionAllowed d).Ensures (relaySystem env) t
      (fun allowed s' => (Capped s' ∧ s'.core.sessions = s.core.sessions) ∧
        (allowed = true → s.core.sessions.size < maxSessionsTotal ∧
          s.sessionsFrom d.ip < maxSessionsPerSrcIp)) s := by
  have hrefused : ∀ {s₁ : RelayState} reason, Capped s₁ ∧ s₁.core.sessions = s.core.sessions →
      (dropIn reason >>= fun _ => pure false).Ensures (relaySystem env) t
        (fun allowed s' => (Capped s' ∧ s'.core.sessions = s.core.sessions) ∧
          (allowed = true → s.core.sessions.size < maxSessionsTotal ∧
            s.sessionsFrom d.ip < maxSessionsPerSrcIp)) s₁ := by
    intro s₁ reason hs₁
    refine ensures_core_bind fun r s₂ hexec => Prog.ensures_ret ⟨?_, by simp⟩
    obtain ⟨hcap₂, hsessions⟩ := QuietOp.keeps (o := .core (.drop reason)) trivial hexec hs₁.1
    exact ⟨hcap₂, hsessions.trans hs₁.2⟩
  refine ensures_core_bind fun n s₁ hexec₁ => ?_
  have hs₁ := QuietOp.keeps (o := .core .sessionsLen) trivial hexec₁ hcap
  have hn : n = s.core.sessions.size := by
    cases hexec₁
    rfl
  split
  · exact hrefused _ hs₁
  · next hspare =>
      refine ensures_core_bind fun count s₂ hexec₂ => ?_
      obtain ⟨hcap₂, hsessions₂⟩ :=
        QuietOp.keeps (o := .core (.countGet d.ip)) trivial hexec₂ hs₁.1
      have hs₂ : Capped s₂ ∧ s₂.core.sessions = s.core.sessions := ⟨hcap₂, hsessions₂.trans hs₁.2⟩
      have hcount : count = s.sessionsFrom d.ip := by
        have hexact := sessionCount_of_exact hs₁.1.exact d.ip
        rw [RelayState.sessionsFrom, hs₁.2] at hexact
        rw [RelayState.sessionsFrom, ← hexact]
        cases hexec₂
        rfl
      split
      · exact hrefused _ hs₂
      · next hroom =>
          refine ensures_core_bind fun allowed s₃ hexec₃ => ?_
          obtain ⟨hcap₃, hsessions₃⟩ := QuietOp.keeps
            (o := .core (.sourceAllow d.ip .newSession d.now d.casWon)) trivial hexec₃ hs₂.1
          have hs₃ : Capped s₃ ∧ s₃.core.sessions = s.core.sessions :=
            ⟨hcap₃, hsessions₃.trans hs₂.2⟩
          split
          · exact hrefused _ hs₃
          · exact Prog.ensures_ret ⟨hs₃, fun _ =>
              ⟨hn ▸ Nat.lt_of_not_le hspare, hcount ▸ Nat.lt_of_not_le hroom⟩⟩

theorem rxAdmit_capped (ticket : Option VerifiedRelayTicket) (hcap : Capped s)
    (huncrowded : Uncrowded env d s) :
    (rxAdmit env d ticket).Ensures (relaySystem env) t (fun _ s' => Capped s') s := by
  refine ensures_core_bind fun allowed s₁ hexec₁ => ?_
  obtain ⟨hcap₁, hsessions₁⟩ := QuietOp.keeps
    (o := .core (.sourceAllow d.ip .packet d.now d.casWon)) trivial hexec₁ hcap
  split
  · exact ensures_gapless (by simp [RelayOp.gapless, CoreOp.counting]) hcap₁
  · refine ensures_core_bind fun known s₂ hexec₂ => ?_
    obtain ⟨hcap₂, hsessions₂⟩ := QuietOp.keeps
      (o := .core (.sessionContains d.sid)) trivial hexec₂ hcap₁
    obtain ⟨hcontains, -⟩ := execCore_sessionContains (execRelay_core hexec₂).1
    split
    · next hknown =>
        refine rxSession_capped ticket hcap₂ (huncrowded.of_sessions (hsessions₂.trans hsessions₁))
          fun hnone => ?_
        rw [hsessions₂] at hnone
        rw [hnone] at hcontains
        cases hcontains.symm.trans hknown
    · refine Prog.ensures_bind ((newSessionAllowed_capped hcap₂).mono fun allowed s₃ hs₃ => ?_)
      obtain ⟨⟨hcap₃, hsessions₃⟩, hroom⟩ := hs₃
      split
      · next hallowed =>
          refine rxSession_capped ticket hcap₃
            (huncrowded.of_sessions (hsessions₃.trans (hsessions₂.trans hsessions₁))) fun _ => ?_
          rw [RelayState.sessionsFrom, hsessions₃]
          exact hroom hallowed
      · exact Prog.ensures_ret hcap₃

/-- **A pass of the receive loop keeps the caps**, unless it moves a session to a full source. -/
theorem rxPass_capped (hcap : Capped s) (huncrowded : Uncrowded env d s) :
    (rxPass env d).Ensures (relaySystem env) t (fun _ s' => Capped s') s := by
  refine Prog.ensures_of_ends (M := relaySystem env) rxPass_ends_admit
    (fun s' : RelayState => Capped s' ∧ s'.core.sessions = s.core.sessions)
    (fun o ho r s₁ s₂ hexec h => ?_) (fun _ _ h => h.1) ?_ ⟨hcap, rfl⟩
  · obtain ⟨hcap, hsessions⟩ := ho.keeps hexec h.1
    exact ⟨hcap, hsessions.trans h.2⟩
  · rintro p ⟨ticket, rfl⟩ s' ⟨hcap', hsessions⟩
    exact rxAdmit_capped ticket hcap' (huncrowded.of_sessions hsessions)

end Rx

/-! ### The cleanup task -/

section Cleanup

variable {s : RelayState} {i : ℕ}

theorem cleanupSession_capped {p : CleanupPass} {x : SessionId × SessionEntry}
    {entries : List (SessionId × SessionEntry)}
    (hs : Capped s ∧ Visiting env i (x :: entries) s.core.sessions s.core.guards) :
    (cleanupSession env p x).Ensures (relaySystem env) .cleanup
      (fun _ s' => Capped s' ∧ Visiting env i entries s'.core.sessions s'.core.guards) s := by
  obtain ⟨hcap, hvisiting⟩ := hs
  have he := (hvisiting.2.1 x List.mem_cons_self).2
  unfold cleanupSession
  split
  · refine Prog.ensures_bind ((decrement_ensures (sessionCount_pos hcap.exact he)).mono
      fun _ s₁ hdec => ensures_core_bind fun r₂ s₂ hexec₂ => ?_)
    have hcounted := hdec.trans (.of_exec rfl hexec₂ (gap_activeSub hexec₂))
    have hsignal : (signalRemoval env x.1).Uses fun o => ∃ o', o = RelayOp.v2 o' := by
      unfold signalRemoval
      split <;> simp
    refine Prog.ensures_bind ((Prog.ensures_of_uses (M := relaySystem env) hsignal
      (fun s₃ : RelayState => s₃.core = s₂.core) ?_ rfl).mono fun _ s₃ hcore => ?_)
    · rintro _ ⟨o, rfl⟩ r s₃ s₄ hexec hcore
      exact (execRelay_v2 (t := .cleanup) hexec).2.1.trans hcore
    · obtain ⟨hgap, hsessions, hguards⟩ := hcounted
      refine ensures_core fun r s₄ hexec => ?_
      obtain ⟨hsessions₄, hguards₄⟩ := execCore_retainErase (execRelay_core hexec).1
      have he₃ : s₃.core.sessions.lookup x.1 = some x.2 := by rw [hcore, hsessions, he]
      have herase := eq_add_of_sub_eq (gap_retainErase hexec he₃)
      rw [hcore, hsessions] at hsessions₄
      rw [hcore, hguards] at hguards₄
      refine ⟨⟨?_, ?_, fun ip => ?_⟩, ?_⟩
      · rw [herase, (SameSources.of_core hcore).gap, hgap, hcap.exact]
        abel
      · rw [hsessions₄]
        exact (Table.size_erase_le _ _).trans hcap.total
      · have hcount := Table.count_erase (fun e => decide (e.clientAddr.ip = ip)) he
        rw [RelayState.sessionsFrom, hsessions₄]
        exact (Nat.le_of_add_right_le (Nat.le_of_eq hcount)).trans (hcap.perSource ip)
      · rw [hsessions₄, hguards₄]
        exact hvisiting.erase
  · exact Prog.ensures_ret ⟨hcap, hvisiting.tail⟩

/-- **A cleanup pass keeps the caps.** -/
theorem cleanupPass_capped {p : CleanupPass} (hcap : Capped s) :
    (cleanupPass env p).Ensures (relaySystem env) .cleanup (fun _ s' => Capped s') s := by
  have hshard : ∀ (i : ℕ) (s : RelayState), Capped s →
      (retainShard env p i).Ensures (relaySystem env) .cleanup (fun _ s' => Capped s') s := by
    intro i s hcap
    refine ensures_core_bind fun entries s₁ hexec => ?_
    obtain ⟨hentries, hsessions, hguard⟩ := execCore_retainLock (execRelay_core hexec).1
    have hvisiting : Visiting env i entries s₁.core.sessions s₁.core.guards := by
      rw [hsessions, hentries]
      exact visiting_shardEntries hguard
    refine Prog.ensures_bind ((Prog.ensures_forM (M := relaySystem env)
      (fun entries (s : RelayState) => Capped s ∧
        Visiting env i entries s.core.sessions s.core.guards)
      (fun _ _ _ hs => cleanupSession_capped hs)
      ⟨hcap.of_same (execRelay_gapless rfl hexec), hvisiting⟩).mono fun _ s₂ hs₂ => ?_)
    exact ensures_gapless (by simp [RelayOp.gapless, CoreOp.counting]) hs₂.1
  have hretain : ∀ s : RelayState, Capped s →
      (retainSessions env p).Ensures (relaySystem env) .cleanup (fun _ s' => Capped s') s :=
    fun s hcap => Prog.ensures_forM (M := relaySystem env) (fun _ s => Capped s)
      (fun i _ s hcap => hshard i s hcap) hcap
  unfold cleanupPass
  split
  · have huses := retainFlowsV1_uses (φ := fun o => o.gapless = true) (fun _ _ => rfl)
      (fun _ => rfl) env p.now
    exact Prog.ensures_bind ((ensures_gapless huses hcap).mono fun _ s₁ hcap₁ => hretain s₁ hcap₁)
  · exact hretain s hcap

end Cleanup

/-! ### Sessions that move to one source -/

section Moves

variable {d : Datagram} {s : RelayState}

/-- The datagram is an answer to a ping that the relay did not send; it is counted as activity of
its session, and nothing else is done with it. -/
structure Idles (d : Datagram) : Prop where
  len : d.len = pongFrameLen
  frameType : d.frameType = pongFrameType

theorem Idles.isAuthHello (h : Idles d) : d.isAuthHello = false := by
  simp [Datagram.isAuthHello, h.len, h.frameType, pongFrameLen, pongFrameType, authHelloFrameType]

theorem Idles.rxFrame (h : Idles d) (authenticated : Bool) (account : String) :
    rxFrame env d authenticated true account = pure () := by
  simp [SwiftRelay.rxFrame, h.len, h.frameType, pongFrameLen, pongFrameType, pingFrameLen,
    sessionIdLen]

/-- The state after an idle datagram of a new session. -/
def RelayState.withSession (s : RelayState) (d : Datagram) (limiter : SourceRateLimiter Ipv4Addr) :
    RelayState :=
  { s with core := { s.core with
    sessions := s.core.sessions.insert d.sid (.new d.sid d.src d.now d.nowUnix)
    counts := s.core.counts.insert d.ip ((s.core.counts.lookup d.ip).getD 0 + 1)
    activeSessions := s.core.activeSessions + 1
    limiter } }

theorem run_newSession (henv : env.authRequired = false) (hd : Idles d)
    (hnone : s.core.sessions.lookup d.sid = none) (hguards : s.core.guards = fun _ => none)
    (hsize : s.core.sessions.size < maxSessionsTotal)
    (hcount : (s.core.counts.lookup d.ip).getD 0 < maxSessionsPerSrcIp)
    {l₁ l₂ : SourceRateLimiter Ipv4Addr}
    (hpacket : s.core.limiter.allow d.ip .packet d.now d.casWon = (true, l₁))
    (hsession : l₁.allow d.ip .newSession d.now d.casWon = (true, l₂)) :
    (rxPass env d).run (relaySystem env) .rx s = some ((), s.withSession d l₂) := by
  have hlen : ¬d.len < sessionIdLen := by
    rw [hd.len]
    decide
  unfold rxPass rxAdmit newSessionAllowed rxSession createSession incrementSourceSessionCount
  simp [henv, hlen, Prog.run_op, Prog.run_bind, execRelay, execCore, hpacket, hsession, hnone,
    hguards, CoreState.unlocked, CoreState.heldBy, CoreState.lock, CoreState.unlock, hd.isAuthHello,
    hd.rxFrame, Nat.not_le.2 hsize, Nat.not_le.2 hcount, RelayState.withSession]

/-- The state after an idle datagram has moved its session from a source that has no other. -/
def RelayState.withMoved (s : RelayState) (d : Datagram) (e : SessionEntry)
    (limiter : SourceRateLimiter Ipv4Addr) : RelayState :=
  { s with core := { s.core with
    sessions := s.core.sessions.insert d.sid (e.touch d.src d.now d.nowUnix)
    counts := (s.core.counts.erase e.clientAddr.ip).insert d.ip
      (((s.core.counts.erase e.clientAddr.ip).lookup d.ip).getD 0 + 1)
    limiter } }

theorem run_move (henv : env.authRequired = false) (hd : Idles d) {e : SessionEntry}
    (he : s.core.sessions.lookup d.sid = some e) (hguards : s.core.guards = fun _ => none)
    (hne : e.clientAddr.ip ≠ d.ip) (hone : s.core.counts.lookup e.clientAddr.ip = some 1)
    {limiter : SourceRateLimiter Ipv4Addr}
    (hpacket : s.core.limiter.allow d.ip .packet d.now d.casWon = (true, limiter)) :
    (rxPass env d).run (relaySystem env) .rx s = some ((), s.withMoved d e limiter) := by
  have hlen : ¬d.len < sessionIdLen := by
    rw [hd.len]
    decide
  unfold rxPass rxAdmit rxSession touchSession updateSourceSessionCountForRebind
    decrementSourceSessionCount incrementSourceSessionCount
  simp [henv, hlen, Prog.run_op, Prog.run_bind, execRelay, execCore, hpacket, he, hne, hone,
    hguards, CoreState.unlocked, CoreState.heldBy, CoreState.lock, CoreState.unlock,
    CoreState.modify, hd.isAuthHello, hd.rxFrame, authenticatedSessionSourceAllowed,
    RelayState.withMoved]

end Moves

/-- The source to which the sessions move. -/
def crowdedIp : Ipv4Addr := ⟨203, 0, 113, 7⟩

/-- The source from which session `n` comes. -/
def originIp (n : ℕ) : Ipv4Addr := ⟨10, 0, UInt8.ofNat (n / 256), UInt8.ofNat n⟩

/-- An idle datagram of session `n`, when the relay has just started. -/
def idleDatagram (n : ℕ) (ip : Ipv4Addr) : Datagram :=
  sampleDatagram (sessionIdBytes (UInt64.ofNat n) ++ pongFrameType :: List.replicate 20 0)
    pongFrameLen (by simp [sessionIdBytes_length, pongFrameLen, sessionIdLen]) ⟨ip, 40000⟩ 0

theorem idles_idleDatagram (n : ℕ) (ip : Ipv4Addr) : Idles (idleDatagram n ip) := ⟨rfl, rfl⟩

theorem sid_idleDatagram (n : ℕ) (ip : Ipv4Addr) : (idleDatagram n ip).sid = UInt64.ofNat n :=
  sessionIdOf_append _ _

theorem originIp_ne (n : ℕ) : originIp n ≠ crowdedIp := by
  intro h
  cases congrArg Ipv4Addr.a h

theorem originIp_inj {m n : ℕ} (hm : m < 65536) (hn : n < 65536) (h : originIp m = originIp n) :
    m = n := by
  have hc := congrArg (fun ip => ip.c.toNat) h
  have hd := congrArg (fun ip => ip.d.toNat) h
  simp only [originIp, UInt8.toNat_ofNat'] at hc hd
  omega

section Crowd

variable {l : SourceRateLimiter Ipv4Addr} {ip : Ipv4Addr}

theorem pruneIdle_start (l : SourceRateLimiter Ipv4Addr) (casWon : Bool) :
    l.pruneIdle 0 casWon = l := by
  have hnow : SourceRateLimiter.durationMillisU64 (durationSince 0 l.createdAt) = 0 := by
    simp [durationSince, SourceRateLimiter.durationMillisU64]
  unfold SourceRateLimiter.pruneIdle
  simp only [hnow, Nat.zero_sub]
  exact if_pos (by decide)

theorem allow_first (casWon : Bool) (hnone : l.sources.lookup ip = none)
    (hsize : l.sources.size < maxSessionsTotal) :
    l.allow ip .packet 0 casWon =
      (true, { l with sources := l.sources.insert ip ⟨0, 1, 0, 0⟩ }) := by
  simp [SourceRateLimiter.allow, pruneIdle_start, hnone, Nat.not_le.2 hsize, SourceRateState.allow,
    SourceRateState.new, durationSince, sourceRateWindow, secs, maxPacketsPerSourceWindow]

theorem allow_next {n : ℕ} (casWon : Bool) (hsome : l.sources.lookup ip = some ⟨0, n, 0, 0⟩)
    (hn : n < maxPacketsPerSourceWindow) :
    l.allow ip .packet 0 casWon =
      (true, { l with sources := l.sources.insert ip ⟨0, n + 1, 0, 0⟩ }) := by
  simp [SourceRateLimiter.allow, pruneIdle_start, hsome, Nat.not_le.2 hn, SourceRateState.allow,
    durationSince, sourceRateWindow, secs]

theorem allow_session (casWon : Bool) (hsome : l.sources.lookup ip = some ⟨0, 1, 0, 0⟩) :
    l.allow ip .newSession 0 casWon =
      (true, { l with sources := l.sources.insert ip ⟨0, 1, 1, 0⟩ }) := by
  simp [SourceRateLimiter.allow, pruneIdle_start, hsome, SourceRateState.allow,
    durationSince, sourceRateWindow, secs, maxNewSessionsPerSourceWindow]

/-- What is not there before session `n` comes. -/
def Unheard (n : ℕ) (s : RelayState) : Prop :=
  ∀ m, n ≤ m → m < 65536 → s.core.sessions.lookup (UInt64.ofNat m) = none ∧
    s.core.counts.lookup (originIp m) = none ∧
    s.core.limiter.sources.lookup (originIp m) = none

/-- The window of the one source, after at most `n` packets. -/
def Heard (n : ℕ) (s : RelayState) : Prop :=
  s.core.limiter.sources.lookup crowdedIp = none ∨
    ∃ k ≤ n, s.core.limiter.sources.lookup crowdedIp = some ⟨0, k, 0, 0⟩

/-- After `n` sessions have moved to the one source. -/
structure Crowd (n : ℕ) (s : RelayState) : Prop where
  guards : s.core.guards = fun _ => none
  size : s.core.sessions.size = n
  crowded : s.sessionsFrom crowdedIp = n
  sources : s.core.limiter.sources.size ≤ 2 * n
  heard : Heard n s
  unheard : Unheard n s

/-- Session `n` has come from a source of its own. -/
structure Newcomer (n : ℕ) (s : RelayState) : Prop where
  guards : s.core.guards = fun _ => none
  size : s.core.sessions.size = n + 1
  crowded : s.sessionsFrom crowdedIp = n
  sources : s.core.limiter.sources.size ≤ 2 * n + 1
  heard : Heard n s
  unheard : Unheard (n + 1) s
  session : ∃ e, s.core.sessions.lookup (UInt64.ofNat n) = some e ∧ e.clientAddr.ip = originIp n
  count : s.core.counts.lookup (originIp n) = some 1

theorem crowd_new : Crowd 0 (.new (fun _ => 0) 0) where
  guards := rfl
  size := rfl
  crowded := rfl
  sources := le_rfl
  heard := Or.inl rfl
  unheard _ _ _ := ⟨rfl, rfl, rfl⟩

theorem ofNat_ne {m n : ℕ} (hm : m < 65536) (hn : n < 65536) (hne : m ≠ n) :
    UInt64.ofNat m ≠ UInt64.ofNat n := by
  intro h
  have := congrArg UInt64.toNat h
  simp only [UInt64.toNat_ofNat'] at this
  omega

variable {n : ℕ} {s : RelayState}

theorem Crowd.newcomer (h : Crowd n s) (hn : n < 1000) :
    ∃ s', (rxPass openEnv (idleDatagram n (originIp n))).run (relaySystem openEnv) .rx s =
      some ((), s') ∧ Newcomer n s' := by
  obtain ⟨hnone, hcount, hsource⟩ := h.unheard n le_rfl (by omega)
  have hsize : s.core.limiter.sources.size < maxSessionsTotal := by
    have := h.sources
    rw [maxSessionsTotal]
    omega
  have hrun := @run_newSession openEnv (idleDatagram n (originIp n)) s rfl
    (idles_idleDatagram n _) (by rw [sid_idleDatagram, hnone]) h.guards
    (by rw [h.size, maxSessionsTotal]; omega)
    (by
      change (s.core.counts.lookup (originIp n)).getD 0 < _
      rw [hcount]
      decide)
    _ _ (allow_first _ hsource hsize)
    (allow_session _ ((Table.lookup_insert_eq ..).trans (if_pos rfl)))
  generalize hs' : s.withSession (idleDatagram n (originIp n)) _ = s' at hrun
  have hsessions : s'.core.sessions =
      s.core.sessions.insert (UInt64.ofNat n) (.new (UInt64.ofNat n) ⟨originIp n, 40000⟩ 0 0) := by
    rw [← hs', ← sid_idleDatagram n (originIp n)]
    rfl
  have hcounts : s'.core.counts = s.core.counts.insert (originIp n) 1 := by
    rw [← hs']
    change s.core.counts.insert (originIp n) ((s.core.counts.lookup (originIp n)).getD 0 + 1) = _
    rw [hcount]
    rfl
  have hsources : s'.core.limiter.sources =
      (s.core.limiter.sources.insert (originIp n) ⟨0, 1, 0, 0⟩).insert (originIp n)
        ⟨0, 1, 1, 0⟩ := by
    rw [← hs']
    rfl
  refine ⟨s', hrun, ?_, ?_, ?_, ?_, ?_, ?_, ?_, ?_⟩
  · rw [← hs']
    exact h.guards
  · rw [hsessions, Table.size_insert_of_none _ hnone, h.size]
  · have hcrowded := h.crowded
    unfold RelayState.sessionsFrom at hcrowded ⊢
    have hne : ¬decide (originIp n = crowdedIp) = true := by
      simpa using originIp_ne n
    rw [hsessions, Table.count_insert_of_none _ _ hnone, hcrowded]
    exact congrArg (n + ·) (if_neg hne)
  · rw [hsources, Table.size_insert_of_some _ ((Table.lookup_insert_eq ..).trans (if_pos rfl)),
      Table.size_insert_of_none _ hsource]
    exact Nat.succ_le_succ h.sources
  · have hheard := h.heard
    unfold Heard at hheard ⊢
    rwa [hsources, Table.lookup_insert_eq, if_neg (originIp_ne n).symm, Table.lookup_insert_eq,
      if_neg (originIp_ne n).symm]
  · intro m hle hm
    obtain ⟨hnone', hcount', hsource'⟩ := h.unheard m (by omega) hm
    have hip : originIp m ≠ originIp n := fun heq => by
      have := originIp_inj hm (by omega) heq
      omega
    rw [hsessions, hcounts, hsources, Table.lookup_insert_eq,
      if_neg (ofNat_ne hm (by omega) (by omega)), Table.lookup_insert_eq, if_neg hip,
      Table.lookup_insert_eq, if_neg hip, Table.lookup_insert_eq, if_neg hip]
    exact ⟨hnone', hcount', hsource'⟩
  · exact ⟨_, by rw [hsessions, Table.lookup_insert_eq, if_pos rfl], rfl⟩
  · rw [hcounts, Table.lookup_insert_eq, if_pos rfl]

/-- The newcomer moves, whether or not there is room for it. -/
theorem Newcomer.moves (h : Newcomer n s) (hn : n < 1000) :
    ∃ s', (rxPass openEnv (idleDatagram n crowdedIp)).run (relaySystem openEnv) .rx s =
      some ((), s') ∧ Crowd (n + 1) s' := by
  obtain ⟨e, he, hip⟩ := h.session
  have hne : e.clientAddr.ip ≠ crowdedIp := hip ▸ originIp_ne n
  have hone : s.core.counts.lookup e.clientAddr.ip = some 1 := hip ▸ h.count
  obtain ⟨limiter, k, hallow, hk, hsources⟩ : ∃ limiter k,
      s.core.limiter.allow crowdedIp .packet 0 true = (true, limiter) ∧ k ≤ n + 1 ∧
      limiter.sources = s.core.limiter.sources.insert crowdedIp ⟨0, k, 0, 0⟩ := by
    obtain hnone | ⟨k, hk, hsome⟩ := h.heard
    · refine ⟨_, 1, allow_first _ hnone ?_, by omega, rfl⟩
      have := h.sources
      rw [maxSessionsTotal]
      omega
    · refine ⟨_, k + 1, allow_next _ hsome ?_, by omega, rfl⟩
      rw [maxPacketsPerSourceWindow]
      omega
  have hrun := @run_move openEnv (idleDatagram n crowdedIp) s rfl (idles_idleDatagram n _) e
    (by rw [sid_idleDatagram, he]) h.guards hne hone _ hallow
  have hunheard : ∀ m, n + 1 ≤ m → m < 65536 → originIp m ≠ originIp n := by
    intro m hle hm heq
    have := originIp_inj hm (by omega) heq
    omega
  generalize hs' : s.withMoved (idleDatagram n crowdedIp) e limiter = s' at hrun
  have hsessions : s'.core.sessions =
      s.core.sessions.insert (UInt64.ofNat n) (e.touch ⟨crowdedIp, 40000⟩ 0 0) := by
    rw [← hs', ← sid_idleDatagram n crowdedIp]
    rfl
  have hlimiter : s'.core.limiter.sources =
      s.core.limiter.sources.insert crowdedIp ⟨0, k, 0, 0⟩ := by
    rw [← hs', ← hsources]
    rfl
  refine ⟨s', hrun, ?_, ?_, ?_, ?_, ?_, ?_⟩
  · rw [← hs']
    exact h.guards
  · rw [hsessions, Table.size_insert_of_some _ he, h.size]
  · have hcrowded := h.crowded
    unfold RelayState.sessionsFrom at hcrowded ⊢
    have hcount := Table.count_insert_of_some (fun e => decide (e.clientAddr.ip = crowdedIp))
      (e.touch ⟨crowdedIp, 40000⟩ 0 0) he
    rw [if_neg (by simpa using hne), if_pos (by simp [SessionEntry.touch]), hcrowded] at hcount
    rw [hsessions]
    exact hcount
  · have hle := Table.size_insert_le s.core.limiter.sources crowdedIp ⟨0, k, 0, 0⟩
    have := h.sources
    rw [hlimiter]
    omega
  · refine Or.inr ⟨k, hk, ?_⟩
    rw [hlimiter, Table.lookup_insert_eq, if_pos rfl]
  · intro m hle hm
    obtain ⟨hnone, hcount, hsource⟩ := h.unheard m hle hm
    rw [hsessions, hlimiter, Table.lookup_insert_eq,
      if_neg (ofNat_ne hm (by omega) (by omega)), Table.lookup_insert_eq, if_neg (originIp_ne m)]
    refine ⟨hnone, ?_, hsource⟩
    rw [← hs']
    change ((s.core.counts.erase e.clientAddr.ip).insert crowdedIp _).lookup (originIp m) = none
    rw [Table.lookup_insert_eq, if_neg (originIp_ne m), Table.lookup_erase_eq, hip,
      if_neg (hunheard m hle hm), hcount]

/-- Any number of sessions come to the one source, one after another. -/
theorem crowd_reached (hn : n ≤ 1000) :
    ∃ s, (relaySystem openEnv).Sequence (fun _ _ => True) (.new (fun _ => 0) 0) s ∧ Crowd n s := by
  induction n with
  | zero => exact ⟨_, .refl, crowd_new⟩
  | succ n ih =>
      obtain ⟨s, hseq, hcrowd⟩ := ih (by omega)
      obtain ⟨s₁, hrun₁, hnewcomer⟩ := hcrowd.newcomer (by omega)
      obtain ⟨s₂, hrun₂, hcrowd₂⟩ := hnewcomer.moves (by omega)
      have hcomes : (relaySystem openEnv).Pass (.datagram (idleDatagram n (originIp n))) s s₁ :=
        hrun₁
      have hmoves : (relaySystem openEnv).Pass (.datagram (idleDatagram n crowdedIp)) s₁ s₂ := hrun₂
      exact ⟨s₂, (hseq.tail ⟨_, trivial, hcomes⟩).tail ⟨_, trivial, hmoves⟩, hcrowd₂⟩

end Crowd

/-! ### The caps of a run -/

/-- The condition on a pass: if it is one for a datagram, the datagram does not come from a full
source to which its session would have to move. -/
def UncrowdedPass (env : RelayEnv) (s : RelayState) : Act → Prop
  | .datagram d => Uncrowded env d s
  | _ => True

/-- **The caps hold.**  Whatever the mode, in every state that is reached by passes one after
another none of which brings a session to a source that is full, there are at most as many sessions
as the first cap allows, and for each source at most as many as the second one allows. -/
theorem caps_hold_when_uncrowded {bucketOf : Ipv4Addr → ℕ} {createdAt : Instant} {s : RelayState}
    (hrun : (relaySystem env).Sequence (UncrowdedPass env) (.new bucketOf createdAt) s) :
    s.core.sessions.size ≤ maxSessionsTotal ∧
      ∀ ip, (s.core.sessions.count fun e => e.clientAddr.ip = ip) ≤ maxSessionsPerSrcIp := by
  have hcapped : Capped s := by
    refine System.Sequence.invariant (M := relaySystem env) ?_ hrun ⟨?_, Nat.zero_le _, ?_⟩
    · intro a s hcond hcap
      by_cases hrx : a.tid = .rx
      · obtain ⟨d, rfl⟩ := Act.tid_eq_rx hrx
        exact rxPass_capped hcap hcond
      by_cases hcleanup : a.tid = .cleanup
      · obtain ⟨p, rfl⟩ := Act.tid_eq_cleanup hcleanup
        exact cleanupPass_capped hcap
      · have hother : a.tid ∉ counters := by simp [counters, hrx, hcleanup]
        exact ensures_gapless ((prog_uses env a).mono fun _ hmay => gapless_of_may hmay hother) hcap
    · exact gap_new bucketOf createdAt
    · exact fun ip => Nat.zero_le _
  exact ⟨hcapped.total, hcapped.perSource⟩

/-- A session comes from a source of its own and moves to another one. -/
theorem caps_hold_when_uncrowded_sample :
    ∃ s, (relaySystem openEnv).Sequence (UncrowdedPass openEnv) (.new (fun _ => 0) 0) s ∧
      s.sessionsFrom crowdedIp = 1 ∧ s.core.sessions.size ≤ maxSessionsTotal ∧
      ∀ ip, (s.core.sessions.count fun e => e.clientAddr.ip = ip) ≤ maxSessionsPerSrcIp := by
  obtain ⟨s₁, hrun₁, hnewcomer⟩ := crowd_new.newcomer (by decide)
  obtain ⟨s₂, hrun₂, hcrowd⟩ := hnewcomer.moves (by decide)
  have hcomes : (relaySystem openEnv).Pass (.datagram (idleDatagram 0 (originIp 0)))
      (.new (fun _ => 0) 0) s₁ := hrun₁
  have hmoves : (relaySystem openEnv).Pass (.datagram (idleDatagram 0 crowdedIp)) s₁ s₂ := hrun₂
  have hunknown : Uncrowded openEnv (idleDatagram 0 (originIp 0)) (.new (fun _ => 0) 0) := by
    intro _ e he
    cases he
  have hempty : Uncrowded openEnv (idleDatagram 0 crowdedIp) s₁ := by
    intro _ _ _ _
    change s₁.sessionsFrom crowdedIp < maxSessionsPerSrcIp
    rw [hnewcomer.crowded]
    decide
  have hseq : (relaySystem openEnv).Sequence (UncrowdedPass openEnv) (.new (fun _ => 0) 0) s₂ :=
    (Relation.ReflTransGen.single ⟨.datagram _, hunknown, hcomes⟩).tail
      ⟨.datagram _, hempty, hmoves⟩
  exact ⟨s₂, hseq, hcrowd.crowded, caps_hold_when_uncrowded hseq⟩

/-- **The cap of a source is not kept by moves.**  Each of 513 sessions is created from a source of
its own and then sends one datagram from the one source. -/
theorem source_cap_exceeded_by_moves :
    ∃ s, (relaySystem openEnv).Sequence (fun _ _ => True) (.new (fun _ => 0) 0) s ∧
      maxSessionsPerSrcIp < s.core.sessions.count fun e => e.clientAddr.ip = crowdedIp := by
  obtain ⟨s, hseq, hcrowd⟩ := @crowd_reached 513 (by decide)
  refine ⟨s, hseq, ?_⟩
  have hcrowded := hcrowd.crowded
  unfold RelayState.sessionsFrom at hcrowded
  rw [hcrowded]
  decide

end SwiftRelay
