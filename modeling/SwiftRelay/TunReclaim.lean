/-
**Reclaiming the addresses of dead sessions.**

The cleanup finds the addresses of dead sessions by going through `session_to_ip`.  An entry of
`ip_to_session` that has no counterpart there is never found again.  The writer looks a session up,
or inserts it, and updates `ip_to_session` with a second operation; if the session is expired in
between, the second operation leaves such an entry behind.

If the writer never updates `ip_to_session` for a session that has been expired meanwhile, every
owner of an address is listed with it, and one complete pass removes all of a session that nobody
sends packets for.

Main definitions:

* `Unraced` — the writer updates `ip_to_session` for sessions that are listed;
* `Gone` — the session is dead, and no packet of it is taken up;
* `listedContract`, `reclaimContract` — every owner is listed; a pass removes a dead session.

Main results:

* `dead_session_reclaimed` — every run in which the writer is not raced;
* `dead_session_stranded` — a run in which it is.
-/

import SwiftRelay.TunSessions

set_option autoImplicit false

namespace SwiftRelay

open Conc

variable {env : TunEnv}

/-! ### What a packet changes -/

/-- The session that the writer changes an entry of. -/
def TunOp.changes : TunOp → Option SessionId
  | .sessionInsert sid _ => some sid
  | .ipEntry _ mapping => some mapping.sessionId
  | _ => none

/-- The operations for a packet change the session of the packet only. -/
def TunAct.Uses : TunAct → TunOp → Prop
  | .packet pkt, o => o.changes = none ∨ o.changes = some pkt.sessionId
  | .removeExpired _, _ => True

theorem uses_tunProg (a : TunAct) : (a.prog env).Uses a.Uses := by
  cases a with
  | packet pkt =>
      refine (tunWriterPass_uses pkt).mono fun o ho => ?_
      cases o <;> simp_all [TunOp.OfPacket, TunAct.Uses, TunOp.changes, InboundTunPacket.mapping]
  | removeExpired sessionAlive =>
      exact (removeExpired_uses sessionAlive).mono fun _ _ => trivial

/-! ### Every owner is listed -/

/-- The writer updates `ip_to_session` for a session that is listed with this address, and that the
cleanup is not just about to erase. -/
def Unraced (w : TunWorld env) : (tunSystem env).Event → Prop
  | .exec _ (.ipEntry ip mapping) _ _ _ =>
      w.st.sessionToIp.lookup mapping.sessionId = some ip ∧
        ∀ ip', ¬ Expiring w mapping.sessionId ip'
  | _ => True

/-- Every owner of an address is listed with it. -/
def TunState.Listed (s : TunState) : Prop :=
  ∀ ip sid, s.owner ip = some sid → s.sessionToIp.lookup sid = some ip

/-- A session that is inserted was not there, and one that is erased owns no address any more. -/
def listedContract (env : TunEnv) : Contract (tunSystem env) where
  cond w e := Unraced w e ∧ TunInv w ∧ (tunContract env).Allows w e
  inv w := w.st.Listed
  may := (tunContract env).may
  pre _ o w := match o with
    | .sessionInsert sid _ => w.st.sessionToIp.lookup sid = none
    | .retainErase sid => ∀ ip, w.st.owner ip ≠ some sid
    | _ => True
  post _ _ := True

section Listed

variable {w : TunWorld env} {t : TunTid} {o : TunOp} {r : o.Ret} {st : TunState}

theorem listed_exec (hinv : w.st.Listed) (hpre : (listedContract env).pre t o w)
    (hexec : execTun env t o w.st = some (r, st)) (hraced : Unraced w (.exec t o r w.st st)) :
    st.Listed := by
  intro ip sid howner
  cases o with
  | sessionInsert sid' ip' =>
      obtain ⟨-, -, rfl⟩ := System.of_guarded hexec
      have hlookup := hinv ip sid howner
      have hne : sid ≠ sid' := by
        rintro rfl
        rw [show w.st.sessionToIp.lookup sid = none from hpre] at hlookup
        cases hlookup
      rw [Table.lookup_insert_eq, if_neg hne, hlookup]
  | retainErase sid' =>
      obtain ⟨-, rfl, rfl⟩ := System.of_guarded hexec
      have hne : sid ≠ sid' := by
        rintro rfl
        exact hpre ip howner
      rw [Table.lookup_erase_eq, if_neg hne]
      exact hinv ip sid howner
  | ipEntry ip' mapping =>
      obtain ⟨-, -, rfl⟩ | ⟨-, -, rfl⟩ := execTun_ipEntry hexec
      · rw [owner_insert] at howner
        split at howner
        · next hip =>
            cases howner
            rw [hip, hraced.1]
        · exact hinv ip sid howner
      · exact hinv ip sid howner
  | ipRemove sid' ip' =>
      cases hexec
      simp only [TunState.owner, Table.lookup_erase_eq] at howner
      split at howner
      · cases howner
      · exact hinv ip sid howner
  | sessionGet _ | retainLock _ | retainRelease _ =>
      obtain ⟨-, -, rfl⟩ := System.of_guarded hexec
      exact hinv ip sid howner
  | ipGet _ | write _ => cases hexec; exact hinv ip sid howner

/-- An operation of the cleanup does not bring a session back. -/
theorem lookup_none_of_cleanup {s : SessionId} (hmay : o.ofCleanup)
    (hexec : execTun env .cleanup o w.st = some (r, st))
    (hnone : w.st.sessionToIp.lookup s = none) : st.sessionToIp.lookup s = none := by
  rcases execTun_sessionToIp hexec with ⟨sid, ip, rfl, -⟩ | ⟨sid, rfl, hs⟩ | hs
  · exact absurd hmay id
  · rw [hs, Table.lookup_erase_eq, hnone, ite_self]
  · rw [hs, hnone]

theorem stable_unlisted (sid : SessionId) :
    (listedContract env).Stable .writer fun w => w.st.sessionToIp.lookup sid = none := by
  refine .of_exec (fun _ _ h => h) fun w u o r st hne _ hmay _ hexec _ hw => ?_
  cases u with
  | writer => exact absurd rfl hne
  | cleanup => exact lookup_none_of_cleanup hmay hexec hw

/-- While a session is about to be erased, the writer does not make it an owner again. -/
theorem stable_disowned (sid : SessionId) (ip : Ipv4Addr) :
    (listedContract env).Stable .cleanup fun w =>
      (∀ ip', w.st.owner ip' ≠ some sid) ∧ Expiring w sid ip := by
  intro w w' hstep hw
  have hexpiring : Expiring w' sid ip :=
    Contract.Stable.lastOp (C := listedContract env) (t := TunTid.cleanup)
      (fun o => o = some (.ipRemove sid ip)) w w' hstep hw.2
  refine ⟨?_, hexpiring⟩
  cases hstep with
  | start a => exact hw.1
  | exec u o r st hne hinv hmay hpre hexec hcond =>
      cases u with
      | cleanup => exact absurd rfl hne
      | writer =>
          intro ip' howner
          change st.owner ip' = some sid at howner
          rcases execTun_owner hexec with ⟨ip₁, mapping, rfl⟩ | ⟨sid₁, ip₁, rfl, -⟩ | hsame
          · have hexec : execTun env .writer (.ipEntry ip₁ mapping) w.st = some (r, st) := hexec
            obtain ⟨-, -, rfl⟩ | ⟨-, -, rfl⟩ := execTun_ipEntry hexec
            · rw [owner_insert] at howner
              split at howner
              · cases howner
                exact hcond.1.2 ip hw.2
              · exact hw.1 ip' howner
            · exact hw.1 ip' howner
          · exact absurd hmay id
          · exact hw.1 ip' (by rwa [hsame] at howner)

theorem wp_listed_of_uses {α : Type} {p : TunProg α} {φ : TunOp → Prop} (hp : p.Uses φ)
    (hφ : ∀ o, φ o → (∀ sid ip, o ≠ .sessionInsert sid ip) ∧ ∀ sid, o ≠ .retainErase sid)
    (t : TunTid) (w : TunWorld env) : (listedContract env).wp t p (fun _ _ => True) w := by
  refine Contract.wp_of_permitted (hp.mono fun o ho w' _ => ?_)
  obtain ⟨hinsert, herase⟩ := hφ o ho
  cases o with
  | sessionInsert sid ip => exact absurd rfl (hinsert sid ip)
  | retainErase sid => exact absurd rfl (herase sid)
  | _ => trivial

theorem tunIpFor_listed (sid : SessionId) (w : TunWorld env) :
    (listedContract env).wp .writer (tunIpFor sid) (fun _ _ => True) w := by
  unfold tunIpFor
  refine wp_tun _ .true trivial (fun _ _ _ => trivial) fun w₁ r st₁ _ _ hexec _ => ?_
  cases r with
  | some existing => trivial
  | none =>
      -- the session is not there, and stays away until it is inserted
      have hnone : st₁.sessionToIp.lookup sid = none := by
        obtain ⟨-, hlookup, rfl⟩ := System.of_guarded hexec
        exact hlookup.symm
      refine Contract.wp_seq (Contract.wp_of_uses (C := listedContract env)
        (firstFree_gets sid _) (fun w => w.st.sessionToIp.lookup sid = none)
        (stable_unlisted sid) ?_ hnone) ?_
      · rintro o ⟨ip, rfl⟩ w₂ _ hw₂
        refine ⟨trivial, fun r st hexec _ => ?_⟩
        cases hexec
        exact hw₂
      · rintro (_ | ip) w₂ hw₂
        · trivial
        · exact wp_tun _ (stable_unlisted sid) hw₂ (fun _ _ h => h) fun _ _ _ _ _ _ _ => trivial

theorem expireSession_listed (sessionAlive : SessionId → Bool) (e : SessionId × Ipv4Addr)
    (w : TunWorld env) :
    (listedContract env).wp .cleanup (expireSession sessionAlive e) (fun _ _ => True) w := by
  unfold expireSession
  split
  · trivial
  · refine wp_tun _ .true trivial (fun _ _ _ => trivial)
      fun w₁ r st₁ hlisted _ hexec hcond => ?_
    cases hexec
    -- the address was the only one that the session owned
    have hlookup : w₁.st.sessionToIp.lookup e.1 = some e.2 := hcond.2.2.2.2
    refine wp_tun _ (stable_disowned e.1 e.2)
      ⟨fun ip' howner => ?_, System.lastOp_exec_self (M := tunSystem env)⟩
      (fun _ _ h => h.1) fun _ _ _ _ _ _ _ => trivial
    simp only [System.World.after_st, TunState.owner, Table.lookup_erase_eq] at howner
    split at howner
    · cases howner
    · next hne =>
        have hlisted' := hlisted ip' e.1 howner
        rw [hlookup] at hlisted'
        exact hne (Option.some.inj hlisted').symm

theorem listedContract_sound (env : TunEnv) : (listedContract env).Sound where
  start_inv w a hinv _ _ := hinv
  exec_inv w t o r st hinv _ hpre hexec hcond := listed_exec hinv hpre hexec hcond.1
  post_stable t := Contract.Stable.true
  prog_may := (tunContract_sound env).prog_may
  prog_wp w a _ _ _ := by
    cases a with
    | packet pkt =>
        change (listedContract env).wp .writer (tunWriterPass pkt) (fun _ _ => True) _
        unfold tunWriterPass
        simp only [Prog.pure_eq]
        split
        · trivial
        split
        · trivial
        split
        · trivial
        refine Contract.wp_seq (tunIpFor_listed pkt.sessionId _) ?_
        rintro (_ | ip) w' -
        · trivial
        · refine wp_listed_of_uses
            (φ := fun o => (∃ ip mapping, o = .ipEntry ip mapping) ∨ ∃ packet, o = .write packet)
            ?_ ?_ .writer w'
          · simp
          · rintro o (⟨ip, mapping, rfl⟩ | ⟨packet, rfl⟩) <;> simp
    | removeExpired sessionAlive =>
        change (listedContract env).wp .cleanup ((List.range env.shards).forM _) (fun _ _ => True) _
        refine Contract.wp_forM (C := listedContract env) (fun _ _ => True) (fun i _ w _ => ?_)
          trivial
        unfold expireShard
        refine wp_tun _ .true trivial (fun _ _ _ => trivial) fun w₁ entries st₁ _ _ _ _ => ?_
        refine Contract.wp_seq (Contract.wp_forM (C := listedContract env)
          (fun _ _ => True) (fun e _ w _ => expireSession_listed sessionAlive e w) trivial)
          fun _ w₂ _ => ?_
        exact wp_tun _ .true trivial (fun _ _ _ => trivial) fun _ _ _ _ _ _ _ => trivial

end Listed

/-! ### A pass removes a dead session -/

/-- The session is dead for the cleanup, and no packet of it is taken up. -/
def Gone (s : SessionId) : (tunSystem env).Event → Prop
  | .start (.packet pkt) => pkt.sessionId ≠ s
  | .start (.removeExpired sessionAlive) => sessionAlive s = false
  | _ => True

/-- The writer leaves the session alone, and the cleanup has removed it when it is idle. -/
def reclaimContract (env : TunEnv) (s : SessionId) : Contract (tunSystem env) where
  cond _ e := Gone s e
  inv _ := True
  may := (tunContract env).may
  pre t o _ := match t with
    | .writer => o.changes ≠ some s
    | .cleanup => True
  post t w := match t with
    | .writer => True
    | .cleanup => w.st.sessionToIp.lookup s = none

section Reclaim

variable {s : SessionId} {w : TunWorld env}

theorem stable_lookup (φ : Option Ipv4Addr → Prop) :
    (reclaimContract env s).Stable .cleanup fun w => φ (w.st.sessionToIp.lookup s) := by
  refine .of_exec (fun _ _ h => h) fun w u o r st hne _ hmay hpre hexec _ hw => ?_
  cases u with
  | cleanup => exact absurd rfl hne
  | writer =>
      rw [System.World.after_st]
      rcases execTun_sessionToIp hexec with ⟨sid, ip, rfl, -, hs⟩ | ⟨sid, rfl, -⟩ | hs
      · have hsid : s ≠ sid := by
          rintro rfl
          exact hpre rfl
        rwa [hs, Table.lookup_insert_eq, if_neg hsid]
      · exact absurd hmay id
      · rwa [hs]

/-- Programs of the cleanup do not bring a session back. -/
theorem wp_reclaimed {α : Type} {p : TunProg α} (hp : p.Uses TunOp.ofCleanup)
    (hw : w.st.sessionToIp.lookup s = none) :
    (reclaimContract env s).wp .cleanup p
      (fun _ w => w.st.sessionToIp.lookup s = none) w :=
  Contract.wp_of_uses (C := reclaimContract env s) hp _ (stable_lookup (· = none))
    (fun _ ho _ _ hw' => ⟨trivial, fun _ _ hexec _ => lookup_none_of_cleanup ho hexec hw'⟩) hw

theorem wp_reclaim_true {α : Type} {p : TunProg α} (hp : p.Uses TunOp.ofCleanup)
    (w : TunWorld env) : (reclaimContract env s).wp .cleanup p (fun _ _ => True) w :=
  Contract.wp_of_permitted (hp.mono fun _ _ _ _ => trivial)

/-- The entries that are left, if the session is still there. -/
def Pending (s : SessionId) (rest : List (SessionId × Ipv4Addr)) (w : TunWorld env) : Prop :=
  w.st.sessionToIp.lookup s = none ∨ ∃ ip, (s, ip) ∈ rest

variable {sessionAlive : SessionId → Bool}

theorem expireSession_reclaims (hdead : sessionAlive s = false) (e : SessionId × Ipv4Addr)
    (rest : List (SessionId × Ipv4Addr)) (hw : Pending s (e :: rest) w) :
    (reclaimContract env s).wp .cleanup (expireSession sessionAlive e)
      (fun _ => Pending s rest) w := by
  by_cases he : e.1 = s
  · -- the entry of the session
    unfold expireSession
    rw [he, hdead]
    refine wp_tun _ .true trivial (fun _ _ _ => trivial) fun w₁ _ st₁ _ _ _ _ => ?_
    refine wp_tun _ .true trivial (fun _ _ _ => trivial) fun w₂ _ st₂ _ _ hexec _ => .inl ?_
    obtain ⟨-, -, rfl⟩ := System.of_guarded hexec
    rw [System.World.after_st, Table.lookup_erase_eq, if_pos rfl]
  · obtain hnone | ⟨ip, hip⟩ := hw
    · exact Contract.wp_mono (wp_reclaimed (expireSession_cleanup sessionAlive e) hnone)
        fun _ _ => .inl
    · -- another entry: that of the session is still to come
      refine Contract.wp_mono (wp_reclaim_true (expireSession_cleanup sessionAlive e) w)
        fun _ _ _ => .inr ⟨ip, ?_⟩
      rcases List.mem_cons.1 hip with heq | hmem
      · rw [← heq] at he
        exact absurd rfl he
      · exact hmem

theorem TunState.mem_shardEntries {st : TunState} {ip : Ipv4Addr}
    (h : st.sessionToIp.lookup s = some ip) : (s, ip) ∈ st.shardEntries env (env.shardOf s) := by
  refine List.mem_filter.2 ⟨List.mem_map.2 ⟨⟨s, ip⟩, Table.lookup_eq_some_iff.1 h, rfl⟩, ?_⟩
  simp

theorem expireShard_reclaims (hdead : sessionAlive s = false) {i : ℕ} (hi : i = env.shardOf s)
    (w : TunWorld env) :
    (reclaimContract env s).wp .cleanup (expireShard sessionAlive i)
      (fun _ w => w.st.sessionToIp.lookup s = none) w := by
  unfold expireShard
  refine wp_tun _ .true trivial (fun _ _ _ => trivial) fun w₁ entries st₁ _ _ hexec _ => ?_
  obtain ⟨rfl, hs, -⟩ := execTun_retainLock hexec
  have hpending : Pending s (w₁.st.shardEntries env i)
      (w₁.after .cleanup (.retainLock i) (w₁.st.shardEntries env i) st₁) := by
    cases hlookup : w₁.st.sessionToIp.lookup s with
    | none => exact .inl (by rw [System.World.after_st, hs, hlookup])
    | some ip =>
        subst hi
        exact .inr ⟨ip, TunState.mem_shardEntries hlookup⟩
  refine Contract.wp_seq (Contract.wp_forM (C := reclaimContract env s)
    (Pending s) (fun e rest _ h => expireSession_reclaims hdead e rest h) hpending) ?_
  rintro _ w₂ (hnone | ⟨_, hmem⟩)
  · exact wp_reclaimed (Prog.uses_perform.2 trivial) hnone
  · cases hmem

/-- **A complete pass removes a dead session.** -/
theorem removeExpired_reclaims (hdead : sessionAlive s = false) (w : TunWorld env) :
    (reclaimContract env s).wp .cleanup (removeExpired env sessionAlive)
      (fun _ w => w.st.sessionToIp.lookup s = none) w := by
  -- the shard of the session is still to be visited, or the session is gone
  refine Contract.wp_mono (Contract.wp_forM (C := reclaimContract env s)
    (fun rest w => w.st.sessionToIp.lookup s = none ∨ env.shardOf s ∈ rest) ?_
    (.inr (List.mem_range.2 (env.shardOf_lt s)))) ?_
  · intro i rest w₁ hw₁
    by_cases hi : i = env.shardOf s
    · exact Contract.wp_mono (expireShard_reclaims hdead hi w₁) fun _ _ => .inl
    · obtain hnone | hmem := hw₁
      · exact Contract.wp_mono (wp_reclaimed (expireShard_cleanup _ i) hnone) fun _ _ => .inl
      · refine Contract.wp_mono (wp_reclaim_true (expireShard_cleanup _ i) w₁) fun _ _ _ => .inr ?_
        exact (List.mem_cons.1 hmem).resolve_left (Ne.symm hi)
  · rintro _ w₁ (hnone | hmem)
    · exact hnone
    · cases hmem

/-- A program of the writer that leaves the session alone. -/
theorem wp_avoiding {α : Type} {p : TunProg α} (hp : p.Uses fun o : TunOp => o.changes ≠ some s)
    (w : TunWorld env) : (reclaimContract env s).wp .writer p (fun _ _ => True) w :=
  Contract.wp_of_permitted (hp.mono fun _ ho _ _ => ho)

theorem avoids_of_ne {pkt : InboundTunPacket} (hpkt : pkt.sessionId ≠ s) {o : TunOp}
    (ho : (TunAct.packet pkt).Uses o) : o.changes ≠ some s := by
  rintro hs
  rcases ho with hnone | hsome
  · rw [hs] at hnone
    cases hnone
  · rw [hs] at hsome
    exact hpkt (Option.some.inj hsome).symm

theorem reclaimContract_sound (env : TunEnv) (s : SessionId) : (reclaimContract env s).Sound where
  start_inv w a _ _ _ := trivial
  exec_inv w t o r st _ _ _ _ _ := trivial
  post_stable t := by
    cases t with
    | writer => exact Contract.Stable.true
    | cleanup => exact stable_lookup (· = none)
  prog_may := (tunContract_sound env).prog_may
  prog_wp w a _ _ hcond := by
    cases a with
    | packet pkt =>
        have huses : ((TunAct.packet pkt).prog env).Uses (TunAct.packet pkt).Uses := uses_tunProg _
        exact wp_avoiding (huses.mono fun _ => avoids_of_ne hcond) _
    | removeExpired sessionAlive => exact removeExpired_reclaims hcond _

end Reclaim

/-! ### Whole runs -/

/-- The writer is not processing a packet of the session. -/
def Quiet (s : SessionId) (c : (tunSystem env).Config) : Prop :=
  c.ctl .writer = .ret () ∨ ∃ pkt, Writing c.toWorld pkt ∧ pkt.sessionId ≠ s

variable {c : (tunSystem env).Config} {s : SessionId}

/-- While no packet of the session is taken up, none is being processed. -/
theorem quiet_of_run {c' : (tunSystem env).Config}
    (h : (tunSystem env).Run (fun w e => Unraced w e ∧ Gone s e) c c') (hc : Quiet s c) :
    Quiet s c' := by
  induction h with
  | refl => exact hc
  | tail _ hstep ih =>
      obtain ⟨e, ⟨-, hgone⟩, hstep⟩ := hstep
      cases hstep with
      | start a hidle =>
          cases a with
          | packet pkt =>
              exact .inr ⟨pkt, System.lastAct_start_self (M := tunSystem env) (a := .packet pkt),
                hgone⟩
          | removeExpired sessionAlive =>
              have hne : TunTid.writer ≠ (tunSystem env).tidOf (.removeExpired sessionAlive) :=
                TunTid.noConfusion
              refine ih.imp (fun hidle => ?_) fun ⟨pkt, hpkt, hsid⟩ => ⟨pkt, ?_, hsid⟩
              · simpa only [Function.update_of_ne hne] using hidle
              · rw [Writing, System.World.begin_hist,
                  System.lastAct_start_of_ne (M := tunSystem env) (Ne.symm hne)]
                exact hpkt
      | exec u o k r st hctl hexec =>
          obtain hidle | ⟨pkt, hpkt, hne⟩ := ih
          · have hu : TunTid.writer ≠ u := by
              rintro rfl
              rw [hctl] at hidle
              cases hidle
            exact .inl ((Function.update_of_ne hu _ _).trans hidle)
          · exact .inr ⟨pkt, hpkt.after u o r st, hne⟩

/-- The rest of what the writer does leaves the session alone. -/
theorem writer_avoids (h : (tunSystem env).Steps ((tunSystem env).initial .new) c)
    (hquiet : Quiet s c) : (c.ctl .writer).Uses fun o : TunOp => o.changes ≠ some s := by
  obtain hret | ⟨pkt, hpkt, hne⟩ := hquiet
  · rw [hret]
    trivial
  obtain hret | ⟨a, ha, huses⟩ := h.uses_lastAct (fun a => uses_tunProg a) .writer
  · rw [hret]
    trivial
  · obtain rfl : TunAct.packet pkt = a := Option.some.inj (hpkt.symm.trans ha)
    exact huses.mono fun _ => avoids_of_ne hne

/-- A pass begins while no packet of the dead session is being processed. -/
theorem good_of_pass {c' : (tunSystem env).Config}
    (h : (tunSystem env).Steps ((tunSystem env).initial .new) c) (hquiet : Quiet s c)
    {sessionAlive : SessionId → Bool} (hdead : sessionAlive s = false)
    (hstep : (tunSystem env).Step c (.start (.removeExpired sessionAlive)) c') :
    Contract.Sound.Good (reclaimContract env s) c' := by
  cases hstep with
  | start _ hidle =>
      refine ⟨trivial, fun t => ?_⟩
      by_cases ht : t = (tunSystem env).tidOf (.removeExpired sessionAlive)
      · subst ht
        have hmay := (tunContract_sound env).prog_may (.removeExpired sessionAlive)
        simpa only [Function.update_self] using ⟨hmay, removeExpired_reclaims hdead _⟩
      · obtain rfl : t = .writer := by
          cases t with
          | writer => rfl
          | cleanup => exact absurd rfl ht
        have hmay := (((tunContract_sound env).run h tun_good_start).2 .writer).1
        simpa only [Function.update_of_ne ht] using ⟨hmay, wp_avoiding (writer_avoids h hquiet) _⟩

/-- **The addresses of dead sessions are reclaimed**, as long as the writer is not raced.  From a
point on at which no packet of the session is being processed, the session is dead and no packet of
it is taken up; then after a complete pass of the cleanup neither map has an entry for it. -/
theorem dead_session_reclaimed {c₀ c : (tunSystem env).Config} {s : SessionId}
    (h₀ : (tunSystem env).Run Unraced ((tunSystem env).initial .new) c₀) (hquiet : Quiet s c₀)
    (h : (tunSystem env).Run (fun w e => Unraced w e ∧ Gone s e) c₀ c)
    {l : List (tunSystem env).Event} (hl : c.hist = l ++ c₀.hist) {sessionAlive : SessionId → Bool}
    (hpass : .start (.removeExpired sessionAlive) ∈ l) (hidle : c.ctl .cleanup = .ret ()) :
    c.st.sessionToIp.lookup s = none ∧
      ∀ ip m, c.st.ipToSession.lookup ip = some m → m.sessionId ≠ s := by
  have hrun : (tunSystem env).Run Unraced ((tunSystem env).initial .new) c :=
    h₀.trans (h.mono fun _ _ he => he.1)
  have hlisted : c.st.Listed := by
    have hallowed := (tunContract_sound env).run_allowed (fun _ _ _ => trivial) hrun tun_good_start
    exact ((listedContract_sound env).run (hallowed.mono fun _ _ he => ⟨he.1, he.2.2⟩)
      (Contract.Sound.good_initial (fun _ _ howner =>
        absurd howner (by simp [TunState.owner, TunState.new])) fun _ => trivial)).1
  obtain ⟨d, d', hd, ⟨-, hdead⟩, hstep, hd'⟩ := h.split hl hpass
  have hgood := good_of_pass (h₀.steps.trans hd.steps) (quiet_of_run hd hquiet) hdead hstep
  have hnone : c.st.sessionToIp.lookup s = none :=
    Contract.Sound.post_of_idle ((reclaimContract_sound env s).run
      (hd'.mono fun _ _ he => he.2) hgood) hidle
  refine ⟨hnone, fun ip m hm hsid => ?_⟩
  have hlookup := hlisted ip s (by rw [TunState.owner, hm, ← hsid]; rfl)
  rw [hnone] at hlookup
  cases hlookup

/-- The writer updates `ip_to_session` for sessions that are listed, before the cleanup does
anything. -/
def beforeCleanup (w : TunWorld env) : (tunSystem env).Event → Bool
  | .exec _ (.ipEntry ip mapping) _ _ _ =>
      w.st.sessionToIp.lookup mapping.sessionId = some ip &&
        (System.lastOp (M := tunSystem env) .cleanup w.hist).isNone
  | _ => true

theorem unraced_of_beforeCleanup {w : TunWorld env} {e : (tunSystem env).Event}
    (h : beforeCleanup w e = true) : Unraced w e := by
  unfold Unraced
  split
  · next ip mapping _ _ _ =>
      obtain ⟨hlookup, hnone⟩ := Bool.and_eq_true_iff.1 h
      refine ⟨of_decide_eq_true hlookup, fun ip' hexpiring => ?_⟩
      rw [show System.lastOp (M := tunSystem env) .cleanup w.hist = some _ from hexpiring] at hnone
      cases hnone
  · trivial

/-- An operation, not an activation. -/
def isOperation : (tunSystem env).Event → Bool
  | .start _ => false
  | .exec .. => true

theorem gone_of_isOperation {e : (tunSystem env).Event} (h : isOperation e = true) : Gone s e := by
  cases e with
  | start a => cases h
  | exec => trivial

/-- A schedule, and then a pass of the cleanup by itself. -/
def thenPass (env : TunEnv) (allowed : TunWorld env → (tunSystem env).Event → Bool)
    (turns : List (tunSystem env).Turn) (sessionAlive : SessionId → Bool) (n : ℕ) :
    Option ((tunSystem env).Config × (tunSystem env).Config) :=
  (System.Config.replay allowed turns ((tunSystem env).initial .new)).bind fun c₀ =>
    (System.Config.replay (fun w e => allowed w e && isOperation e) [.fire TunTid.cleanup n]
      ⟨c₀.toWorld.begin (.removeExpired sessionAlive),
        Function.update c₀.ctl .cleanup (removeExpired env sessionAlive)⟩).map (Prod.mk c₀)

theorem run_of_thenPass {allowed : TunWorld env → (tunSystem env).Event → Bool}
    {turns : List (tunSystem env).Turn} {sessionAlive : SessionId → Bool} {n : ℕ}
    {c₀ : (tunSystem env).Config} (h : thenPass env allowed turns sessionAlive n = some (c₀, c))
    (hidle : c₀.ctl .cleanup = .ret ()) (hdead : sessionAlive s = false)
    (hstart : allowed c₀.toWorld (.start (.removeExpired sessionAlive)) = true) :
    (tunSystem env).Run (fun w e => allowed w e = true) ((tunSystem env).initial .new) c₀ ∧
    (tunSystem env).Run (fun w e => allowed w e = true ∧ Gone s e) c₀ c ∧
    ∃ l, c.hist = l ++ c₀.hist ∧ .start (.removeExpired sessionAlive) ∈ l := by
  obtain ⟨c₁, h₁, hmap⟩ := Option.bind_eq_some_iff.1 h
  obtain ⟨c₂, h₂, heq⟩ := Option.map_eq_some_iff.1 hmap
  cases heq
  refine ⟨System.Config.run_of_replay h₁,
    System.Run.of_start (M := tunSystem env) (a := .removeExpired sessionAlive) hidle
      ⟨hstart, hdead⟩ ((System.Config.run_of_replay h₂).mono fun _ e he => ?_)⟩
  obtain ⟨hallowed, hop⟩ := Bool.and_eq_true_iff.1 he
  exact ⟨hallowed, gone_of_isOperation hop⟩

/-- What is seen of a configuration: whether the threads are idle, the address of the session, and
the owner of the address. -/
def glance (s : SessionId) (ip : Ipv4Addr) (c : (tunSystem env).Config) :
    (Bool × Bool) × Option Ipv4Addr × Option SessionId :=
  ((System.idle TunTid.writer (c.st, c.ctl), System.idle TunTid.cleanup (c.st, c.ctl)),
    c.st.sessionToIp.lookup s, c.st.owner ip)

theorem idle_of_glance {ip : Ipv4Addr} {found : Option Ipv4Addr × Option SessionId}
    (h : glance s ip c = ((true, true), found)) :
    c.ctl .writer = .ret () ∧ c.ctl .cleanup = .ret () := by
  have hidle := congrArg Prod.fst h
  exact ⟨System.ctl_of_idle (congrArg Prod.fst hidle), System.ctl_of_idle (congrArg Prod.snd hidle)⟩

/-- A session takes an address; when it is dead, a pass of the cleanup gives the address back. -/
theorem dead_session_reclaimed_sample :
    ∃ c₀ c : (tunSystem sampleTunEnv).Config,
      (tunSystem sampleTunEnv).Run Unraced ((tunSystem sampleTunEnv).initial .new) c₀ ∧
      c₀.st.sessionToIp.lookup 0x0102030405060708 = some ⟨10, 200, 1, 2⟩ ∧
      (tunSystem sampleTunEnv).Run (fun w e => Unraced w e ∧ Gone 0x0102030405060708 e) c₀ c ∧
      c.st.sessionToIp.lookup 0x0102030405060708 = none ∧
        ∀ ip m, c.st.ipToSession.lookup ip = some m → m.sessionId ≠ 0x0102030405060708 := by
  have hpass : (thenPass sampleTunEnv beforeCleanup
      [.start (.packet (sampleTunPacket 0x0102030405060708)), .fire .writer 9]
      (fun _ => false) 9).map (Prod.map (glance 0x0102030405060708 ⟨10, 200, 1, 2⟩)
        (glance 0x0102030405060708 ⟨10, 200, 1, 2⟩)) =
      some (((true, true), some ⟨10, 200, 1, 2⟩, some 0x0102030405060708),
        (true, true), none, none) := by
    decide +kernel
  obtain ⟨⟨c₀, c⟩, hc, hglance⟩ := Option.map_eq_some_iff.1 hpass
  obtain ⟨hglance₀, hglance⟩ := Prod.mk.inj hglance
  obtain ⟨hwriter, hcleanup⟩ := idle_of_glance hglance₀
  obtain ⟨h₀, h, l, hl, hmem⟩ :=
    run_of_thenPass hc hcleanup (s := 0x0102030405060708) rfl rfl
  have h₀ := h₀.mono fun _ _ he => unraced_of_beforeCleanup he
  have h := h.mono fun _ _ he => And.intro (unraced_of_beforeCleanup he.1) he.2
  exact ⟨c₀, c, h₀, congrArg (fun x => x.2.1) hglance₀, h,
    dead_session_reclaimed h₀ (.inl hwriter) h hl hmem (idle_of_glance hglance).2⟩

/-- The writer finds the address of a session that is dead meanwhile.  The cleanup removes the
session; then the writer enters the address again.  The next pass of the cleanup does not find it,
although the writer is done and there is no packet of the session any more. -/
theorem dead_session_stranded :
    ∃ c₀ c : (tunSystem sampleTunEnv).Config,
      (tunSystem sampleTunEnv).Steps ((tunSystem sampleTunEnv).initial .new) c₀ ∧
      Quiet 0x0102030405060708 c₀ ∧
      (tunSystem sampleTunEnv).Run (fun _ e => Gone 0x0102030405060708 e) c₀ c ∧
      (∃ l, c.hist = l ++ c₀.hist ∧ .start (.removeExpired fun _ => false) ∈ l) ∧
      c.ctl .cleanup = .ret () ∧
      ∃ m, c.st.ipToSession.lookup ⟨10, 200, 1, 2⟩ = some m ∧
        m.sessionId = 0x0102030405060708 := by
  have hpass : (thenPass sampleTunEnv (fun _ _ => true)
      [.start (.packet (sampleTunPacket 0x0102030405060708)), .fire .writer 9,
        .start (.packet (sampleTunPacket 0x0102030405060708)), .fire .writer 1,
        .start (.removeExpired fun _ => false), .fire .cleanup 9, .fire .writer 9]
      (fun _ => false) 9).map (Prod.map (glance 0x0102030405060708 ⟨10, 200, 1, 2⟩)
        (glance 0x0102030405060708 ⟨10, 200, 1, 2⟩)) =
      some (((true, true), none, some 0x0102030405060708),
        (true, true), none, some 0x0102030405060708) := by
    decide +kernel
  obtain ⟨⟨c₀, c⟩, hc, hglance⟩ := Option.map_eq_some_iff.1 hpass
  obtain ⟨hglance₀, hglance⟩ := Prod.mk.inj hglance
  obtain ⟨hwriter, hcleanup⟩ := idle_of_glance hglance₀
  obtain ⟨h₀, h, hl⟩ := run_of_thenPass hc hcleanup (s := 0x0102030405060708) rfl rfl
  have howner : c.st.owner ⟨10, 200, 1, 2⟩ = some 0x0102030405060708 :=
    congrArg (fun x => x.2.2) hglance
  exact ⟨c₀, c, h₀.steps, .inl hwriter, h.mono fun _ _ he => he.2, hl,
    (idle_of_glance hglance).2, Option.map_eq_some_iff.1 howner⟩

end SwiftRelay
