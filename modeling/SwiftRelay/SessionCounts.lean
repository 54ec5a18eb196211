/-
**The session counts.**

The relay counts the sessions of each source address, and all sessions, next to the session map.
The map and the counters are never updated together, so the counters are off while the receive loop
or the cleanup task is in the middle of a pass.  The *gap* says by how much, and each thread settles
what it owes before its pass ends — unless `decrement_source_session_count`, which looks at a
counter first and removes it afterwards, removes a counter that has changed in between.

Main definitions:

* `gap` — how far the counters are from the session map;
* `RemovesLast` — a counter is removed only where it stands at one;
* `countContract` — the contract: the gap is what the two threads owe.

Main results:

* `execRelay_gapless` and the lemmas after it — what each operation does to the gap;
* `countContract_sound` — the contract holds of the relay;
* `counts_exact_when_removals_last` — the counters are exact whenever both threads are idle.
-/

import Mathlib.Algebra.Group.Pi.Basic
import Mathlib.Data.BitVec
import Mathlib.Tactic.Abel
import SwiftRelay.Drift
import SwiftRelay.Hellos

set_option autoImplicit false

namespace SwiftRelay

open Conc

variable {env : RelayEnv}

/-! ### The gap -/

/-- The number of sessions whose endpoint has the given address. -/
def RelayState.sessionsFrom (s : RelayState) (ip : Ipv4Addr) : ℕ :=
  s.core.sessions.count fun e => e.clientAddr.ip = ip

/-- The counter of a source address. -/
def RelayState.sessionCount (s : RelayState) (ip : Ipv4Addr) : ℕ := (s.core.counts.lookup ip).getD 0

abbrev Gap := (Ipv4Addr → ℤ) × BitVec 64

/-- One session of a source that is not counted for the source. -/
def Gap.source (ip : Ipv4Addr) : Gap := (Pi.single ip 1, 0)

/-- One session that is not counted among all sessions. -/
def Gap.total : Gap := (0, 1)

/-- What the counters lack: for each source, and for all sessions together. -/
def gap (s : RelayState) : Gap :=
  (fun ip => s.sessionsFrom ip - s.sessionCount ip,
    BitVec.ofNat 64 s.core.sessions.size - s.core.activeSessions.toBitVec)

theorem gap_new (bucketOf : Ipv4Addr → ℕ) (createdAt : Instant) :
    gap (.new bucketOf createdAt) = 0 :=
  Prod.ext (funext fun _ => rfl) (by simp [gap, RelayState.new, CoreState.new])

/-- The operations that leave the gap as it is. -/
def RelayOp.gapless : RelayOp → Bool
  | .core (.entryInsert ..) | .core (.entryTouch ..) | .core (.helloApply ..) => false
  | .core (.retainErase _) => false
  | .core o => !o.counting
  | _ => true

/-- Two states with as many sessions of each source and the same counters. -/
structure SameSources (s s' : RelayState) : Prop where
  sessionsFrom : ∀ ip, s'.sessionsFrom ip = s.sessionsFrom ip
  size : s'.core.sessions.size = s.core.sessions.size
  counts : s'.core.counts = s.core.counts
  active : s'.core.activeSessions = s.core.activeSessions

variable {s s' : RelayState}

theorem SameSources.gap (h : SameSources s s') : gap s' = gap s := by
  simp only [SwiftRelay.gap, RelayState.sessionCount, h.sessionsFrom, h.size, h.counts, h.active]

theorem SameSources.of_core (h : s'.core = s.core) : SameSources s s' :=
  ⟨fun ip => by rw [RelayState.sessionsFrom, h, RelayState.sessionsFrom], by rw [h], by rw [h],
    by rw [h]⟩

section Effects

variable {t : Tid} {sid : SessionId} {e : SessionEntry} {r : Unit}
  {ip : Ipv4Addr}

/-- Overwriting an entry moves a session from one source to another. -/
theorem gap_modify {o : CoreOp} {r : o.Ret} {f : SessionEntry → SessionEntry}
    (hmod : o.modifies = some (sid, f)) (h : execRelay env t (.core o) s = some (r, s'))
    (he : s.core.sessions.lookup sid = some e) :
    gap s' - gap s = .source (f e).clientAddr.ip - .source e.clientAddr.ip := by
  have hcore := (execRelay_core h).1
  have hcounting : o.counting = false := by cases o <;> simp_all [CoreOp.modifies, CoreOp.counting]
  obtain ⟨hcounts, hactive⟩ := execCore_counts hcore hcounting
  have hs : s'.core.sessions = s.core.sessions.insert sid (f e) := by
    rw [(execCore_modifies hmod hcore).2]
    simp only [CoreState.modify, he]
  refine Prod.ext (funext fun ip => ?_) ?_
  · have hcount := Table.count_insert_of_some (fun e => decide (e.clientAddr.ip = ip)) (f e) he
    simp only [gap, RelayState.sessionsFrom, RelayState.sessionCount, hs, hcounts, Gap.source,
      Prod.fst_sub, Pi.sub_apply, Pi.single_apply, decide_eq_true_eq, eq_comm (a := ip)] at hcount ⊢
    split at hcount <;> split at hcount <;> simp_all
    omega
  · simp [gap, hs, hactive, Table.size_insert_of_some _ he, Gap.source]

theorem execRelay_gapless {o : RelayOp} {r : o.Ret} (ho : o.gapless = true)
    (h : execRelay env t o s = some (r, s')) : SameSources s s' := by
  rcases o with o | o | o
  · have hcore := (execRelay_core h).1
    have hcounting : o.counting = false := by
      cases o <;> simp_all [RelayOp.gapless, CoreOp.counting]
    obtain ⟨hcounts, hactive⟩ := execCore_counts hcore hcounting
    rcases execCore_sessions hcore with ⟨sid, e, rfl, -⟩ | ⟨sid, rfl, -⟩ |
      ⟨sid, f, e, hmod, -, he, hs⟩ | hs
    · cases ho
    · cases ho
    · have haddr : (f e).clientAddr = e.clientAddr := by
        cases o <;> simp only [RelayOp.gapless, CoreOp.modifies, reduceCtorEq, Bool.false_eq_true,
          Option.some.injEq, Prod.mk.injEq] at ho hmod <;> obtain ⟨-, rfl⟩ := hmod
        · exact observe_clientAddr e _
        · rfl
      refine ⟨fun ip => ?_, by rw [hs, Table.size_insert_of_some _ he], hcounts, hactive⟩
      have hcount := Table.count_insert_of_some (fun e => decide (e.clientAddr.ip = ip)) (f e) he
      rw [haddr] at hcount
      rw [RelayState.sessionsFrom, hs]
      exact Nat.add_right_cancel hcount
    · exact ⟨fun ip => by rw [RelayState.sessionsFrom, hs, RelayState.sessionsFrom], by rw [hs],
        hcounts, hactive⟩
  · exact .of_core (execRelay_v1 h).2.1
  · exact .of_core (execRelay_v2 h).2.1

theorem gap_entryInsert (h : execRelay env t (.core (.entryInsert sid e)) s = some (r, s'))
    (hnone : s.core.sessions.lookup sid = none) :
    gap s' - gap s = .source e.clientAddr.ip + .total := by
  have hcore := (execRelay_core h).1
  obtain ⟨hcounts, hactive⟩ := execCore_counts hcore rfl
  have hs := execCore_entryInsert hcore
  refine Prod.ext (funext fun ip => ?_) ?_
  · have hcount := Table.count_insert_of_none (fun e => decide (e.clientAddr.ip = ip)) e hnone
    simp only [gap, RelayState.sessionsFrom, RelayState.sessionCount, hs, hcounts, Gap.source,
      Gap.total, hcount, Prod.fst_sub, Prod.fst_add, Pi.sub_apply, Pi.add_apply, Pi.single_apply,
      decide_eq_true_eq, eq_comm (a := ip)]
    split <;> simp
  · simp [gap, hs, hactive, Table.size_insert_of_none _ hnone, Gap.source, Gap.total,
      BitVec.ofNat_add]

theorem gap_retainErase (h : execRelay env t (.core (.retainErase sid)) s = some (r, s'))
    (he : s.core.sessions.lookup sid = some e) :
    gap s' - gap s = -(.source e.clientAddr.ip + .total) := by
  have hcore := (execRelay_core h).1
  obtain ⟨hcounts, hactive⟩ := execCore_counts hcore rfl
  have hs := (execCore_retainErase hcore).1
  refine Prod.ext (funext fun ip => ?_) ?_
  · have hcount := Table.count_erase (fun e => decide (e.clientAddr.ip = ip)) he
    simp only [gap, RelayState.sessionsFrom, RelayState.sessionCount, hs, hcounts, Gap.source,
      Gap.total, ← hcount, Prod.fst_sub, Prod.fst_add, Prod.fst_neg, Pi.sub_apply, Pi.add_apply,
      Pi.neg_apply, Pi.single_apply, decide_eq_true_eq, eq_comm (a := ip)]
    split <;> simp
  · simp [gap, hs, hactive, ← Table.size_erase he, Gap.source, Gap.total, BitVec.ofNat_add]

/-- An operation on the counters closes the gap by what it adds to them. -/
theorem gap_counting {o : CoreOp} {r : o.Ret} (ho : o.counting = true)
    (h : execRelay env t (.core o) s = some (r, s')) {x : Gap}
    (hcount : ∀ ip, (s'.sessionCount ip : ℤ) + x.1 ip = s.sessionCount ip)
    (hactive : s'.core.activeSessions.toBitVec + x.2 = s.core.activeSessions.toBitVec) :
    gap s' - gap s = x := by
  have hs := (execCore_counting ho (execRelay_core h).1).1
  refine Prod.ext (funext fun ip => ?_) ?_
  · have := hcount ip
    simp only [gap, RelayState.sessionsFrom, hs, Prod.fst_sub, Pi.sub_apply]
    omega
  · simp only [gap, hs, Prod.snd_sub, ← hactive]
    abel

theorem gap_countDec {r : Bool} (h : execRelay env t (.core (.countDec ip)) s = some (r, s')) :
    gap s' - gap s = if r then .source ip else 0 := by
  obtain ⟨hactive, ⟨rfl, count, hcount, hs⟩ | ⟨rfl, -, hs⟩⟩ :=
    execCore_countDec (execRelay_core h).1
  · refine gap_counting rfl h (fun ip' => ?_) (by simp [hactive, Gap.source])
    by_cases hip : ip' = ip
    · subst hip
      simp [RelayState.sessionCount, hs, hcount, Gap.source, Table.lookup_insert_eq]
    · simp [RelayState.sessionCount, hs, hip, Gap.source, Table.lookup_insert_eq]
  · exact gap_counting rfl h (fun ip' => by simp [RelayState.sessionCount, hs]) (by simp [hactive])

theorem gap_countRemove (h : execRelay env t (.core (.countRemove ip)) s = some (r, s'))
    (hone : s.core.counts.lookup ip = some 1) : gap s' - gap s = .source ip := by
  obtain ⟨hactive, hs⟩ := execCore_countRemove (execRelay_core h).1
  refine gap_counting rfl h (fun ip' => ?_) (by simp [hactive, Gap.source])
  by_cases hip : ip' = ip
  · subst hip
    simp [RelayState.sessionCount, hs, hone, Gap.source, Table.lookup_erase_eq]
  · simp [RelayState.sessionCount, hs, hip, Gap.source, Table.lookup_erase_eq]

theorem gap_countInc (h : execRelay env t (.core (.countInc ip)) s = some (r, s')) :
    gap s' - gap s = -.source ip := by
  obtain ⟨hactive, hs⟩ := execCore_countInc (execRelay_core h).1
  refine gap_counting rfl h (fun ip' => ?_) (by simp [hactive, Gap.source])
  by_cases hip : ip' = ip
  · subst hip
    simp [RelayState.sessionCount, hs, Gap.source, Table.lookup_insert_eq]
  · simp [RelayState.sessionCount, hs, hip, Gap.source, Table.lookup_insert_eq]

theorem gap_activeAdd (h : execRelay env t (.core .activeAdd) s = some (r, s')) :
    gap s' - gap s = -.total := by
  obtain ⟨hactive, hs⟩ := execCore_activeAdd (execRelay_core h).1
  refine gap_counting rfl h (fun ip => by simp [RelayState.sessionCount, hs, Gap.total]) ?_
  rw [hactive, UInt64.toBitVec_add]
  exact add_neg_cancel_right _ _

theorem gap_activeSub (h : execRelay env t (.core .activeSub) s = some (r, s')) :
    gap s' - gap s = .total := by
  obtain ⟨hactive, hs⟩ := execCore_activeSub (execRelay_core h).1
  exact gap_counting rfl h (fun ip => by simp [RelayState.sessionCount, hs, Gap.total])
    (by simp [hactive, Gap.total])

end Effects

/-! ### The contract -/

/-- A counter is removed only where it stands at one. -/
def RemovesLast (w : RelayWorld env) : RelayEvent env → Prop
  | .exec _ (.core (.countRemove ip)) _ _ _ => w.st.core.counts.lookup ip = some 1
  | _ => True

/-- The threads that write the session map and the counters. -/
def counters : Finset Tid := {.rx, .cleanup}

/-- What thread `t` owes to the counters. -/
def Owes (t : Tid) (x : Gap) (w : RelayWorld env) : Prop :=
  System.drift (M := relaySystem env) gap t w.hist = x

/-- The gap is what the two threads owe, and the session map has not outgrown its limit. -/
structure CountInv (w : RelayWorld env) : Prop where
  balanced : System.Balanced (M := relaySystem env) gap counters w
  bounded : w.st.core.sessions.size ≤ maxSessionsTotal

/-- A session is inserted where there is none and where there is room. -/
def countPre : RelayOp → RelayWorld env → Prop
  | .core (.entryInsert sid _), w =>
      w.st.core.sessions.lookup sid = none ∧ w.st.core.sessions.size < maxSessionsTotal
  | _, _ => True

variable (env) in
/-- The contract of the counters. -/
def countContract : Contract (relaySystem env) where
  cond := RemovesLast
  inv := CountInv
  may := may
  pre := fun _ => countPre
  post := fun t w => t ∈ counters → Owes t 0 w

theorem stable_owes (t : Tid) (x : Gap) : (countContract env).Stable t (Owes t x) :=
  Contract.Stable.drift

variable {t : Tid} {w : RelayWorld env} {o : RelayOp} {r : o.Ret} {st : RelayState} {x : Gap}

theorem Owes.after (h : Owes t x w) {y : Gap} (hgap : gap st - gap w.st = y) :
    Owes t (y + x) (w.after t o r st : RelayWorld env) := by
  unfold Owes at h ⊢
  rw [System.World.after_hist, System.drift_exec_self (M := relaySystem env), hgap, h]

/-- The threads that do not write the session map leave the gap as it is. -/
theorem gapless_of_may (hmay : may t o) (ht : t ∉ counters) : o.gapless = true := by
  rcases o with o | o | o
  · cases t <;> simp [counters] at ht <;> cases o <;>
      simp_all [may, RelayOp.gapless, CoreOp.counting, CoreOp.ofSender, CoreOp.ofFlow]
  · rfl
  · rfl

theorem size_exec (h : execRelay env t o s = some (r, s')) :
    s'.core.sessions.size ≤ s.core.sessions.size ∨
      ∃ sid e, o = .core (.entryInsert sid e) ∧
        s'.core.sessions = s.core.sessions.insert sid e := by
  rcases o with o | o | o
  · rcases execCore_sessions (execRelay_core h).1 with ⟨sid, e, rfl, -, hs⟩ | ⟨sid, rfl, -, hs⟩ |
      ⟨sid, f, e, -, -, he, hs⟩ | hs
    · exact Or.inr ⟨sid, e, rfl, hs⟩
    · refine Or.inl ?_
      rw [hs]
      exact Table.size_erase_le _ _
    · exact Or.inl (Nat.le_of_eq (by rw [hs, Table.size_insert_of_some _ he]))
    · exact Or.inl (Nat.le_of_eq (by rw [hs]))
  · exact Or.inl (Nat.le_of_eq (by rw [(execRelay_v1 h).2.1]))
  · exact Or.inl (Nat.le_of_eq (by rw [(execRelay_v2 h).2.1]))

theorem countInv_exec (hinv : CountInv w) (hmay : may t o) (hpre : countPre o w)
    (hexec : execRelay env t o w.st = some (r, st)) :
    CountInv (w.after t o r st : RelayWorld env) := by
  constructor
  · by_cases ht : t ∈ counters
    · exact hinv.balanced.after ht o r st
    · exact hinv.balanced.after_of_eq ht (execRelay_gapless (gapless_of_may hmay ht) hexec).gap
  · rcases size_exec hexec with hle | ⟨sid, e, rfl, hs⟩
    · exact hle.trans hinv.bounded
    · rw [System.World.after_st, hs, Table.size_insert_of_none _ hpre.1]
      exact hpre.2

/-! ### Programs that settle what they owe -/

theorem countPre_of_gapless (ho : o.gapless = true) : countPre o w := by
  unfold countPre
  split
  · cases ho
  · trivial

theorem Owes.gapless (h : Owes t x w) (ho : o.gapless = true)
    (hexec : execRelay env t o w.st = some (r, st)) :
    Owes t x (w.after t o r st : RelayWorld env) := by
  have hafter := h.after (o := o) (r := r) (sub_eq_zero.2 (execRelay_gapless ho hexec).gap)
  rwa [zero_add] at hafter

theorem wp_gapless {α : Type} {p : RelayProg α} (hp : p.Uses fun o : RelayOp => o.gapless = true)
    (hw : Owes t x w) : (countContract env).wp t p (fun _ w => Owes t x w) w :=
  Contract.wp_of_uses hp _ (stable_owes t x)
    (fun _ ho _ _ hw => ⟨countPre_of_gapless ho, fun _ _ hexec _ => hw.gapless ho hexec⟩) hw

/-- A program that leaves the gap as it is, and another one after it. -/
theorem wp_gapless_bind {α β : Type} {p : RelayProg α} {f : α → RelayProg β}
    {Q : β → RelayWorld env → Prop} (hp : p.Uses fun o : RelayOp => o.gapless = true)
    (hw : Owes t x w) (hf : ∀ a w, Owes t x w → (countContract env).wp t (f a) Q w) :
    (countContract env).wp t (p >>= f) Q w :=
  Contract.wp_seq (wp_gapless hp hw) hf

section Counting

variable {t : Tid} {w : RelayWorld env} {x : Gap}
  {φ : Table SessionId SessionEntry → (ℕ → Option Tid) → Prop}

/-- What a thread owes, with a fact about the session map and its locks. -/
def OwesWith (t : Tid) (x : Gap) (φ : Table SessionId SessionEntry → (ℕ → Option Tid) → Prop)
    (w : RelayWorld env) : Prop :=
  Owes t x w ∧ φ w.st.core.sessions w.st.core.guards

theorem OwesWith.after (h : OwesWith t x φ w) {o : CoreOp} (ho : o.counting = true) {r : o.Ret}
    {st : RelayState} (hexec : execRelay env t (.core o) w.st = some (r, st)) {y : Gap}
    (hgap : gap st - gap w.st = y) :
    OwesWith t (y + x) φ (w.after t (.core o) r st : RelayWorld env) := by
  obtain ⟨hsessions, hguards⟩ := execCore_counting ho (execRelay_core hexec).1
  refine ⟨h.1.after hgap, ?_⟩
  rw [System.World.after_st, hsessions, hguards]
  exact h.2

variable (hφ : (countContract env).Stable t fun w => φ w.st.core.sessions w.st.core.guards)

include hφ

theorem stable_owesWith (x : Gap) : (countContract env).Stable t (OwesWith t x φ) :=
  (stable_owes t x).and hφ

theorem wp_counting {o : CoreOp} (ho : o.counting = true) (hw : OwesWith t x φ w) {y : o.Ret → Gap}
    (hgap : ∀ (w' : RelayWorld env) r st, execRelay env t (.core o) w'.st = some (r, st) →
      RemovesLast w' (.exec t (.core o) r w'.st st) → gap st - gap w'.st = y r) :
    (countContract env).wp t (core o) (fun r w => OwesWith t (y r + x) φ w) w := by
  refine wp_core _ (stable_owesWith hφ x) hw ?_ ?_
  · intro w' _ _
    cases o <;> trivial
  · intro w' r st _ hw' hexec hcond
    exact hw'.after ho hexec (hgap w' r st hexec hcond)

theorem decrement_wp (ip : Ipv4Addr) (hw : OwesWith t x φ w) :
    (countContract env).wp t (decrementSourceSessionCount ip)
      (fun _ w => OwesWith t (.source ip + x) φ w) w := by
  refine Contract.wp_seq (wp_counting hφ rfl hw fun _ _ _ hexec _ => gap_countDec hexec) ?_
  intro lowered w hw
  cases lowered with
  | true => exact hw
  | false =>
      rw [if_neg Bool.false_ne_true, zero_add] at hw
      exact wp_counting hφ rfl hw fun _ _ _ hexec hcond => gap_countRemove hexec hcond

theorem increment_wp (ip : Ipv4Addr) (hw : OwesWith t x φ w) :
    (countContract env).wp t (incrementSourceSessionCount ip)
      (fun _ w => OwesWith t (-.source ip + x) φ w) w :=
  wp_counting hφ rfl hw fun _ _ _ hexec _ => gap_countInc hexec

/-- A session moves from the counter of one source to that of another. -/
theorem rebind_counts_wp (oldIp newIp : Ipv4Addr) (hw : OwesWith t x φ w) :
    (countContract env).wp t (updateSourceSessionCountForRebind oldIp newIp)
      (fun _ w => OwesWith t (.source oldIp - .source newIp + x) φ w) w := by
  unfold updateSourceSessionCountForRebind
  by_cases hip : oldIp = newIp
  · subst hip
    rw [if_pos rfl, sub_self, zero_add]
    exact hw
  · rw [if_neg hip]
    refine Contract.wp_seq (decrement_wp hφ oldIp hw) fun _ w hw => ?_
    refine Contract.wp_mono (increment_wp hφ newIp hw) fun _ w hw => ?_
    convert hw using 1
    abel

end Counting

/-! ### The receive loop -/

section Rx

variable {d : Datagram} {w : RelayWorld env}

/-- There is a session `sid`, or room for one. -/
def Room (sid : SessionId) (w : RelayWorld env) : Prop :=
  (w.st.core.sessions.lookup sid).isSome = true ∨ w.st.core.sessions.size < maxSessionsTotal

/-- The other threads make room or leave the sessions in place. -/
theorem sessions_of_other {t : Tid} {o : RelayOp} {r : o.Ret} {s s' : RelayState}
    (h : execRelay env t o s = some (r, s')) (hmay : may t o) (hne : t ≠ .rx) :
    s'.core.sessions.size < s.core.sessions.size ∨
      (s'.core.sessions.size = s.core.sessions.size ∧ ∀ sid,
        (s'.core.sessions.lookup sid).isSome = (s.core.sessions.lookup sid).isSome) := by
  rcases o with o | o | o
  · rcases execCore_sessions (execRelay_core h).1 with ⟨sid, e, rfl, -⟩ | ⟨sid, rfl, -, hs⟩ |
      ⟨sid, f, e, -, -, he, hs⟩ | hs
    · cases t <;> simp_all [may, CoreOp.ofCleanup, CoreOp.ofSender, CoreOp.ofFlow]
    · cases he : s.core.sessions.lookup sid with
      | none =>
          rw [Table.erase_of_none he] at hs
          exact Or.inr ⟨by rw [hs], fun _ => by rw [hs]⟩
      | some e =>
          have hsize := Table.size_erase he
          rw [← hs] at hsize
          exact Or.inl (by omega)
    · refine Or.inr ⟨by rw [hs, Table.size_insert_of_some _ he], fun sid' => ?_⟩
      rw [hs, Table.lookup_insert_eq]
      split
      · next hsid => simp [hsid, he]
      · rfl
    · exact Or.inr ⟨by rw [hs], fun _ => by rw [hs]⟩
  · exact Or.inr ⟨by rw [(execRelay_v1 h).2.1], fun _ => by rw [(execRelay_v1 h).2.1]⟩
  · exact Or.inr ⟨by rw [(execRelay_v2 h).2.1], fun _ => by rw [(execRelay_v2 h).2.1]⟩

theorem stable_room (sid : SessionId) : (countContract env).Stable .rx (Room sid) := by
  refine .of_exec (fun _ _ hw => hw) fun w u o r st hne hinv hmay _ hexec _ hw => ?_
  have hbound := hinv.bounded
  rcases sessions_of_other hexec hmay hne with hlt | ⟨hsize, hsome⟩
  · exact Or.inr (Nat.lt_of_lt_of_le hlt hbound)
  · exact hw.imp (fun h => (hsome sid).trans h)
      fun h => Nat.lt_of_le_of_lt (Nat.le_of_eq hsize) h

theorem stable_spare : (countContract env).Stable .rx fun w =>
    w.st.core.sessions.size < maxSessionsTotal := by
  refine .of_exec (fun _ _ hw => hw) fun w u o r st hne hinv hmay _ hexec _ hw => ?_
  rcases sessions_of_other hexec hmay hne with hlt | ⟨hsize, -⟩
  · exact Nat.lt_trans hlt hw
  · exact Nat.lt_of_le_of_lt (Nat.le_of_eq hsize) hw

variable (env) in
/-- Thread `t` holds the lock of session `sid`, whose entry is `x`. -/
def LockedIn (t : Tid) (sid : SessionId) (x : Option SessionEntry)
    (sessions : Table SessionId SessionEntry) (guards : ℕ → Option Tid) : Prop :=
  guards (env.dashShardOf sid) = some t ∧ sessions.lookup sid = x

theorem stable_lockedIn (t : Tid) (sid : SessionId) (x : Option SessionEntry) :
    (countContract env).Stable t fun w =>
      LockedIn env t sid x w.st.core.sessions w.st.core.guards :=
  stable_locked _ t sid x

/-- The source of a locked session changes along with the counters. -/
theorem move_wp {o : CoreOp} {sid : SessionId} {f : SessionEntry → SessionEntry}
    (hmod : o.modifies = some (sid, f)) {session : SessionEntry} {newIp : Ipv4Addr}
    (hnew : (f session).clientAddr.ip = newIp)
    (hw : OwesWith .rx 0 (LockedIn env .rx sid (some session)) w) :
    (countContract env).wp .rx
      (updateSourceSessionCountForRebind session.clientAddr.ip newIp >>= fun _ => core o)
      (fun _ w => Owes .rx 0 w) w := by
  have hstable := @stable_lockedIn env .rx sid (some session)
  refine Contract.wp_seq (rebind_counts_wp hstable _ newIp hw) fun _ w hw => ?_
  refine wp_core _ (stable_owesWith hstable _) hw ?_ ?_
  · intro w' _ _
    cases o <;> trivial
  · intro w' r st _ hw' hexec _
    have howes := hw'.1.after (gap_modify hmod hexec hw'.2.2) (o := .core o) (r := r)
    rw [hnew] at howes
    convert howes using 1
    abel

theorem QuietOp.gapless {o : RelayOp} (h : QuietOp o) : o.gapless = true := by
  rcases o with o | o | o
  · cases o <;> simp_all [QuietOp, RelayOp.gapless, CoreOp.counting]
  · rfl
  · rfl

theorem FrameOp.gapless {d : Datagram} {account : String} {o : RelayOp} (h : FrameOp d account o) :
    o.gapless = true := by
  rcases o with o | o | o
  · cases o <;> simp_all [FrameOp, RelayOp.gapless, CoreOp.counting]
  · rfl
  · rfl

theorem sendAuthAck_gapless (status : AckStatus) :
    (sendAuthAck env d status).Uses fun o : RelayOp => o.gapless = true :=
  uses_core_bind rfl fun _ => (sendControl_uses _).mono fun _ => QuietOp.gapless

theorem applyHello_counts_wp (ticket : VerifiedRelayTicket) (hw : Owes .rx 0 w) :
    (countContract env).wp .rx (applyHello d ticket) (fun _ w => Owes .rx 0 w) w := by
  refine wp_core_bind _ (stable_owes .rx 0) hw (fun _ _ _ => trivial) ?_
  intro w' session st _ hw' hexec _
  have howes := hw'.gapless rfl hexec
  obtain ⟨hlookup, hsessions, hguard⟩ := execCore_getMutLock (execRelay_core hexec).1
  cases session with
  | none => exact howes
  | some session =>
      refine move_wp rfl rfl ⟨howes, hguard rfl, ?_⟩
      rw [System.World.after_st, hsessions, ← hlookup]

theorem rxHello_counts_wp (ticket : Option VerifiedRelayTicket) (hw : Owes .rx 0 w) :
    (countContract env).wp .rx (rxHello env d ticket) (fun _ w => Owes .rx 0 w) w := by
  unfold rxHello
  split
  · exact wp_gapless (sendAuthAck_gapless _) hw
  · split
    · exact wp_gapless (sendAuthAck_gapless _) hw
    · next ticket =>
        refine wp_core_bind _ (stable_owes .rx 0) hw (fun _ _ _ => trivial) ?_
        intro w' existing st _ hw' hexec _
        have howes := hw'.gapless rfl hexec
        split
        · exact wp_gapless (sendAuthAck_gapless _) howes
        · exact Contract.wp_seq (applyHello_counts_wp ticket howes)
            fun _ w hw => wp_gapless (sendAuthAck_gapless _) hw

theorem touchSession_counts_wp {session : SessionEntry}
    (hw : OwesWith .rx 0 (LockedIn env .rx d.sid (some session)) w) :
    (countContract env).wp .rx (touchSession env d session) (fun _ w => Owes .rx 0 w) w := by
  unfold touchSession
  split
  · exact move_wp rfl rfl hw
  · exact wp_gapless (by simp [RelayOp.gapless, CoreOp.counting]) hw.1

theorem createSession_counts_wp (hw : OwesWith .rx 0 (LockedIn env .rx d.sid none) w)
    (hspare : w.st.core.sessions.size < maxSessionsTotal) :
    (countContract env).wp .rx (createSession d) (fun _ w => Owes .rx 0 w) w := by
  have hstable := (stable_owesWith (@stable_lockedIn env .rx d.sid none) 0).and stable_spare
  have htrue : (countContract env).Stable .rx fun _ => True := Contract.Stable.true
  refine wp_core_bind _ hstable ⟨hw, hspare⟩ ?_ ?_
  · exact fun w' _ hw' => ⟨hw'.1.2.2, hw'.2⟩
  · intro w' r st _ hw' hexec _
    have howes := hw'.1.1.after (gap_entryInsert hexec hw'.1.2.2)
      (o := .core (.entryInsert d.sid (.new d.sid d.src d.now d.nowUnix))) (r := r)
    refine Contract.wp_seq
      (increment_wp (φ := fun _ _ => True) htrue d.ip ⟨howes, trivial⟩) fun _ w hw => ?_
    refine Contract.wp_mono (wp_counting (φ := fun _ _ => True) htrue rfl hw
      fun _ _ _ hexec _ => gap_activeAdd hexec) fun _ w hw => ?_
    have hdone := hw.1
    rw [show (SessionEntry.new d.sid d.src d.now d.nowUnix).clientAddr.ip = d.ip from rfl] at hdone
    convert hdone using 1
    abel

theorem rxSession_counts_wp (ticket : Option VerifiedRelayTicket)
    (hw : Owes .rx 0 w ∧ Room d.sid w) :
    (countContract env).wp .rx (rxSession env d ticket) (fun _ w => Owes .rx 0 w) w := by
  have hrest : ∀ authenticated sourceAllowed account (w : RelayWorld env), Owes .rx 0 w →
      (countContract env).wp .rx (if d.isAuthHello then rxHello env d ticket
        else rxFrame env d authenticated sourceAllowed account) (fun _ w => Owes .rx 0 w) w := by
    intro authenticated sourceAllowed account w hw
    split
    · exact rxHello_counts_wp ticket hw
    · exact wp_gapless ((rxFrame_uses _ _).mono fun _ => FrameOp.gapless) hw
  refine wp_core_bind _ ((stable_owes .rx 0).and (stable_room d.sid)) hw (fun _ _ _ => trivial) ?_
  intro w' session st _ hw' hexec _
  obtain ⟨hlookup, hsessions, hguard⟩ := execCore_entryLock (execRelay_core hexec).1
  have howes : OwesWith .rx 0 (LockedIn env .rx d.sid session)
      (w'.after .rx (.core (.entryLock d.sid)) session st) := by
    refine ⟨hw'.1.gapless rfl hexec, hguard, ?_⟩
    rw [System.World.after_st, hsessions, hlookup]
  cases session with
  | some session =>
      exact Contract.wp_seq (touchSession_counts_wp howes) fun _ w hw => hrest _ _ _ w hw
  | none =>
      have hspare : w'.st.core.sessions.size < maxSessionsTotal :=
        hw'.2.resolve_left (by simp [← hlookup])
      exact Contract.wp_seq
        (createSession_counts_wp howes (by rw [System.World.after_st, hsessions]; exact hspare))
        fun _ w hw => hrest _ _ _ w hw

/-- A new session is let in only if there is room for it. -/
theorem newSessionAllowed_wp (hw : Owes .rx 0 w) :
    (countContract env).wp .rx (newSessionAllowed d)
      (fun allowed w => Owes .rx 0 w ∧
        (allowed = true → w.st.core.sessions.size < maxSessionsTotal)) w := by
  refine wp_core_bind _ (stable_owes .rx 0) hw (fun _ _ _ => trivial) ?_
  intro w' n st _ hw' hexec _
  have howes := hw'.gapless rfl hexec
  have hn : n = st.core.sessions.size := by
    cases hexec
    rfl
  by_cases hfull : n ≥ maxSessionsTotal
  · rw [if_pos hfull]
    exact wp_gapless_bind (by simp [RelayOp.gapless, CoreOp.counting]) howes
      fun _ w hw => ⟨hw, by simp⟩
  · rw [if_neg hfull]
    have hspare : st.core.sessions.size < maxSessionsTotal := hn ▸ Nat.lt_of_not_le hfull
    have hrest := (Prog.uses_ite.1 ((newSessionAllowed_quiet (d := d)).2 n)).2 hfull
    refine Contract.wp_mono (Contract.wp_of_uses hrest _ ((stable_owes .rx 0).and stable_spare) ?_
      ⟨howes, hspare⟩) fun _ w hw => ⟨hw.1, fun _ => hw.2⟩
    intro o ho w _ hw
    refine ⟨countPre_of_gapless ho.gapless, fun r st hexec _ => ?_⟩
    refine ⟨hw.1.gapless ho.gapless hexec, ?_⟩
    rw [System.World.after_st, (execRelay_neutral ho.neutral hexec).1]
    exact hw.2

theorem rxAdmit_counts_wp (ticket : Option VerifiedRelayTicket) (hw : Owes .rx 0 w) :
    (countContract env).wp .rx (rxAdmit env d ticket) (fun _ w => Owes .rx 0 w) w := by
  refine wp_core_bind _ (stable_owes .rx 0) hw (fun _ _ _ => trivial) ?_
  intro w' allowed st _ hw' hexec _
  have howes := hw'.gapless rfl hexec
  split
  · exact wp_gapless (by simp [RelayOp.gapless, CoreOp.counting]) howes
  · refine wp_core_bind _ (stable_owes .rx 0) howes (fun _ _ _ => trivial) ?_
    intro w'' known st _ hw'' hexec _
    have howes := hw''.gapless rfl hexec
    split
    · next hknown =>
        obtain ⟨hcontains, hsame⟩ := execCore_sessionContains (execRelay_core hexec).1
        refine rxSession_counts_wp ticket ⟨howes, Or.inl ?_⟩
        rw [System.World.after_st, hsame, ← hcontains, hknown]
    · refine Contract.wp_seq (newSessionAllowed_wp howes) fun allowed w hw => ?_
      split
      · next hallowed => exact rxSession_counts_wp ticket ⟨hw.1, Or.inr (hw.2 hallowed)⟩
      · exact hw.1

theorem rxPass_counts_wp (hw : Owes .rx 0 w) :
    (countContract env).wp .rx (rxPass env d) (fun _ w => Owes .rx 0 w) w := by
  refine Contract.wp_of_ends rxPass_ends_admit _ (stable_owes .rx 0) (fun o ho w _ hw => ?_)
    (fun _ _ hw => hw) ?_ hw
  · exact ⟨countPre_of_gapless ho.gapless, fun _ _ hexec _ => hw.gapless ho.gapless hexec⟩
  · rintro p ⟨ticket, rfl⟩ w hw
    exact rxAdmit_counts_wp ticket hw

end Rx

/-! ### The cleanup task -/

section Cleanup

variable {w : RelayWorld env} {i : ℕ}

variable (env) in
/-- The cleanup task holds the lock of shard `i`, and has still to visit the given entries. -/
def Visiting (i : ℕ) (entries : List (SessionId × SessionEntry))
    (sessions : Table SessionId SessionEntry) (guards : ℕ → Option Tid) : Prop :=
  guards i = some .cleanup ∧
    (∀ x ∈ entries, env.dashShardOf x.1 = i ∧ sessions.lookup x.1 = some x.2) ∧
    (entries.map Prod.fst).Nodup

theorem stable_visiting (i : ℕ) (entries : List (SessionId × SessionEntry)) :
    (countContract env).Stable .cleanup fun w =>
      Visiting env i entries w.st.core.sessions w.st.core.guards := by
  refine .of_exec (fun _ _ hw => hw) fun w u o r st hne _ _ _ hexec _ hw => ?_
  obtain ⟨hguard, hentries, hnodup⟩ := hw
  refine ⟨execRelay_guard hexec hne hguard, fun x hx => ?_, hnodup⟩
  obtain ⟨hshard, hlookup⟩ := hentries x hx
  exact ⟨hshard, (execRelay_locked hexec hne (by rw [hshard, hguard])).trans hlookup⟩

variable {x : SessionId × SessionEntry} {entries : List (SessionId × SessionEntry)}
  {guards : ℕ → Option Tid}

theorem Visiting.tail {sessions : Table SessionId SessionEntry}
    (h : Visiting env i (x :: entries) sessions guards) : Visiting env i entries sessions guards :=
  ⟨h.1, fun y hy => h.2.1 y (List.mem_cons_of_mem x hy), (List.nodup_cons.1 h.2.2).2⟩

theorem Visiting.erase {sessions : Table SessionId SessionEntry}
    (h : Visiting env i (x :: entries) sessions guards) :
    Visiting env i entries (sessions.erase x.1) guards := by
  refine ⟨h.1, fun y hy => ?_, h.tail.2.2⟩
  have hne : y.1 ≠ x.1 := by
    intro heq
    exact (List.nodup_cons.1 h.2.2).1 (heq ▸ List.mem_map_of_mem hy)
  rw [Table.lookup_erase_eq, if_neg hne]
  exact h.tail.2.1 y hy

/-- The entries of a shard are to be visited once it is locked. -/
theorem visiting_shardEntries {s : CoreState} (hguard : guards i = some .cleanup) :
    Visiting env i (s.shardEntries env i) s.sessions guards := by
  refine ⟨hguard, ?_, ?_⟩
  · intro x hx
    simp only [CoreState.shardEntries, List.mem_filter, List.mem_map, decide_eq_true_eq] at hx
    obtain ⟨⟨e, he, rfl⟩, hshard⟩ := hx
    exact ⟨hshard, Table.lookup_eq_some_iff.2 he⟩
  · have hkeys : (s.sessions.entries.map fun e => (e.1, e.2)).map Prod.fst =
        s.sessions.entries.keys := by
      rw [List.map_map]
      rfl
    refine List.Sublist.nodup ((List.filter_sublist).map Prod.fst) ?_
    rw [hkeys]
    exact s.sessions.nodupKeys

theorem cleanupSession_counts_wp {p : CleanupPass}
    (hw : OwesWith .cleanup 0 (Visiting env i (x :: entries)) w) :
    (countContract env).wp .cleanup (cleanupSession env p x)
      (fun _ w => OwesWith .cleanup 0 (Visiting env i entries) w) w := by
  have hstable := @stable_visiting env i (x :: entries)
  unfold cleanupSession
  split
  · refine Contract.wp_seq (decrement_wp hstable _ hw) fun _ w hw => ?_
    refine Contract.wp_seq (wp_counting hstable rfl hw
      fun _ _ _ hexec _ => gap_activeSub hexec) fun _ w hw => ?_
    have hsignal : (signalRemoval env x.1).Uses fun o => ∃ o', o = RelayOp.v2 o' := by
      unfold signalRemoval
      split <;> simp
    refine Contract.wp_seq
      (Contract.wp_of_uses hsignal _ (stable_owesWith hstable _) ?_ hw) fun _ w hw => ?_
    · rintro _ ⟨o, rfl⟩ w _ hw
      refine ⟨trivial, fun r st hexec _ => ⟨hw.1.gapless rfl hexec, ?_⟩⟩
      have hcore : st.core = w.st.core := (execRelay_v2 (t := .cleanup) hexec).2.1
      rw [System.World.after_st, hcore]
      exact hw.2
    · refine wp_core _ (stable_owesWith hstable _) hw (fun _ _ _ => trivial) ?_
      intro w' r st _ hw' hexec _
      obtain ⟨hsessions, hguards⟩ := execCore_retainErase (execRelay_core hexec).1
      have howes := hw'.1.after (gap_retainErase hexec (hw'.2.2.1 x List.mem_cons_self).2)
        (o := .core (.retainErase x.1)) (r := r)
      refine ⟨?_, ?_⟩
      · convert howes using 1
        abel
      · rw [System.World.after_st, hsessions, hguards]
        exact hw'.2.erase
  · exact ⟨hw.1, hw.2.tail⟩

theorem cleanupPass_counts_wp {p : CleanupPass} (hw : Owes .cleanup 0 w) :
    (countContract env).wp .cleanup (cleanupPass env p) (fun _ w => Owes .cleanup 0 w) w := by
  have hshard : ∀ (i : ℕ) (w : RelayWorld env), Owes .cleanup 0 w →
      (countContract env).wp .cleanup (retainShard env p i) (fun _ w => Owes .cleanup 0 w) w := by
    intro i w hw
    refine wp_core_bind _ (stable_owes .cleanup 0) hw (fun _ _ _ => trivial) ?_
    intro w' entries st _ hw' hexec _
    obtain ⟨hentries, hsessions, hguard⟩ := execCore_retainLock (execRelay_core hexec).1
    have hvisiting : OwesWith .cleanup 0 (Visiting env i entries)
        (w'.after .cleanup (.core (.retainLock i)) entries st) := by
      refine ⟨hw'.gapless rfl hexec, ?_⟩
      rw [System.World.after_st, hsessions, hentries]
      exact visiting_shardEntries hguard
    refine Contract.wp_seq (Contract.wp_forM
      (fun entries w => OwesWith .cleanup 0 (Visiting env i entries) w)
      (fun x entries w hw => cleanupSession_counts_wp hw) hvisiting) fun _ w hw => ?_
    exact wp_gapless (by simp [RelayOp.gapless, CoreOp.counting]) hw.1
  have hretain : ∀ w : RelayWorld env, Owes .cleanup 0 w →
      (countContract env).wp .cleanup (retainSessions env p) (fun _ w => Owes .cleanup 0 w) w :=
    fun w hw => Contract.wp_forM (fun _ w => Owes .cleanup 0 w) (fun i _ w hw => hshard i w hw) hw
  unfold cleanupPass
  split
  · exact wp_gapless_bind (retainFlowsV1_uses (fun _ _ => rfl) (fun _ => rfl) env p.now) hw
      fun _ w hw => hretain w hw
  · exact hretain w hw

end Cleanup

/-! ### The counters of a run -/

theorem countContract_sound : (countContract env).Sound where
  start_inv := fun w a hinv hpost _ => ⟨hinv.balanced.begin hpost, hinv.bounded⟩
  exec_inv := fun w t o r st hinv hmay hpre hexec _ => countInv_exec hinv hmay hpre hexec
  post_stable := fun t => Contract.Stable.imp fun _ => stable_owes t 0
  prog_may := prog_uses env
  prog_wp := by
    intro w a _ _ _
    have howes : Owes a.tid 0 (w.begin a : RelayWorld env) :=
      System.drift_start_self (M := relaySystem env)
    by_cases hrx : a.tid = .rx
    · obtain ⟨d, rfl⟩ := Act.tid_eq_rx hrx
      exact Contract.wp_mono (rxPass_counts_wp howes) fun _ _ h _ => h
    by_cases hcleanup : a.tid = .cleanup
    · obtain ⟨p, rfl⟩ := Act.tid_eq_cleanup hcleanup
      exact Contract.wp_mono (cleanupPass_counts_wp howes) fun _ _ h _ => h
    · have hother : a.tid ∉ counters := by simp [counters, hrx, hcleanup]
      exact Contract.wp_mono (wp_gapless ((prog_uses env a).mono fun _ hmay =>
        gapless_of_may hmay hother) howes) fun _ _ h _ => h

/-- **The counters are exact.**  In every run in which a counter is removed only where it stands at
one, whenever the receive loop and the cleanup task are idle, the counter of each source is the
number of sessions whose endpoint has that address, and the number of active sessions is the number
of sessions. -/
theorem counts_exact_when_removals_last {bucketOf : Ipv4Addr → ℕ} {createdAt : Instant}
    {c : (relaySystem env).Config}
    (hrun : (relaySystem env).Run RemovesLast (relayStart env bucketOf createdAt) c)
    (hrx : c.ctl .rx = .ret ()) (hcleanup : c.ctl .cleanup = .ret ()) :
    (∀ ip, (c.st.core.counts.lookup ip).getD 0 =
      c.st.core.sessions.count fun e => e.clientAddr.ip = ip) ∧
    c.st.core.activeSessions.toNat = c.st.core.sessions.size := by
  have hgood : Contract.Sound.Good (countContract env) c := by
    refine countContract_sound.run hrun (Contract.Sound.good_initial ⟨?_, ?_⟩ ?_)
    · simp [System.Balanced, gap_new]
    · exact Nat.zero_le _
    · exact fun t _ => rfl
  have hzero : gap c.st = 0 := by
    refine hgood.1.balanced.eq_zero fun t ht => ?_
    simp only [counters, Finset.mem_insert, Finset.mem_singleton] at ht
    rcases ht with rfl | rfl
    · exact Contract.Sound.post_of_idle hgood hrx (by simp [counters])
    · exact Contract.Sound.post_of_idle hgood hcleanup (by simp [counters])
  constructor
  · intro ip
    have hsource := congrFun (congrArg Prod.fst hzero) ip
    simp only [gap, RelayState.sessionsFrom, RelayState.sessionCount, Prod.fst_zero,
      Pi.zero_apply] at hsource
    omega
  · have htotal := sub_eq_zero.1 (congrArg Prod.snd hzero)
    have hbound : c.st.core.sessions.size < 2 ^ 64 :=
      Nat.lt_of_le_of_lt hgood.1.bounded (by decide)
    rw [← UInt64.toNat_toBitVec, ← htotal, BitVec.toNat_ofNat, Nat.mod_eq_of_lt hbound]

/-- The test of `RemovesLast`. -/
def removesLast : System.Test (relaySystem openEnv)
  | _, .core (.countRemove ip), s => decide (s.core.counts.lookup ip = some 1)
  | _, _, _ => true

theorem removesLast_of_passes {w : RelayWorld openEnv} {e : RelayEvent openEnv}
    (h : System.Passes removesLast w e) : RemovesLast w e := by
  unfold RemovesLast
  split
  · exact of_decide_eq_true h
  · trivial

/-- A session is created and removed, and another one of the same source is created. -/
theorem counts_exact_when_removals_last_sample :
    ∃ c, (relaySystem openEnv).Run RemovesLast openStart c ∧ c.ctl .rx = .ret () ∧
      c.ctl .cleanup = .ret () ∧ c.st.core.sessions.size = 1 ∧
      (∀ ip, (c.st.core.counts.lookup ip).getD 0 =
        c.st.core.sessions.count fun e => e.clientAddr.ip = ip) ∧
      c.st.core.activeSessions.toNat = c.st.core.sessions.size := by
  have hstart : System.Reaches removesLast openStart (openStart.st, openStart.ctl) :=
    ⟨openStart, Relation.ReflTransGen.refl, rfl, rfl⟩
  obtain ⟨c, hrun, hc⟩ := hstart.follow
    [.start (.datagram (sampleKeepalive 1 sampleClient 0)), .fire .rx 30,
      .start (.cleanup ⟨secs 700, 700⟩), .fire .cleanup 30,
      .start (.datagram (sampleKeepalive 2 sampleClient 700)), .fire .rx 30] (by decide +kernel)
  have hrun := hrun.mono fun _ _ => removesLast_of_passes
  have hrx : c.ctl .rx = .ret () := by
    rw [hc.2]
    exact System.ctl_of_idle (by decide +kernel)
  have hcleanup : c.ctl .cleanup = .ret () := by
    rw [hc.2]
    exact System.ctl_of_idle (by decide +kernel)
  have hsize : c.st.core.sessions.size = 1 :=
    (congrArg (fun s => s.core.sessions.size) hc.1).trans (by decide +kernel)
  exact ⟨c, hrun, hrx, hcleanup, hsize, counts_exact_when_removals_last hrun hrx hcleanup⟩

/-- While the cleanup task, which has found the counter of a source at one, is about to remove it,
the receive loop counts a new session of the same source. -/
theorem count_lost_between_check_and_removal :
    ∃ c, (relaySystem openEnv).Steps openStart c ∧ c.ctl .rx = .ret () ∧
      c.ctl .cleanup = .ret () ∧ (c.st.core.counts.lookup sampleClient.ip).getD 0 = 0 ∧
      (c.st.core.sessions.count fun e => e.clientAddr.ip = sampleClient.ip) = 1 := by
  have hstart : System.Reaches System.free openStart (openStart.st, openStart.ctl) :=
    ⟨openStart, Relation.ReflTransGen.refl, rfl, rfl⟩
  obtain ⟨c, hrun, hc⟩ := hstart.follow
    [.start (.datagram (sampleKeepalive 1 sampleClient 0)), .fire .rx 30,
      .start (.cleanup ⟨secs 700, 700⟩), .fire .cleanup 4,
      .start (.datagram (sampleKeepalive 2 sampleClient 700)), .fire .rx 30,
      .fire .cleanup 30] (by decide +kernel)
  have hlost : (c.st.core.counts.lookup sampleClient.ip).getD 0 = 0 :=
    (congrArg (fun s => (s.core.counts.lookup sampleClient.ip).getD 0) hc.1).trans
      (by decide +kernel)
  have hleft : (c.st.core.sessions.count fun e => e.clientAddr.ip = sampleClient.ip) = 1 :=
    (congrArg (fun s => s.core.sessions.count fun e => e.clientAddr.ip = sampleClient.ip)
      hc.1).trans (by decide +kernel)
  refine ⟨c, hrun.steps, ?_, ?_, hlost, hleft⟩
  · rw [hc.2]
    exact System.ctl_of_idle (by decide +kernel)
  · rw [hc.2]
    exact System.ctl_of_idle (by decide +kernel)

end SwiftRelay
