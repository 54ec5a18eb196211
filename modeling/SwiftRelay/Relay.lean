/-
**The relay as a system of threads.**

The operations of the relay are those on the shared session state and those on the state of either
datapath; they work on disjoint parts of the state.  The programs of the threads are written over
them in the order of the source.

Main definitions:

* `RelayOp`, `RelayState`, `execRelay` — operations and state;
* `EntryStep` — the ways in which the entry of a session can change;
* `RelayProg` — programs over these operations;
* `decrementSourceSessionCount`, `updateSourceSessionCountForRebind`, `accountAllow` — programs that
  several threads use.

Main results:

* `execRelay_core`, `execRelay_v1`, `execRelay_v2` — an operation works on its own part of the
  state;
* `execRelay_onCore`, `execRelay_onV1` — what changes a part of the state;
* `entryStep` — everything that an operation can do to the entry of a session;
* `execRelay_guard`, `execRelay_locked` — what is locked is left alone by the others.
-/

import SwiftRelay.Contract
import SwiftRelay.FlowsV1

set_option autoImplicit false

namespace SwiftRelay

open Conc

/-! ### Operations and state -/

inductive RelayOp
  | core (o : CoreOp)
  | v1 (o : V1Op)
  | v2 (o : V2Op)

abbrev RelayOp.Ret : RelayOp → Type
  | .core o => o.Ret
  | .v1 o => o.Ret
  | .v2 o => o.Ret

abbrev relaySig : Signature := ⟨RelayOp, RelayOp.Ret⟩

structure RelayState where
  core : CoreState
  v1 : V1State
  v2 : V2State

def execRelay (env : RelayEnv) (t : Tid) : (o : RelayOp) → RelayState → Option (o.Ret × RelayState)
  | .core o, s => (execCore env t o s.core).map fun r => (r.1, { s with core := r.2 })
  | .v1 o, s => (execV1 env t o s.v1).map fun r => (r.1, { s with v1 := r.2 })
  | .v2 o, s => (execV2 env o s.v2).map fun r => (r.1, { s with v2 := r.2 })

section Parts

variable {env : RelayEnv} {t : Tid} {s s' : RelayState}

theorem execRelay_core {o : CoreOp} {r : o.Ret}
    (h : execRelay env t (.core o) s = some (r, s')) :
    execCore env t o s.core = some (r, s'.core) ∧ s'.v1 = s.v1 ∧ s'.v2 = s.v2 := by
  obtain ⟨⟨r', core⟩, hcore, heq⟩ := Option.map_eq_some_iff.1 h
  cases heq
  exact ⟨hcore, rfl, rfl⟩

theorem execRelay_v1 {o : V1Op} {r : o.Ret}
    (h : execRelay env t (.v1 o) s = some (r, s')) :
    execV1 env t o s.v1 = some (r, s'.v1) ∧ s'.core = s.core ∧ s'.v2 = s.v2 := by
  obtain ⟨⟨r', v1⟩, hv1, heq⟩ := Option.map_eq_some_iff.1 h
  cases heq
  exact ⟨hv1, rfl, rfl⟩

theorem execRelay_v2 {o : V2Op} {r : o.Ret}
    (h : execRelay env t (.v2 o) s = some (r, s')) :
    execV2 env o s.v2 = some (r, s'.v2) ∧ s'.core = s.core ∧ s'.v1 = s.v1 := by
  obtain ⟨⟨r', v2⟩, hv2, heq⟩ := Option.map_eq_some_iff.1 h
  cases heq
  exact ⟨hv2, rfl, rfl⟩

/-- An operation leaves the session state alone, or is one on it. -/
theorem execRelay_onCore {o : RelayOp} {r : o.Ret} (h : execRelay env t o s = some (r, s')) :
    s'.core = s.core ∨ ∃ o' r', o = .core o' ∧ execCore env t o' s.core = some (r', s'.core) := by
  rcases o with o | o | o
  · exact .inr ⟨o, r, rfl, (execRelay_core h).1⟩
  · exact .inl (execRelay_v1 h).2.1
  · exact .inl (execRelay_v2 h).2.1

/-- An operation leaves the first datapath alone, or is one on it. -/
theorem execRelay_onV1 {o : RelayOp} {r : o.Ret} (h : execRelay env t o s = some (r, s')) :
    s'.v1 = s.v1 ∨ ∃ o' r', o = .v1 o' ∧ execV1 env t o' s.v1 = some (r', s'.v1) := by
  rcases o with o | o | o
  · exact .inl (execRelay_core h).2.1
  · exact .inr ⟨o, r, rfl, (execRelay_v1 h).1⟩
  · exact .inl (execRelay_v2 h).2.2

end Parts

/-! ### What an operation does to one session -/

/-- What an operation of thread `t` can do to the entry of a session. -/
inductive EntryStep (env : RelayEnv) (t : Tid) (o : RelayOp) (s : CoreState) (sid : SessionId) :
    Option SessionEntry → Option SessionEntry → Prop
  | insert (x : Option SessionEntry) (e : SessionEntry) (ho : o = .core (.entryInsert sid e))
      (hheld : s.heldBy env t sid = true) : EntryStep env t o s sid x (some e)
  | erase (x : Option SessionEntry) (ho : o = .core (.retainErase sid))
      (hheld : s.heldBy env t sid = true) : EntryStep env t o s sid x none
  | modify (o' : CoreOp) (f : SessionEntry → SessionEntry) (e : SessionEntry) (ho : o = .core o')
      (hmod : o'.modifies = some (sid, f))
      (hlock : s.heldBy env t sid = true ∨ s.unlocked env sid = true) :
      EntryStep env t o s sid (some e) (some (f e))
  | same (x : Option SessionEntry) : EntryStep env t o s sid x x

variable {env : RelayEnv} {t : Tid} {o : RelayOp} {r : o.Ret} {s s' : RelayState}

theorem entryStep (h : execRelay env t o s = some (r, s')) (sid : SessionId) :
    EntryStep env t o s.core sid (s.core.sessions.lookup sid) (s'.core.sessions.lookup sid) := by
  obtain hs | ⟨o, r, rfl, hcore⟩ := execRelay_onCore h
  · rw [hs]
    exact EntryStep.same _
  · rcases execCore_sessions hcore with
      ⟨sid', e, rfl, hheld, hs⟩ | ⟨sid', rfl, hheld, hs⟩ | ⟨sid', f, e, hmod, hlock, he, hs⟩ | hs
    · by_cases hsid : sid = sid'
      · subst hsid
        simpa [hs, Table.lookup_insert_eq] using EntryStep.insert _ e rfl hheld
      · simpa [hs, Table.lookup_insert_eq, hsid] using EntryStep.same _
    · by_cases hsid : sid = sid'
      · subst hsid
        simpa [hs, Table.lookup_erase_eq] using EntryStep.erase _ rfl hheld
      · simpa [hs, Table.lookup_erase_eq, hsid] using EntryStep.same _
    · by_cases hsid : sid = sid'
      · subst hsid
        simpa [hs, he, Table.lookup_insert_eq] using EntryStep.modify o f e rfl hmod hlock
      · simpa [hs, Table.lookup_insert_eq, hsid] using EntryStep.same _
    · rw [hs]
      exact EntryStep.same _

/-- Nobody else takes or releases a lock while a thread holds it. -/
theorem execRelay_guard {u : Tid} (h : execRelay env t o s = some (r, s')) (hne : t ≠ u) {i : ℕ}
    (hlock : s.core.guards i = some u) : s'.core.guards i = some u := by
  obtain hs | ⟨o, r, rfl, hcore⟩ := execRelay_onCore h
  · rw [hs, hlock]
  · rcases execCore_guards hcore with hs | ⟨j, hj, hs⟩ | ⟨j, hj, hs⟩
    · rw [hs, hlock]
    · have hij : i ≠ j := by
        rintro rfl
        simp [hlock] at hj
      rw [hs, Function.update_of_ne hij, hlock]
    · have hij : i ≠ j := by
        rintro rfl
        rw [hlock, Option.some.injEq] at hj
        exact hne hj.symm
      rw [hs, Function.update_of_ne hij, hlock]

/-- Nobody else changes the entry of a session while a thread holds the lock. -/
theorem execRelay_locked {u : Tid} (h : execRelay env t o s = some (r, s')) (hne : t ≠ u)
    {sid : SessionId} (hlock : s.core.guards (env.dashShardOf sid) = some u) :
    s'.core.sessions.lookup sid = s.core.sessions.lookup sid := by
  have hheld : ¬ s.core.heldBy env t sid = true := by simp [CoreState.heldBy, hlock, hne.symm]
  have hfree : ¬ s.core.unlocked env sid = true := by simp [CoreState.unlocked, hlock]
  have hstep := entryStep h sid
  generalize s.core.sessions.lookup sid = x, s'.core.sessions.lookup sid = y at hstep
  cases hstep with
  | insert _ e ho hheld' => exact absurd hheld' hheld
  | erase _ ho hheld' => exact absurd hheld' hheld
  | modify o' f e ho hmod hlock' => exact absurd hlock' (not_or.2 ⟨hheld, hfree⟩)
  | same => rfl

/-- The operations that neither write the session map nor the counts. -/
def RelayOp.neutral : RelayOp → Bool
  | .core (.entryInsert ..) | .core (.retainErase _) => false
  | .core o => o.modifies.isNone && !o.counting
  | _ => true

theorem execRelay_neutral (ho : o.neutral = true) (h : execRelay env t o s = some (r, s')) :
    s'.core.sessions = s.core.sessions ∧ s'.core.counts = s.core.counts := by
  obtain hs | ⟨o, r, rfl, hcore⟩ := execRelay_onCore h
  · rw [hs]
    exact ⟨rfl, rfl⟩
  · rcases execCore_sessions hcore with ⟨sid, e, rfl, -⟩ | ⟨sid, rfl, -⟩ | ⟨sid, f, e, hmod, -⟩ | hs
    · cases ho
    · cases ho
    · cases o <;> simp_all [RelayOp.neutral]
    · refine ⟨hs, (execCore_counts hcore ?_).1⟩
      cases o <;> simp_all [RelayOp.neutral]

/-! ### Programs -/

abbrev RelayProg := Prog relaySig

/-- Perform an operation on the shared session state. -/
def core (o : CoreOp) : RelayProg o.Ret := Prog.perform (S := relaySig) (.core o)

/-- Perform an operation of the first datapath. -/
def v1 (o : V1Op) : RelayProg o.Ret := Prog.perform (S := relaySig) (.v1 o)

/-- Perform an operation of the second datapath. -/
def v2 (o : V2Op) : RelayProg o.Ret := Prog.perform (S := relaySig) (.v2 o)

@[simp] theorem core_eq (o : CoreOp) : core o = .op (.core o) .ret := rfl

@[simp] theorem v1_eq (o : V1Op) : v1 o = .op (.v1 o) .ret := rfl

@[simp] theorem v2_eq (o : V2Op) : v2 o = .op (.v2 o) .ret := rfl

section Uses

variable {α : Type} {φ : RelayOp → Prop}

theorem uses_core_bind {o : CoreOp} {f : o.Ret → RelayProg α} (ho : φ (.core o))
    (hf : ∀ r, (f r).Uses φ) : (core o >>= f).Uses φ := ⟨ho, hf⟩

theorem uses_v1_bind {o : V1Op} {f : o.Ret → RelayProg α} (ho : φ (.v1 o))
    (hf : ∀ r, (f r).Uses φ) : (v1 o >>= f).Uses φ := ⟨ho, hf⟩

theorem uses_v2_bind {o : V2Op} {f : o.Ret → RelayProg α} (ho : φ (.v2 o))
    (hf : ∀ r, (f r).Uses φ) : (v2 o >>= f).Uses φ := ⟨ho, hf⟩

end Uses

def dropIn (reason : DropReason) : RelayProg Unit := core (.drop reason)

@[simp] theorem dropIn_eq (reason : DropReason) :
    dropIn reason = .op (.core (.drop reason)) .ret := rfl

def dropOut (reason : DropReason) : RelayProg Unit := core (.drop reason)

@[simp] theorem dropOut_eq (reason : DropReason) :
    dropOut reason = .op (.core (.drop reason)) .ret := rfl

def decrementSourceSessionCount (ip : Ipv4Addr) : RelayProg Unit := do
  if ← core (.countDec ip) then return ()
  core (.countRemove ip)

def incrementSourceSessionCount (ip : Ipv4Addr) : RelayProg Unit := core (.countInc ip)

def updateSourceSessionCountForRebind (oldIp newIp : Ipv4Addr) : RelayProg Unit := do
  if oldIp = newIp then return ()
  decrementSourceSessionCount oldIp
  incrementSourceSessionCount newIp

/-- Whether the account of a session may still send or receive.  `withinBudget` is the verdict of
the account budgets, which is asked for authenticated sessions only. -/
def accountAllow (sid : SessionId) (withinBudget : Bool) : RelayProg Bool := do
  match ← core (.sessionGet sid) with
  | none => return false
  | some session =>
      if session.authState ≠ .authenticated then return true
      return withinBudget

end SwiftRelay
