/-
**Calls of the account budgets, one after another.**

While no other thread interferes, a call of `event` is a function: it opens the account of the user
if there is none, settles the event with the state of the account, and touches nothing else.  A
maintenance pass drops the accounts that were not used for long and the stale flows of the others.
Here these functions are read off the programs, which are run from states in which no call is in
progress.

Main definitions:

* `eventAnswer` — the program of an event, with its answer;
* `AtRest` — no call is in progress;
* `Budgets.bookOf` — the state of an account and the time of its last use;
* `Calls` — sequences of calls.

Main results:

* `event_eq` — the program with the answer is the program;
* `run_eventAnswer`, `maintain_achieves` — what the two calls do;
* `Calls.total` — every sequence of calls can be made.
-/

import SwiftRelay.BudgetCapacity
import SwiftRelay.EventOutcome
import SwiftRelay.Sequential

set_option autoImplicit false

namespace SwiftRelay.AccountBudget

open Conc

variable {env : Env}

/-! ### The answer of an event -/

/-- The end of an event, from where it is counted, with the answer. -/
def chargeAnswer (env : Env) (call : EventCall) (cell : ℕ) (now : UInt64) : BudgetProg Bool := do
  let (newFlow, exceeded) ← perform (.charge cell call.out call.bytes call.flow)
  let admitted ← decideEvent env cell call.flow now newFlow exceeded
  perform (.answer cell ⟨call.user, call.bytes, now, newFlow, admitted⟩)
  perform (.stateUnlock cell)
  return admitted

/-- The part of an event under the lock of the account, with the answer. -/
def lockedAnswer (env : Env) (call : EventCall) (cell : ℕ) : BudgetProg Bool := do
  perform (.stateLock cell)
  let (now, expired) ← perform (.enter cell call.now call.flow)
  if expired then perform (.slotsSub 1)
  chargeAnswer env call cell now

/-- An event that has a clone of the pointer to its account, with the answer. -/
def accountAnswer (env : Env) (call : EventCall) (cell : ℕ) : BudgetProg Bool := do
  perform (.lastUsedMax cell call.now)
  let admitted ← lockedAnswer env call cell
  let last ← perform (.dropClone cell)
  giveBack last
  return admitted

/-- An event, with the answer. -/
def eventAnswer (env : Env) (call : EventCall) : BudgetProg Bool := do
  match ← account env call.user call.now call.stale with
  | none =>
      perform .capacityPacket
      if env.policy.enforce then perform .capacityDrop
      return !env.policy.enforce
  | some cell => accountAnswer env call cell

theorem lockedSection_eq (call : EventCall) (cell : ℕ) :
    lockedSection env call cell = lockedAnswer env call cell >>= fun _ => pure () := by
  have hcharge : ∀ now : UInt64, Prog.op (S := sig) (.charge cell call.out call.bytes call.flow)
      (fun r => decideEvent env cell call.flow now r.1 r.2 >>= fun admitted =>
        perform (.answer cell ⟨call.user, call.bytes, now, r.1, admitted⟩) >>= fun _ =>
          perform (.stateUnlock cell)) = chargeAnswer env call cell now >>= fun _ => pure () := by
    intro now
    unfold chargeAnswer
    simp only [bind_assoc]
    rfl
  unfold lockedSection lockedAnswer
  refine congrArg (Prog.op (S := sig) (.stateLock cell)) (funext fun _ => ?_)
  refine congrArg (Prog.op (S := sig) (.enter cell call.now call.flow)) (funext fun r => ?_)
  obtain ⟨now, expired⟩ := r
  cases expired with
  | false => exact hcharge now
  | true => exact congrArg (Prog.op (S := sig) (.slotsSub 1)) (funext fun _ => hcharge now)

/-- Apart from the answer, the program is that of the event. -/
theorem event_eq (call : EventCall) :
    event env call = eventAnswer env call >>= fun _ => pure () := by
  simp only [event, eventAnswer, bind_assoc]
  refine congrArg (account env call.user call.now call.stale >>= ·) (funext fun found => ?_)
  cases found with
  | none => cases env.policy.enforce <;> rfl
  | some cell =>
      simp only [accountAnswer, lockedSection_eq, bind_assoc, pure_bind, bind_pure_unit]

/-! ### Events with their account -/

/-- Overwrite a cell and the counter of tracked flows. -/
def Budgets.write (s : Budgets env) (cell : ℕ) (a : Account env) (slots : UInt64) : Budgets env :=
  { s with heap := s.heap.insert cell a, slots }

section Write

variable {t : Tid env} (s : Budgets env) (cell : ℕ) (a a' : Account env) (slots slots' : UInt64)

@[simp] theorem lookup_write (cell' : ℕ) : (s.write cell a slots).heap.lookup cell' =
    if cell' = cell then some a else s.heap.lookup cell' :=
  Table.lookup_insert_eq _ _ _ _

@[simp] theorem put_write : (s.write cell a slots).put cell a' = s.write cell a' slots := by
  simp only [Budgets.write, Budgets.put, Table.insert, AList.insert_insert]

theorem onState_write {α : Type} (hlock : a.lock = some t) (f : State → α × State) :
    onState (s.write cell a slots) t cell f =
      some ((f a.state).1, s.write cell { a with state := (f a.state).2 } slots) := by
  simp [onState, hlock]

theorem run_trackFlow (hlock : a.lock = some t) (key : Flow) (now : UInt64) (newFlow : Bool) :
    (trackFlow env cell key now newFlow).run (budgetSystem env) t (s.write cell a slots) =
      some ((settleFlow env a.state key now newFlow slots).admitted,
        s.write cell { a with state := (settleFlow env a.state key now newFlow slots).state }
          (settleFlow env a.state key now newFlow slots).slots) := by
  have htrack : ∀ slots, exec env t (.track cell key now newFlow) (s.write cell a slots) =
      some ((), s.write cell { a with state := a.state.track key now newFlow } slots) :=
    fun slots => by simp only [exec, onState_write s cell a slots hlock]
  have hnote : exec env t (.noteUntracked cell) (s.write cell a slots) =
      some ((), s.write cell { a with state := a.state.noteUntracked env.policy } slots) :=
    by simp only [exec, onState_write s cell a slots hlock]
  unfold trackFlow settleFlow
  cases newFlow with
  | false => simp [Prog.run_op, htrack]
  | true =>
      by_cases hroom : slots < env.flowLimit
      · have hreserve : exec env t .slotsReserve (s.write cell a slots) =
            some (true, s.write cell a (slots + 1)) := if_pos hroom
        simp [Prog.run_op, hreserve, htrack, hroom]
      · have hreserve : exec env t .slotsReserve (s.write cell a slots) =
            some (false, s.write cell a slots) := if_neg hroom
        simp [Prog.run_op, hreserve, hnote, hroom]

theorem run_decideEvent (hlock : a.lock = some t) (flow : Option Flow) (now : UInt64)
    (newFlow exceeded : Bool) :
    (decideEvent env cell flow now newFlow exceeded).run (budgetSystem env) t
        (s.write cell a slots) =
      some ((settleCharged env a.state flow now newFlow exceeded slots).admitted,
        s.write cell
          { a with state := (settleCharged env a.state flow now newFlow exceeded slots).state }
          (settleCharged env a.state flow now newFlow exceeded slots).slots) := by
  unfold decideEvent settleCharged
  split
  · rfl
  · cases flow with
    | none => rfl
    | some key => exact run_trackFlow s cell a slots hlock key now newFlow

theorem run_chargeAnswer (hlock : a.lock = some t) (call : EventCall) (now : UInt64) :
    (chargeAnswer env call cell now).run (budgetSystem env) t (s.write cell a slots) =
      some ((settleEntered env call now a.state slots).admitted,
        s.write cell { a with
          state := (settleEntered env call now a.state slots).state
          lock := none } (settleEntered env call now a.state slots).slots) := by
  have hcharge : exec env t (.charge cell call.out call.bytes call.flow) (s.write cell a slots) =
      some ((a.state.charge env.policy call.out call.bytes call.flow).1, s.write cell { a with
        state := (a.state.charge env.policy call.out call.bytes call.flow).2 } slots) := by
    simp only [exec, onState_write s cell a slots hlock]
  have hanswer : ∀ (a' : Account env) verdict slots, a'.lock = some t →
      exec env t (.answer cell verdict) (s.write cell a' slots) =
        some ((), s.write cell a' slots) := by
    intro a' verdict slots hlock'
    simp only [exec, onState_write s cell a' slots hlock']
  have hunlock : ∀ (a' : Account env) slots, a'.lock = some t →
      exec env t (.stateUnlock cell) (s.write cell a' slots) =
        some ((), s.write cell { a' with lock := none } slots) := by
    intro a' slots hlock'
    simp [exec, hlock']
  unfold chargeAnswer settleEntered
  simp only [perform_eq, Prog.op_bind, Prog.ret_bind, Prog.run_op, hcharge, Option.bind_some]
  rw [Prog.run_bind, run_decideEvent]
  · simp [Prog.run_op, hanswer, hunlock, hlock]
  · exact hlock

/-- The part of an event under the lock of the account settles it. -/
theorem run_lockedAnswer (hlock : a.lock = none) (call : EventCall) :
    (lockedAnswer env call cell).run (budgetSystem env) t (s.write cell a slots) =
      some ((settle env call a.state slots).admitted,
        s.write cell { a with state := (settle env call a.state slots).state }
          (settle env call a.state slots).slots) := by
  have hlocked : exec env t (.stateLock cell) (s.write cell a slots) =
      some ((), s.write cell { a with lock := some t } slots) := by
    simp [exec, hlock]
  have henter : exec env t (.enter cell call.now call.flow)
      (s.write cell { a with lock := some t } slots) =
        some ((a.state.enter call.now call.flow).1, s.write cell { a with
          state := (a.state.enter call.now call.flow).2, lock := some t } slots) := by
    simp only [exec, onState_write s cell { a with lock := some t } slots rfl]
  unfold lockedAnswer settle
  simp only [perform_eq, Prog.op_bind, Prog.ret_bind, Prog.run_op, hlocked, henter,
    Option.bind_some]
  cases hexpired : (a.state.enter call.now call.flow).1.2 with
  | false =>
      rw [if_neg (by simp), if_neg (by simp), hlock]
      exact run_chargeAnswer s cell _ slots rfl call _
  | true =>
      rw [if_pos rfl, if_pos rfl, hlock]
      exact run_chargeAnswer s cell _ (slots - 1) rfl call _

theorem run_accountAnswer (hlock : a.lock = none) (hclones : a.clones = [t])
    (hmap : s.accounts.lookup a.user = some cell) (call : EventCall) :
    (accountAnswer env call cell).run (budgetSystem env) t (s.write cell a slots) =
      some ((settle env call a.state slots).admitted,
        s.write cell { a with
          state := (settle env call a.state slots).state
          lastUsed := max a.lastUsed call.now
          clones := [] } (settle env call a.state slots).slots) := by
  have htouch : exec env t (.lastUsedMax cell call.now) (s.write cell a slots) =
      some ((), s.write cell { a with lastUsed := max a.lastUsed call.now } slots) := by
    simp [exec]
  have hdrop : ∀ (a' : Account env) slots, a'.clones = [t] → a'.user = a.user →
      exec env t (.dropClone cell) (s.write cell a' slots) =
        some (none, s.write cell { a' with clones := [] } slots) := by
    intro a' slots hclones' huser
    have hmapped : (s.write cell a' slots).mapped cell { a' with clones := [] } = true := by
      simp [Budgets.mapped, Budgets.write, huser, hmap]
    simp [exec, hclones', Budgets.strongCount, hmapped]
  unfold accountAnswer
  simp only [perform_eq, Prog.op_bind, Prog.ret_bind, Prog.run_op, htouch, Option.bind_some]
  rw [Prog.run_bind, run_lockedAnswer]
  · simp [Prog.run_op, hdrop, hclones, giveBack]
  · exact hlock

end Write

/-! ### Looking the account up -/

/-- The user has a cell of their own. -/
def Budgets.opened (s : Budgets env) (user : String) : Budgets env :=
  { s with accounts := s.accounts.insert user s.nextCell, nextCell := s.nextCell + 1 }

section Lookup

variable {t : Tid env} {s : Budgets env} {user : String} {cell : ℕ} {a : Account env}
  (now : UInt64) (stale : ℕ)

theorem run_account_of_some (hguards : ∀ i, s.guards i = none)
    (hmap : s.accounts.lookup user = some cell) (ha : s.heap.lookup cell = some a) :
    (account env user now stale).run (budgetSystem env) t s =
      some (some cell, s.write cell { a with clones := t :: a.clones } s.slots) := by
  have hget : exec env t (.accountGet user) s =
      some (some cell, s.write cell { a with clones := t :: a.clones } s.slots) := by
    simp [exec, hguards, hmap, ha, Budgets.put, Budgets.write]
  unfold account
  simp [Prog.run_op, hget]

theorem run_account_of_none (hguards : ∀ i, s.guards i = none) (hadmission : s.admission = none)
    (hnone : s.accounts.lookup user = none) :
    (account env user now stale).run (budgetSystem env) t s =
      if env.accountLimit ≤ s.accounts.size + stale then some (none, s)
      else some (some s.nextCell,
        (s.opened user).write s.nextCell ⟨user, .new now, now, [t], none⟩ s.slots) := by
  have hget : exec env t (.accountGet user) s = some (none, s) := by
    simp [exec, hguards, hnone]
  have hlock : exec env t .admissionLock s = some ((), { s with admission := some t }) := by
    simp [exec, hadmission]
  have hget' : exec env t (.accountGet user) { s with admission := some t } =
      some (none, { s with admission := some t }) := by
    simp [exec, hguards, hnone]
  have hentry : exec env t (.accountEntry user now) { s with admission := some t } =
      some (s.nextCell, { (s.opened user).write s.nextCell ⟨user, .new now, now, [t], none⟩ s.slots
        with admission := some t }) := by
    simp [exec, hguards, hnone, Budgets.opened, Budgets.write, Budgets.put]
  -- the lock is taken and released
  have hunlock : ∀ s' : Budgets env, s'.admission = none →
      exec env t .admissionUnlock { s' with admission := some t } = some ((), s') := by
    intro s' hs'
    simp [exec, ← hs']
  unfold account
  simp only [perform_eq, Prog.op_bind, Prog.ret_bind, Prog.run_op, hget, hlock, hget',
    Option.bind_some]
  have hlen : exec env t (.accountsLen stale) { s with admission := some t } =
      some (s.accounts.size + stale, { s with admission := some t }) := rfl
  simp only [hlen, Option.bind_some, ge_iff_le]
  split
  · simp only [Prog.run_op, hunlock s hadmission, Option.bind_some]
    rfl
  · simp only [Prog.run_op, hentry, Option.bind_some,
      hunlock ((s.opened user).write _ _ _) hadmission]
    rfl

end Lookup

/-! ### Calls from idle states -/

/-- No account is in use, and the shards of the map are held as `guards` says. -/
structure Quiet (guards : ℕ → Option ShardGuard) (s : Budgets env) : Prop extends Filed s where
  admission : s.admission = none
  guards : s.guards = guards
  unused : ∀ cell a, s.heap.lookup cell = some a → a.clones = [] ∧ a.lock = none

/-- No call is in progress. -/
abbrev AtRest (s : Budgets env) : Prop := Quiet (fun _ => none) s

/-- The state of the account of a user, and the time of its last use. -/
def Budgets.bookOf (s : Budgets env) (user : String) : Option (State × UInt64) :=
  ((s.accounts.lookup user).bind s.heap.lookup).map fun a => (a.state, a.lastUsed)

theorem atRest_new : AtRest (.new : Budgets env) where
  filed cell a ha := by cases ha
  live user cell h := by cases h
  fresh cell _ := rfl
  admission := rfl
  guards := rfl
  unused cell a ha := by cases ha

section Books

variable {s : Budgets env} {user : String} {cell : ℕ} {a : Account env}
  {guards : ℕ → Option ShardGuard}

theorem bookOf_of_some (hmap : s.accounts.lookup user = some cell)
    (ha : s.heap.lookup cell = some a) : s.bookOf user = some (a.state, a.lastUsed) := by
  simp [Budgets.bookOf, hmap, ha]

theorem bookOf_eq_none (h : Filed s) : s.bookOf user = none ↔ s.accounts.lookup user = none := by
  constructor
  · intro hnone
    cases hmap : s.accounts.lookup user with
    | none => rfl
    | some cell =>
        obtain ⟨a, ha, -⟩ := h.live user cell hmap
        rw [bookOf_of_some hmap ha] at hnone
        cases hnone
  · intro hnone
    simp [Budgets.bookOf, hnone]

theorem bookOf_eq_some {book : State × UInt64} (h : s.bookOf user = some book) :
    ∃ cell a, s.accounts.lookup user = some cell ∧ s.heap.lookup cell = some a ∧
      book = (a.state, a.lastUsed) := by
  obtain ⟨a, ha, rfl⟩ := Option.map_eq_some_iff.1 h
  obtain ⟨cell, hmap, ha⟩ := Option.bind_eq_some_iff.1 ha
  exact ⟨cell, a, hmap, ha, rfl⟩

theorem bookOf_write (h : Filed s) (hmap : s.accounts.lookup user = some cell) (a' : Account env)
    (slots : UInt64) (user' : String) :
    (s.write cell a' slots).bookOf user' =
      if user' = user then some (a'.state, a'.lastUsed) else s.bookOf user' := by
  split
  · next huser =>
      rw [huser]
      exact bookOf_of_some hmap (by simp)
  · next huser =>
      unfold Budgets.bookOf
      change Option.map _ ((s.accounts.lookup user').bind _) = _
      cases hmap' : s.accounts.lookup user' with
      | none => rfl
      | some cell' =>
          simp [h.cell_ne hmap hmap' huser]

theorem bookOf_opened (h : Filed s) (a' : Account env) (slots : UInt64) (user' : String) :
    ((s.opened user).write s.nextCell a' slots).bookOf user' =
      if user' = user then some (a'.state, a'.lastUsed) else s.bookOf user' := by
  have haccounts : ((s.opened user).write s.nextCell a' slots).accounts.lookup user' =
      if user' = user then some s.nextCell else s.accounts.lookup user' :=
    Table.lookup_insert_eq _ _ _ _
  unfold Budgets.bookOf
  rw [haccounts]
  split
  · simp
  · cases hmap : s.accounts.lookup user' with
    | none => rfl
    | some cell =>
        obtain ⟨b, hb, -⟩ := h.live user' cell hmap
        have hcell : cell ≠ s.nextCell := by
          rintro rfl
          rw [h.fresh _ le_rfl] at hb
          cases hb
        simp [hcell, Budgets.opened]

variable {a' : Account env}

theorem Filed.write (h : Filed s) (ha : s.heap.lookup cell = some a) (huser : a'.user = a.user)
    (slots : UInt64) : Filed (s.write cell a' slots) where
  filed cell' b hb := by
    rw [lookup_write] at hb
    split at hb
    · next hcell =>
        cases hb
        rw [hcell, huser]
        exact h.filed cell a ha
    · exact h.filed cell' b hb
  live user' cell' hmap := by
    obtain ⟨b, hb, huser'⟩ := h.live user' cell' hmap
    rw [lookup_write]
    split
    · next hcell =>
        rw [hcell, ha] at hb
        cases hb
        exact ⟨a', rfl, huser.trans huser'⟩
    · exact ⟨b, hb, huser'⟩
  fresh cell' hle := by
    have hne : cell' ≠ cell := by
      rintro rfl
      rw [h.fresh cell' hle] at ha
      cases ha
    rw [lookup_write, if_neg hne]
    exact h.fresh cell' hle

theorem Filed.opened (h : Filed s) (hguards : ∀ i, s.guards i = none)
    (hnone : s.accounts.lookup user = none) (huser : a'.user = user) (slots : UInt64) :
    Filed ((s.opened user).write s.nextCell a' slots) := by
  have hexec : exec env .maintenance (.accountEntry user 0) s =
      some (s.nextCell,
        (s.opened user).write s.nextCell ⟨user, .new 0, 0, [.maintenance], none⟩ s.slots) := by
    simp [exec, hguards, hnone, Budgets.opened, Budgets.write, Budgets.put]
  have hcell : ((s.opened user).write s.nextCell ⟨user, .new 0, 0, [.maintenance], none⟩
      s.slots).heap.lookup s.nextCell = some ⟨user, .new 0, 0, [.maintenance], none⟩ := by
    simp
  have hopened := (h.accountEntry hexec).write hcell huser slots
  simpa [Budgets.write, Table.insert] using hopened

theorem Quiet.write (h : Quiet guards s) (ha : s.heap.lookup cell = some a)
    (huser : a'.user = a.user) (hclones : a'.clones = []) (hlock : a'.lock = none)
    (slots : UInt64) : Quiet guards (s.write cell a' slots) where
  toFiled := h.toFiled.write ha huser slots
  admission := h.admission
  guards := h.guards
  unused cell' b hb := by
    rw [lookup_write] at hb
    split at hb
    · cases hb
      exact ⟨hclones, hlock⟩
    · exact h.unused cell' b hb

theorem Quiet.opened (h : AtRest s) (hnone : s.accounts.lookup user = none) (huser : a'.user = user)
    (hclones : a'.clones = []) (hlock : a'.lock = none) (slots : UInt64) :
    AtRest ((s.opened user).write s.nextCell a' slots) where
  toFiled := h.toFiled.opened (congrFun h.guards) hnone huser slots
  admission := h.admission
  guards := h.guards
  unused cell' b hb := by
    rw [lookup_write] at hb
    split at hb
    · cases hb
      exact ⟨hclones, hlock⟩
    · exact h.unused cell' b hb

theorem Quiet.recount (h : Quiet guards s) (packets drops : UInt64) :
    Quiet guards { s with capacityPackets := packets, capacityDrops := drops } :=
  ⟨⟨h.filed, h.live, h.fresh⟩, h.admission, h.guards, h.unused⟩

end Books

/-- What an event can do.  It is charged to the account of its user, which is added if there is none
and there is room, or it is answered without one. -/
inductive EventEffect (call : EventCall) (s : Budgets env) : Bool → Budgets env → Prop
  | refused (s' : Budgets env) (hnone : s.bookOf call.user = none)
      (hfull : env.accountLimit ≤ s.accounts.size + call.stale)
      (hbooks : ∀ user, s'.bookOf user = s.bookOf user) :
      EventEffect call s (!env.policy.enforce) s'
  | charged (s' : Budgets env) (state : State) (lastUsed : UInt64)
      (hbook : (s.bookOf call.user).getD (.new call.now, call.now) = (state, lastUsed))
      (hbooks : ∀ user, s'.bookOf user =
        if user = call.user then
          some ((settle env call state s.slots).state, max lastUsed call.now)
        else s.bookOf user) :
      EventEffect call s (settle env call state s.slots).admitted s'

theorem run_eventAnswer {t : Tid env} {s : Budgets env} (h : AtRest s) (call : EventCall) :
    ∃ admitted s', (eventAnswer env call).run (budgetSystem env) t s = some (admitted, s') ∧
      AtRest s' ∧ EventEffect call s admitted s' := by
  unfold eventAnswer
  simp only [Prog.run_bind]
  cases hmap : s.accounts.lookup call.user with
  | some cell =>
      obtain ⟨a, ha, huser⟩ := h.live call.user cell hmap
      obtain ⟨hclones, hlock⟩ := h.unused cell a ha
      rw [run_account_of_some call.now call.stale (congrFun h.guards) hmap ha]
      refine ⟨_, _, run_accountAnswer s cell { a with clones := t :: a.clones } s.slots hlock
        (by rw [hclones]) (by rw [huser, hmap]) call, ?_, ?_⟩
      · refine h.write ha ?_ ?_ ?_ _
        · rfl
        · rfl
        · exact hlock
      · refine .charged _ a.state a.lastUsed ?_ fun user => ?_
        · rw [bookOf_of_some hmap ha]
          rfl
        · exact bookOf_write h.toFiled hmap _ _ user
  | none =>
      rw [run_account_of_none call.now call.stale (congrFun h.guards) h.admission hmap]
      split
      · next hfull =>
          have hnone := (bookOf_eq_none h.toFiled).2 hmap
          cases henforce : env.policy.enforce with
          | false =>
              exact ⟨_, _, rfl, h.recount _ _,
                henforce ▸ EventEffect.refused _ hnone hfull fun _ => rfl⟩
          | true =>
              exact ⟨_, _, rfl, h.recount _ _,
                henforce ▸ EventEffect.refused _ hnone hfull fun _ => rfl⟩
      · next hroom =>
          refine ⟨_, _, run_accountAnswer (s.opened call.user) s.nextCell _ s.slots rfl rfl ?_ call,
            ?_, ?_⟩
          · simp [Budgets.opened, Table.lookup_insert_eq]
          · exact Quiet.opened h hmap rfl rfl rfl _
          · refine .charged _ (.new call.now) call.now ?_ fun user => ?_
            · rw [(bookOf_eq_none h.toFiled).2 hmap]
              rfl
            · exact bookOf_opened h.toFiled _ _ user

/-! ### Maintenance -/

/-- The account is kept, unless it was not used for long. -/
def kept (now : UInt64) (book : Option (State × UInt64)) : Option (State × UInt64) :=
  book.filter fun b => Word64.satSub now b.2 < accountIdleSeconds

theorem kept_some (now : UInt64) (b : State × UInt64) : kept now (some b) =
    if Word64.satSub now b.2 < accountIdleSeconds then some b else none := by
  simp [kept, Option.filter]

/-- The stale flows of the account are forgotten. -/
def pruned (now : UInt64) (book : Option (State × UInt64)) : Option (State × UInt64) :=
  book.map fun b => (b.1.retainFlows now, b.2)

/-- One account is revised by `f`, or removed; the others stay. -/
structure Revised (f : Option (State × UInt64) → Option (State × UInt64)) (user : String)
    (s s' : Budgets env) : Prop where
  book : s'.bookOf user = f (s.bookOf user)
  others : ∀ user', user' ≠ user →
    s'.bookOf user' = s.bookOf user' ∧ s'.accounts.lookup user' = s.accounts.lookup user'

section Maintenance

variable {t : Tid env} {s : Budgets env} {now : UInt64} {i : ℕ} {e : String × ℕ}
  {guards : ℕ → Option ShardGuard} {f : Option (State × UInt64) → Option (State × UInt64)}
  {user : String}

theorem Quiet.removed (h : Quiet guards s) {cell : ℕ} {a : Account env}
    (hguard : guards (env.shardOf user) = some .write) (hmap : s.accounts.lookup user = some cell)
    (ha : s.heap.lookup cell = some a) (slots : UInt64) :
    Quiet guards { s with
      accounts := s.accounts.erase user, heap := s.heap.erase cell, slots } := by
  have hclones := (h.unused cell a ha).1
  have hexec : exec env .maintenance (.retainErase user) s = some (some a.state.flows.size,
      { s with accounts := s.accounts.erase user, heap := s.heap.erase cell }) := by
    simp [exec, h.guards, hguard, hmap, ha, hclones]
  have hfiled := h.retainErase hexec fun cell b _ hb => (h.unused cell b hb).1
  refine ⟨⟨hfiled.filed, hfiled.live, hfiled.fresh⟩, h.admission, h.guards, fun cell' b hb => ?_⟩
  simp only [Table.lookup_erase_eq] at hb
  split at hb
  · cases hb
  · exact h.unused cell' b hb

theorem bookOf_removed (h : Filed s) {cell : ℕ} (hmap : s.accounts.lookup user = some cell)
    (slots : UInt64) (user' : String) :
    ({ s with accounts := s.accounts.erase user, heap := s.heap.erase cell, slots } :
      Budgets env).bookOf user' = if user' = user then none else s.bookOf user' := by
  unfold Budgets.bookOf
  simp only [Table.lookup_erase_eq]
  split
  · rfl
  · next huser =>
      cases hmap' : s.accounts.lookup user' with
      | none => rfl
      | some cell' =>
          simp [h.cell_ne hmap hmap' huser]

theorem evictIdle_achieves (h : Quiet guards s) (hguard : guards (env.shardOf e.1) = some .write)
    (hmap : s.accounts.lookup e.1 = some e.2) :
    (evictIdle now e).Achieves (budgetSystem env) t
      (fun _ s' => Quiet guards s' ∧ Revised (kept now) e.1 s s') s := by
  obtain ⟨a, ha, -⟩ := h.live e.1 e.2 hmap
  have hclones := (h.unused e.2 a ha).1
  have hbook := bookOf_of_some hmap ha
  have hload : exec env t (.lastUsedLoad e.2) s = some (a.lastUsed, s) := by
    simp [exec, ha]
  have hcount : exec env t (.strongCount e.2) s = some (1, s) := by
    simp [exec, ha, Budgets.strongCount, hclones, h.not_dropLast ha]
  have herase : exec env t (.retainErase e.1) s = some (some a.state.flows.size,
      { s with accounts := s.accounts.erase e.1, heap := s.heap.erase e.2 }) := by
    simp [exec, h.guards, hguard, hmap, ha, hclones]
  unfold evictIdle
  refine Prog.achieves_op ⟨_, _, hload, ?_⟩
  refine Prog.achieves_ite (fun hused => Prog.achieves_ret ⟨h, ?_, fun _ _ => ⟨rfl, rfl⟩⟩)
    fun hidle => ?_
  · rw [hbook, kept_some, if_pos hused]
  · refine Prog.achieves_op ⟨_, _, hcount, ?_⟩
    refine Prog.achieves_op ⟨_, _, herase, ?_⟩
    refine Prog.achieves_op ⟨_, _, rfl, Prog.achieves_ret ⟨h.removed hguard hmap ha _, ?_, ?_⟩⟩
    · rw [bookOf_removed h.toFiled hmap, if_pos rfl, hbook, kept_some, if_neg hidle]
    · intro user' huser'
      rw [bookOf_removed h.toFiled hmap, if_neg huser']
      exact ⟨rfl, (Table.lookup_erase_eq _ _ _).trans (if_neg huser')⟩

theorem pruneFlows_achieves (h : Quiet guards s) (hmap : s.accounts.lookup e.1 = some e.2) :
    (pruneFlows now e).Achieves (budgetSystem env) t
      (fun _ s' => Quiet guards s' ∧ Revised (pruned now) e.1 s s') s := by
  obtain ⟨a, ha, -⟩ := h.live e.1 e.2 hmap
  obtain ⟨hclones, hlock⟩ := h.unused e.2 a ha
  have hlocked : exec env t (.stateLock e.2) s =
      some ((), s.write e.2 { a with lock := some t } s.slots) := by
    simp [exec, ha, hlock, Budgets.put, Budgets.write]
  have hretain : exec env t (.retainFlows e.2 now) (s.write e.2 { a with lock := some t } s.slots) =
      some (a.state.flows.size - (a.state.retainFlows now).flows.size, s.write e.2 { a with
        state := a.state.retainFlows now, lock := some t } s.slots) := by
    simp only [exec, onState_write s e.2 { a with lock := some t } s.slots rfl]
  have hunlock : ∀ slots, exec env t (.stateUnlock e.2) (s.write e.2 { a with
      state := a.state.retainFlows now, lock := some t } slots) =
        some ((), s.write e.2 { a with state := a.state.retainFlows now } slots) := by
    intro slots
    simp [exec, hlock]
  unfold pruneFlows
  refine Prog.achieves_op ⟨_, _, hlocked, ?_⟩
  refine Prog.achieves_op ⟨_, _, hretain, ?_⟩
  refine Prog.achieves_op ⟨_, _, rfl, ?_⟩
  refine Prog.achieves_op ⟨_, _, hunlock _, Prog.achieves_ret ⟨?_, ?_, ?_⟩⟩
  · refine h.write ha ?_ ?_ ?_ _
    · rfl
    · exact hclones
    · exact hlock
  · rw [bookOf_write h.toFiled hmap, if_pos rfl, bookOf_of_some hmap ha]
    rfl
  · intro user' huser'
    rw [bookOf_write h.toFiled hmap, if_neg huser']
    exact ⟨rfl, rfl⟩

theorem mem_map_shardEntries {cell : ℕ} (hmap : s.accounts.lookup user = some cell) :
    user ∈ (s.shardEntries (env.shardOf user)).map Prod.fst := by
  refine List.mem_map.2 ⟨(user, cell), List.mem_filter.2 ⟨?_, by simp⟩, rfl⟩
  exact List.mem_map.2 ⟨⟨user, cell⟩, Table.lookup_eq_some_iff.1 hmap, rfl⟩

/-- The accounts of a shard are revised one after the other. -/
theorem sweep_achieves {body : String × ℕ → BudgetProg Unit} (hf : f none = none)
    (hbody : ∀ s e, Quiet guards s → s.accounts.lookup e.1 = some e.2 → env.shardOf e.1 = i →
      (body e).Achieves (budgetSystem env) t (fun _ s' => Quiet guards s' ∧ Revised f e.1 s s') s)
    (h : Quiet guards s) :
    ((s.shardEntries i).forM body).Achieves (budgetSystem env) t (fun _ s' => Quiet guards s' ∧
      ∀ user, s'.bookOf user =
        if env.shardOf user = i then f (s.bookOf user) else s.bookOf user) s := by
  -- the accounts that are left are as they were
  refine (Prog.achieves_forM (fun l (s' : Budgets env) => Quiet guards s' ∧
      (∀ e ∈ l, s'.accounts.lookup e.1 = some e.2 ∧ env.shardOf e.1 = i) ∧
      (l.map Prod.fst).Nodup ∧ ∀ user, s'.bookOf user =
        if env.shardOf user = i ∧ user ∉ l.map Prod.fst then f (s.bookOf user)
        else s.bookOf user) ?_
      ⟨h, fun e he => mem_shardEntries he, nodup_shardEntries s i, ?_⟩).mono ?_
  · rintro e l s' ⟨hquiet, hleft, hnodup, hbooks⟩
    obtain ⟨hmap, hshard⟩ := hleft e List.mem_cons_self
    obtain ⟨hfirst, hnodup'⟩ := List.nodup_cons.1 hnodup
    refine (hbody s' e hquiet hmap hshard).mono ?_
    rintro - s'' ⟨hquiet', hbook, hothers⟩
    refine ⟨hquiet', fun e' he' => ?_, hnodup', fun user => ?_⟩
    · have hne : e'.1 ≠ e.1 := fun heq => hfirst (heq ▸ List.mem_map_of_mem he')
      rw [(hothers e'.1 hne).2]
      exact hleft e' (List.mem_cons_of_mem _ he')
    · by_cases huser : user = e.1
      · rw [huser, hbook, if_pos ⟨hshard, hfirst⟩, hbooks e.1, if_neg (by simp)]
      · rw [(hothers user huser).1, hbooks user]
        simp only [List.map_cons, List.mem_cons, huser, false_or]
  · rintro - s' ⟨hquiet, -, -, hbooks⟩
    refine ⟨hquiet, fun user => ?_⟩
    rw [hbooks user]
    simp
  · intro user
    split
    · next hdone =>
        obtain ⟨rfl, hout⟩ := hdone
        have hnone : s.accounts.lookup user = none :=
          Option.eq_none_iff_forall_ne_some.2 fun cell hmap => hout (mem_map_shardEntries hmap)
        rw [(bookOf_eq_none h.toFiled).2 hnone, hf]
    · rfl

theorem Quiet.guarded (h : Quiet guards s) (guards' : ℕ → Option ShardGuard) :
    Quiet guards' { s with guards := guards' } :=
  ⟨⟨h.filed, h.live, h.fresh⟩, h.admission, rfl, h.unused⟩

theorem evictShard_achieves (h : AtRest s) (i : ℕ) :
    (evictShard now i).Achieves (budgetSystem env) t (fun _ s' => AtRest s' ∧
      ∀ user, s'.bookOf user =
        if env.shardOf user = i then kept now (s.bookOf user) else s.bookOf user) s := by
  have hlocked : exec env t (.retainLock i) s = some (s.shardEntries i,
      { s with guards := Function.update s.guards i (some .write) }) := by
    simp [exec, h.guards]
  unfold evictShard
  refine Prog.achieves_op ⟨_, _, hlocked, ?_⟩
  change ((s.shardEntries i).forM (evictIdle now) >>= fun _ => perform (.retainRelease i)).Achieves
    (budgetSystem env) t _ _
  refine Prog.achieves_bind ((sweep_achieves (f := kept now) rfl (fun s e hs hmap hshard =>
    evictIdle_achieves hs ?_ hmap) (h.guarded (Function.update s.guards i (some .write)))).mono ?_)
  · rw [hshard, Function.update_self]
  · rintro - s' ⟨hquiet, hbooks⟩
    refine Prog.achieves_op ⟨(), { s' with guards := fun _ => none }, ?_,
      Prog.achieves_ret ⟨hquiet.guarded _, hbooks⟩⟩
    simp [exec, hquiet.guards, h.guards]

theorem pruneShard_achieves (h : AtRest s) (i : ℕ) :
    (pruneShard now i).Achieves (budgetSystem env) t (fun _ s' => AtRest s' ∧
      ∀ user, s'.bookOf user =
        if env.shardOf user = i then pruned now (s.bookOf user) else s.bookOf user) s := by
  have hlocked : exec env t (.iterLock i) s = some (s.shardEntries i,
      { s with guards := Function.update s.guards i (some .read) }) := by
    simp [exec, h.guards]
  unfold pruneShard
  refine Prog.achieves_op ⟨_, _, hlocked, ?_⟩
  change ((s.shardEntries i).forM (pruneFlows now) >>= fun _ => perform (.iterRelease i)).Achieves
    (budgetSystem env) t _ _
  refine Prog.achieves_bind ((sweep_achieves (f := pruned now) rfl (fun s e hs hmap _ =>
    pruneFlows_achieves hs hmap) (h.guarded (Function.update s.guards i (some .read)))).mono ?_)
  rintro - s' ⟨hquiet, hbooks⟩
  refine Prog.achieves_op ⟨(), { s' with guards := fun _ => none }, ?_,
    Prog.achieves_ret ⟨hquiet.guarded _, hbooks⟩⟩
  simp [exec, hquiet.guards, h.guards]

theorem shards_achieve {p : ℕ → BudgetProg Unit}
    (hp : ∀ i s, AtRest s → (p i).Achieves (budgetSystem env) t (fun _ s' => AtRest s' ∧
      ∀ user, s'.bookOf user =
        if env.shardOf user = i then f (s.bookOf user) else s.bookOf user) s) (h : AtRest s) :
    ((List.range env.shards).forM p).Achieves (budgetSystem env) t
      (fun _ s' => AtRest s' ∧ ∀ user, s'.bookOf user = f (s.bookOf user)) s := by
  refine (Prog.achieves_forM (fun l (s' : Budgets env) => AtRest s' ∧ l.Nodup ∧
      ∀ user, s'.bookOf user = if env.shardOf user ∈ l then s.bookOf user else f (s.bookOf user)) ?_
      ⟨h, List.nodup_range, fun user => ?_⟩).mono ?_
  · rintro i l s' ⟨hidle, hnodup, hbooks⟩
    obtain ⟨hfirst, hnodup'⟩ := List.nodup_cons.1 hnodup
    refine (hp i s' hidle).mono ?_
    rintro - s'' ⟨hidle', hbooks'⟩
    refine ⟨hidle', hnodup', fun user => ?_⟩
    rw [hbooks' user, hbooks user]
    by_cases hshard : env.shardOf user = i
    · simp [hshard, hfirst]
    · simp [hshard]
  · rintro - s' ⟨hidle, -, hbooks⟩
    exact ⟨hidle, fun user => by rw [hbooks user, if_neg List.not_mem_nil]⟩
  · rw [if_pos (List.mem_range.2 (env.shardOf_lt user))]

theorem maintain_achieves (h : AtRest s) (now : UInt64) :
    (maintain env now).Achieves (budgetSystem env) t (fun _ s' => AtRest s' ∧
      ∀ user, s'.bookOf user = pruned now (kept now (s.bookOf user))) s := by
  unfold maintain
  refine Prog.achieves_bind ((shards_achieve (fun i s hs => evictShard_achieves hs i) h).mono ?_)
  rintro - s₁ ⟨hidle, hbooks⟩
  refine (shards_achieve (fun i s hs => pruneShard_achieves hs i) hidle).mono ?_
  rintro - s₂ ⟨hidle', hbooks'⟩
  exact ⟨hidle', fun user => by rw [hbooks' user, hbooks user]⟩

end Maintenance

/-! ### Sequences of calls -/

inductive Call
  | event (call : EventCall)
  | maintain (now : UInt64)

/-- A call with the states before and after it, and with its answer if it is an event. -/
structure CallStep (env : Env) where
  call : Call
  before : Budgets env
  answer : Option Bool
  after : Budgets env

/-- Calls one after another.  No account is removed while `len` counts. -/
inductive Calls (env : Env) : Budgets env → List (CallStep env) → Budgets env → Prop
  | nil (s : Budgets env) : Calls env s [] s
  | event {s s₁ s' : Budgets env} {steps : List (CallStep env)} {admitted : Bool}
      (i : Fin env.callers) (call : EventCall)
      (hrun : (eventAnswer env { call with stale := 0 }).run (budgetSystem env) (.caller i) s =
        some (admitted, s₁))
      (h : Calls env s₁ steps s') : Calls env s (⟨.event call, s, some admitted, s₁⟩ :: steps) s'
  | maintain {s s₁ s' : Budgets env} {steps : List (CallStep env)} (now : UInt64)
      (hrun : (AccountBudget.maintain env now).run (budgetSystem env) .maintenance s =
        some ((), s₁))
      (h : Calls env s₁ steps s') : Calls env s (⟨.maintain now, s, none, s₁⟩ :: steps) s'

theorem Calls.total {s : Budgets env} (hcallers : 0 < env.callers) (calls : List Call)
    (h : AtRest s) : ∃ steps s', Calls env s steps s' ∧ steps.map (·.call) = calls := by
  induction calls generalizing s with
  | nil => exact ⟨[], s, .nil s, rfl⟩
  | cons call calls ih =>
      cases call with
      | event call =>
          obtain ⟨admitted, s₁, hrun, hidle, -⟩ :=
            run_eventAnswer (t := .caller ⟨0, hcallers⟩) h { call with stale := 0 }
          obtain ⟨steps, s', hsteps, hcalls⟩ := ih hidle
          exact ⟨_, s', .event ⟨0, hcallers⟩ call hrun hsteps, by rw [List.map_cons, hcalls]⟩
      | maintain now =>
          obtain ⟨_, s₁, hrun, hidle, -⟩ := maintain_achieves (t := .maintenance) h now
          obtain ⟨steps, s', hsteps, hcalls⟩ := ih hidle
          exact ⟨_, s', .maintain now hrun hsteps, by rw [List.map_cons, hcalls]⟩

/-- The budgets are reached by calls. -/
structure Reached (s : Budgets env) : Prop where
  idle : AtRest s
  sequence : (budgetSystem env).Sequence (fun _ _ => True) .new s

theorem reached_new : Reached (.new : Budgets env) := ⟨atRest_new, Relation.ReflTransGen.refl⟩

namespace Reached

variable {s s' : Budgets env}

theorem event (h : Reached s) {i : Fin env.callers} {call : EventCall} {admitted : Bool}
    (hrun : (eventAnswer env call).run (budgetSystem env) (.caller i) s = some (admitted, s')) :
    Reached s' ∧ EventEffect call s admitted s' := by
  obtain ⟨admitted', s'', hrun', hidle, heffect⟩ := run_eventAnswer (t := .caller i) h.idle call
  rw [hrun] at hrun'
  cases hrun'
  refine ⟨⟨hidle, h.sequence.tail ⟨.event i call, trivial, ?_⟩⟩, heffect⟩
  change (AccountBudget.event env call).run (budgetSystem env) (.caller i) s = some ((), s')
  rw [event_eq, Prog.run_bind, hrun]
  rfl

theorem maintain (h : Reached s) {now : UInt64}
    (hrun : (AccountBudget.maintain env now).run (budgetSystem env) .maintenance s =
      some ((), s')) :
    Reached s' ∧ ∀ user, s'.bookOf user = pruned now (kept now (s.bookOf user)) := by
  obtain ⟨_, s'', hrun', hidle, hbooks⟩ := maintain_achieves (t := .maintenance) h.idle now
  rw [hrun] at hrun'
  cases hrun'
  exact ⟨⟨hidle, h.sequence.tail ⟨.maintain now, trivial, hrun⟩⟩, hbooks⟩

/-- Between the calls the counter of tracked flows is exact. -/
theorem slots_eq (h : Reached s) : s.slots.toNat = s.flowsLen := by
  obtain ⟨c, hsteps, rfl, hidle⟩ := h.sequence.steps
  exact slots_eq_flowsLen hsteps hidle

end Reached

end SwiftRelay.AccountBudget
