/-
**Account budgets as a system of threads.**

Any number of threads charge events to accounts, while a maintenance thread now and then evicts the
accounts that nobody uses and forgets stale flows.  The accounts live in a concurrent map of
reference-counted pointers; each has a mutex around its state and an atomic time of last use.  The
number of flows tracked in all accounts together is one more atomic counter, which is changed next
to the flow tables but not together with them.

An account is a cell of a heap, and the clones of its pointer are listed with the threads that have
them.  Adding an account is serialised by a mutex of its own.

Main definitions:

* `Env`, `Tid`, `Account`, `Budgets` — configuration, threads and state;
* `Op`, `exec` — the operations;
* `account`, `event`, `maintain` — the programs;
* `StateStep`, `CellStep`, `OpStep` — the ways in which the state of an account, a cell of the heap
  and the whole state can change.

Main results:

* `opStep` — everything that an operation can do;
* `cellStep` — everything that it can do to a cell;
* `exec_accounts`, `exec_shared` — everything that it can do to the map, and to the rest of the
  state;
* `wp_perform` — the rule for an operation.
-/

import Mathlib.Data.Fintype.Sum
import Mathlib.Tactic.DeriveFintype
import SwiftRelay.AccountState
import SwiftRelay.Contract

set_option autoImplicit false

namespace SwiftRelay.AccountBudget

open Conc

/-! ### Configuration, threads and state -/

/-- The policy and the capacities, the number of threads that call `event`, and the shards of the
account map with the randomly keyed hash that picks the shard of a user. -/
structure Env where
  policy : Policy
  accountLimit : ℕ
  flowLimit : UInt64
  callers : ℕ
  shards : ℕ
  shardOf : String → ℕ
  shardOf_lt : ∀ user, shardOf user < shards

inductive Tid (env : Env)
  | caller (i : Fin env.callers)
  | maintenance
  deriving DecidableEq, Fintype

/-- An account, with the threads that have a clone of the pointer to it, and the one that has locked
its state. -/
structure Account (env : Env) where
  user : String
  state : State
  lastUsed : UInt64
  clones : List (Tid env)
  lock : Option (Tid env)

/-- How the maintenance thread holds a shard of the account map. -/
inductive ShardGuard
  | write
  | read
  deriving DecidableEq

structure Budgets (env : Env) where
  accounts : Table String ℕ
  heap : Table ℕ (Account env)
  nextCell : ℕ
  slots : UInt64
  admission : Option (Tid env)
  guards : ℕ → Option ShardGuard
  capacityPackets : UInt64
  capacityDrops : UInt64

variable {env : Env}

namespace Budgets

def new : Budgets env where
  accounts := ∅
  heap := ∅
  nextCell := 0
  slots := 0
  admission := none
  guards := fun _ => none
  capacityPackets := 0
  capacityDrops := 0

/-- Overwrite a cell. -/
def put (s : Budgets env) (cell : ℕ) (account : Account env) : Budgets env :=
  { s with heap := s.heap.insert cell account }

/-- The map has a pointer to the cell. -/
def mapped (s : Budgets env) (cell : ℕ) (account : Account env) : Bool :=
  s.accounts.lookup account.user = some cell

/-- `Arc::strong_count`. -/
def strongCount (s : Budgets env) (cell : ℕ) (account : Account env) : ℕ :=
  account.clones.length + if s.mapped cell account then 1 else 0

/-- The accounts in shard `i`. -/
def shardEntries (s : Budgets env) (i : ℕ) : List (String × ℕ) :=
  (s.accounts.entries.map fun e => (e.1, e.2)).filter fun e => decide (env.shardOf e.1 = i)

end Budgets

/-! ### The operations -/

/-- What becomes of an event: the effective time where it was charged to an account, whether its
flow was not tracked before, and whether it is admitted. -/
structure Verdict where
  user : String
  bytes : UInt64
  effective : UInt64
  newFlow : Bool
  admitted : Bool
  deriving DecidableEq

inductive Op
  /- looking an account up -/
  | accountGet (user : String)
  | admissionLock
  | accountsLen (stale : ℕ)
  | accountEntry (user : String) (now : UInt64)
  | admissionUnlock
  | capacityPacket
  | capacityDrop
  /- an event -/
  | lastUsedMax (cell : ℕ) (now : UInt64)
  | stateLock (cell : ℕ)
  | enter (cell : ℕ) (now : UInt64) (flow : Option Flow)
  | charge (cell : ℕ) (out : Bool) (bytes : UInt64) (flow : Option Flow)
  | noteUntracked (cell : ℕ)
  | track (cell : ℕ) (key : Flow) (now : UInt64) (newFlow : Bool)
  | answer (cell : ℕ) (verdict : Verdict)
  | stateUnlock (cell : ℕ)
  | dropClone (cell : ℕ)
  /- the number of tracked flows -/
  | slotsSub (n : ℕ)
  | slotsReserve
  /- maintenance -/
  | retainLock (i : ℕ)
  | lastUsedLoad (cell : ℕ)
  | strongCount (cell : ℕ)
  | retainErase (user : String)
  | retainRelease (i : ℕ)
  | iterLock (i : ℕ)
  | retainFlows (cell : ℕ) (now : UInt64)
  | iterRelease (i : ℕ)

abbrev Op.Ret : Op → Type
  | .accountGet _ => Option ℕ
  | .accountsLen _ => ℕ
  | .accountEntry .. => ℕ
  | .enter .. => UInt64 × Bool
  | .charge .. => Bool × Bool
  | .dropClone _ => Option ℕ
  | .slotsReserve => Bool
  | .retainLock _ => List (String × ℕ)
  | .lastUsedLoad _ => UInt64
  | .strongCount _ => ℕ
  | .retainErase _ => Option ℕ
  | .iterLock _ => List (String × ℕ)
  | .retainFlows .. => ℕ
  | _ => Unit

abbrev sig : Signature := ⟨Op, Op.Ret⟩

/-- Work on the state of an account that thread `t` has locked. -/
def onState {α : Type} (s : Budgets env) (t : Tid env) (cell : ℕ) (f : State → α × State) :
    Option (α × Budgets env) :=
  match s.heap.lookup cell with
  | none => none
  | some a =>
      if a.lock = some t then
        let r := f a.state
        some (r.1, s.put cell { a with state := r.2 })
      else none

/-- What an operation of thread `t` answers and does; nothing if it is blocked.  `accountsLen` adds
the lengths of the shards one after the other, and may so count accounts that are removed meanwhile:
`stale` of them.  `dropClone` and `retainErase` answer with the number of flows of the account if
they gave up the last pointer to it, because then it is dropped. -/
def exec (env : Env) (t : Tid env) : (o : Op) → Budgets env → Option (o.Ret × Budgets env)
  | .accountGet user, s =>
      if s.guards (env.shardOf user) = some .write then none
      else
        match s.accounts.lookup user with
        | none => some (none, s)
        | some cell =>
            match s.heap.lookup cell with
            | none => none
            | some a => some (some cell, s.put cell { a with clones := t :: a.clones })
  | .admissionLock, s =>
      if s.admission = none then some ((), { s with admission := some t }) else none
  | .accountsLen stale, s => some (s.accounts.size + stale, s)
  | .accountEntry user now, s =>
      if s.guards (env.shardOf user) = none then
        match s.accounts.lookup user with
        | some cell =>
            match s.heap.lookup cell with
            | none => none
            | some a => some (cell, s.put cell { a with clones := t :: a.clones })
        | none =>
            let s' := s.put s.nextCell ⟨user, .new now, now, [t], none⟩
            some (s.nextCell,
              { s' with
                accounts := s.accounts.insert user s.nextCell
                nextCell := s.nextCell + 1 })
      else none
  | .admissionUnlock, s =>
      if s.admission = some t then some ((), { s with admission := none }) else none
  | .capacityPacket, s => some ((), { s with capacityPackets := s.capacityPackets + 1 })
  | .capacityDrop, s => some ((), { s with capacityDrops := s.capacityDrops + 1 })
  | .lastUsedMax cell now, s =>
      match s.heap.lookup cell with
      | none => none
      | some a => some ((), s.put cell { a with lastUsed := max a.lastUsed now })
  | .stateLock cell, s =>
      match s.heap.lookup cell with
      | none => none
      | some a => if a.lock = none then some ((), s.put cell { a with lock := some t }) else none
  | .enter cell now flow, s => onState s t cell fun state => state.enter now flow
  | .charge cell out bytes flow, s =>
      onState s t cell fun state => state.charge env.policy out bytes flow
  | .noteUntracked cell, s => onState s t cell fun state => ((), state.noteUntracked env.policy)
  | .track cell key now newFlow, s => onState s t cell fun state =>
    ((), state.track key now newFlow)
  | .answer cell _, s => onState s t cell fun state => ((), state)
  | .stateUnlock cell, s =>
      match s.heap.lookup cell with
      | none => none
      | some a => if a.lock = some t then some ((), s.put cell { a with lock := none }) else none
  | .dropClone cell, s =>
      match s.heap.lookup cell with
      | none => none
      | some a =>
          let a := { a with clones := a.clones.erase t }
          if s.strongCount cell a = 0 then
            some (some a.state.flows.size, { s with heap := s.heap.erase cell })
          else some (none, s.put cell a)
  | .slotsSub n, s => some ((), { s with slots := s.slots - UInt64.ofNat n })
  | .slotsReserve, s =>
      if s.slots < env.flowLimit then some (true, { s with slots := s.slots + 1 })
      else some (false, s)
  | .retainLock i, s =>
      if s.guards i = none then
        some (s.shardEntries i, { s with guards := Function.update s.guards i (some .write) })
      else none
  | .lastUsedLoad cell, s => (s.heap.lookup cell).map fun a => (a.lastUsed, s)
  | .strongCount cell, s => (s.heap.lookup cell).map fun a => (s.strongCount cell a, s)
  | .retainErase user, s =>
      if s.guards (env.shardOf user) = some .write then
        match s.accounts.lookup user with
        | none => none
        | some cell =>
            match s.heap.lookup cell with
            | none => none
            | some a =>
                let s := { s with accounts := s.accounts.erase user }
                if a.clones = [] then
                  some (some a.state.flows.size, { s with heap := s.heap.erase cell })
                else some (none, s)
      else none
  | .retainRelease i, s =>
      if s.guards i = some .write then
        some ((), { s with guards := Function.update s.guards i none })
      else none
  | .iterLock i, s =>
      if s.guards i = none then
        some (s.shardEntries i, { s with guards := Function.update s.guards i (some .read) })
      else none
  | .retainFlows cell now, s => onState s t cell fun state =>
      (state.flows.size - (state.retainFlows now).flows.size, state.retainFlows now)
  | .iterRelease i, s =>
      if s.guards i = some .read then
        some ((), { s with guards := Function.update s.guards i none })
      else none

/-! ### Programs -/

abbrev BudgetProg := Prog sig

def perform (o : Op) : BudgetProg o.Ret := Prog.perform (S := sig) o

@[simp] theorem perform_eq (o : Op) : perform o = .op o .ret := rfl

/-- A call of `event`: the arguments, and how many removed accounts `len` still counts. -/
structure EventCall where
  user : String
  out : Bool
  bytes : UInt64
  flow : Option Flow
  now : UInt64
  stale : ℕ

/-- A clone of the pointer to the account of a user, which is added if there is none and there is
room. -/
def account (env : Env) (user : String) (now : UInt64) (stale : ℕ) : BudgetProg (Option ℕ) := do
  match ← perform (.accountGet user) with
  | some cell => return some cell
  | none =>
      perform .admissionLock
      match ← perform (.accountGet user) with
      | some cell =>
          perform .admissionUnlock
          return some cell
      | none =>
          if (← perform (.accountsLen stale)) ≥ env.accountLimit then
            perform .admissionUnlock
            return none
          else
            let cell ← perform (.accountEntry user now)
            perform .admissionUnlock
            return some cell

/-- The drop of an account gives its flows back. -/
def giveBack : Option ℕ → BudgetProg Unit
  | none => return ()
  | some n => perform (.slotsSub n)

/-- Track the flow of an event, if there is room.  The answer is whether the event is admitted. -/
def trackFlow (env : Env) (cell : ℕ) (key : Flow) (now : UInt64) (newFlow : Bool) :
    BudgetProg Bool := do
  if newFlow then
    if !(← perform .slotsReserve) then
      perform (.noteUntracked cell)
      return !env.policy.enforce
  perform (.track cell key now newFlow)
  return true

/-- What happens with the event after it was charged. -/
def decideEvent (env : Env) (cell : ℕ) (flow : Option Flow) (now : UInt64)
    (newFlow exceeded : Bool) : BudgetProg Bool :=
  if exceeded && env.policy.enforce then return false
  else
    match flow with
    | none => return true
    | some key => trackFlow env cell key now newFlow

/-- The part of an event under the lock of the account. -/
def lockedSection (env : Env) (call : EventCall) (cell : ℕ) : BudgetProg Unit := do
  perform (.stateLock cell)
  let (now, expired) ← perform (.enter cell call.now call.flow)
  if expired then perform (.slotsSub 1)
  let (newFlow, exceeded) ← perform (.charge cell call.out call.bytes call.flow)
  let admitted ← decideEvent env cell call.flow now newFlow exceeded
  perform (.answer cell ⟨call.user, call.bytes, now, newFlow, admitted⟩)
  perform (.stateUnlock cell)

/-- An event.  Without an account it is admitted only where nothing is enforced. -/
def event (env : Env) (call : EventCall) : BudgetProg Unit := do
  match ← account env call.user call.now call.stale with
  | none =>
      perform .capacityPacket
      if env.policy.enforce then perform .capacityDrop
  | some cell =>
      perform (.lastUsedMax cell call.now)
      lockedSection env call cell
      let last ← perform (.dropClone cell)
      giveBack last

/-- Evict an account that was not used for long and that no event has a clone of. -/
def evictIdle (now : UInt64) (entry : String × ℕ) : BudgetProg Unit := do
  let lastUsed ← perform (.lastUsedLoad entry.2)
  if Word64.satSub now lastUsed < accountIdleSeconds then return ()
  if (← perform (.strongCount entry.2)) > 1 then return ()
  let last ← perform (.retainErase entry.1)
  giveBack last

def evictShard (now : UInt64) (i : ℕ) : BudgetProg Unit := do
  let entries ← perform (.retainLock i)
  entries.forM (evictIdle now)
  perform (.retainRelease i)

/-- Forget the stale flows of an account. -/
def pruneFlows (now : UInt64) (entry : String × ℕ) : BudgetProg Unit := do
  perform (.stateLock entry.2)
  let removed ← perform (.retainFlows entry.2 now)
  perform (.slotsSub removed)
  perform (.stateUnlock entry.2)

def pruneShard (now : UInt64) (i : ℕ) : BudgetProg Unit := do
  let entries ← perform (.iterLock i)
  entries.forM (pruneFlows now)
  perform (.iterRelease i)

def maintain (env : Env) (now : UInt64) : BudgetProg Unit := do
  (List.range env.shards).forM (evictShard now)
  (List.range env.shards).forM (pruneShard now)

inductive Act (env : Env)
  | event (i : Fin env.callers) (call : EventCall)
  | maintain (now : UInt64)

def Act.tid : Act env → Tid env
  | .event i _ => .caller i
  | .maintain _ => .maintenance

def Act.prog : Act env → BudgetProg Unit
  | .event _ call => AccountBudget.event env call
  | .maintain now => AccountBudget.maintain env now

abbrev budgetSystem (env : Env) : System sig where
  State := Budgets env
  Tid := Tid env
  Act := Act env
  exec := exec env
  tidOf := Act.tid
  prog := Act.prog

abbrev BudgetWorld (env : Env) := (budgetSystem env).World

/-! ### What the operations do -/

def Op.ofCaller : Op → Prop
  | .retainLock _ | .lastUsedLoad _ | .strongCount _ | .retainErase _ | .retainRelease _ => False
  | .iterLock _ | .retainFlows .. | .iterRelease _ => False
  | _ => True

def Op.ofMaintenance : Op → Prop
  | .retainLock _ | .lastUsedLoad _ | .strongCount _ | .retainErase _ | .retainRelease _ => True
  | .iterLock _ | .retainFlows .. | .iterRelease _ => True
  | .stateLock _ | .stateUnlock _ | .slotsSub _ => True
  | _ => False

/-- The operation takes the lock of an account. -/
def Op.isLock : Op → Bool
  | .stateLock _ => true
  | _ => false

/-- The operation answers an event. -/
def Op.isAnswer : Op → Bool
  | .answer .. => true
  | _ => false

/-- The operations that occur in the programs of a thread. -/
def Tid.may : Tid env → Op → Prop
  | .caller _ => Op.ofCaller
  | .maintenance => Op.ofMaintenance

section Uses

theorem uses_perform_bind {α : Type} {φ : Op → Prop} {o : Op} {f : o.Ret → BudgetProg α} (ho : φ o)
    (hf : ∀ r, (f r).Uses φ) : (perform o >>= f).Uses φ := ⟨ho, hf⟩

theorem giveBack_uses {φ : Op → Prop} (hφ : ∀ n, φ (.slotsSub n)) (freed : Option ℕ) :
    (giveBack freed).Uses φ := by
  cases freed with
  | none => trivial
  | some n => exact ⟨hφ n, fun _ => trivial⟩

theorem account_uses (user : String) (now : UInt64) (stale : ℕ) :
    (account env user now stale).Uses Op.ofCaller := by
  unfold account
  simp only [perform_eq, Prog.op_bind, Prog.ret_bind, Prog.pure_eq]
  refine ⟨trivial, fun found => ?_⟩
  cases found with
  | some cell => trivial
  | none =>
      refine ⟨trivial, fun _ => ⟨trivial, fun found => ?_⟩⟩
      cases found with
      | some cell => exact ⟨trivial, fun _ => trivial⟩
      | none => simp [Op.ofCaller]

theorem decideEvent_uses (cell : ℕ) (flow : Option Flow) (now : UInt64) (newFlow exceeded : Bool) :
    (decideEvent env cell flow now newFlow exceeded).Uses Op.ofCaller := by
  unfold decideEvent trackFlow
  split
  · trivial
  · cases flow with
    | none => trivial
    | some key => simp [Op.ofCaller]

theorem lockedSection_uses (call : EventCall) (cell : ℕ) :
    (lockedSection env call cell).Uses Op.ofCaller := by
  have hcharge : ∀ now : UInt64, Prog.Uses (S := sig) Op.ofCaller (do
      let (newFlow, exceeded) ← perform (.charge cell call.out call.bytes call.flow)
      let admitted ← decideEvent env cell call.flow now newFlow exceeded
      perform (.answer cell ⟨call.user, call.bytes, now, newFlow, admitted⟩)
      perform (.stateUnlock cell)) := fun now =>
    uses_perform_bind trivial fun r =>
      Prog.uses_bind (decideEvent_uses cell call.flow now r.1 r.2) fun _ =>
        ⟨trivial, fun _ => ⟨trivial, fun _ => trivial⟩⟩
  refine ⟨trivial, fun _ => ⟨trivial, fun r => ?_⟩⟩
  obtain ⟨now, expired⟩ := r
  cases expired with
  | false => exact hcharge now
  | true => exact ⟨trivial, fun _ => hcharge now⟩

theorem event_uses (call : EventCall) : (event env call).Uses Op.ofCaller := by
  refine Prog.uses_bind (account_uses _ _ _) fun found => ?_
  cases found with
  | none => simp [Op.ofCaller]
  | some cell =>
      exact uses_perform_bind trivial fun _ => Prog.uses_bind (lockedSection_uses call cell)
        fun _ => uses_perform_bind trivial fun freed => giveBack_uses (fun _ => trivial) freed

theorem evictShard_uses (now : UInt64) (i : ℕ) : (evictShard now i).Uses Op.ofMaintenance := by
  refine uses_perform_bind trivial fun entries =>
    Prog.uses_bind (Prog.uses_forM fun e _ => ?_) fun _ => ⟨trivial, fun _ => trivial⟩
  unfold evictIdle
  simp only [perform_eq, Prog.op_bind, Prog.ret_bind, Prog.pure_eq, Prog.uses_op, Prog.uses_ite,
    Prog.uses_ret, Op.ofMaintenance, true_and, implies_true]
  exact fun _ _ _ _ freed => giveBack_uses (fun _ => trivial) freed

/-- The operations of the second half of a maintenance pass. -/
def Op.ofPrune : Op → Prop
  | .iterLock _ | .retainFlows .. | .iterRelease _ | .stateLock _ | .stateUnlock _ => True
  | .slotsSub _ => True
  | _ => False

theorem pruneShard_uses (now : UInt64) (i : ℕ) : (pruneShard now i).Uses Op.ofPrune := by
  refine uses_perform_bind trivial fun entries =>
    Prog.uses_bind (Prog.uses_forM fun e _ => ?_) fun _ => ⟨trivial, fun _ => trivial⟩
  exact ⟨trivial, fun _ => ⟨trivial, fun _ => ⟨trivial, fun _ => ⟨trivial, fun _ => trivial⟩⟩⟩⟩

theorem maintain_uses (now : UInt64) : (maintain env now).Uses Op.ofMaintenance :=
  Prog.uses_bind (Prog.uses_forM fun i _ => evictShard_uses now i) fun _ =>
    Prog.uses_forM fun i _ => (pruneShard_uses now i).mono fun o ho => by cases o <;> trivial

theorem prog_uses (a : Act env) : a.prog.Uses a.tid.may := by
  cases a with
  | event i call => exact event_uses call
  | maintain now => exact maintain_uses now

end Uses

/-- What an operation can do to the state of an account. -/
inductive StateStep (policy : Policy) (cell : ℕ) : Op → State → State → Prop
  | enter (s : State) (now : UInt64) (flow : Option Flow) :
      StateStep policy cell (.enter cell now flow) s (s.enter now flow).2
  | charge (s : State) (out : Bool) (bytes : UInt64) (flow : Option Flow) :
      StateStep policy cell (.charge cell out bytes flow) s (s.charge policy out bytes flow).2
  | noteUntracked (s : State) :
      StateStep policy cell (.noteUntracked cell) s (s.noteUntracked policy)
  | track (s : State) (key : Flow) (now : UInt64) (newFlow : Bool) :
      StateStep policy cell (.track cell key now newFlow) s (s.track key now newFlow)
  | answer (s : State) (verdict : Verdict) : StateStep policy cell (.answer cell verdict) s s
  | retainFlows (s : State) (now : UInt64) :
      StateStep policy cell (.retainFlows cell now) s (s.retainFlows now)

/-- What an operation of thread `t` can do to a cell of the heap. -/
inductive CellStep (t : Tid env) (o : Op) (s : Budgets env) (cell : ℕ) :
    Option (Account env) → Option (Account env) → Prop
  | same (x : Option (Account env)) : CellStep t o s cell x x
  | create (x : Option (Account env)) (user : String) (now : UInt64)
      (ho : o = .accountEntry user now) (hcell : cell = s.nextCell)
      (hnone : s.accounts.lookup user = none) :
      CellStep t o s cell x (some ⟨user, .new now, now, [t], none⟩)
  | clone (a : Account env) (user : String) (hmap : s.accounts.lookup user = some cell)
      (hguard : s.guards (env.shardOf user) ≠ some .write) :
      CellStep t o s cell (some a) (some { a with clones := t :: a.clones })
  | dropClone (a : Account env) (ho : o = .dropClone cell) :
      CellStep t o s cell (some a) (some { a with clones := a.clones.erase t })
  | dropLast (a : Account env) (hclones : a.clones.erase t = [])
      (hmapped : s.mapped cell a = false) : CellStep t o s cell (some a) none
  | evict (a : Account env) (user : String) (ho : o = .retainErase user) (hclones : a.clones = [])
      (hmap : s.accounts.lookup user = some cell) : CellStep t o s cell (some a) none
  | touch (a : Account env) (now : UInt64) (ho : o = .lastUsedMax cell now) :
      CellStep t o s cell (some a) (some { a with lastUsed := max a.lastUsed now })
  | lock (a : Account env) (ho : o = .stateLock cell) (hfree : a.lock = none) :
      CellStep t o s cell (some a) (some { a with lock := some t })
  | unlock (a : Account env) (hheld : a.lock = some t) :
      CellStep t o s cell (some a) (some { a with lock := none })
  | update (a : Account env) (state : State) (hheld : a.lock = some t)
      (hstate : StateStep env.policy cell o a.state state) :
      CellStep t o s cell (some a) (some { a with state })

/-- What an operation of thread `t` can do. -/
inductive OpStep (t : Tid env) (o : Op) (s : Budgets env) : Budgets env → Prop
  | same : OpStep t o s s
  | create (user : String) (now : UInt64) (ho : o = .accountEntry user now)
      (hguard : s.guards (env.shardOf user) = none) (hnone : s.accounts.lookup user = none) :
      OpStep t o s { s.put s.nextCell ⟨user, .new now, now, [t], none⟩ with
        accounts := s.accounts.insert user s.nextCell
        nextCell := s.nextCell + 1 }
  | put (c : ℕ) (a a' : Account env) (ha : s.heap.lookup c = some a)
      (hcell : CellStep t o s c (some a) (some a')) : OpStep t o s (s.put c a')
  | drop (c : ℕ) (a : Account env) (ho : o = .dropClone c) (ha : s.heap.lookup c = some a)
      (hcell : CellStep t o s c (some a) none) : OpStep t o s { s with heap := s.heap.erase c }
  | erase (user : String) (ho : o = .retainErase user) (heap : Table ℕ (Account env))
      (hcell : ∀ cell, CellStep t o s cell (s.heap.lookup cell) (heap.lookup cell)) :
      OpStep t o s { s with accounts := s.accounts.erase user, heap }
  | slotsSub (n : ℕ) (ho : o = .slotsSub n) :
      OpStep t o s { s with slots := s.slots - UInt64.ofNat n }
  | slotsReserve (ho : o = .slotsReserve) (hroom : s.slots < env.flowLimit) :
      OpStep t o s { s with slots := s.slots + 1 }
  | admissionLock (ho : o = .admissionLock) (hfree : s.admission = none) :
      OpStep t o s { s with admission := some t }
  | admissionUnlock (ho : o = .admissionUnlock) (hheld : s.admission = some t) :
      OpStep t o s { s with admission := none }
  | guard (i : ℕ) (guard : Option ShardGuard) (ho : ¬ o.ofCaller) :
      OpStep t o s { s with guards := Function.update s.guards i guard }
  | stats (packets drops : UInt64) :
      OpStep t o s { s with capacityPackets := packets, capacityDrops := drops }

section Effects

variable {t : Tid env} {o : Op} {s s' : Budgets env}

@[simp] theorem Budgets.lookup_put (s : Budgets env) (cell cell' : ℕ) (a : Account env) :
    (s.put cell a).heap.lookup cell' = if cell' = cell then some a else s.heap.lookup cell' :=
  Table.lookup_insert_eq _ _ _ _

theorem CellStep.put {c : ℕ} {a a' : Account env} (ha : s.heap.lookup c = some a)
    (h : CellStep t o s c (some a) (some a')) (cell : ℕ) :
    CellStep t o s cell (s.heap.lookup cell) ((s.put c a').heap.lookup cell) := by
  rw [Budgets.lookup_put]
  split
  · next hcell =>
      rw [hcell, ha]
      exact h
  · exact .same _

theorem CellStep.erase {c : ℕ} {a : Account env} (ha : s.heap.lookup c = some a)
    (h : CellStep t o s c (some a) none) (cell : ℕ) :
    CellStep t o s cell (s.heap.lookup cell) ((s.heap.erase c).lookup cell) := by
  rw [Table.lookup_erase_eq]
  split
  · next hcell =>
      rw [hcell, ha]
      exact h
  · exact .same _

variable {cell : ℕ}

theorem onState_eq_some {α : Type} {f : State → α × State} {r : α}
    (h : onState s t cell f = some (r, s')) :
    ∃ a, s.heap.lookup cell = some a ∧ a.lock = some t ∧ r = (f a.state).1 ∧
      s' = s.put cell { a with state := (f a.state).2 } := by
  unfold onState at h
  split at h
  · cases h
  · next a ha =>
      simp only at h
      split at h
      · next hheld =>
          cases h
          exact ⟨a, ha, hheld, rfl, rfl⟩
      · cases h

variable {user : String} {r : o.Ret}

theorem exec_accountEntry {now : UInt64} {r : ℕ}
    (h : exec env t (.accountEntry user now) s = some (r, s')) :
    s.guards (env.shardOf user) = none ∧
    ((∃ a, s.accounts.lookup user = some r ∧ s.heap.lookup r = some a ∧
        s' = s.put r { a with clones := t :: a.clones }) ∨
      (s.accounts.lookup user = none ∧ r = s.nextCell ∧
        s' = { s.put s.nextCell ⟨user, .new now, now, [t], none⟩ with
          accounts := s.accounts.insert user s.nextCell
          nextCell := s.nextCell + 1 })) := by
  simp only [exec] at h
  split at h
  · next hguard =>
      refine ⟨hguard, ?_⟩
      split at h
      · next c hc =>
          split at h
          · cases h
          · next a ha =>
              cases h
              exact Or.inl ⟨a, hc, ha, rfl⟩
      · next hnone =>
          cases h
          exact Or.inr ⟨hnone, rfl, rfl⟩
  · cases h

theorem exec_accountGet {r : Option ℕ} (h : exec env t (.accountGet user) s = some (r, s')) :
    s.guards (env.shardOf user) ≠ some .write ∧
    ((s.accounts.lookup user = none ∧ r = none ∧ s' = s) ∨
      ∃ cell a, s.accounts.lookup user = some cell ∧ s.heap.lookup cell = some a ∧
        r = some cell ∧ s' = s.put cell { a with clones := t :: a.clones }) := by
  simp only [exec] at h
  split at h
  · cases h
  · next hguard =>
      refine ⟨hguard, ?_⟩
      split at h
      · next hnone =>
          cases h
          exact Or.inl ⟨hnone, rfl, rfl⟩
      · next c hc =>
          split at h
          · cases h
          · next a ha =>
              cases h
              exact Or.inr ⟨c, a, hc, ha, rfl, rfl⟩

/-- An account is removed from the map, and dropped if nobody else has it. -/
theorem exec_retainErase {r : Option ℕ} (h : exec env t (.retainErase user) s = some (r, s')) :
    ∃ cell a, s.guards (env.shardOf user) = some .write ∧ s.accounts.lookup user = some cell ∧
      s.heap.lookup cell = some a ∧
      ((a.clones = [] ∧ r = some a.state.flows.size ∧
          s' = { s with accounts := s.accounts.erase user, heap := s.heap.erase cell }) ∨
        (a.clones ≠ [] ∧ r = none ∧ s' = { s with accounts := s.accounts.erase user })) := by
  simp only [exec] at h
  split at h
  · next hguard =>
      split at h
      · cases h
      · next c hc =>
          split at h
          · cases h
          · next a ha =>
              refine ⟨c, a, hguard, hc, ha, ?_⟩
              split at h
              · next hclones =>
                  cases h
                  exact Or.inl ⟨hclones, rfl, rfl⟩
              · next hclones =>
                  cases h
                  exact Or.inr ⟨hclones, rfl, rfl⟩
  · cases h

theorem exec_lastUsedLoad {r : UInt64} (h : exec env t (.lastUsedLoad cell) s = some (r, s')) :
    s' = s ∧ ∃ a, s.heap.lookup cell = some a ∧ r = a.lastUsed := by
  obtain ⟨a, ha, heq⟩ := Option.map_eq_some_iff.1 h
  cases heq
  exact ⟨rfl, a, ha, rfl⟩

theorem exec_strongCount {r : ℕ} (h : exec env t (.strongCount cell) s = some (r, s')) :
    s' = s ∧ ∃ a, s.heap.lookup cell = some a ∧ r = s.strongCount cell a := by
  obtain ⟨a, ha, heq⟩ := Option.map_eq_some_iff.1 h
  cases heq
  exact ⟨rfl, a, ha, rfl⟩

theorem exec_lastUsedMax {now : UInt64} {r : Unit}
    (h : exec env t (.lastUsedMax cell now) s = some (r, s')) :
    ∃ a, s.heap.lookup cell = some a ∧
      s' = s.put cell { a with lastUsed := max a.lastUsed now } := by
  simp only [exec] at h
  split at h
  · cases h
  · next a ha =>
      cases h
      exact ⟨a, ha, rfl⟩

theorem exec_stateLock {r : Unit} (h : exec env t (.stateLock cell) s = some (r, s')) :
    ∃ a, s.heap.lookup cell = some a ∧ a.lock = none ∧
      s' = s.put cell { a with lock := some t } := by
  simp only [exec] at h
  split at h
  · cases h
  · next a ha =>
      obtain ⟨hfree, -, rfl⟩ := System.of_guarded h
      exact ⟨a, ha, hfree, rfl⟩

theorem exec_stateUnlock {r : Unit} (h : exec env t (.stateUnlock cell) s = some (r, s')) :
    ∃ a, s.heap.lookup cell = some a ∧ a.lock = some t ∧
      s' = s.put cell { a with lock := none } := by
  simp only [exec] at h
  split at h
  · cases h
  · next a ha =>
      obtain ⟨hheld, -, rfl⟩ := System.of_guarded h
      exact ⟨a, ha, hheld, rfl⟩

theorem opStep (h : exec env t o s = some (r, s')) : OpStep t o s s' := by
  cases o with
  | accountEntry user now =>
      obtain ⟨hguard, ⟨a, hc, ha, rfl⟩ | ⟨hnone, -, rfl⟩⟩ := exec_accountEntry h
      · exact .put r a _ ha (.clone a user hc (by simp [hguard]))
      · exact .create user now rfl hguard hnone
  | retainErase user =>
      obtain ⟨c, a, -, hc, ha, ⟨hclones, -, rfl⟩ | ⟨-, -, rfl⟩⟩ := exec_retainErase h
      · exact .erase user rfl _ (.erase ha (.evict a user rfl hclones hc))
      · exact .erase user rfl s.heap fun _ => .same _
  | accountGet user =>
      obtain ⟨hguard, ⟨-, -, rfl⟩ | ⟨c, a, hc, ha, -, rfl⟩⟩ := exec_accountGet h
      · exact .same
      · exact .put c a _ ha (.clone a user hc hguard)
  | admissionLock =>
      obtain ⟨hfree, -, rfl⟩ := System.of_guarded h
      exact .admissionLock rfl hfree
  | admissionUnlock =>
      obtain ⟨hheld, -, rfl⟩ := System.of_guarded h
      exact .admissionUnlock rfl hheld
  | lastUsedMax c now =>
      obtain ⟨a, ha, rfl⟩ := exec_lastUsedMax h
      exact .put c a _ ha (.touch a now rfl)
  | stateLock c =>
      obtain ⟨a, ha, hfree, rfl⟩ := exec_stateLock h
      exact .put c a _ ha (.lock a rfl hfree)
  | stateUnlock c =>
      obtain ⟨a, ha, hheld, rfl⟩ := exec_stateUnlock h
      exact .put c a _ ha (.unlock a hheld)
  | dropClone c =>
      simp only [exec] at h
      split at h
      · cases h
      · next a ha =>
          split at h
          · next hlast =>
              cases h
              simp only [Budgets.strongCount, Nat.add_eq_zero_iff, List.length_eq_zero_iff,
                ite_eq_right_iff, one_ne_zero, imp_false, Bool.not_eq_true] at hlast
              exact .drop c a rfl ha (.dropLast a hlast.1 hlast.2)
          · cases h
            exact .put c a _ ha (.dropClone a rfl)
  | slotsReserve =>
      simp only [exec] at h
      split at h
      · next hroom =>
          cases h
          exact .slotsReserve rfl hroom
      · cases h
        exact .same
  | lastUsedLoad c =>
      obtain ⟨rfl, -⟩ := exec_lastUsedLoad h
      exact .same
  | strongCount c =>
      obtain ⟨rfl, -⟩ := exec_strongCount h
      exact .same
  | retainLock i | retainRelease i | iterLock i | iterRelease i =>
      obtain ⟨-, -, rfl⟩ := System.of_guarded h
      exact .guard i _ id
  | enter c _ _ | charge c _ _ _ | noteUntracked c | track c _ _ _ | answer c _
  | retainFlows c _ =>
      simp only [exec] at h
      obtain ⟨a, ha, hheld, -, rfl⟩ := onState_eq_some h
      exact .put c a _ ha (.update a _ hheld (by constructor))
  | slotsSub n => cases h; exact .slotsSub n rfl
  | capacityPacket | capacityDrop => cases h; exact .stats _ _
  | accountsLen stale => cases h; exact .same

theorem cellStep (h : exec env t o s = some (r, s')) (cell : ℕ) :
    CellStep t o s cell (s.heap.lookup cell) (s'.heap.lookup cell) := by
  cases opStep h with
  | create user now ho _ hnone =>
      simp only [Budgets.lookup_put]
      split
      · next hcell => exact .create _ user now ho hcell hnone
      · exact .same _
  | put c a a' ha hcell => exact .put ha hcell cell
  | drop c a _ ha hcell => exact .erase ha hcell cell
  | erase user _ heap hcell => exact hcell cell
  | _ => exact .same _

/-- Everything that an operation can do to the account map. -/
theorem exec_accounts (h : exec env t o s = some (r, s')) :
    (∃ user now, o = .accountEntry user now ∧ s.accounts.lookup user = none ∧
      s.guards (env.shardOf user) = none ∧
      s'.accounts = s.accounts.insert user s.nextCell ∧ s'.nextCell = s.nextCell + 1) ∨
    (∃ user, o = .retainErase user ∧ s'.accounts = s.accounts.erase user ∧
      s'.nextCell = s.nextCell) ∨
    (s'.accounts = s.accounts ∧ s'.nextCell = s.nextCell) := by
  cases opStep h with
  | create user now ho hguard hnone => exact .inl ⟨user, now, ho, hnone, hguard, rfl, rfl⟩
  | erase user ho => exact .inr (.inl ⟨user, ho, rfl, rfl⟩)
  | _ => exact .inr (.inr ⟨rfl, rfl⟩)

/-- What an operation can do to the counter, to the mutex of the admission and to the guards. -/
theorem exec_shared (h : exec env t o s = some (r, s')) :
    (s'.slots = s.slots ∨ (∃ n, o = .slotsSub n ∧ s'.slots = s.slots - UInt64.ofNat n) ∨
      (o = .slotsReserve ∧ s.slots < env.flowLimit ∧ s'.slots = s.slots + 1)) ∧
    (s'.admission = s.admission ∨ (o = .admissionLock ∧ s.admission = none ∧
      s'.admission = some t) ∨
        (o = .admissionUnlock ∧ s.admission = some t ∧ s'.admission = none)) ∧
    (o.ofCaller → s'.guards = s.guards) := by
  cases opStep h with
  | slotsSub n ho => exact ⟨.inr (.inl ⟨n, ho, rfl⟩), .inl rfl, fun _ => rfl⟩
  | slotsReserve ho hroom => exact ⟨.inr (.inr ⟨ho, hroom, rfl⟩), .inl rfl, fun _ => rfl⟩
  | admissionLock ho hfree => exact ⟨.inl rfl, .inr (.inl ⟨ho, hfree, rfl⟩), fun _ => rfl⟩
  | admissionUnlock ho hheld => exact ⟨.inl rfl, .inr (.inr ⟨ho, hheld, rfl⟩), fun _ => rfl⟩
  | guard i guard ho => exact ⟨.inl rfl, .inl rfl, fun hcaller => absurd hcaller ho⟩
  | _ => exact ⟨.inl rfl, .inl rfl, fun _ => rfl⟩

end Effects

theorem wp_perform {α : Type} {C : Contract (budgetSystem env)} {t : Tid env} {w : BudgetWorld env}
    {o : Op} {f : o.Ret → BudgetProg α} {Q : α → BudgetWorld env → Prop}
    (P : BudgetWorld env → Prop) (hP : C.Stable t P) (hw : P w)
    (hpre : ∀ w', C.inv w' → P w' → C.pre t o w')
    (hnext : ∀ w' (r : o.Ret) st, C.inv w' → P w' → exec env t o w'.st = some (r, st) →
      C.cond w' (.exec t o r w'.st st) → C.wp t (f r) Q (w'.after t o r st)) :
    C.wp t (perform o >>= f) Q w :=
  Contract.wp_op P hP hw hpre hnext

end SwiftRelay.AccountBudget
