/-
**The tracking capacity is conserved.**

The counter of tracked flows is changed next to the flow tables and not together with them: it is
raised before a flow is entered, and lowered after flows were forgotten or their account was
dropped.  So it is never less than the number of tracked flows, and the difference is what the
threads are about to settle.  The *gap* between the two is the sum of what the threads have made of
it in their current calls, and each of them is at zero when its call ends.

Main definitions:

* `gap` — the counter less the number of tracked flows;
* `Filed` — the cells of the heap are the accounts in the map;
* `capacityContract` — the contract.

Main results:

* `gap_gapless` and the lemmas after it — what each operation does to the gap;
* `capacityContract_sound` — the contract holds;
* `capacity_conserved` — the counter along every run.
-/

import Mathlib.Algebra.BigOperators.Ring.Finset
import Mathlib.Algebra.Order.BigOperators.Group.Finset
import Mathlib.Algebra.Order.BigOperators.Group.List
import SwiftRelay.AccountBudget
import SwiftRelay.Drift
import SwiftRelay.TableSum

set_option autoImplicit false

namespace SwiftRelay.AccountBudget

open Conc

variable {env : Env}

/-! ### The gap -/

/-- The number of flows tracked in all accounts. -/
def tracked (s : Budgets env) : ℤ := s.heap.sumBy fun a => (a.state.flows.size : ℤ)

/-- How far the counter is above the number of tracked flows. -/
def gap (s : Budgets env) : ℤ := s.slots.toNat - tracked s

section Gap

variable {t : Tid env} {s s' : Budgets env} {cell : ℕ}

theorem gap_put {a : Account env} (ha : s.heap.lookup cell = some a) (a' : Account env) :
    gap (s.put cell a') = gap s + a.state.flows.size - a'.state.flows.size := by
  have hsum := Table.sumBy_insert_of_some (fun a : Account env => (a.state.flows.size : ℤ)) a' ha
  simp only [gap, tracked, Budgets.put]
  omega

/-- Dropping an account leaves its flows on the counter. -/
theorem gap_erase {a : Account env} (ha : s.heap.lookup cell = some a)
    (accounts : Table String ℕ) :
    gap { s with accounts, heap := s.heap.erase cell } = gap s + a.state.flows.size := by
  have hsum := Table.sumBy_erase (fun a : Account env => (a.state.flows.size : ℤ)) ha
  simp only [gap, tracked]
  omega

/-- The operations that leave the gap as it is. -/
def Op.gapless : Op → Bool
  | .enter .. | .track .. | .slotsSub _ | .slotsReserve | .dropClone _ => false
  | .retainErase _ | .retainFlows .. => false
  | _ => true

theorem gap_gapless {o : Op} {r : o.Ret} (ho : o.gapless = true)
    (hfresh : s.heap.lookup s.nextCell = none) (h : exec env t o s = some (r, s')) :
    gap s' = gap s := by
  cases opStep h with
  | create user now =>
      have hsum := Table.sumBy_insert_of_none (fun a : Account env => (a.state.flows.size : ℤ))
        ⟨user, .new now, now, [t], none⟩ hfresh
      simp only [gap, tracked, Budgets.put, hsum]
      simp [State.new]
  | put c a a' ha hcell =>
      have hflows : a'.state.flows = a.state.flows := by
        cases hcell with
        | create _ _ _ _ hc =>
            rw [hc, hfresh] at ha
            cases ha
        | update _ _ _ hstate =>
            cases hstate with
            | charge => exact State.flows_charge _ _ _ _ _
            | noteUntracked | answer => rfl
            | _ => cases ho
        | _ => rfl
      rw [gap_put ha, hflows]
      omega
  | same | admissionLock | admissionUnlock | guard | stats => rfl
  | drop _ _ hop | erase _ hop | slotsSub _ hop | slotsReserve hop =>
      subst hop
      cases ho

variable {now : UInt64}

theorem gap_enter {flow : Option Flow} {r : UInt64 × Bool}
    (h : exec env t (.enter cell now flow) s = some (r, s')) :
    gap s' - gap s = if r.2 then 1 else 0 := by
  simp only [exec] at h
  obtain ⟨a, ha, -, rfl, rfl⟩ := onState_eq_some h
  rw [gap_put ha]
  rcases State.flows_enter a.state now flow with ⟨hexpired, hsize⟩ | ⟨hexpired, hflows⟩
  · rw [hexpired, if_pos rfl]
    simp only
    omega
  · rw [hexpired, hflows]
    simp

theorem gap_track {key : Flow} {newFlow : Bool} {r : Unit}
    (h : exec env t (.track cell key now newFlow) s = some (r, s'))
    (hnew : ∀ a, s.heap.lookup cell = some a → a.state.isNewFlow (some key) = newFlow) :
    gap s' - gap s = -if newFlow then 1 else 0 := by
  simp only [exec] at h
  obtain ⟨a, ha, -, -, rfl⟩ := onState_eq_some h
  rw [gap_put ha, State.size_track _ _ _ _ (hnew a ha)]
  cases newFlow
  · simp
  · push_cast
    simp only [if_true]
    omega

theorem gap_retainFlows {r : ℕ} (h : exec env t (.retainFlows cell now) s = some (r, s')) :
    gap s' - gap s = r := by
  simp only [exec] at h
  obtain ⟨a, ha, -, rfl, rfl⟩ := onState_eq_some h
  have hsize := State.size_retainFlows a.state now
  rw [gap_put ha]
  simp only
  omega

theorem gap_retainErase {user : String} {r : Option ℕ}
    (h : exec env t (.retainErase user) s = some (r, s')) : gap s' - gap s = (r.getD 0 : ℕ) := by
  obtain ⟨c, a, -, -, ha, ⟨-, rfl, rfl⟩ | ⟨-, rfl, rfl⟩⟩ := exec_retainErase h
  · rw [gap_erase ha, Option.getD_some]
    omega
  · simp [gap, tracked]

theorem gap_dropClone {r : Option ℕ} (h : exec env t (.dropClone cell) s = some (r, s')) :
    gap s' - gap s = (r.getD 0 : ℕ) := by
  simp only [exec] at h
  split at h
  · cases h
  · next a ha =>
      split at h
      · cases h
        have hgap := gap_erase ha s.accounts
        rw [Option.getD_some]
        omega
      · cases h
        rw [gap_put ha]
        simp

theorem gap_slotsSub {n : ℕ} {r : Unit} (h : exec env t (.slotsSub n) s = some (r, s'))
    (hn : n ≤ s.slots.toNat) : gap s' - gap s = -n := by
  cases h
  have hofNat : (UInt64.ofNat n).toNat = n :=
    UInt64.toNat_ofNat_of_lt (Nat.lt_of_le_of_lt hn (UInt64.toNat_lt _))
  have hsub : (s.slots - UInt64.ofNat n).toNat = s.slots.toNat - n := by
    rw [Word64.toNat_sub_of_le (UInt64.le_iff_toNat_le.2 (by omega)), hofNat]
  simp only [gap, tracked, hsub]
  omega

theorem gap_slotsReserve {r : Bool} (h : exec env t .slotsReserve s = some (r, s')) :
    gap s' - gap s = if r then 1 else 0 := by
  simp only [exec] at h
  split at h
  · next hroom =>
      cases h
      have hlt := UInt64.lt_iff_toNat_lt.1 hroom
      have hadd : (s.slots + 1).toNat = s.slots.toNat + 1 := by
        have hlimit := UInt64.toNat_lt env.flowLimit
        rw [UInt64.toNat_add, Nat.mod_eq_of_lt]
        · rfl
        · simp
          omega
      simp only [gap, tracked, hadd, if_true]
      omega
  · cases h
    simp

end Gap

/-! ### Accounts and cells -/

/-- The cells of the heap are the accounts in the map. -/
structure Filed (s : Budgets env) : Prop where
  filed : ∀ cell a, s.heap.lookup cell = some a → s.accounts.lookup a.user = some cell
  live : ∀ user cell, s.accounts.lookup user = some cell →
    ∃ a, s.heap.lookup cell = some a ∧ a.user = user
  fresh : ∀ cell, s.nextCell ≤ cell → s.heap.lookup cell = none

namespace Filed

variable {t : Tid env} {s s' : Budgets env} {user : String}

theorem user_eq (h : Filed s) {cell : ℕ} {a : Account env}
    (hmap : s.accounts.lookup user = some cell) (ha : s.heap.lookup cell = some a) :
    a.user = user := by
  obtain ⟨a', ha', huser⟩ := h.live user cell hmap
  rw [ha] at ha'
  cases ha'
  exact huser

theorem cell_ne (h : Filed s) {user user' : String} {cell cell' : ℕ}
    (hmap : s.accounts.lookup user = some cell) (hmap' : s.accounts.lookup user' = some cell')
    (huser : user' ≠ user) : cell' ≠ cell := by
  rintro rfl
  obtain ⟨b, hb, rfl⟩ := h.live user' cell' hmap'
  exact huser (h.user_eq hmap hb)

/-- The last pointer to an account is the one in the map. -/
theorem not_dropLast (h : Filed s) {cell : ℕ} {a : Account env}
    (ha : s.heap.lookup cell = some a) : s.mapped cell a = true := by
  simpa [Budgets.mapped] using h.filed cell a ha

/-- An operation that neither adds nor removes an account. -/
theorem of_cellStep {o : Op} {r : o.Ret} (h : Filed s) (hexec : exec env t o s = some (r, s'))
    (hentry : ∀ user now, o ≠ .accountEntry user now) (herase : ∀ user, o ≠ .retainErase user) :
    Filed s' := by
  obtain ⟨haccounts, hnext⟩ : s'.accounts = s.accounts ∧ s'.nextCell = s.nextCell := by
    rcases exec_accounts hexec with ⟨user, now, rfl, -⟩ | ⟨user, rfl, -⟩ | hsame
    · exact absurd rfl (hentry user now)
    · exact absurd rfl (herase user)
    · exact hsame
  -- a cell is there afterwards exactly if it was there before, and its user is the same
  have hcell : ∀ cell, (s'.heap.lookup cell).map (·.user) = (s.heap.lookup cell).map (·.user) := by
    intro cell
    have hstep := cellStep hexec cell
    generalize hx : s.heap.lookup cell = x, s'.heap.lookup cell = y at hstep
    cases hstep with
    | same => rfl
    | create _ user now ho => exact absurd ho (hentry user now)
    | dropLast a _ hmapped => exact absurd (h.not_dropLast hx) (by simp [hmapped])
    | evict a user ho => exact absurd ho (herase user)
    | clone a | dropClone a | touch a | lock a | unlock a | update a => rfl
  refine ⟨fun cell a ha => ?_, fun user cell hmap => ?_, fun cell hle => ?_⟩
  · have huser := hcell cell
    rw [ha, Option.map_some] at huser
    obtain ⟨a₀, ha₀, huser₀⟩ := Option.map_eq_some_iff.1 huser.symm
    rw [haccounts, ← huser₀]
    exact h.filed cell a₀ ha₀
  · rw [haccounts] at hmap
    obtain ⟨a, ha, rfl⟩ := h.live user cell hmap
    have huser := hcell cell
    rw [ha, Option.map_some] at huser
    exact Option.map_eq_some_iff.1 huser
  · have huser := hcell cell
    rw [hnext] at hle
    rw [h.fresh cell hle] at huser
    exact Option.map_eq_none_iff.1 huser

theorem accountEntry (h : Filed s) {now : UInt64} {r : ℕ}
    (hexec : exec env t (.accountEntry user now) s = some (r, s')) : Filed s' := by
  obtain ⟨-, ⟨a, hmap, ha, rfl⟩ | ⟨hnone, -, rfl⟩⟩ := exec_accountEntry hexec
  · refine ⟨fun cell b hb => ?_, fun user' cell hmap' => ?_, fun cell hle => ?_⟩
    · rw [Budgets.lookup_put] at hb
      split at hb
      · next hcell =>
          cases hb
          rw [hcell]
          exact h.filed r a ha
      · exact h.filed cell b hb
    · obtain ⟨b, hb, huser⟩ := h.live user' cell hmap'
      rw [Budgets.lookup_put]
      split
      · next hcell =>
          rw [hcell, ha] at hb
          cases hb
          exact ⟨_, rfl, huser⟩
      · exact ⟨b, hb, huser⟩
    · rw [Budgets.lookup_put]
      split
      · next hcell =>
          have hfresh := h.fresh cell hle
          rw [hcell, ha] at hfresh
          cases hfresh
      · exact h.fresh cell hle
  · have hne : ∀ {cell : ℕ} {b : Account env}, s.heap.lookup cell = some b → cell ≠ s.nextCell := by
      rintro cell b hb rfl
      rw [h.fresh _ le_rfl] at hb
      cases hb
    refine ⟨fun cell b hb => ?_, fun user' cell hmap' => ?_, fun cell hle => ?_⟩
    · simp only [Budgets.lookup_put] at hb
      simp only [Table.lookup_insert_eq]
      split at hb
      · next hcell =>
          cases hb
          rw [if_pos rfl, hcell]
      · have hfiled := h.filed cell b hb
        have huser : b.user ≠ user := by
          intro huser
          rw [huser, hnone] at hfiled
          cases hfiled
        rw [if_neg huser, hfiled]
    · simp only [Table.lookup_insert_eq] at hmap'
      simp only [Budgets.lookup_put]
      split at hmap'
      · next huser =>
          cases hmap'
          exact ⟨_, if_pos rfl, huser.symm⟩
      · obtain ⟨b, hb, huser⟩ := h.live user' cell hmap'
        exact ⟨b, by rw [if_neg (hne hb), hb], huser⟩
    · simp only [Budgets.lookup_put]
      change s.nextCell + 1 ≤ cell at hle
      rw [if_neg (by omega), h.fresh cell (by omega)]

theorem retainErase (h : Filed s) {r : Option ℕ}
    (hexec : exec env t (.retainErase user) s = some (r, s'))
    (hclones : ∀ cell a, s.accounts.lookup user = some cell → s.heap.lookup cell = some a →
      a.clones = []) : Filed s' := by
  obtain ⟨c, a, -, hmap, ha, ⟨-, -, rfl⟩ | ⟨hcloned, -, -⟩⟩ := exec_retainErase hexec
  · refine ⟨fun cell b hb => ?_, fun user' cell hmap' => ?_, fun cell hle => ?_⟩
    · simp only [Table.lookup_erase_eq] at hb ⊢
      split at hb
      · cases hb
      · next hcell =>
          have hfiled := h.filed cell b hb
          have huser : b.user ≠ user := by
            intro huser
            rw [huser, hmap] at hfiled
            exact hcell (Option.some.inj hfiled).symm
          rw [if_neg huser, hfiled]
    · simp only [Table.lookup_erase_eq] at hmap' ⊢
      split at hmap'
      · cases hmap'
      · next huser =>
          obtain ⟨b, hb, hb'⟩ := h.live user' cell hmap'
          exact ⟨b, by rw [if_neg (h.cell_ne hmap hmap' huser), hb], hb'⟩
    · simp only [Table.lookup_erase_eq]
      rw [h.fresh cell hle]
      exact ite_self _
  · exact absurd (hclones c a hmap ha) hcloned

end Filed

/-! ### The contract -/

/-- What thread `t` has made of the gap in its current call. -/
def Owes (t : Tid env) (x : ℤ) (w : BudgetWorld env) : Prop :=
  System.drift (M := budgetSystem env) gap t w.hist = x

/-- The thread has a clone of the pointer to the account. -/
def Cloned (t : Tid env) (cell : ℕ) (w : BudgetWorld env) : Prop :=
  ∃ a, w.st.heap.lookup cell = some a ∧ t ∈ a.clones

/-- The thread holds the lock of no account, apart from one that may be given. -/
def NoLock (t : Tid env) (except : Option ℕ) (w : BudgetWorld env) : Prop :=
  ∀ cell a, w.st.heap.lookup cell = some a → some cell ≠ except → a.lock ≠ some t

/-- The gap is what the threads owe, and none of them has taken off more than it added. -/
structure CapacityInv (w : BudgetWorld env) : Prop where
  balanced : System.Balanced (M := budgetSystem env) gap Finset.univ w
  owed : ∀ t : Tid env, 0 ≤ System.drift (M := budgetSystem env) gap t w.hist
  filed : Filed w.st
  locked : ∀ cell a u, w.st.heap.lookup cell = some a → a.lock = some u →
    u ∈ a.clones ∨ u = .maintenance
  slots : w.st.slots ≤ env.flowLimit
  accounts : w.st.accounts.size ≤ env.accountLimit

/-- When an operation is permitted: flows are taken off the counter that were put on it, an account
is added while there is room, events use accounts that they have a clone of, and only accounts that
no event has a clone of are removed. -/
def capacityPre (t : Tid env) (o : Op) (w : BudgetWorld env) : Prop :=
  match o with
  | .slotsSub n => Owes t n w
  | .track cell key _ newFlow => Owes t (if newFlow then 1 else 0) w ∧
      ∀ a, w.st.heap.lookup cell = some a → a.state.isNewFlow (some key) = newFlow
  | .accountEntry _ _ => w.st.admission = some t ∧ w.st.accounts.size < env.accountLimit
  | .retainErase user => NoLock t none w ∧ ∀ cell a, w.st.accounts.lookup user = some cell →
      w.st.heap.lookup cell = some a → a.clones = []
  | .lastUsedMax cell _ => Cloned t cell w
  | .stateLock cell => t = .maintenance ∨ Cloned t cell w
  | .dropClone _ => NoLock t none w
  | _ => True

def capacityContract (env : Env) : Contract (budgetSystem env) where
  cond _ _ := True
  inv := CapacityInv
  may := Tid.may
  pre := capacityPre
  post t w := Owes t 0 w ∧ NoLock t none w

section Invariant

variable {t : Tid env} {w : BudgetWorld env} {o : Op} {r : o.Ret} {st : Budgets env}

theorem tracked_nonneg (s : Budgets env) : 0 ≤ tracked s :=
  List.sum_nonneg fun x hx => by
    obtain ⟨e, -, rfl⟩ := List.mem_map.1 hx
    exact Int.natCast_nonneg _

theorem CapacityInv.le_slots (hinv : CapacityInv w) {n : ℕ} (howes : Owes t n w) :
    n ≤ w.st.slots.toNat := by
  have hle : (n : ℤ) ≤ gap w.st := by
    rw [hinv.balanced, ← howes]
    exact Finset.single_le_sum (fun u _ => hinv.owed u) (Finset.mem_univ t)
  have htracked := tracked_nonneg w.st
  unfold gap at hle
  omega

theorem Owes.after {x y : ℤ} (h : Owes t x w)
    (hchange : gap st - gap w.st = y) : Owes t (y + x) (w.after t o r st) := by
  rw [Owes, System.World.after_hist, System.drift_exec_self (M := budgetSystem env), hchange, h]

theorem Owes.gapless {x : ℤ} (h : Owes t x w) (hinv : CapacityInv w) (ho : o.gapless = true)
    (hexec : exec env t o w.st = some (r, st)) : Owes t x (w.after t o r st) := by
  have hgap := gap_gapless ho (hinv.filed.fresh _ le_rfl) hexec
  simpa using h.after (o := o) (r := r) (sub_eq_zero.2 hgap)

/-- No operation takes off more than the thread owes. -/
theorem CapacityInv.change_ge (hinv : CapacityInv w) (hpre : capacityPre t o w)
    (hexec : exec env t o w.st = some (r, st)) :
    -System.drift (M := budgetSystem env) gap t w.hist ≤ gap st - gap w.st := by
  have hdrift := hinv.owed t
  by_cases ho : o.gapless = true
  · rw [gap_gapless ho (hinv.filed.fresh _ le_rfl) hexec]
    omega
  · cases o <;> simp only [Op.gapless, not_true_eq_false] at ho
    case enter cell now flow =>
      rw [gap_enter hexec]
      split <;> omega
    case track cell key now newFlow =>
      rw [gap_track hexec hpre.2, ← hpre.1]
    case slotsSub n =>
      have howes : Owes t n w := hpre
      rw [gap_slotsSub hexec (hinv.le_slots howes), ← howes]
    case slotsReserve =>
      rw [gap_slotsReserve hexec]
      split <;> omega
    case dropClone cell =>
      rw [gap_dropClone hexec]
      omega
    case retainErase user =>
      rw [gap_retainErase hexec]
      omega
    case retainFlows cell now =>
      rw [gap_retainFlows hexec]
      omega

theorem CapacityInv.slots_le (hinv : CapacityInv w) (hpre : capacityPre t o w)
    (hexec : exec env t o w.st = some (r, st)) : st.slots ≤ env.flowLimit := by
  have hle := UInt64.le_iff_toNat_le.1 hinv.slots
  rcases (exec_shared hexec).1 with hsame | ⟨n, rfl, hsub⟩ | ⟨rfl, hroom, hadd⟩
  · rw [hsame]
    exact hinv.slots
  · have hn : n ≤ w.st.slots.toNat := hinv.le_slots hpre
    have hofNat : (UInt64.ofNat n).toNat = n :=
      UInt64.toNat_ofNat_of_lt (Nat.lt_of_le_of_lt hn (UInt64.toNat_lt _))
    rw [hsub, UInt64.le_iff_toNat_le,
      Word64.toNat_sub_of_le (UInt64.le_iff_toNat_le.2 (by omega))]
    omega
  · have hlt := UInt64.lt_iff_toNat_lt.1 hroom
    rw [hadd, UInt64.le_iff_toNat_le, UInt64.toNat_add]
    exact (Nat.mod_le _ _).trans hlt

theorem capacityInv_exec (hinv : CapacityInv w) (hpre : capacityPre t o w)
    (hexec : exec env t o w.st = some (r, st)) : CapacityInv (w.after t o r st) where
  balanced := hinv.balanced.after (Finset.mem_univ t) o r st
  owed u := by
    by_cases hu : t = u
    · subst hu
      have hge := hinv.change_ge hpre hexec
      rw [System.World.after_hist, System.drift_exec_self (M := budgetSystem env)]
      omega
    · rw [System.World.after_hist, System.drift_exec_of_ne (M := budgetSystem env) hu]
      exact hinv.owed u
  filed := by
    by_cases hentry : ∃ user now, o = .accountEntry user now
    · obtain ⟨user, now, rfl⟩ := hentry
      exact hinv.filed.accountEntry hexec
    by_cases herase : ∃ user, o = .retainErase user
    · obtain ⟨user, rfl⟩ := herase
      exact hinv.filed.retainErase hexec hpre.2
    · exact hinv.filed.of_cellStep hexec (fun user now ho => hentry ⟨user, now, ho⟩)
        fun user ho => herase ⟨user, ho⟩
  locked cell b u hb hu := by
    have hstep := cellStep hexec cell
    rw [System.World.after_st] at hb
    rw [hb] at hstep
    generalize hx : w.st.heap.lookup cell = x at hstep
    cases hstep with
    | same => exact hinv.locked cell b u hx hu
    | create => cases hu
    | clone a => exact (hinv.locked cell a u hx hu).imp_left (List.mem_cons_of_mem t)
    | dropClone a ho =>
        subst ho
        have hne : u ≠ t := by
          rintro rfl
          exact hpre cell a hx nofun hu
        exact (hinv.locked cell a u hx hu).imp_left fun hmem => (List.mem_erase_of_ne hne).2 hmem
    | touch a => exact hinv.locked cell a u hx hu
    | lock a ho =>
        subst ho
        cases hu
        rcases hpre with rfl | ⟨a', ha', hmem⟩
        · exact Or.inr rfl
        · rw [hx] at ha'
          cases ha'
          exact Or.inl hmem
    | unlock a => cases hu
    | update a => exact hinv.locked cell a u hx hu
  slots := hinv.slots_le hpre hexec
  accounts := by
    rcases exec_accounts hexec with ⟨user, now, rfl, hnone, -, hs, -⟩ | ⟨user, rfl, hs, -⟩ | ⟨hs, -⟩
    · rw [System.World.after_st, hs, Table.size_insert_of_none _ hnone]
      exact hpre.2
    · rw [System.World.after_st, hs]
      exact (Table.size_erase_le _ _).trans hinv.accounts
    · rw [System.World.after_st, hs]
      exact hinv.accounts

end Invariant

/-! ### What the others leave alone -/

section Stability

variable {t u : Tid env} {o : Op} {r : o.Ret} {s s' : Budgets env} {cell : ℕ} {a : Account env}

/-- An account stays unless it is evicted, and it is not evicted while a thread has a clone of it.
Its state stays too while a thread has locked it. -/
theorem Filed.kept_exec (hfiled : Filed s) (hexec : exec env u o s = some (r, s'))
    (hdrop : u = t → o ≠ .dropClone cell) (ha : s.heap.lookup cell = some a)
    (hkept : t ∈ a.clones ∨ ∀ user, o ≠ .retainErase user) :
    ∃ a', s'.heap.lookup cell = some a' ∧ (t ∈ a.clones → t ∈ a'.clones) ∧ a'.user = a.user ∧
      a.lastUsed.toNat ≤ a'.lastUsed.toNat ∧
      (u ≠ t → a.lock = some t → a'.lock = some t ∧ a'.state = a.state) := by
  have hstep := cellStep hexec cell
  have hfresh := hfiled.fresh cell
  have hmapped := hfiled.not_dropLast ha
  rw [ha] at hstep hfresh
  generalize s'.heap.lookup cell = y at hstep
  -- what only the holder of the lock can do is not done by another thread
  have hother : ∀ {P : Prop}, a.lock = some u → u ≠ t → a.lock = some t → P :=
    fun hheld hne hlock => absurd (Option.some.inj (hheld.symm.trans hlock)) hne
  cases hstep with
  | same => exact ⟨a, rfl, id, rfl, Nat.le_refl _, fun _ h => ⟨h, rfl⟩⟩
  | create _ user now ho hcell => cases hfresh (Nat.le_of_eq hcell.symm)
  | clone => exact ⟨_, rfl, List.mem_cons_of_mem u, rfl, Nat.le_refl _, fun _ h => ⟨h, rfl⟩⟩
  | dropClone _ ho =>
      have hne : t ≠ u := fun heq => hdrop heq.symm ho
      exact ⟨_, rfl, (List.mem_erase_of_ne hne).2, rfl, Nat.le_refl _, fun _ h => ⟨h, rfl⟩⟩
  | dropLast _ _ hunmapped => simp [hmapped] at hunmapped
  | evict _ user ho hclones =>
      rcases hkept with hmem | hkept
      · rw [hclones] at hmem
        cases hmem
      · exact absurd ho (hkept user)
  | touch _ now =>
      exact ⟨_, rfl, id, rfl, (Word64.toNat_max _ _).symm ▸ Nat.le_max_left _ _,
        fun _ h => ⟨h, rfl⟩⟩
  | lock _ ho hfree =>
      exact ⟨_, rfl, id, rfl, Nat.le_refl _, fun _ h => nomatch hfree.symm.trans h⟩
  | unlock _ hheld => exact ⟨_, rfl, id, rfl, Nat.le_refl _, hother hheld⟩
  | update _ state hheld => exact ⟨_, rfl, id, rfl, Nat.le_refl _, hother hheld⟩

theorem noLock_exec {except : Option ℕ} (hexec : exec env u o s = some (r, s'))
    (htake : ∀ cell, o = .stateLock cell → some cell ≠ except → u ≠ t)
    (h : ∀ cell a, s.heap.lookup cell = some a → some cell ≠ except → a.lock ≠ some t)
    (ha : s'.heap.lookup cell = some a) (hcell : some cell ≠ except) : a.lock ≠ some t := by
  have hstep := cellStep hexec cell
  rw [ha] at hstep
  generalize hx : s.heap.lookup cell = x at hstep
  cases hstep with
  | same => exact h cell a hx hcell
  | create => exact nofun
  | clone b | dropClone b | touch b | update b => exact h cell b hx hcell
  | lock b ho => exact fun heq => htake cell ho hcell (Option.some.inj heq)
  | unlock b => exact nofun

theorem NoLock.after {w : BudgetWorld env} {except : Option ℕ} (h : NoLock t except w)
    (ho : o.isLock = false) (hexec : exec env t o w.st = some (r, s')) :
    NoLock t except (w.after t o r s') := by
  refine fun cell a ha => noLock_exec hexec (fun c heq => ?_) h ha
  subst heq
  cases ho

end Stability

section Stable

variable {t : Tid env}

theorem stable_owes (x : ℤ) : (capacityContract env).Stable t fun w => Owes t x w :=
  Contract.Stable.drift (C := capacityContract env)

theorem stable_noLock (except : Option ℕ) :
    (capacityContract env).Stable t fun w => NoLock t except w :=
  .of_exec (fun _ _ h => h) fun _ _ _ _ _ hne _ _ _ hexec _ hw _ _ ha hcell =>
    noLock_exec hexec (fun _ _ _ => hne) hw ha hcell

theorem stable_cloned (cell : ℕ) : (capacityContract env).Stable t fun w => Cloned t cell w := by
  refine .of_exec (fun _ _ h => h) fun w u o r st hne hinv _ _ hexec _ hw => ?_
  obtain ⟨a, ha, hmem⟩ := hw
  obtain ⟨a', ha', hmem', -⟩ :=
    hinv.filed.kept_exec hexec (fun heq => absurd heq hne) ha (Or.inl hmem)
  exact ⟨a', ha', hmem' hmem⟩

/-- The thread has locked the account, and its state satisfies `φ`.  The maintenance thread does so
without a clone, because only it removes accounts. -/
def Inside (t : Tid env) (cell : ℕ) (φ : State → Prop) (w : BudgetWorld env) : Prop :=
  ∃ a, w.st.heap.lookup cell = some a ∧ (t ∈ a.clones ∨ t = .maintenance) ∧ a.lock = some t ∧
    φ a.state

theorem ne_retainErase {o : Op} (hne : t ≠ .maintenance) (hmay : (capacityContract env).may t o)
    (user : String) : o ≠ .retainErase user := by
  rintro rfl
  cases t with
  | caller i => exact hmay
  | maintenance => exact hne rfl

theorem stable_inside (cell : ℕ) (φ : State → Prop) :
    (capacityContract env).Stable t fun w => Inside t cell φ w := by
  refine .of_exec (fun _ _ h => h) fun w u o r st hne hinv hmay _ hexec _ hw => ?_
  obtain ⟨a, ha, hkept, hlock, hφ⟩ := hw
  have hkept' : t ∈ a.clones ∨ ∀ user, o ≠ .retainErase user :=
    hkept.imp_right fun ht => ne_retainErase (fun hu => hne (hu.trans ht.symm)) hmay
  obtain ⟨a', ha', hmem', -, -, hlocked⟩ :=
    hinv.filed.kept_exec hexec (fun heq => absurd heq hne) ha hkept'
  obtain ⟨hlock', hstate⟩ := hlocked hne hlock
  exact ⟨a', ha', hkept.imp_left hmem', hlock', hstate ▸ hφ⟩

theorem stable_admissionHeld :
    (capacityContract env).Stable t fun w => w.st.admission = some t := by
  refine .of_exec (fun _ _ h => h) fun w u o r st hne _ _ _ hexec _ hw => ?_
  rcases (exec_shared hexec).2.1 with hsame | ⟨-, hfree, -⟩ | ⟨-, hother, -⟩
  · exact hsame.trans hw
  · rw [hw] at hfree
    cases hfree
  · rw [hw] at hother
    exact absurd (Option.some.inj hother).symm hne

/-- While a thread has the mutex of the admission, accounts are not added by others. -/
theorem stable_admission :
    (capacityContract env).Stable t fun w =>
      w.st.admission = some t ∧ w.st.accounts.size < env.accountLimit := by
  intro w w' hstep hw
  refine ⟨stable_admissionHeld w w' hstep hw.1, ?_⟩
  obtain ⟨hheld, hroom⟩ := hw
  cases hstep with
  | start a => exact hroom
  | exec u o r st hne _ _ hpre hexec =>
      rcases exec_accounts hexec with ⟨user, now, rfl, -⟩ | ⟨user, rfl, hs, -⟩ | ⟨hs, -⟩
      · exact absurd (Option.some.inj (hheld.symm.trans hpre.1)).symm hne
      · rw [System.World.after_st, hs]
        exact Nat.lt_of_le_of_lt (Table.size_erase_le _ _) hroom
      · rw [System.World.after_st, hs]
        exact hroom

end Stable

/-! ### The programs meet the contract -/

/-- The thread owes nothing and holds no lock. -/
def Clear (t : Tid env) (w : BudgetWorld env) : Prop := Owes t 0 w ∧ NoLock t none w

section Programs

variable {t : Tid env} {w : BudgetWorld env} {o : Op} {r : o.Ret} {st : Budgets env}

theorem stable_clear : (capacityContract env).Stable t fun w => Clear t w :=
  (stable_owes 0).and (stable_noLock none)

theorem Clear.after (h : Clear t w) (hinv : CapacityInv w) (ho : o.gapless = true)
    (hlock : o.isLock = false) (hexec : exec env t o w.st = some (r, st)) :
    Clear t (w.after t o r st) :=
  ⟨h.1.gapless hinv ho hexec, h.2.after hlock hexec⟩

theorem Cloned.after {cell : ℕ} (h : Cloned t cell w) (hinv : CapacityInv w)
    (hdrop : o ≠ .dropClone cell) (hexec : exec env t o w.st = some (r, st)) :
    Cloned t cell (w.after t o r st) := by
  obtain ⟨a, ha, hmem⟩ := h
  obtain ⟨a', ha', hmem', -⟩ := hinv.filed.kept_exec hexec (fun _ => hdrop) ha (Or.inl hmem)
  exact ⟨a', ha', hmem' hmem⟩

variable {α : Type} {k : o.Ret → BudgetProg α} {Q : α → BudgetWorld env → Prop}

/-- An operation outside a lock that leaves the gap as it is. -/
theorem Clear.wp_op (P : BudgetWorld env → Prop) (hP : (capacityContract env).Stable t P)
    (h : Clear t w ∧ P w) (ho : o.gapless = true) (hlock : o.isLock = false)
    (hpre : ∀ w', CapacityInv w' → P w' → capacityPre t o w')
    (hnext : ∀ w' r st, CapacityInv w' → P w' → exec env t o w'.st = some (r, st) →
      Clear t (w'.after t o r st) → (capacityContract env).wp t (k r) Q (w'.after t o r st)) :
    (capacityContract env).wp t (perform o >>= k) Q w :=
  wp_perform (fun w => Clear t w ∧ P w) (stable_clear.and hP) h
    (fun w' hinv h' => hpre w' hinv h'.2) fun w' r st hinv h' hexec _ =>
      hnext w' r st hinv h'.2 hexec (h'.1.after hinv ho hlock hexec)

theorem Clear.wp_next (h : Clear t w) (ho : o.gapless = true) (hlock : o.isLock = false)
    (hpre : ∀ w', capacityPre t o w')
    (hnext : ∀ (w' : BudgetWorld env) r st, exec env t o w'.st = some (r, st) →
      Clear t (w'.after t o r st) → (capacityContract env).wp t (k r) Q (w'.after t o r st)) :
    (capacityContract env).wp t (perform o >>= k) Q w :=
  Clear.wp_op (fun _ => True) .true ⟨h, trivial⟩ ho hlock (fun w' _ _ => hpre w')
    fun w' r st _ _ => hnext w' r st

theorem account_wp (user : String) (now : UInt64) (stale : ℕ) (hw : Clear t w) :
    (capacityContract env).wp t (account env user now stale)
      (fun found w => Clear t w ∧ ∀ cell, found = some cell → Cloned t cell w) w := by
  have hcloned : ∀ {w' : BudgetWorld env} {r : Option ℕ} {st : Budgets env} {cell : ℕ},
      exec env t (.accountGet user) w'.st = some (r, st) → r = some cell →
      Cloned t cell (w'.after t (.accountGet user) r st) := by
    intro w' r st cell hexec hr
    obtain ⟨-, ⟨-, hnone, -⟩ | ⟨c, a, -, -, hc, rfl⟩⟩ := exec_accountGet hexec
    · rw [hnone] at hr
      cases hr
    · rw [hc] at hr
      cases hr
      exact ⟨_, (Budgets.lookup_put _ _ _ _).trans (if_pos rfl), List.mem_cons_self⟩
  have hunlock {cell : ℕ} {w' : BudgetWorld env} (h : Clear t w' ∧ Cloned t cell w') :
      (capacityContract env).wp t (perform .admissionUnlock >>= fun _ => pure (some cell))
        (fun found w => Clear t w ∧ ∀ cell, found = some cell → Cloned t cell w) w' := by
    refine Clear.wp_op (Cloned t cell) (stable_cloned cell) h rfl rfl (fun _ _ _ => trivial)
      fun w₁ _ st₁ hinv₁ hcloned₁ hexec₁ hclear₁ => ⟨hclear₁, fun c hc => ?_⟩
    cases hc
    exact hcloned₁.after hinv₁ (by simp) hexec₁
  unfold account
  refine hw.wp_next rfl rfl (fun _ => trivial) fun w₁ r₁ st₁ hexec₁ hclear₁ => ?_
  cases r₁ with
  | some cell => exact ⟨hclear₁, fun c hc => hcloned hexec₁ hc⟩
  | none =>
      refine hclear₁.wp_next rfl rfl (fun _ => trivial) fun w₂ _ st₂ hexec₂ hclear₂ => ?_
      have hheld : st₂.admission = some t := by
        obtain ⟨-, -, rfl⟩ := System.of_guarded hexec₂
        rfl
      refine Clear.wp_op (fun w => w.st.admission = some t) stable_admissionHeld ⟨hclear₂, hheld⟩
        rfl rfl (fun _ _ _ => trivial) fun w₃ r₃ st₃ _ hheld₃ hexec₃ hclear₃ => ?_
      cases r₃ with
      | some cell => exact hunlock ⟨hclear₃, hcloned hexec₃ rfl⟩
      | none =>
          refine Clear.wp_op (fun w => w.st.admission = some t) stable_admissionHeld
            ⟨hclear₃, ((exec_shared hexec₃).2.1.resolve_right (by simp)).trans hheld₃⟩
            rfl rfl (fun _ _ _ => trivial) fun w₄ r₄ st₄ hinv₄ hheld₄ hexec₄ hclear₄ => ?_
          split
          · exact hclear₄.wp_next rfl rfl (fun _ => trivial) fun _ _ _ _ hclear₅ =>
              ⟨hclear₅, fun c hc => absurd hc (by simp)⟩
          · next hroom =>
              cases hexec₄
              have hsize : w₄.st.accounts.size < env.accountLimit :=
                Nat.lt_of_le_of_lt (Nat.le_add_right _ stale) (Nat.lt_of_not_le hroom)
              refine Clear.wp_op (fun w => w.st.admission = some t ∧
                w.st.accounts.size < env.accountLimit) stable_admission
                ⟨hclear₄, hheld₄, hsize⟩ rfl rfl (fun _ _ h => h)
                fun w₅ cell st₅ _ _ hexec₅ hclear₅ => hunlock ⟨hclear₅, ?_⟩
              obtain ⟨-, ⟨a, -, -, rfl⟩ | ⟨-, rfl, rfl⟩⟩ := exec_accountEntry hexec₅ <;>
                exact ⟨_, (Budgets.lookup_put _ _ _ _).trans (if_pos rfl), List.mem_cons_self⟩

/-- What an account dropped with its last pointer had on the counter is taken off. -/
theorem giveBack_wp {freed : Option ℕ} (P : BudgetWorld env → Prop)
    (hP : (capacityContract env).Stable t P)
    (hsub : ∀ w n st, P w → exec env t (.slotsSub n) w.st = some ((), st) →
      P (w.after t (.slotsSub n) () st))
    (hw : (Owes t (freed.getD 0 : ℕ) w ∧ NoLock t none w) ∧ P w) :
    (capacityContract env).wp t (giveBack freed) (fun _ w => Clear t w ∧ P w) w := by
  cases freed with
  | none => exact hw
  | some n =>
      refine wp_perform (fun w => (Owes t n w ∧ NoLock t none w) ∧ P w)
        (((stable_owes _).and (stable_noLock none)).and hP) hw (fun _ _ h => h.1.1)
        fun w' r st hinv h' hexec _ => ?_
      have howes := h'.1.1.after (o := .slotsSub n) (r := r)
        (gap_slotsSub hexec (hinv.le_slots h'.1.1))
      rw [neg_add_cancel] at howes
      exact ⟨⟨howes, h'.1.2.after rfl hexec⟩, hsub w' n st h'.2 hexec⟩

/-! The part of a call under the lock of an account. -/

/-- The thread owes `x`, and has locked the account `cell`, whose state satisfies `φ`. -/
structure Working (t : Tid env) (cell : ℕ) (x : ℤ) (φ : State → Prop) (w : BudgetWorld env) :
    Prop where
  owes : Owes t x w
  noLock : NoLock t (some cell) w
  inside : Inside t cell φ w

variable {cell : ℕ} {x : ℤ} {φ : State → Prop}

theorem stable_working : (capacityContract env).Stable t (Working t cell x φ) :=
  fun w w' hstep h => ⟨stable_owes x w w' hstep h.owes,
    stable_noLock (some cell) w w' hstep h.noLock, stable_inside cell φ w w' hstep h.inside⟩

theorem Working.state (h : Working t cell x φ w) {a : Account env}
    (ha : w.st.heap.lookup cell = some a) : φ a.state := by
  obtain ⟨a', ha', -, -, hφ⟩ := h.inside
  rw [ha] at ha'
  cases ha'
  exact hφ

theorem Clear.locked (h : Clear t w) (hinv : CapacityInv w) {r : Unit}
    (hkept : t = .maintenance ∨ Cloned t cell w)
    (hexec : exec env t (.stateLock cell) w.st = some (r, st)) :
    Working t cell 0 (fun _ => True) (w.after t (.stateLock cell) r st) := by
  refine ⟨h.1.gapless hinv rfl hexec, fun c b hb hc => ?_, ?_⟩
  · refine noLock_exec hexec (fun c' heq hne => ?_) (fun c b hb _ => h.2 c b hb nofun) hb hc
    cases heq
    exact absurd rfl hne
  · obtain ⟨a, ha, -, rfl⟩ := exec_stateLock hexec
    refine ⟨_, (Budgets.lookup_put _ _ _ _).trans (if_pos rfl), ?_, rfl, trivial⟩
    rcases hkept with rfl | ⟨a', ha', hmem⟩
    · exact Or.inr rfl
    · rw [ha] at ha'
      cases ha'
      exact Or.inl hmem

/-- Work on the locked state changes what is owed by what the flows change. -/
theorem Working.onState (h : Working t cell x φ w) {f : State → α × State} {y : α} {z : ℤ}
    {ψ : State → Prop} (hlock : o.isLock = false) (hexec : exec env t o w.st = some (r, st))
    (hstate : AccountBudget.onState w.st t cell f = some (y, st)) (hgap : gap st - gap w.st = z)
    (hψ : ∀ state, φ state → y = (f state).1 → ψ (f state).2) :
    Working t cell (z + x) ψ (w.after t o r st) := by
  obtain ⟨a, ha, hkept, hheld, hφ⟩ := h.inside
  refine ⟨h.owes.after hgap, h.noLock.after hlock hexec, ?_⟩
  obtain ⟨a', ha', hheld', hy, rfl⟩ := onState_eq_some hstate
  rw [ha] at ha'
  cases ha'
  exact ⟨_, (Budgets.lookup_put _ _ _ _).trans (if_pos rfl), hkept, hheld, hψ a.state hφ hy⟩

theorem Working.other (h : Working t cell x φ w) {z : ℤ} (hlock : o.isLock = false)
    (hexec : exec env t o w.st = some (r, st)) (hheap : st.heap = w.st.heap)
    (hgap : gap st - gap w.st = z) :
    Working t cell (z + x) φ (w.after t o r st) := by
  refine ⟨h.owes.after hgap, h.noLock.after hlock hexec, ?_⟩
  obtain ⟨a, ha, hrest⟩ := h.inside
  exact ⟨a, by rw [System.World.after_st, hheap, ha], hrest⟩

theorem slotsSub_wp {n : ℕ} (hw : Working t cell n φ w) :
    (capacityContract env).wp t (perform (.slotsSub n)) (fun _ => Working t cell 0 φ) w := by
  refine wp_perform _ stable_working hw (fun _ _ h => h.owes) fun w' r st hinv h' hexec _ => ?_
  have hheap : st.heap = w'.st.heap := by
    cases hexec
    rfl
  have hworking := h'.other (o := .slotsSub n) (r := r) rfl hexec hheap
    (gap_slotsSub hexec (hinv.le_slots h'.owes))
  rwa [neg_add_cancel] at hworking

/-- An operation on the state that leaves the gap as it is. -/
theorem Working.gapless_wp (f : State → o.Ret × State) (ψ : o.Ret → State → Prop)
    (hw : Working t cell x φ w) (ho : o.gapless = true) (hlock : o.isLock = false)
    (hpre : ∀ w, capacityPre t o w) (heq : ∀ s, exec env t o s = AccountBudget.onState s t cell f)
    (hψ : ∀ state, φ state → ψ (f state).1 (f state).2)
    (hnext : ∀ w' r, Working t cell x (ψ r) w' → (capacityContract env).wp t (k r) Q w') :
    (capacityContract env).wp t (perform o >>= k) Q w := by
  refine wp_perform _ stable_working hw (fun w _ _ => hpre w) fun w' r st hinv h' hexec _ => ?_
  have hgap := gap_gapless ho (hinv.filed.fresh _ le_rfl) hexec
  have hworking := h'.onState (r := r) (ψ := ψ r) hlock hexec ((heq _).symm.trans hexec)
    (sub_eq_zero.2 hgap) fun state hφ hr => hr ▸ hψ state hφ
  rw [zero_add] at hworking
  exact hnext _ r hworking

theorem trackFlow_wp {key : Flow} {now : UInt64} {newFlow : Bool}
    (hw : Working t cell 0 (fun state => state.isNewFlow (some key) = newFlow) w) :
    (capacityContract env).wp t (trackFlow env cell key now newFlow)
      (fun _ => Working t cell 0 fun _ => True) w := by
  -- the flow is entered, for which there is room on the counter now
  have htrack : ∀ w', Working t cell (if newFlow then 1 else 0)
      (fun state => state.isNewFlow (some key) = newFlow) w' →
      (capacityContract env).wp t (perform (.track cell key now newFlow) >>= fun _ => pure true)
        (fun _ => Working t cell 0 fun _ => True) w' := by
    intro w' hw'
    refine wp_perform _ stable_working hw' (fun w _ h => ⟨h.owes, fun a ha => h.state ha⟩)
      fun w₂ r st hinv h₂ hexec _ => ?_
    have hworking := h₂.onState (o := .track cell key now newFlow) (r := r)
      (f := fun state => ((), state.track key now newFlow)) (ψ := fun _ => True) rfl hexec hexec
      (gap_track hexec fun a ha => h₂.state ha) fun _ _ _ => trivial
    rwa [neg_add_cancel] at hworking
  unfold trackFlow
  split
  · next hnew =>
      subst hnew
      refine wp_perform _ stable_working hw (fun _ _ _ => trivial) fun w' r st _ h' hexec _ => ?_
      have hheap : st.heap = w'.st.heap := by
        simp only [exec] at hexec
        split at hexec <;> cases hexec <;> rfl
      have hworking := h'.other (o := .slotsReserve) rfl hexec hheap (gap_slotsReserve hexec)
      rw [add_zero] at hworking
      cases r with
      | true => exact htrack _ hworking
      | false =>
          exact hworking.gapless_wp (o := .noteUntracked cell)
            (fun state => ((), state.noteUntracked env.policy)) (fun _ _ => True) rfl rfl
            (fun _ => trivial) (fun _ => rfl) (fun _ _ => trivial) fun _ _ h => h
  · next hold =>
      cases newFlow with
      | true => exact absurd rfl hold
      | false => exact htrack _ hw

theorem decideEvent_wp {flow : Option Flow} {now : UInt64} {newFlow exceeded : Bool}
    (hw : Working t cell 0 (fun state => state.isNewFlow flow = newFlow) w) :
    (capacityContract env).wp t (decideEvent env cell flow now newFlow exceeded)
      (fun _ => Working t cell 0 fun _ => True) w := by
  have hforget : Working t cell 0 (fun _ => True) w := by
    obtain ⟨a, ha, hkept, hheld, -⟩ := hw.inside
    exact ⟨hw.owes, hw.noLock, a, ha, hkept, hheld, trivial⟩
  unfold decideEvent
  split
  · exact hforget
  · cases flow with
    | none => exact hforget
    | some key => exact trackFlow_wp hw

theorem unlock_wp (hw : Working t cell 0 φ w) :
    (capacityContract env).wp t (perform (.stateUnlock cell)) (fun _ => Clear t) w := by
  refine wp_perform _ stable_working hw (fun _ _ _ => trivial) fun w' r st hinv h' hexec _ => ?_
  refine ⟨h'.owes.gapless hinv rfl hexec, fun c b hb _ => ?_⟩
  by_cases hc : c = cell
  · subst hc
    obtain ⟨a, -, -, rfl⟩ := exec_stateUnlock hexec
    simp only [System.World.after_st, Budgets.lookup_put, if_true] at hb
    cases hb
    simp
  · exact h'.noLock.after rfl hexec c b hb fun heq => hc (Option.some.inj heq)

theorem lockedSection_wp {call : EventCall} (hw : Clear t w ∧ Cloned t cell w) :
    (capacityContract env).wp t (lockedSection env call cell) (fun _ => Clear t) w := by
  -- the event is charged, decided about and answered
  have hcharge : ∀ (now : UInt64) w', Working t cell 0 (fun _ => True) w' →
      (capacityContract env).wp t (do
        let (newFlow, exceeded) ← perform (.charge cell call.out call.bytes call.flow)
        let admitted ← decideEvent env cell call.flow now newFlow exceeded
        perform (.answer cell ⟨call.user, call.bytes, now, newFlow, admitted⟩)
        perform (.stateUnlock cell)) (fun _ => Clear t) w' := by
    intro now w' hw'
    refine hw'.gapless_wp (o := .charge cell call.out call.bytes call.flow)
      (fun state => state.charge env.policy call.out call.bytes call.flow)
      (fun r state => state.isNewFlow call.flow = r.1) rfl rfl (fun _ => trivial) (fun _ => rfl)
      (fun state _ => ?_) fun w₂ r h₂ => ?_
    · rw [State.isNewFlow_charge, State.isNewFlow, State.isNewFlow, State.flows_charge]
    · refine Contract.wp_seq (decideEvent_wp h₂) fun admitted w₃ h₃ => ?_
      exact h₃.gapless_wp (o := .answer ..) (fun state => ((), state)) (fun _ _ => True) rfl rfl
        (fun _ => trivial) (fun _ => rfl) (fun _ _ => trivial) fun _ _ h => unlock_wp h
  unfold lockedSection
  refine wp_perform _ (stable_clear.and (stable_cloned cell)) hw (fun _ _ h => Or.inr h.2)
    fun w₁ r₁ st₁ hinv₁ h₁ hexec₁ _ => ?_
  have hlocked := h₁.1.locked hinv₁ (Or.inr h₁.2) hexec₁
  refine wp_perform _ stable_working hlocked (fun _ _ _ => trivial)
    fun w₂ r₂ st₂ hinv₂ h₂ hexec₂ _ => ?_
  have hentered := h₂.onState (o := .enter cell call.now call.flow) (r := r₂)
    (f := fun state => state.enter call.now call.flow) (ψ := fun _ => True) rfl hexec₂ hexec₂
    (gap_enter hexec₂) fun _ _ _ => trivial
  rw [add_zero] at hentered
  obtain ⟨now, expired⟩ := r₂
  cases expired with
  | false => exact hcharge now _ hentered
  | true => exact Contract.wp_seq (slotsSub_wp (n := 1) hentered) fun _ _ h => hcharge now _ h

theorem event_wp {call : EventCall} (hw : Clear t w) :
    (capacityContract env).wp t (event env call) (fun _ => Clear t) w := by
  unfold event
  refine Contract.wp_seq (account_wp _ _ _ hw) fun found w₁ h₁ => ?_
  cases found with
  | none =>
      refine h₁.1.wp_next rfl rfl (fun _ => trivial) fun w₂ _ st₂ _ hclear₂ => ?_
      split
      · exact hclear₂.wp_next rfl rfl (fun _ => trivial) fun _ _ _ _ h => h
      · exact hclear₂
  | some cell =>
      refine Clear.wp_op (Cloned t cell) (stable_cloned cell) ⟨h₁.1, h₁.2 cell rfl⟩ rfl rfl
        (fun _ _ h => h) fun w₂ _ st₂ hinv₂ hcloned₂ hexec₂ hclear₂ => ?_
      refine Contract.wp_seq
        (lockedSection_wp ⟨hclear₂, hcloned₂.after hinv₂ (by simp) hexec₂⟩) fun _ w₃ h₃ => ?_
      refine wp_perform _ stable_clear h₃ (fun _ _ h => h.2) fun w₄ r₄ st₄ _ h₄ hexec₄ _ => ?_
      have howes := h₄.1.after (o := .dropClone cell) (r := r₄) (gap_dropClone hexec₄)
      rw [add_zero] at howes
      exact Contract.wp_mono (giveBack_wp (fun _ => True) .true (fun _ _ _ _ _ => trivial)
        ⟨⟨howes, h₄.2.after rfl hexec₄⟩, trivial⟩) fun _ _ h => h.1

end Programs

/-! ### Maintenance meets the contract -/

section Maintenance

variable {t : Tid env} {w : BudgetWorld env} {o : Op} {r : o.Ret} {st : Budgets env} {i : ℕ}
  {e : String × ℕ} {l : List (String × ℕ)} {now : UInt64}

/-- The maintenance thread holds the guard of shard `i`, whose accounts in `l` it has still to look
at. -/
structure Sweeping (i : ℕ) (l : List (String × ℕ)) (w : BudgetWorld env) : Prop where
  guard : w.st.guards i = some .write
  mapped : ∀ e ∈ l, w.st.accounts.lookup e.1 = some e.2 ∧ env.shardOf e.1 = i
  nodup : (l.map Prod.fst).Nodup

/-- No thread has a clone of the pointer to the account. -/
def Unused (cell : ℕ) (w : BudgetWorld env) : Prop :=
  ∀ a, w.st.heap.lookup cell = some a → a.clones = []

theorem Sweeping.of_exec (h : Sweeping i l w) (hexec : exec env t o w.st = some (r, st))
    (ho : o.ofCaller) : Sweeping i l (w.after t o r st) := by
  have hguards : st.guards = w.st.guards := (exec_shared hexec).2.2 ho
  refine ⟨by rw [System.World.after_st, hguards, h.guard], fun e he => ?_, h.nodup⟩
  obtain ⟨hlookup, hshard⟩ := h.mapped e he
  refine ⟨?_, hshard⟩
  rw [System.World.after_st]
  rcases exec_accounts hexec with ⟨user, now, rfl, hnone, -, hs, -⟩ | ⟨user, rfl, -⟩ | ⟨hs, -⟩
  · have huser : e.1 ≠ user := by
      rintro rfl
      rw [hlookup] at hnone
      cases hnone
    rw [hs, Table.lookup_insert_eq, if_neg huser, hlookup]
  · exact absurd ho id
  · rw [hs, hlookup]

theorem caller_of_ne (hne : t ≠ .maintenance) (hmay : (capacityContract env).may t o) :
    o.ofCaller := by
  cases t with
  | caller i => exact hmay
  | maintenance => exact absurd rfl hne

theorem stable_sweeping : (capacityContract env).Stable .maintenance (Sweeping i l) :=
  .of_exec (fun _ _ h => ⟨h.guard, h.mapped, h.nodup⟩)
    fun _ _ _ _ _ hne _ hmay _ hexec _ hw => hw.of_exec hexec (caller_of_ne hne hmay)

/-- While the shard is locked, no event gets a clone of one of its accounts. -/
theorem Unused.of_exec (h : Unused e.2 w) (hinv : CapacityInv w) (hsweep : Sweeping i (e :: l) w)
    (hexec : exec env t o w.st = some (r, st)) : Unused e.2 (w.after t o r st) := by
  intro b hb
  obtain ⟨hlookup, hshard⟩ := hsweep.mapped e List.mem_cons_self
  obtain ⟨a, ha, huser⟩ := hinv.filed.live _ _ hlookup
  have hfresh := hinv.filed.fresh e.2
  have hstep := cellStep hexec e.2
  have hnone := h a ha
  rw [System.World.after_st] at hb
  rw [ha] at hstep hfresh
  rw [hb] at hstep
  cases hstep with
  | same => exact hnone
  | create _ user now ho hcell => cases hfresh (Nat.le_of_eq hcell.symm)
  | clone _ user hmap hguard =>
      rw [← hinv.filed.user_eq hmap ha, huser, hshard] at hguard
      exact absurd hsweep.guard hguard
  | dropClone => rw [hnone, List.erase_nil]
  | touch | lock | unlock | update => exact hnone

theorem stable_unused :
    (capacityContract env).Stable .maintenance fun w => Sweeping i (e :: l) w ∧ Unused e.2 w := by
  intro w w' hstep hw
  refine ⟨stable_sweeping w w' hstep hw.1, ?_⟩
  cases hstep with
  | start a => exact hw.2
  | exec u o r st _ hinv _ _ hexec => exact hw.2.of_exec hinv hw.1 hexec

theorem Sweeping.tail (h : Sweeping i (e :: l) w) : Sweeping i l w :=
  ⟨h.guard, fun e' he' => h.mapped e' (List.mem_cons_of_mem e he'), (List.nodup_cons.1 h.nodup).2⟩

theorem Sweeping.of_eq (h : Sweeping i l w)
    (hguards : st.guards = w.st.guards) (haccounts : st.accounts = w.st.accounts) :
    Sweeping i l (w.after t o r st) := by
  refine ⟨?_, fun e he => ?_, h.nodup⟩
  · rw [System.World.after_st, hguards, h.guard]
  · rw [System.World.after_st, haccounts]
    exact h.mapped e he

theorem unused_of_strongCount {cell : ℕ} (hinv : CapacityInv w)
    (hcount : ∀ a, w.st.heap.lookup cell = some a → w.st.strongCount cell a ≤ 1) :
    Unused cell w := by
  intro a ha
  have hle := hcount a ha
  rw [Budgets.strongCount, hinv.filed.not_dropLast ha, if_pos rfl] at hle
  exact List.length_eq_zero_iff.1 (by omega)

/-- The account is removed, and the others of the shard stay. -/
theorem Sweeping.retainErase {r : Option ℕ} (h : Sweeping i (e :: l) w)
    (hexec : exec env .maintenance (.retainErase e.1) w.st = some (r, st)) :
    Sweeping i l (w.after .maintenance (.retainErase e.1) r st) := by
  have haccounts : st.guards = w.st.guards ∧ st.accounts = w.st.accounts.erase e.1 := by
    obtain ⟨c, a, -, -, -, ⟨-, -, rfl⟩ | ⟨-, -, rfl⟩⟩ := exec_retainErase hexec <;>
      exact ⟨rfl, rfl⟩
  refine ⟨?_, fun e' he' => ?_, (List.nodup_cons.1 h.nodup).2⟩
  · rw [System.World.after_st, haccounts.1, h.guard]
  · obtain ⟨hlookup, hshard⟩ := h.mapped e' (List.mem_cons_of_mem e he')
    have hne : e'.1 ≠ e.1 := fun heq =>
      (List.nodup_cons.1 h.nodup).1 (heq ▸ List.mem_map_of_mem he')
    exact ⟨by rw [System.World.after_st, haccounts.2, Table.lookup_erase_eq, if_neg hne, hlookup],
      hshard⟩

theorem evictIdle_wp (hw : Clear .maintenance w ∧ Sweeping i (e :: l) w) :
    (capacityContract env).wp .maintenance (evictIdle now e)
      (fun _ w => Clear .maintenance w ∧ Sweeping i l w) w := by
  unfold evictIdle
  refine Clear.wp_op (Sweeping i (e :: l)) stable_sweeping hw rfl rfl (fun _ _ _ => trivial)
    fun w₁ lastUsed st₁ _ h₁ hexec₁ hclear₁ => ?_
  obtain ⟨rfl, -⟩ := exec_lastUsedLoad hexec₁
  have hsweep₁ := h₁.of_eq (t := .maintenance) (o := .lastUsedLoad e.2) (r := lastUsed) rfl rfl
  split
  · exact ⟨hclear₁, hsweep₁.tail⟩
  refine Clear.wp_op (Sweeping i (e :: l)) stable_sweeping ⟨hclear₁, hsweep₁⟩ rfl rfl
    (fun _ _ _ => trivial) fun w₂ n st₂ hinv₂ h₂ hexec₂ hclear₂ => ?_
  obtain ⟨rfl, a, ha, hn⟩ := exec_strongCount hexec₂
  have hsweep₂ := h₂.of_eq (t := .maintenance) (o := .strongCount e.2) (r := n) rfl rfl
  split
  · exact ⟨hclear₂, hsweep₂.tail⟩
  · next hsingle =>
      have hunused : Unused e.2 w₂ := by
        refine unused_of_strongCount hinv₂ fun b hb => ?_
        rw [ha] at hb
        cases hb
        exact hn ▸ Nat.le_of_not_lt hsingle
      -- the shard is locked, so the account is still unused when it is removed
      refine wp_perform _ (stable_clear.and stable_unused) ⟨hclear₂, hsweep₂, hunused⟩
        (fun w₃ _ h₃ => ⟨h₃.1.2, fun cell a hmap ha => h₃.2.2 a ?_⟩)
        fun w₃ r₃ st₃ _ h₃ hexec₃ _ => ?_
      · rw [(h₃.2.1.mapped e List.mem_cons_self).1] at hmap
        cases hmap
        exact ha
      · have howes := h₃.1.1.after (o := .retainErase e.1) (r := r₃) (gap_retainErase hexec₃)
        rw [add_zero] at howes
        refine giveBack_wp (Sweeping i l) stable_sweeping (fun w₄ m st₄ h₄ hexec₄ => ?_)
          ⟨⟨howes, h₃.1.2.after rfl hexec₃⟩, h₃.2.1.retainErase hexec₃⟩
        cases hexec₄
        exact h₄.of_eq rfl rfl

/-- The accounts of a shard are in the map, each under its own name. -/
theorem mem_shardEntries {s : Budgets env} (he : e ∈ s.shardEntries i) :
    s.accounts.lookup e.1 = some e.2 ∧ env.shardOf e.1 = i := by
  obtain ⟨hmem, hshard⟩ := List.mem_filter.1 he
  obtain ⟨x, hx, rfl⟩ := List.mem_map.1 hmem
  exact ⟨Table.lookup_eq_some_iff.2 hx, of_decide_eq_true hshard⟩

theorem nodup_shardEntries (s : Budgets env) (i : ℕ) : ((s.shardEntries i).map Prod.fst).Nodup := by
  have hkeys : (s.accounts.entries.map fun e => (e.1, e.2)).map Prod.fst =
      s.accounts.entries.keys := by
    rw [List.map_map]
    rfl
  refine List.Nodup.sublist (List.Sublist.map _ List.filter_sublist) ?_
  rw [hkeys]
  exact s.accounts.nodupKeys

theorem sweeping_retainLock {entries : List (String × ℕ)}
    (hexec : exec env .maintenance (.retainLock i) w.st = some (entries, st)) :
    Sweeping i entries (w.after .maintenance (.retainLock i) entries st) := by
  obtain ⟨-, rfl, rfl⟩ := System.of_guarded hexec
  exact ⟨Function.update_self .., fun e he => mem_shardEntries he, nodup_shardEntries _ _⟩

theorem evictShard_wp (hw : Clear .maintenance w) :
    (capacityContract env).wp .maintenance (evictShard now i) (fun _ => Clear .maintenance) w := by
  unfold evictShard
  refine hw.wp_next rfl rfl (fun _ => trivial) fun w₁ entries st₁ hexec₁ hclear₁ => ?_
  refine Contract.wp_seq (Contract.wp_forM
    (fun l w => Clear .maintenance w ∧ Sweeping i l w) (fun e l w h => evictIdle_wp h)
    ⟨hclear₁, sweeping_retainLock hexec₁⟩) fun _ w₂ h₂ => ?_
  exact h₂.1.wp_next rfl rfl (fun _ => trivial) fun _ _ _ _ h => h

theorem pruneFlows_wp (hw : Clear .maintenance w) :
    (capacityContract env).wp .maintenance (pruneFlows now e) (fun _ => Clear .maintenance) w := by
  unfold pruneFlows
  refine wp_perform _ stable_clear hw (fun _ _ _ => Or.inl rfl)
    fun w₁ r₁ st₁ hinv₁ h₁ hexec₁ _ => ?_
  have hlocked := h₁.locked hinv₁ (Or.inl rfl) hexec₁
  refine wp_perform _ stable_working hlocked (fun _ _ _ => trivial)
    fun w₂ removed st₂ _ h₂ hexec₂ _ => ?_
  have hpruned := h₂.onState (o := .retainFlows e.2 now) (r := removed)
    (f := fun state => (state.flows.size - (state.retainFlows now).flows.size,
      state.retainFlows now)) (ψ := fun _ => True) rfl hexec₂ hexec₂ (gap_retainFlows hexec₂)
    fun _ _ _ => trivial
  rw [add_zero] at hpruned
  exact Contract.wp_seq (slotsSub_wp hpruned) fun _ _ h => unlock_wp h

theorem pruneShard_wp (hw : Clear .maintenance w) :
    (capacityContract env).wp .maintenance (pruneShard now i) (fun _ => Clear .maintenance) w := by
  unfold pruneShard
  refine hw.wp_next rfl rfl (fun _ => trivial) fun w₁ entries st₁ _ hclear₁ => ?_
  refine Contract.wp_seq (Contract.wp_forM (fun _ => Clear .maintenance)
    (fun e l w h => pruneFlows_wp h) hclear₁) fun _ w₂ h₂ => ?_
  exact h₂.wp_next rfl rfl (fun _ => trivial) fun _ _ _ _ h => h

theorem maintain_wp (hw : Clear .maintenance w) :
    (capacityContract env).wp .maintenance (maintain env now) (fun _ => Clear .maintenance) w := by
  unfold maintain
  refine Contract.wp_seq (Contract.wp_forM (fun _ => Clear .maintenance)
    (fun i l w h => evictShard_wp h) hw) fun _ w₁ h₁ => ?_
  exact Contract.wp_forM (fun _ => Clear .maintenance) (fun i l w h => pruneShard_wp h) h₁

end Maintenance

/-! ### Along a run -/

theorem capacityInv_begin {w : BudgetWorld env} {a : Act env} (hinv : CapacityInv w)
    (hpost : Clear a.tid w) : CapacityInv ((w : BudgetWorld env).begin a) where
  balanced := hinv.balanced.begin fun _ => hpost.1
  owed t := by
    by_cases ht : a.tid = t
    · subst ht
      exact (System.drift_start_self (M := budgetSystem env)).ge
    · rw [System.World.begin_hist, System.drift_start_of_ne (M := budgetSystem env) ht]
      exact hinv.owed t
  filed := hinv.filed
  locked := hinv.locked
  slots := hinv.slots
  accounts := hinv.accounts

theorem capacityContract_sound (env : Env) : (capacityContract env).Sound where
  start_inv w a hinv hpost _ := capacityInv_begin hinv hpost
  exec_inv w t o r st hinv _ hpre hexec _ := capacityInv_exec hinv hpre hexec
  post_stable t := stable_clear
  prog_may := prog_uses
  prog_wp w a _ hpost _ := by
    have hclear : Clear a.tid (w.begin a) :=
      ⟨System.drift_start_self (M := budgetSystem env), hpost.2⟩
    cases a with
    | event i call => exact event_wp hclear
    | maintain now => exact maintain_wp hclear

theorem good_new :
    Contract.Sound.Good (capacityContract env) ((budgetSystem env).initial .new) := by
  refine Contract.Sound.good_initial ?_ fun t => ⟨rfl, fun cell a ha => nomatch ha⟩
  exact {
    balanced := by simp [System.Balanced, gap, tracked, Budgets.new]
    owed := fun t => le_rfl
    filed := ⟨fun cell a ha => (nomatch ha), fun user cell hmap => (nomatch hmap), fun _ _ => rfl⟩
    locked := fun cell a u ha => nomatch ha
    slots := UInt64.zero_le
    accounts := Nat.zero_le _ }

/-- The number of flows tracked by the accounts in the map. -/
def Budgets.flowsLen (s : Budgets env) : ℕ :=
  s.accounts.sumBy fun cell => ((s.heap.lookup cell).map fun a => a.state.flows.size).getD 0

theorem Filed.tracked_eq {s : Budgets env} (h : Filed s) : tracked s = s.flowsLen := by
  -- the cells of the map and those of the heap are the same
  have hperm : (s.accounts.entries.map fun e => e.2).Perm s.heap.entries.keys := by
    refine (List.perm_ext_iff_of_nodup ?_ s.heap.nodupKeys).2 fun cell => ?_
    · refine List.Nodup.map_on (fun e he e' he' heq => ?_)
        (List.NodupKeys.nodup s.accounts.nodupKeys)
      obtain ⟨user, cell⟩ := e
      obtain ⟨user', cell'⟩ := e'
      cases heq
      obtain ⟨a, ha, rfl⟩ := h.live _ _ (Table.lookup_eq_some_iff.2 he)
      rw [h.user_eq (Table.lookup_eq_some_iff.2 he') ha]
    · constructor
      · intro hmem
        obtain ⟨e, he, rfl⟩ := List.mem_map.1 hmem
        obtain ⟨a, ha, -⟩ := h.live _ _ (Table.lookup_eq_some_iff.2 he)
        exact List.mem_keys_of_mem (Table.lookup_eq_some_iff.1 ha)
      · intro hmem
        obtain ⟨a, ha⟩ := List.exists_of_mem_keys hmem
        exact List.mem_map.2 ⟨_, Table.lookup_eq_some_iff.1 (h.filed _ _
          (Table.lookup_eq_some_iff.2 ha)), rfl⟩
  have hsum : s.flowsLen = (s.heap.entries.map fun e => e.2.state.flows.size).sum := by
    have hcells := (hperm.map fun cell =>
      ((s.heap.lookup cell).map fun a => a.state.flows.size).getD 0).sum_eq
    simp only [List.map_map, List.keys] at hcells
    refine hcells.trans (congrArg List.sum (List.map_congr_left fun e he => ?_))
    simp [Table.lookup_eq_some_iff.2 (show ⟨e.1, e.2⟩ ∈ s.heap.entries from he)]
  rw [hsum, tracked, Table.sumBy, Nat.cast_list_sum, List.map_map]
  rfl

theorem slots_eq_flowsLen {c : (budgetSystem env).Config}
    (hrun : (budgetSystem env).Steps ((budgetSystem env).initial .new) c)
    (hidle : ∀ t, c.ctl t = .ret ()) : c.st.slots.toNat = c.st.flowsLen := by
  have hgood := (capacityContract_sound env).run hrun good_new
  have hinv : CapacityInv c.toWorld := hgood.1
  have hgap : gap c.st = 0 := hinv.balanced.eq_zero fun t _ =>
    (Contract.Sound.post_of_idle hgood (hidle t)).1
  have htracked := hinv.filed.tracked_eq
  unfold gap at hgap
  omega

/-- The tracking capacity is conserved.  In every state that is reached, the counter of tracked
flows and the number of accounts are within their limits, and whatever is taken off the counter is
on it.  While no call is in progress, the counter is the number of flows of the accounts in the map.
-/
theorem capacity_conserved {c : (budgetSystem env).Config}
    (hrun : (budgetSystem env).Steps ((budgetSystem env).initial .new) c) :
    ((∀ t, c.ctl t = .ret ()) → c.st.slots.toNat = c.st.flowsLen) ∧
    c.st.slots ≤ env.flowLimit ∧
    (∀ t n r pre post c', (budgetSystem env).Step c (.exec t (.slotsSub n) r pre post) c' →
      n ≤ c.st.slots.toNat ∧ c'.st.slots.toNat = c.st.slots.toNat - n) ∧
    c.st.accounts.size ≤ env.accountLimit := by
  have hgood := (capacityContract_sound env).run hrun good_new
  have hinv : CapacityInv c.toWorld := hgood.1
  refine ⟨slots_eq_flowsLen hrun, hinv.slots, fun t n r pre post c' hstep => ?_, hinv.accounts⟩
  have howes : Owes t n c.toWorld := (Contract.Sound.pre_of_step hgood hstep).2
  have hle := hinv.le_slots howes
  refine ⟨hle, ?_⟩
  cases hstep with
  | exec _ _ k _ st hctl hexec =>
      have hgap := gap_slotsSub (t := t) hexec hle
      cases hexec
      simp only [gap, tracked] at hgap
      simp only [System.World.after_st]
      omega

/-- Two callers, and room for one account with two flows. -/
def sampleEnv : Env where
  policy := ⟨true, 1, 1000, 10⟩
  accountLimit := 1
  flowLimit := 2
  callers := 2
  shards := 1
  shardOf _ := 0
  shardOf_lt _ := Nat.zero_lt_one

/-- The callers of `sampleEnv`. -/
def firstCaller : Fin sampleEnv.callers := ⟨0, Nat.zero_lt_two⟩

def secondCaller : Fin sampleEnv.callers := ⟨1, Nat.one_lt_two⟩

def sampleCall (user : String) (now : UInt64) (dport : UInt16) : EventCall :=
  ⟨user, false, 100, some ⟨1, 17, ⟨10, 0, 0, 2⟩, ⟨8, 8, 8, 8⟩, 40000, dport⟩, now, 0⟩

/-- An account with a flow is opened, another user finds no room, the account is evicted, and then
the other user has room. -/
theorem capacity_conserved_sample :
    ∃ c : (budgetSystem sampleEnv).Config,
      (budgetSystem sampleEnv).Steps ((budgetSystem sampleEnv).initial .new) c ∧
      (∀ t, c.ctl t = .ret ()) ∧ (c.st.accounts.lookup "b").isSome = true ∧
      c.st.slots.toNat = c.st.flowsLen ∧ c.st.slots ≤ sampleEnv.flowLimit ∧
      c.st.accounts.size ≤ sampleEnv.accountLimit := by
  have hstart : System.Reaches System.free ((budgetSystem sampleEnv).initial .new)
      (Budgets.new, fun _ => .ret ()) :=
    ⟨_, Relation.ReflTransGen.refl, rfl, rfl⟩
  obtain ⟨c, hrun, hc⟩ := hstart.follow
    [.start (.event firstCaller (sampleCall "a" 0 53)), .fire (.caller firstCaller) 20,
      .start (.event secondCaller (sampleCall "b" 0 53)), .fire (.caller secondCaller) 20,
      .start (.maintain 600), .fire .maintenance 20,
      .start (.event firstCaller (sampleCall "b" 600 53)), .fire (.caller firstCaller) 20]
    (by decide +kernel)
  have hrun := hrun.steps
  have hidle : ∀ t, c.ctl t = .ret () := by
    intro t
    rw [hc.2]
    refine System.ctl_of_idle ?_
    revert t
    decide +kernel
  have hopened : (c.st.accounts.lookup "b").isSome = true :=
    (congrArg (fun s => (s.accounts.lookup "b").isSome) hc.1).trans (by decide +kernel)
  obtain ⟨hslots, hlimit, -, haccounts⟩ := capacity_conserved hrun
  exact ⟨c, hrun, hidle, hopened, hslots hidle, hlimit, haccounts⟩

end SwiftRelay.AccountBudget
