/-
**What the budgets admit.**

In enforcing mode an event is admitted only while its account is within its limits, and the account
counts everything that it admits.  So the limits hold as long as a user does not get a second
account for a time that the first one has admitted events in.  Accounts are evicted after ten
minutes without use, and the clocks of the callers are at most one minute behind; but maintenance
looks at the time of last use *before* it looks for clones of the pointer.  An event that held a
clone at the first look and has dropped it by the second is overlooked, and its account is evicted
right after it was used.

Main definitions:

* `admissions`, `LimitsHold` — the events of a user that were admitted, and what the policy says
  about them;
* `Within` — the account has counted what was admitted;
* `orderly` — the clocks, and what maintenance overlooks;
* `limitsContract` — the contract.

Main results:

* `Within.step`, `Within.accept` — what an account has counted, operation by operation;
* `budgets_enforced` — the limits hold in orderly runs;
* `budget_exceeded_by_eviction` — and not in all of them.
-/

import SwiftRelay.BudgetCapacity

set_option autoImplicit false

namespace SwiftRelay.AccountBudget

open Conc

variable {env : Env}

/-! ### The limits -/

/-- The verdict, if it admits an event of the user. -/
def admission (user : String) : (budgetSystem env).Event → Option Verdict
  | .exec _ (.answer _ v) _ _ _ => if v.user = user ∧ v.admitted = true then some v else none
  | _ => none

/-- The admitted events of a user, most recent first. -/
def admissions (user : String) (hist : List (budgetSystem env).Event) : List Verdict :=
  hist.filterMap (admission user)

/-- The events with this effective time. -/
def inSecond (second : UInt64) (events : List Verdict) : List Verdict :=
  events.filter fun v => v.effective = second

/-- The events with a new flow whose effective time is in this minute. -/
def inMinute (minute : UInt64) (events : List Verdict) : List Verdict :=
  events.filter fun v => v.newFlow && v.effective / 60 = minute

/-- The bytes of the events together. -/
def bytesOf (events : List Verdict) : ℕ := (events.map fun v => v.bytes.toNat).sum

/-- The limits of the policy hold for the admitted events of a user. -/
structure LimitsHold (policy : Policy) (events : List Verdict) : Prop where
  packets : ∀ second, 0 < policy.packets → (inSecond second events).length ≤ policy.packets.toNat
  bytes : ∀ second, 0 < policy.bytes → bytesOf (inSecond second events) ≤ policy.bytes.toNat
  newFlows : ∀ minute, 0 < policy.newFlows →
    (inMinute minute events).length ≤ policy.newFlows.toNat

theorem inSecond_cons_self (v : Verdict) (events : List Verdict) :
    inSecond v.effective (v :: events) = v :: inSecond v.effective events :=
  List.filter_cons_of_pos (by simp)

theorem inSecond_cons_of_ne {v : Verdict} {second : UInt64} (h : v.effective ≠ second)
    (events : List Verdict) : inSecond second (v :: events) = inSecond second events :=
  List.filter_cons_of_neg (by simpa using h)

theorem inMinute_cons_of_ne {v : Verdict} {minute : UInt64}
    (h : v.newFlow = false ∨ v.effective / 60 ≠ minute) (events : List Verdict) :
    inMinute minute (v :: events) = inMinute minute events :=
  List.filter_cons_of_neg (by rcases h with h | h <;> simp [h])

theorem inMinute_cons_self {v : Verdict} (h : v.newFlow = true) (events : List Verdict) :
    inMinute (v.effective / 60) (v :: events) = v :: inMinute (v.effective / 60) events :=
  List.filter_cons_of_pos (by simp [h])

/-- Nothing was admitted in a second that is yet to come. -/
theorem inSecond_eq_nil {second : UInt64} {events : List Verdict}
    (h : ∀ v ∈ events, v.effective.toNat < second.toNat) : inSecond second events = [] := by
  refine List.filter_eq_nil_iff.2 fun v hv heq => ?_
  have hlt := h v hv
  rw [of_decide_eq_true heq] at hlt
  omega

theorem inMinute_eq_nil {minute : UInt64} {events : List Verdict}
    (h : ∀ v ∈ events, v.effective.toNat / 60 < minute.toNat) : inMinute minute events = [] := by
  refine List.filter_eq_nil_iff.2 fun v hv heq => ?_
  have hlt := h v hv
  obtain ⟨-, heq⟩ := Bool.and_eq_true_iff.1 heq
  rw [← of_decide_eq_true heq, UInt64.toNat_div] at hlt
  exact Nat.lt_irrefl _ hlt

/-! ### What an account has counted -/

/-- Every admitted event of the user is counted in the window that it belongs to, and the windows of
the account are the last ones with such events. -/
structure Within (policy : Policy) (s : State) (events : List Verdict) : Prop where
  before : ∀ v ∈ events, v.effective.toNat ≤ s.second.toNat
  minute : s.minute = s.second / 60
  packets : 0 < policy.packets → (inSecond s.second events).length ≤ s.counts.packetTotal
  bytes : 0 < policy.bytes → bytesOf (inSecond s.second events) ≤ s.counts.byteTotal
  newFlows : 0 < policy.newFlows → (inMinute s.minute events).length ≤ s.newFlows.toNat

/-- The event is counted already, the others with it, and no limit is exceeded.  `pending` is
whether a new flow is still to be counted. -/
structure Counted (policy : Policy) (s : State) (events : List Verdict) (bytes : UInt64)
    (newFlow pending : Bool) : Prop where
  packets : 0 < policy.packets → (inSecond s.second events).length + 1 ≤ s.counts.packetTotal ∧
    s.counts.packetTotal ≤ policy.packets.toNat
  bytes : 0 < policy.bytes → bytesOf (inSecond s.second events) + bytes.toNat ≤ s.counts.byteTotal ∧
    s.counts.byteTotal ≤ policy.bytes.toNat
  newFlows : newFlow = true → 0 < policy.newFlows →
    (inMinute s.minute events).length + 1 ≤ s.newFlows.toNat + pending.toNat ∧
    s.newFlows.toNat + pending.toNat ≤ policy.newFlows.toNat

section Within

variable {policy : Policy} {s : State} {events : List Verdict}

theorem Within.enter (h : Within policy s events) (now : UInt64) (flow : Option Flow) :
    Within policy (s.enter now flow).2 events := by
  obtain ⟨-, hsecond, hminute, hcounts, hflows⟩ := s.enter_windows now flow
  have hmax : s.second.toNat ≤ (max now s.second).toNat := by
    rw [Word64.toNat_max]
    exact Nat.le_max_right _ _
  have hle : ∀ v ∈ events, v.effective.toNat ≤ (max now s.second).toNat :=
    fun v hv => (h.before v hv).trans hmax
  -- either the second is the same, or nothing was admitted in it yet
  have hcase : (s.enter now flow).2.counts = s.counts ∧ s.second = max now s.second ∨
      inSecond (max now s.second) events = [] := by
    by_cases heq : s.second = max now s.second
    · exact Or.inl ⟨hcounts.resolve_right (not_not.2 heq), heq⟩
    · refine Or.inr (inSecond_eq_nil fun v hv => Nat.lt_of_le_of_lt (h.before v hv) ?_)
      exact Nat.lt_of_le_of_ne hmax fun hnat => heq (UInt64.toNat_inj.1 hnat)
  refine ⟨fun v hv => hsecond ▸ hle v hv, by rw [hminute, hsecond], fun hlimit => ?_,
    fun hlimit => ?_, fun hlimit => ?_⟩
  · rw [hsecond]
    rcases hcase with ⟨hcounts, heq⟩ | hnil
    · rw [hcounts, ← heq]
      exact h.packets hlimit
    · simp [hnil]
  · rw [hsecond]
    rcases hcase with ⟨hcounts, heq⟩ | hnil
    · rw [hcounts, ← heq]
      exact h.bytes hlimit
    · simp [hnil, bytesOf]
  · rw [hminute]
    by_cases heq : s.minute = max now s.second / 60
    · rw [hflows.resolve_right (not_not.2 heq), ← heq]
      exact h.newFlows hlimit
    · rw [inMinute_eq_nil]
      · exact Nat.zero_le _
      · intro v hv
        have hne : s.second.toNat / 60 ≠ (max now s.second).toNat / 60 := by
          intro hnat
          refine heq (UInt64.toNat_inj.1 ?_)
          rw [h.minute, UInt64.toNat_div, UInt64.toNat_div]
          exact hnat
        have hv' := h.before v hv
        rw [UInt64.toNat_div]
        change _ < _ / 60
        omega

/-- Windows and counters that only go up keep what was counted. -/
theorem Within.mono {s' : State} (h : Within policy s events) (hsecond : s'.second = s.second)
    (hminute : s'.minute = s.minute) (hpackets : s.counts.packetTotal ≤ s'.counts.packetTotal)
    (hbytes : s.counts.byteTotal ≤ s'.counts.byteTotal)
    (hflows : 0 < policy.newFlows → s.newFlows.toNat ≤ s'.newFlows.toNat) :
    Within policy s' events := by
  refine ⟨?_, ?_, fun hlimit => ?_, fun hlimit => ?_, fun hlimit => ?_⟩
  · rw [hsecond]
    exact h.before
  · rw [hsecond, hminute, h.minute]
  · rw [hsecond]
    exact (h.packets hlimit).trans hpackets
  · rw [hsecond]
    exact (h.bytes hlimit).trans hbytes
  · rw [hminute]
    exact (h.newFlows hlimit).trans (hflows hlimit)

theorem Within.charge (h : Within policy s events) (out : Bool) (bytes : UInt64)
    (flow : Option Flow) : Within policy (s.charge policy out bytes flow).2 events := by
  obtain ⟨hsecond, hminute, hflows, hcounts⟩ := s.charge_windows flow policy out bytes
  refine h.mono hsecond hminute ?_ ?_ fun _ => by rw [hflows]
  · rw [hcounts]
    exact Counts.packetTotal_le_add _ _ _
  · rw [hcounts]
    exact Counts.byteTotal_le_add _ _ _

theorem State.track_windows (s : State) (key : Flow) (now : UInt64) (newFlow : Bool) :
    (s.track key now newFlow).second = s.second ∧ (s.track key now newFlow).minute = s.minute ∧
    (s.track key now newFlow).counts = s.counts ∧
    (s.track key now newFlow).newFlows = if newFlow then s.newFlows + 1 else s.newFlows := by
  unfold State.track
  cases newFlow <;> exact ⟨rfl, rfl, rfl, rfl⟩

/-- An operation on the state keeps what was counted. -/
theorem Within.step {s' : State} {cell : ℕ} {o : Op} (h : Within policy s events)
    (hstep : StateStep policy cell o s s')
    (htrack : ∀ key now, o = .track cell key now true → 0 < policy.newFlows →
      s.newFlows.toNat < policy.newFlows.toNat) : Within policy s' events := by
  cases hstep with
  | enter _ now flow => exact h.enter now flow
  | charge _ out bytes flow => exact h.charge out bytes flow
  | noteUntracked => exact ⟨h.before, h.minute, h.packets, h.bytes, h.newFlows⟩
  | track _ key now newFlow =>
      obtain ⟨hsecond, hminute, hcounts, hflows⟩ := s.track_windows key now newFlow
      refine h.mono hsecond hminute (by rw [hcounts]) (by rw [hcounts]) fun hlimit => ?_
      rw [hflows]
      cases newFlow with
      | false => exact Nat.le_refl _
      | true =>
          have hlt := htrack key now rfl hlimit
          have hlimit' := UInt64.toNat_lt policy.newFlows
          simp only [if_true, UInt64.toNat_add]
          change _ ≤ (_ + 1) % _
          omega
  | answer => exact h
  | retainFlows => exact ⟨h.before, h.minute, h.packets, h.bytes, h.newFlows⟩

/-- An event that was counted and does not exceed a limit. -/
theorem Within.counted (h : Within policy s events) {out : Bool} {bytes : UInt64}
    {flow : Option Flow} (hpackets : policy.packets.toNat < 2 ^ 64 - 1)
    (hbytes : policy.bytes.toNat < 2 ^ 64 - 1)
    (hwithin : (s.charge policy out bytes flow).1.2 = false) :
    Counted policy (s.charge policy out bytes flow).2 events bytes
      (s.charge policy out bytes flow).1.1 true := by
  obtain ⟨hsecond, hminute, hflows, hcounts⟩ := s.charge_windows flow policy out bytes
  obtain ⟨hpackets', hbytes', hflows'⟩ := s.within_of_charge flow policy out bytes hwithin
  refine ⟨fun hlimit => ?_, fun hlimit => ?_, fun hnew hlimit => ?_⟩
  · obtain ⟨htotal, hle⟩ := Counts.packetTotal_add out bytes hpackets (hpackets' hlimit)
    have hsofar := h.packets hlimit
    rw [hsecond, hcounts]
    omega
  · obtain ⟨htotal, hle⟩ := Counts.byteTotal_add out bytes hbytes (hbytes' hlimit)
    have hsofar := h.bytes hlimit
    rw [hsecond, hcounts]
    omega
  · have hlt := hflows' (State.isNewFlow_charge s flow policy out bytes ▸ hnew) hlimit
    have hsofar := h.newFlows hlimit
    rw [hminute, hflows, Bool.toNat_true]
    omega

theorem Counted.track {bytes : UInt64} {newFlow : Bool}
    (h : Counted policy s events bytes newFlow true)
    (key : Flow) (now : UInt64) :
    Counted policy (s.track key now newFlow) events bytes newFlow false := by
  obtain ⟨hsecond, hminute, hcounts, hflows⟩ := s.track_windows key now newFlow
  refine ⟨?_, ?_, fun hnew hlimit => ?_⟩
  · rw [hsecond, hcounts]
    exact h.packets
  · rw [hsecond, hcounts]
    exact h.bytes
  · have hsofar := h.newFlows hnew hlimit
    have hlimit' := UInt64.toNat_lt policy.newFlows
    rw [Bool.toNat_true] at hsofar
    have hadd : (s.newFlows + 1).toNat = s.newFlows.toNat + 1 := by
      rw [UInt64.toNat_add, Nat.mod_eq_of_lt]
      · rfl
      · change _ + 1 < _
        omega
    rw [hminute, hflows, hnew, if_pos rfl, hadd, Bool.toNat_false]
    exact hsofar

/-- An event without a new flow has nothing left to be counted. -/
theorem Counted.of_old {bytes : UInt64} {pending : Bool}
    (h : Counted policy s events bytes false pending)
    (pending' : Bool) : Counted policy s events bytes false pending' :=
  ⟨h.packets, h.bytes, nofun⟩

variable {v : Verdict}

/-- The account has counted the event that is admitted. -/
theorem Within.accept (h : Within policy s events) (heffective : v.effective = s.second)
    (hcounted : Counted policy s events v.bytes v.newFlow false) :
    Within policy s (v :: events) := by
  refine ⟨?_, h.minute, fun hlimit => ?_, fun hlimit => ?_, fun hlimit => ?_⟩
  · intro v' hv'
    rcases List.mem_cons.1 hv' with rfl | hv'
    · rw [heffective]
    · exact h.before v' hv'
  · rw [← heffective, inSecond_cons_self, heffective]
    exact (hcounted.packets hlimit).1
  · have hbytes := (hcounted.bytes hlimit).1
    rw [← heffective, inSecond_cons_self, heffective]
    simp only [bytesOf, List.map_cons, List.sum_cons] at hbytes ⊢
    omega
  · cases hnew : v.newFlow with
    | false =>
        rw [inMinute_cons_of_ne (Or.inl hnew)]
        exact h.newFlows hlimit
    | true =>
        have hflows := (hcounted.newFlows hnew hlimit).1
        rw [h.minute] at hflows ⊢
        rw [← heffective, inMinute_cons_self hnew]
        rw [← heffective] at hflows
        exact hflows

theorem LimitsHold.accept (h : LimitsHold policy events) (hwithin : Within policy s events)
    (heffective : v.effective = s.second)
    (hcounted : Counted policy s events v.bytes v.newFlow false) :
    LimitsHold policy (v :: events) := by
  refine ⟨fun second hlimit => ?_, fun second hlimit => ?_, fun minute hlimit => ?_⟩
  · by_cases hsecond : v.effective = second
    · subst hsecond
      have hle := hcounted.packets hlimit
      rw [inSecond_cons_self, List.length_cons, heffective]
      omega
    · rw [inSecond_cons_of_ne hsecond]
      exact h.packets second hlimit
  · by_cases hsecond : v.effective = second
    · subst hsecond
      have hle := hcounted.bytes hlimit
      rw [inSecond_cons_self, heffective]
      simp only [bytesOf, List.map_cons, List.sum_cons] at hle ⊢
      omega
    · rw [inSecond_cons_of_ne hsecond]
      exact h.bytes second hlimit
  · by_cases hminute : v.newFlow = true ∧ v.effective / 60 = minute
    · obtain ⟨hnew, rfl⟩ := hminute
      have hle := hcounted.newFlows hnew hlimit
      rw [inMinute_cons_self hnew, List.length_cons, heffective, ← hwithin.minute]
      rw [Bool.toNat_false] at hle
      omega
    · rw [inMinute_cons_of_ne]
      · exact h.newFlows minute hlimit
      · rw [not_and_or, Bool.not_eq_true] at hminute
        exact hminute

/-- A new account, for a user of whom nothing was admitted lately. -/
theorem within_new {now : UInt64} (h : ∀ v ∈ events, v.effective.toNat + 540 ≤ now.toNat) :
    Within policy (.new now) events := by
  have hsecond : inSecond now events = [] := inSecond_eq_nil fun v hv => by
    have hv' := h v hv
    omega
  have hminute : inMinute (now / 60) events = [] := by
    refine inMinute_eq_nil fun v hv => ?_
    have hv' := h v hv
    rw [UInt64.toNat_div]
    change _ < _ / 60
    omega
  refine ⟨fun v hv => ?_, rfl, fun _ => ?_, fun _ => ?_, fun _ => ?_⟩
  · exact (Nat.le_add_right _ _).trans (h v hv)
  · simp [State.new, hsecond]
  · simp [State.new, hsecond, bytesOf]
  · simp [State.new, hminute]

end Within

/-! ### The admitted events in the history -/

section Admissions

variable {t : Tid env} {o : Op} {r : o.Ret} {s s' : Budgets env} {user : String}
  {hist : List (budgetSystem env).Event}

theorem admissions_exec (ho : o.isAnswer = false) :
    admissions user (.exec t o r s s' :: hist) = admissions user hist := by
  refine List.filterMap_cons_none ?_
  unfold admission
  split
  · next heq =>
      cases heq
      cases ho
  · rfl

theorem Op.eq_answer (ho : o.isAnswer = true) : ∃ cell v, o = .answer cell v := by
  unfold Op.isAnswer at ho
  split at ho
  · exact ⟨_, _, rfl⟩
  · cases ho

theorem admissions_answer_self {cell : ℕ} {v : Verdict} {r : Unit} (hadmitted : v.admitted = true) :
    admissions v.user (.exec t (.answer cell v) r s s' :: hist) =
      v :: admissions v.user hist :=
  List.filterMap_cons_some (if_pos ⟨rfl, hadmitted⟩)

theorem admissions_answer_of_ne {cell : ℕ} {v : Verdict} {r : Unit}
    (hne : v.user ≠ user ∨ v.admitted = false) :
    admissions user (.exec t (.answer cell v) r s s' :: hist) =
      admissions user hist := by
  refine List.filterMap_cons_none (if_neg ?_)
  rintro ⟨huser, hadmitted⟩
  rcases hne with hne | hne
  · exact hne huser
  · rw [hadmitted] at hne
    cases hne

end Admissions

/-! ### Orderly runs -/

/-- The time is not more than a minute behind any maintenance pass that has begun. -/
def timely (w : BudgetWorld env) (now : UInt64) : Bool :=
  w.hist.all fun
    | .start (.maintain m) => m.toNat ≤ now.toNat + 60
    | _ => true

/-- The account that maintenance has found idle is still idle when its clones are counted. -/
def settled (w : BudgetWorld env) (cell : ℕ) : Bool :=
  match System.lastAct (M := budgetSystem env) .maintenance w.hist, w.st.heap.lookup cell with
  | some (.maintain m), some a => a.lastUsed.toNat + accountIdleSeconds.toNat ≤ m.toNat
  | _, _ => true

/-- Accounts are added by callers whose clocks are not behind, and maintenance overlooks no event.
-/
def orderly (w : BudgetWorld env) : (budgetSystem env).Event → Bool
  | .exec _ (.accountEntry _ now) _ _ _ => timely w now
  | .exec _ (.strongCount cell) _ _ _ => settled w cell
  | _ => true

theorem le_of_timely {w : BudgetWorld env} {now m : UInt64} (h : timely w now = true)
    (hm : .start (.maintain m) ∈ w.hist) : m.toNat ≤ now.toNat + 60 :=
  of_decide_eq_true (List.all_eq_true.1 h _ hm)

/-! ### The contract -/

structure LimitsInv (w : BudgetWorld env) : Prop where
  within : ∀ cell a, w.st.heap.lookup cell = some a →
    Within env.policy a.state (admissions a.user w.hist) ∧
    a.state.second.toNat ≤ a.lastUsed.toNat
  /-- An account was evicted long after the last event that it admitted. -/
  closed : ∀ user, w.st.accounts.lookup user = none → ∀ v ∈ admissions user w.hist,
    ∃ m, .start (.maintain m) ∈ w.hist ∧ v.effective.toNat + 600 ≤ m.toNat
  limits : ∀ user, LimitsHold env.policy (admissions user w.hist)

/-- When an operation is permitted: an event enters an account that has noted its time, a new flow
is counted and an event admitted where the limits allow it, and an account is evicted that was not
used for ten minutes. -/
def limitsPre (_ : Tid env) (o : Op) (w : BudgetWorld env) : Prop :=
  match o with
  | .enter cell now _ => ∀ a, w.st.heap.lookup cell = some a → now.toNat ≤ a.lastUsed.toNat
  | .track cell _ _ newFlow => newFlow = true → 0 < env.policy.newFlows →
      ∀ a, w.st.heap.lookup cell = some a → a.state.newFlows.toNat < env.policy.newFlows.toNat
  | .answer cell v => ∀ a, w.st.heap.lookup cell = some a → a.user = v.user ∧
      (v.admitted = true → v.effective = a.state.second ∧
        Counted env.policy a.state (admissions v.user w.hist) v.bytes v.newFlow false)
  | .retainErase user => ∃ m, .start (.maintain m) ∈ w.hist ∧
      ∀ cell a, w.st.accounts.lookup user = some cell → w.st.heap.lookup cell = some a →
        a.lastUsed.toNat + 600 ≤ m.toNat
  | _ => True

def limitsContract (env : Env) : Contract (budgetSystem env) where
  cond w e := orderly w e = true ∧
    (capacityContract env).cond w e ∧ CapacityInv w ∧ (capacityContract env).Allows w e
  inv := LimitsInv
  may := Tid.may
  pre := limitsPre
  post _ _ := True

theorem limitsContract_extends : (limitsContract env).Extends (capacityContract env) :=
  fun _ _ h => h.2

section Invariant

variable {t : Tid env} {w : BudgetWorld env} {st : Budgets env}

/-- Two threads do not answer events of one user at once. -/
theorem cell_eq_of_user (hfiled : Filed w.st) {cell cell' : ℕ} {a a' : Account env}
    (ha : w.st.heap.lookup cell = some a) (ha' : w.st.heap.lookup cell' = some a')
    (huser : a.user = a'.user) : cell = cell' := by
  have hcell := hfiled.filed cell a ha
  rw [huser, hfiled.filed cell' a' ha'] at hcell
  exact (Option.some.inj hcell).symm

theorem LimitsInv.closed_cons (hinv : LimitsInv w) {user : String} {v : Verdict}
    (hnone : w.st.accounts.lookup user = none) (hv : v ∈ admissions user w.hist)
    (e : (budgetSystem env).Event) :
    ∃ m, .start (.maintain m) ∈ e :: w.hist ∧ v.effective.toNat + 600 ≤ m.toNat := by
  obtain ⟨m, hm, hle⟩ := hinv.closed user hnone v hv
  exact ⟨m, List.mem_cons_of_mem _ hm, hle⟩

theorem exec_answer {cell : ℕ} {v : Verdict} {r : Unit}
    (hexec : exec env t (.answer cell v) w.st = some (r, st)) :
    ∃ a, w.st.heap.lookup cell = some a ∧ a.lock = some t ∧ st.accounts = w.st.accounts ∧
      ∀ cell', st.heap.lookup cell' = w.st.heap.lookup cell' := by
  obtain ⟨a, ha, hheld, -, rfl⟩ := onState_eq_some (t := t) hexec
  refine ⟨a, ha, hheld, rfl, fun cell' => ?_⟩
  rw [Budgets.lookup_put]
  split
  · next hcell => rw [hcell, ha]
  · rfl

theorem LimitsInv.answer (hinv : LimitsInv w) (hfiled : Filed w.st) {cell : ℕ} {v : Verdict}
    {r : Unit} (hpre : limitsPre t (.answer cell v) w)
    (hexec : exec env t (.answer cell v) w.st = some (r, st)) :
    LimitsInv (w.after t (.answer cell v) r st) := by
  obtain ⟨a, ha, -, haccounts, hheap⟩ := exec_answer hexec
  obtain ⟨huser, hcounted⟩ := hpre a ha
  have hsecond := (hinv.within cell a ha).2
  have hwithin := (hinv.within cell a ha).1
  rw [huser] at hwithin
  have hfiled' : w.st.accounts.lookup v.user = some cell := huser ▸ hfiled.filed cell a ha
  cases hadmitted : v.admitted with
  | false =>
      have hsame : ∀ user, admissions user (w.after t (.answer cell v) r st).hist =
          admissions user w.hist := fun user => admissions_answer_of_ne (Or.inr hadmitted)
      refine ⟨fun cell' a' ha' => ?_, fun user hnone => ?_, fun user => ?_⟩
      · rw [System.World.after_st, hheap] at ha'
        rw [hsame]
        exact hinv.within cell' a' ha'
      · rw [System.World.after_st, haccounts] at hnone
        rw [hsame]
        exact fun v' hv' => hinv.closed_cons hnone hv' _
      · rw [hsame]
        exact hinv.limits user
  | true =>
      obtain ⟨heffective, hcounted⟩ := hcounted hadmitted
      have hother : ∀ {user}, user ≠ v.user →
          admissions user (w.after t (.answer cell v) r st).hist = admissions user w.hist :=
        fun hne => admissions_answer_of_ne (Or.inl hne.symm)
      have hself : admissions v.user (w.after t (.answer cell v) r st).hist =
          v :: admissions v.user w.hist := admissions_answer_self hadmitted
      refine ⟨fun cell' a' ha' => ?_, fun user hnone => ?_, fun user => ?_⟩
      · rw [System.World.after_st, hheap] at ha'
        by_cases huser' : a'.user = v.user
        · have hcell := cell_eq_of_user hfiled ha' ha (huser'.trans huser.symm)
          rw [hcell, ha] at ha'
          cases ha'
          rw [huser, hself]
          exact ⟨hwithin.accept heffective hcounted, hsecond⟩
        · rw [hother huser']
          exact hinv.within cell' a' ha'
      · rw [System.World.after_st, haccounts] at hnone
        have hne : user ≠ v.user := by
          rintro rfl
          rw [hfiled'] at hnone
          cases hnone
        rw [hother hne]
        exact fun v' hv' => hinv.closed_cons hnone hv' _
      · by_cases huser' : user = v.user
        · subst huser'
          rw [hself]
          exact (hinv.limits v.user).accept hwithin heffective hcounted
        · rw [hother huser']
          exact hinv.limits user

theorem limitsInv_exec {o : Op} {r : o.Ret} (hinv : LimitsInv w) (hcapacity : CapacityInv w)
    (hpre : limitsPre t o w) (horderly : orderly w (.exec t o r w.st st) = true)
    (hexec : exec env t o w.st = some (r, st)) : LimitsInv (w.after t o r st) := by
  by_cases hanswer : o.isAnswer = true
  · obtain ⟨cell, v, rfl⟩ := Op.eq_answer hanswer
    exact hinv.answer hcapacity.filed hpre hexec
  have hsame : ∀ user, admissions user (w.after t o r st).hist = admissions user w.hist :=
    fun user => admissions_exec (Bool.eq_false_iff.2 hanswer)
  refine ⟨fun cell b hb => ?_, fun user hnone => ?_, fun user => ?_⟩
  · rw [hsame]
    have hstep := cellStep hexec cell
    rw [System.World.after_st] at hb
    rw [hb] at hstep
    generalize hx : w.st.heap.lookup cell = x at hstep
    cases hstep with
    | same => exact hinv.within cell b hx
    | create _ user now ho hcell hnone =>
        subst ho
        refine ⟨within_new fun v hv => ?_, Nat.le_refl _⟩
        obtain ⟨m, hm, hle⟩ := hinv.closed user hnone v hv
        have hnow := le_of_timely horderly hm
        omega
    | clone a | dropClone a | lock a | unlock a => exact hinv.within cell a hx
    | touch a now =>
        refine ⟨(hinv.within cell a hx).1, (hinv.within cell a hx).2.trans ?_⟩
        rw [Word64.toNat_max]
        exact Nat.le_max_left _ _
    | update a state hheld hstate =>
        obtain ⟨hwithin, hsecond⟩ := hinv.within cell a hx
        refine ⟨hwithin.step hstate fun key now ho hlimit => ?_, ?_⟩
        · subst ho
          exact hpre rfl hlimit a hx
        · cases hstate with
          | enter _ now flow =>
              have hnow := hpre a hx
              rw [(a.state.enter_windows now flow).2.1, Word64.toNat_max]
              exact Nat.max_le.2 ⟨hnow, hsecond⟩
          | charge _ out bytes flow => rwa [(a.state.charge_windows flow env.policy out bytes).1]
          | track _ key now newFlow => rwa [(a.state.track_windows key now newFlow).1]
          | noteUntracked | answer | retainFlows => exact hsecond
  · rw [hsame]
    intro v hv
    rw [System.World.after_st] at hnone
    rcases exec_accounts hexec with ⟨user', now, rfl, -, -, hs, -⟩ | ⟨user', rfl, hs, -⟩ | ⟨hs, -⟩
    · rw [hs, Table.lookup_insert_eq] at hnone
      split at hnone
      · cases hnone
      · exact hinv.closed_cons hnone hv _
    · rw [hs, Table.lookup_erase_eq] at hnone
      split at hnone
      · next huser =>
          subst huser
          cases hlookup : w.st.accounts.lookup user with
          | none => exact hinv.closed_cons hlookup hv _
          | some cell =>
              obtain ⟨m, hm, hidle⟩ := hpre
              obtain ⟨a, ha, rfl⟩ := hcapacity.filed.live user cell hlookup
              obtain ⟨hwithin, hsecond⟩ := hinv.within cell a ha
              have hle := hwithin.before v hv
              have hold := hidle cell a hlookup ha
              exact ⟨m, List.mem_cons_of_mem _ hm, by omega⟩
      · exact hinv.closed_cons hnone hv _
    · rw [hs] at hnone
      exact hinv.closed_cons hnone hv _
  · rw [hsame]
    exact hinv.limits user

end Invariant

/-! ### The programs of the callers -/

/-- The thread has a clone of the account of the user, which was used at `n` or later. -/
def Holding (t : Tid env) (cell : ℕ) (user : String) (n : ℕ) (w : BudgetWorld env) : Prop :=
  ∃ a, w.st.heap.lookup cell = some a ∧ t ∈ a.clones ∧ a.user = user ∧ n ≤ a.lastUsed.toNat

/-- Moreover, the thread has locked the account, and `φ` holds for its state and the admitted events
of the user. -/
def Locked (t : Tid env) (cell : ℕ) (user : String) (n : ℕ) (φ : State → List Verdict → Prop)
    (w : BudgetWorld env) : Prop :=
  ∃ a, w.st.heap.lookup cell = some a ∧ t ∈ a.clones ∧ a.user = user ∧ n ≤ a.lastUsed.toNat ∧
    a.lock = some t ∧ φ a.state (admissions user w.hist)

/-- The operations that are always permitted. -/
def Op.plain : Op → Prop
  | .enter .. | .track .. | .answer .. | .retainErase _ => False
  | _ => True

section Callers

variable {t : Tid env} {w : BudgetWorld env} {o : Op} {cell n : ℕ} {user : String}
  {φ ψ : State → List Verdict → Prop}

theorem wp_plain {α : Type} {p : BudgetProg α} (hp : p.Uses Op.plain) :
    (limitsContract env).wp t p (fun _ _ => True) w :=
  Contract.wp_of_permitted (hp.mono fun o ho _ _ => by cases o <;> trivial)

theorem Holding.exec {u : Tid env} {r : o.Ret} {st : Budgets env} (h : Holding t cell user n w)
    (hfiled : Filed w.st) (hdrop : u = t → o ≠ .dropClone cell)
    (hexec : exec env u o w.st = some (r, st)) : Holding t cell user n (w.after u o r st) := by
  obtain ⟨a, ha, hmem, huser, hle⟩ := h
  obtain ⟨a', ha', hmem', huser', hle', -⟩ := hfiled.kept_exec hexec hdrop ha (Or.inl hmem)
  exact ⟨a', ha', hmem' hmem, huser'.trans huser, hle.trans hle'⟩

theorem stable_holding : (limitsContract env).Stable t (Holding t cell user n) :=
  limitsContract_extends.stable (.of_exec (fun _ _ h => h) fun _ _ _ _ _ hne hinv _ _ hexec _ hw =>
    hw.exec hinv.filed (fun heq => absurd heq hne) hexec)

theorem stable_locked : (limitsContract env).Stable t (Locked t cell user n φ) := by
  refine .of_exec (fun _ _ h => h) fun w u o r st hne _ _ hpre hexec hcond hw => ?_
  have hfiled := hcond.2.2.1.filed
  obtain ⟨a, ha, hmem, huser, hle, hlock, hφ⟩ := hw
  obtain ⟨a', ha', hmem', huser', hle', hlocked⟩ :=
    hfiled.kept_exec hexec (fun heq => absurd heq hne) ha (Or.inl hmem)
  obtain ⟨hlock', hstate⟩ := hlocked hne hlock
  -- an event of the user is answered by the thread that has locked the account
  have hsame : admissions user (w.after u o r st).hist = admissions user w.hist := by
    by_cases hanswer : o.isAnswer = true
    · obtain ⟨cell', v, rfl⟩ := Op.eq_answer hanswer
      obtain ⟨b, hb, hheld, -⟩ := exec_answer (t := u) hexec
      refine admissions_answer_of_ne (Or.inl fun heq => hne ?_)
      have hcell := cell_eq_of_user hfiled ha hb
        (huser.trans (heq.symm.trans (hpre b hb).1.symm))
      rw [← hcell, ha] at hb
      cases hb
      exact Option.some.inj (hheld.symm.trans hlock)
    · exact admissions_exec (Bool.eq_false_iff.2 hanswer)
  refine ⟨a', ha', hmem' hmem, huser'.trans huser, hle.trans hle', hlock', ?_⟩
  rw [hstate, hsame]
  exact hφ

theorem Locked.imp (h : Locked t cell user n φ w) (himp : ∀ s events, φ s events → ψ s events) :
    Locked t cell user n ψ w := by
  obtain ⟨a, ha, hmem, huser, hle, hlock, hφ⟩ := h
  exact ⟨a, ha, hmem, huser, hle, hlock, himp _ _ hφ⟩

theorem Locked.holds (h : Locked t cell user n φ w) {a : Account env}
    (ha : w.st.heap.lookup cell = some a) :
    a.user = user ∧ n ≤ a.lastUsed.toNat ∧ φ a.state (admissions user w.hist) := by
  obtain ⟨a', ha', -, huser, hle, -, hφ⟩ := h
  rw [ha] at ha'
  cases ha'
  exact ⟨huser, hle, hφ⟩

theorem Locked.wp_state {α : Type} {k : o.Ret → BudgetProg α}
    {Q : α → BudgetWorld env → Prop} (f : State → o.Ret × State)
    (ψ : o.Ret → State → List Verdict → Prop) (hw : Locked t cell user n φ w)
    (ho : o.isAnswer = false)
    (hpre : ∀ w, Locked t cell user n φ w → limitsPre t o w)
    (heq : ∀ s, exec env t o s = onState s t cell f)
    (hψ : ∀ s events, Within env.policy s events → φ s events → ψ (f s).1 (f s).2 events)
    (hnext : ∀ w r, Locked t cell user n (ψ r) w → (limitsContract env).wp t (k r) Q w) :
    (limitsContract env).wp t (perform o >>= k) Q w := by
  refine wp_perform _ stable_locked hw (fun w' _ h' => hpre w' h')
    fun w' r st hinv h' hexec _ => hnext _ r ?_
  obtain ⟨a, ha, hmem, huser, hle, hlock, hφ⟩ := h'
  obtain ⟨a', ha', -, hr, rfl⟩ := onState_eq_some ((heq _).symm.trans hexec)
  rw [ha] at ha'
  cases ha'
  refine ⟨_, (Budgets.lookup_put _ _ _ _).trans (if_pos rfl), hmem, huser, hle, hlock, ?_⟩
  rw [System.World.after_hist, admissions_exec ho, hr]
  exact hψ _ _ (huser ▸ (hinv.within cell a ha).1) hφ

theorem Locked.wp_other {α : Type} {k : o.Ret → BudgetProg α}
    {Q : α → BudgetWorld env → Prop} (hw : Locked t cell user n φ w)
    (ho : o.isAnswer = false) (hpre : ∀ w, limitsPre t o w)
    (hheap : ∀ {s r s'}, exec env t o s = some (r, s') → s'.heap = s.heap)
    (hnext : ∀ w r, Locked t cell user n φ w → (limitsContract env).wp t (k r) Q w) :
    (limitsContract env).wp t (perform o >>= k) Q w := by
  refine wp_perform _ stable_locked hw (fun w' _ _ => hpre w')
    fun w' r st _ h' hexec _ => hnext _ r ?_
  obtain ⟨a, ha, hmem, huser, hle, hlock, hφ⟩ := h'
  refine ⟨a, by rw [System.World.after_st, hheap hexec, ha], hmem, huser, hle, hlock, ?_⟩
  rw [System.World.after_hist, admissions_exec ho]
  exact hφ

theorem slotsReserve_heap {s s' : Budgets env} {r : Bool}
    (h : exec env t .slotsReserve s = some (r, s')) : s'.heap = s.heap := by
  simp only [exec] at h
  split at h <;> cases h <;> rfl

section Enforcing

variable (henforce : env.policy.enforce = true) {call : EventCall} {now : UInt64} {bytes : UInt64}

/-- What is known when an event is answered: if it is admitted, it was counted. -/
def Decided (env : Env) (now bytes : UInt64) (newFlow admitted : Bool) (s : State)
    (events : List Verdict) : Prop :=
  admitted = true → now = s.second ∧ Counted env.policy s events bytes newFlow false

include henforce in
theorem trackFlow_limits_wp {key : Flow} {newFlow : Bool}
    (hw : Locked t cell user n (fun s events => now = s.second ∧
      Counted env.policy s events bytes newFlow true) w) :
    (limitsContract env).wp t (trackFlow env cell key now newFlow)
      (fun admitted => Locked t cell user n (Decided env now bytes newFlow admitted)) w := by
  have htrack : ∀ w', Locked t cell user n (fun s events => now = s.second ∧
        Counted env.policy s events bytes newFlow true) w' →
      (limitsContract env).wp t (perform (.track cell key now newFlow) >>= fun _ => pure true)
        (fun admitted => Locked t cell user n (Decided env now bytes newFlow admitted)) w' := by
    intro w' hw'
    refine hw'.wp_state (o := .track cell key now newFlow)
      (fun state => ((), state.track key now newFlow))
      (fun _ => Decided env now bytes newFlow true) rfl (fun w₂ h₂ hnew hlimit a ha => ?_)
      (fun _ => rfl) (fun s events _ h _ => ?_) fun _ _ h => h
    · have hflows := ((h₂.holds ha).2.2.2.newFlows hnew hlimit).2
      rw [Bool.toNat_true] at hflows
      omega
    · exact ⟨h.1.trans (s.track_windows key now newFlow).1.symm, h.2.track key now⟩
  unfold trackFlow
  split
  · refine hw.wp_other (o := .slotsReserve) rfl (fun _ => trivial) slotsReserve_heap
      fun w' r h' => ?_
    cases r with
    | true => exact htrack _ h'
    | false =>
        refine h'.wp_state (o := .noteUntracked cell)
          (fun state => ((), state.noteUntracked env.policy)) (fun _ _ _ => True) rfl
          (fun _ _ => trivial) (fun _ => rfl) (fun _ _ _ _ => trivial) fun w₂ _ h₂ => ?_
        rw [henforce]
        exact h₂.imp fun _ _ _ hadmitted => absurd hadmitted (by simp)
  · exact htrack _ hw

include henforce in
theorem decideEvent_limits_wp {flow : Option Flow} {newFlow exceeded : Bool}
    (hw : Locked t cell user n (fun s events => now = s.second ∧
      (exceeded = false → Counted env.policy s events bytes newFlow true) ∧
      (newFlow = true → flow.isSome = true)) w) :
    (limitsContract env).wp t (decideEvent env cell flow now newFlow exceeded)
      (fun admitted => Locked t cell user n (Decided env now bytes newFlow admitted)) w := by
  unfold decideEvent
  split
  · exact hw.imp fun _ _ _ hadmitted => absurd hadmitted (by simp)
  · next hpass =>
      have hexceeded : exceeded = false := by
        cases exceeded with
        | false => rfl
        | true => exact absurd henforce hpass
      cases flow with
      | none =>
          refine hw.imp fun s events h _ => ⟨h.1, ?_⟩
          cases newFlow with
          | false => exact (h.2.1 hexceeded).of_old false
          | true => exact absurd (h.2.2 rfl) (by simp)
      | some key =>
          exact trackFlow_limits_wp henforce (hw.imp fun s events h => ⟨h.1, h.2.1 hexceeded⟩)

variable (hpackets : env.policy.packets.toNat < 2 ^ 64 - 1)
  (hbytes : env.policy.bytes.toNat < 2 ^ 64 - 1)

include henforce hpackets hbytes in
theorem lockedSection_limits_wp (hw : Holding t cell call.user call.now.toNat w) :
    (limitsContract env).wp t (lockedSection env call cell) (fun _ _ => True) w := by
  -- the event is charged, decided about and answered
  have hcharge : ∀ (now : UInt64) w',
      Locked t cell call.user call.now.toNat (fun s _ => now = s.second) w' →
      (limitsContract env).wp t (do
        let (newFlow, exceeded) ← perform (.charge cell call.out call.bytes call.flow)
        let admitted ← decideEvent env cell call.flow now newFlow exceeded
        perform (.answer cell ⟨call.user, call.bytes, now, newFlow, admitted⟩)
        perform (.stateUnlock cell)) (fun _ _ => True) w' := by
    intro now w' hw'
    refine hw'.wp_state (o := .charge cell call.out call.bytes call.flow)
      (fun state => state.charge env.policy call.out call.bytes call.flow)
      (fun r s events => now = s.second ∧
        (r.2 = false → Counted env.policy s events call.bytes r.1 true) ∧
        (r.1 = true → call.flow.isSome = true)) rfl (fun _ _ => trivial) (fun _ => rfl)
      (fun s events hwithin hnow => ?_) fun w₂ r h₂ => ?_
    · refine ⟨hnow.trans (s.charge_windows call.flow env.policy call.out call.bytes).1.symm,
        hwithin.counted hpackets hbytes, fun hnew => ?_⟩
      rw [State.isNewFlow_charge, State.isNewFlow, Option.any_eq_true] at hnew
      obtain ⟨key, hkey, -⟩ := hnew
      rw [hkey]
      rfl
    · refine Contract.wp_seq (decideEvent_limits_wp henforce h₂) fun admitted w₃ h₃ => ?_
      refine wp_perform _ stable_locked h₃ (fun w₄ _ h₄ a ha => ?_)
        fun _ _ _ _ _ _ _ => wp_plain ⟨trivial, fun _ => trivial⟩
      obtain ⟨huser, -, hdecided⟩ := h₄.holds ha
      exact ⟨huser, hdecided⟩
  unfold lockedSection
  refine wp_perform _ stable_holding hw (fun _ _ _ => trivial) fun w₁ r₁ st₁ _ h₁ hexec₁ _ => ?_
  have hlocked : Locked t cell call.user call.now.toNat (fun _ _ => True)
      (w₁.after t (.stateLock cell) r₁ st₁) := by
    obtain ⟨a, ha, hmem, huser, hle⟩ := h₁
    obtain ⟨a', ha', -, rfl⟩ := exec_stateLock hexec₁
    rw [ha] at ha'
    cases ha'
    exact ⟨_, (Budgets.lookup_put _ _ _ _).trans (if_pos rfl), hmem, huser, hle, rfl, trivial⟩
  refine hlocked.wp_state (o := .enter cell call.now call.flow)
    (fun state => state.enter call.now call.flow) (fun r s _ => r.1 = s.second) rfl
    (fun w₂ h₂ a ha => (h₂.holds ha).2.1) (fun _ => rfl) (fun s _ _ _ => ?_) fun w₂ r₂ h₂ => ?_
  · obtain ⟨heffective, hsecond, -⟩ := s.enter_windows call.now call.flow
    exact heffective.trans hsecond.symm
  · obtain ⟨now, expired⟩ := r₂
    cases expired with
    | false => exact hcharge now _ h₂
    | true =>
        exact h₂.wp_other (o := .slotsSub 1) rfl (fun _ => trivial)
          (fun h => by cases h; rfl) fun w₃ _ h₃ => hcharge now _ h₃

/-- The account that is found or added is that of the user. -/
theorem account_limits_wp (user : String) (now : UInt64) (stale : ℕ) :
    (limitsContract env).wp t (account env user now stale)
      (fun found w => ∀ cell, found = some cell → Holding t cell user 0 w) w := by
  have hplain {α : Type} {o : Op} {k : o.Ret → BudgetProg α} {Q : α → BudgetWorld env → Prop}
      {w : BudgetWorld env} (hpre : ∀ w, limitsPre t o w)
      (hnext : ∀ (w' : BudgetWorld env) r st, CapacityInv w' →
        exec env t o w'.st = some (r, st) →
        (limitsContract env).wp t (k r) Q (w'.after t o r st)) :
      (limitsContract env).wp t (perform o >>= k) Q w :=
    wp_perform (fun _ => True) .true trivial (fun w _ _ => hpre w)
      fun w' r st _ _ hexec hcond => hnext w' r st hcond.2.2.1 hexec
  have hfound {w' : BudgetWorld env} {r : Option ℕ} {st : Budgets env} {cell : ℕ}
      (hinv : CapacityInv w') (hexec : exec env t (.accountGet user) w'.st =
        some (r, st)) (hr : r = some cell) :
      Holding t cell user 0 (w'.after t (.accountGet user) r st) := by
    obtain ⟨-, ⟨-, hnone, -⟩ | ⟨c, a, hmap, ha, hc, rfl⟩⟩ := exec_accountGet hexec
    · rw [hnone] at hr
      cases hr
    · rw [hc] at hr
      cases hr
      have huser := hinv.filed.user_eq hmap ha
      exact ⟨_, (Budgets.lookup_put _ _ _ _).trans (if_pos rfl), List.mem_cons_self, huser,
        Nat.zero_le _⟩
  have hunlock {cell : ℕ} {w' : BudgetWorld env} (h' : Holding t cell user 0 w') :
      (limitsContract env).wp t (perform .admissionUnlock >>= fun _ => pure (some cell))
        (fun found w => ∀ cell, found = some cell → Holding t cell user 0 w) w' := by
    refine wp_perform _ stable_holding h' (fun _ _ _ => trivial)
      fun w₂ r st _ h₂ hexec hcond c hc => ?_
    cases hc
    exact h₂.exec hcond.2.2.1.filed (by simp) hexec
  unfold account
  refine hplain (fun _ => trivial) fun w₁ r₁ st₁ hinv₁ hexec₁ => ?_
  cases r₁ with
  | some cell => exact fun c hc => hfound hinv₁ hexec₁ hc
  | none =>
      refine hplain (fun _ => trivial) fun _ _ _ _ _ => ?_
      refine hplain (fun _ => trivial) fun w₃ r₃ st₃ hinv₃ hexec₃ => ?_
      cases r₃ with
      | some cell => exact hunlock (hfound hinv₃ hexec₃ rfl)
      | none =>
          refine hplain (fun _ => trivial) fun _ _ _ _ _ => ?_
          split
          · exact hplain (fun _ => trivial) fun _ _ _ _ _ cell hcell => absurd hcell (by simp)
          · refine hplain (fun _ => trivial) fun w₄ cell st₄ hinv₄ hexec₄ => hunlock ?_
            obtain ⟨-, ⟨a, hmap, ha, rfl⟩ | ⟨-, rfl, rfl⟩⟩ := exec_accountEntry hexec₄
            · have huser := hinv₄.filed.user_eq hmap ha
              exact ⟨_, (Budgets.lookup_put _ _ _ _).trans (if_pos rfl), List.mem_cons_self, huser,
                Nat.zero_le _⟩
            · exact ⟨_, (Budgets.lookup_put _ _ _ _).trans (if_pos rfl), List.mem_cons_self, rfl,
                Nat.zero_le _⟩

include henforce hpackets hbytes in
theorem event_limits_wp :
    (limitsContract env).wp t (event env call) (fun _ _ => True) w := by
  unfold event
  refine Contract.wp_seq (account_limits_wp _ _ _) fun found w₁ h₁ => ?_
  cases found with
  | none => exact wp_plain (by simp [Op.plain])
  | some cell =>
      refine wp_perform _ stable_holding (h₁ cell rfl) (fun _ _ _ => trivial)
        fun w₂ r₂ st₂ _ h₂ hexec₂ _ => ?_
      -- the account has noted the time of the event
      have htouched : Holding t cell call.user call.now.toNat
          (w₂.after t (.lastUsedMax cell call.now) r₂ st₂) := by
        obtain ⟨a, ha, hmem, huser, -⟩ := h₂
        obtain ⟨a', ha', rfl⟩ := exec_lastUsedMax hexec₂
        rw [ha] at ha'
        cases ha'
        refine ⟨_, (Budgets.lookup_put _ _ _ _).trans (if_pos rfl), hmem, huser, ?_⟩
        rw [Word64.toNat_max]
        exact Nat.le_max_right _ _
      refine Contract.wp_seq
        (lockedSection_limits_wp henforce hpackets hbytes htouched) fun _ _ _ => wp_plain ?_
      exact uses_perform_bind trivial fun freed => giveBack_uses (fun _ => trivial) freed

end Enforcing

end Callers

/-! ### The programs of maintenance -/

section Maintenance

variable {w : BudgetWorld env} {i : ℕ} {e : String × ℕ} {l : List (String × ℕ)} {now : UInt64}

/-- The account was not used for ten minutes. -/
def Idle (cell : ℕ) (now : UInt64) (w : BudgetWorld env) : Prop :=
  ∀ a, w.st.heap.lookup cell = some a → a.lastUsed.toNat + 600 ≤ now.toNat

/-- An account that no event has a clone of is not used. -/
theorem stable_idle : (limitsContract env).Stable .maintenance fun w =>
    (Sweeping i (e :: l) w ∧ Unused e.2 w) ∧ Idle e.2 now w := by
  intro w w' hstep hw
  refine ⟨limitsContract_extends.stable stable_unused w w' hstep hw.1, ?_⟩
  cases hstep with
  | start a => exact hw.2
  | exec u o r st hne _ _ _ hexec hcond =>
      obtain ⟨-, -, hcapacity, -, hpre⟩ := hcond
      obtain ⟨⟨hsweep, hunused⟩, hidle⟩ := hw
      obtain ⟨a, ha, -⟩ := hcapacity.filed.live _ _ (hsweep.mapped e List.mem_cons_self).1
      have hfresh := hcapacity.filed.fresh e.2
      have hle := hidle a ha
      intro b hb
      have hstep := cellStep hexec e.2
      rw [System.World.after_st] at hb
      rw [ha] at hstep hfresh
      rw [hb] at hstep
      cases hstep with
      | create _ user now ho hcell => cases hfresh (Nat.le_of_eq hcell.symm)
      | touch _ now ho =>
          subst ho
          obtain ⟨a', ha', hmem⟩ := hpre
          rw [hunused a' ha'] at hmem
          cases hmem
      | same | clone | dropClone | lock | unlock | update => exact hle

/-- Maintenance is in the pass at time `now`. -/
def InPass (now : UInt64) (w : BudgetWorld env) : Prop :=
  System.lastAct (M := budgetSystem env) .maintenance w.hist = some (.maintain now) ∧
    .start (.maintain now) ∈ w.hist

theorem stable_inPass : (limitsContract env).Stable .maintenance (InPass now) := by
  exact Contract.Stable.and (Contract.Stable.lastAct (C := limitsContract env)
    fun act => act = some (.maintain now)) (.of_hist fun _ _ => List.mem_cons_of_mem _)

theorem InPass.after {o : Op} {r : o.Ret} {st : Budgets env} (h : InPass now w) :
    InPass now (w.after .maintenance o r st) :=
  ⟨(System.lastAct_exec (M := budgetSystem env)).trans h.1, List.mem_cons_of_mem _ h.2⟩

theorem evictIdle_limits_wp (hw : InPass now w ∧ Sweeping i (e :: l) w) :
    (limitsContract env).wp .maintenance (evictIdle now e)
      (fun _ w => InPass now w ∧ Sweeping i l w) w := by
  have hsweeping : ∀ {l}, (limitsContract env).Stable .maintenance fun w =>
      InPass now w ∧ Sweeping i l w :=
    stable_inPass.and (limitsContract_extends.stable stable_sweeping)
  unfold evictIdle
  refine wp_perform _ hsweeping hw (fun _ _ _ => trivial) fun w₁ lastUsed st₁ _ h₁ hexec₁ _ => ?_
  obtain ⟨rfl, -⟩ := exec_lastUsedLoad hexec₁
  have hsweep₁ := h₁.2.of_eq (t := .maintenance) (o := .lastUsedLoad e.2) (r := lastUsed) rfl rfl
  split
  · exact ⟨h₁.1.after, hsweep₁.tail⟩
  refine wp_perform _ hsweeping ⟨h₁.1.after, hsweep₁⟩ (fun _ _ _ => trivial)
    fun w₂ n st₂ _ h₂ hexec₂ hcond₂ => ?_
  obtain ⟨hsettled, -, hcapacity, -⟩ := hcond₂
  obtain ⟨rfl, a, ha, hn⟩ := exec_strongCount hexec₂
  have hsweep₂ := h₂.2.of_eq (t := .maintenance) (o := .strongCount e.2) (r := n) rfl rfl
  split
  · exact ⟨h₂.1.after, hsweep₂.tail⟩
  · next hsingle =>
      have hunused : Unused e.2 w₂ := by
        refine unused_of_strongCount hcapacity fun b hb => ?_
        rw [ha] at hb
        cases hb
        exact hn ▸ Nat.le_of_not_lt hsingle
      have hidle : Idle e.2 now w₂ := by
        intro b hb
        simp only [orderly, settled, h₂.1.1, hb, decide_eq_true_eq] at hsettled
        exact hsettled
      refine wp_perform _ (stable_inPass.and stable_idle)
        ⟨h₂.1.after, ⟨hsweep₂, hunused⟩, hidle⟩
        (fun w₃ _ h₃ => ⟨now, h₃.1.2, fun cell b hmap hb => h₃.2.2 b ?_⟩)
        fun w₃ r₃ st₃ _ h₃ hexec₃ _ => ?_
      · rw [(h₃.2.1.1.mapped e List.mem_cons_self).1] at hmap
        cases hmap
        exact hb
      · have hafter : InPass now (w₃.after .maintenance (.retainErase e.1) r₃ st₃) ∧
            Sweeping i l (w₃.after .maintenance (.retainErase e.1) r₃ st₃) :=
          ⟨h₃.1.after, h₃.2.1.1.retainErase hexec₃⟩
        cases r₃ with
        | none => exact hafter
        | some m =>
            refine wp_perform _ hsweeping hafter (fun _ _ _ => trivial)
              fun w₄ _ st₄ _ h₄ hexec₄ _ => ?_
            cases hexec₄
            exact ⟨h₄.1.after, h₄.2.of_eq rfl rfl⟩

theorem evictShard_limits_wp (hw : InPass now w) :
    (limitsContract env).wp .maintenance (evictShard now i) (fun _ => InPass now) w := by
  unfold evictShard
  refine wp_perform _ stable_inPass hw (fun _ _ _ => trivial)
    fun w₁ entries st₁ _ h₁ hexec₁ _ => ?_
  refine Contract.wp_seq (Contract.wp_forM
    (fun l w => InPass now w ∧ Sweeping i l w) (fun e l w h => evictIdle_limits_wp h)
    ⟨h₁.after, sweeping_retainLock hexec₁⟩) fun _ w₂ h₂ => ?_
  exact wp_perform _ stable_inPass h₂.1 (fun _ _ _ => trivial) fun _ _ _ _ h _ _ => h.after

theorem maintain_limits_wp (hw : InPass now w) :
    (limitsContract env).wp .maintenance (maintain env now) (fun _ _ => True) w := by
  unfold maintain
  refine Contract.wp_seq (Contract.wp_forM (fun _ => InPass now)
    (fun i l w h => evictShard_limits_wp h) hw) fun _ _ _ => wp_plain ?_
  exact (Prog.uses_forM fun i _ => pruneShard_uses now i).mono fun o ho => by cases o <;> trivial

end Maintenance

/-! ### Along a run -/

theorem limitsContract_sound (henforce : env.policy.enforce = true)
    (hpackets : env.policy.packets.toNat < 2 ^ 64 - 1)
    (hbytes : env.policy.bytes.toNat < 2 ^ 64 - 1) : (limitsContract env).Sound where
  start_inv w a hinv _ _ :=
    ⟨hinv.within, fun _ hnone _ hv => hinv.closed_cons hnone hv _, hinv.limits⟩
  exec_inv w t o r st hinv _ hpre hexec hcond := limitsInv_exec hinv hcond.2.2.1 hpre hcond.1 hexec
  post_stable t := .true
  prog_may := prog_uses
  prog_wp w a _ _ _ := by
    cases a with
    | event i call => exact event_limits_wp henforce hpackets hbytes
    | maintain now =>
        exact maintain_limits_wp ⟨System.lastAct_start_self (M := budgetSystem env)
          (a := .maintain now), List.mem_cons_self⟩

/-- The budgets are enforced, if an account that maintenance finds idle is still idle when its
clones are counted, and no account is added by a caller whose clock is more than a minute behind a
maintenance pass.  Among the admitted events of a user with the same effective time there are not
more packets and bytes than the limits say, and among those of a minute not more new flows; and a
user never has two accounts. -/
theorem budgets_enforced (henforce : env.policy.enforce = true)
    (hpackets : env.policy.packets.toNat < 2 ^ 64 - 1)
    (hbytes : env.policy.bytes.toNat < 2 ^ 64 - 1) {c : (budgetSystem env).Config}
    (hrun : (budgetSystem env).Run (fun w e => orderly w e = true)
      ((budgetSystem env).initial .new) c) :
    (∀ user, LimitsHold env.policy (admissions user c.hist)) ∧
    ∀ cell cell' a a', c.st.heap.lookup cell = some a → c.st.heap.lookup cell' = some a' →
      a.user = a'.user → cell = cell' := by
  have hallowed := (capacityContract_sound env).run_allowed (fun _ _ _ => trivial) hrun
    good_new
  have hgood := (limitsContract_sound henforce hpackets hbytes).run hallowed
    (Contract.Sound.good_initial ?_ fun _ => trivial)
  · refine ⟨hgood.1.limits, fun cell cell' a a' ha ha' huser => ?_⟩
    have hcapacity := (capacityContract_sound env).run hrun.steps good_new
    exact cell_eq_of_user (w := c.toWorld) hcapacity.1.filed ha ha' huser
  · refine ⟨fun cell a ha => (nomatch ha), fun user _ v hv => (nomatch hv), fun user => ?_⟩
    exact ⟨fun _ _ => Nat.zero_le _, fun _ _ => Nat.zero_le _, fun _ _ => Nat.zero_le _⟩

/-- The first event of a second is admitted and the second one is not; the account is evicted, and
then the user gets a new one. -/
theorem budgets_enforced_sample :
    ∃ c : (budgetSystem sampleEnv).Config,
      (budgetSystem sampleEnv).Run (fun w e => orderly w e = true)
        ((budgetSystem sampleEnv).initial .new) c ∧
      (admissions "a" c.hist).map (·.effective) = [600, 0] ∧
      LimitsHold sampleEnv.policy (admissions "a" c.hist) := by
  have hreplay : ((System.Config.replay orderly
      [.start (.event firstCaller (sampleCall "a" 0 53)), .fire (.caller firstCaller) 20,
        .start (.event secondCaller (sampleCall "a" 0 53)), .fire (.caller secondCaller) 20,
        .start (.maintain 600), .fire .maintenance 20,
        .start (.event firstCaller (sampleCall "a" 600 53)), .fire (.caller firstCaller) 20]
      ((budgetSystem sampleEnv).initial .new)).map fun c =>
        (admissions "a" c.hist).map (·.effective)) = some [600, 0] := by
    decide +kernel
  obtain ⟨c, hc, hadmitted⟩ := Option.map_eq_some_iff.1 hreplay
  have hrun := System.Config.run_of_replay hc
  exact ⟨c, hrun, hadmitted,
    (budgets_enforced rfl (by decide +kernel) (by decide +kernel) hrun).1 "a"⟩

/-- The time that a caller read from its clock. -/
def stamp : (budgetSystem env).Event → Option UInt64
  | .start (.event _ call) => some call.now
  | .exec _ (.accountEntry _ now) _ _ _ => some now
  | .exec _ (.lastUsedMax _ now) _ _ _ => some now
  | .exec _ (.enter _ now _) _ _ _ => some now
  | _ => none

/-- An event looks its account up, and maintenance finds that the account was not used for ten
minutes.  The event is admitted and drops its clone; then maintenance finds no clone, and evicts the
account.  The next event in the same second gets a new account, which admits it too. -/
theorem budget_exceeded_by_eviction :
    ∃ c : (budgetSystem sampleEnv).Config,
      (budgetSystem sampleEnv).Run (fun w e => (stamp e).all (timely w) = true)
        ((budgetSystem sampleEnv).initial .new) c ∧
      sampleEnv.policy.enforce = true ∧ sampleEnv.policy.packets = 1 ∧
      (inSecond 600 (admissions "a" c.hist)).length = 2 := by
  have hreplay : ((System.Config.replay (fun w e => (stamp e).all (timely w))
      [.start (.event firstCaller (sampleCall "a" 0 53)), .fire (.caller firstCaller) 20,
        .start (.event secondCaller (sampleCall "a" 600 53)), .fire (.caller secondCaller) 1,
        .start (.maintain 600), .fire .maintenance 2, .fire (.caller secondCaller) 20,
        .fire .maintenance 20,
        .start (.event firstCaller (sampleCall "a" 600 53)), .fire (.caller firstCaller) 20]
      ((budgetSystem sampleEnv).initial .new)).map fun c =>
        (inSecond 600 (admissions "a" c.hist)).length) = some 2 := by
    decide +kernel
  obtain ⟨c, hc, hadmitted⟩ := Option.map_eq_some_iff.1 hreplay
  exact ⟨c, System.Config.run_of_replay hc, rfl, rfl, hadmitted⟩

end SwiftRelay.AccountBudget
