/-
**Observing predicts enforcing.**

A policy can be observed before it is enforced: then every event is admitted, and the breaches are
only counted.  Two runs of the same calls, one observing and one enforcing, differ in the flows they
track, since a dropped event leaves no flow behind.  They agree in everything that the limits on
packets and bytes are compared with, because an event is counted whether or not it is dropped.

Main definitions:

* `Alike` — the relation of the two runs;
* `Predicts` — a call of the one predicts the same call of the other.

Main results:

* `alike_event`, `alike_maintain` — the calls keep the relation;
* `observing_budgets_predict_enforcing` — observing predicts enforcing.
-/

import SwiftRelay.BudgetCalls

set_option autoImplicit false

namespace SwiftRelay.AccountBudget

open Conc

/-! ### What is compared with the limits -/

/-- Without a limit on new flows, only the ledger is compared with the limits. -/
theorem overruns_eq {policy policy' : Policy} (hpackets : policy.packets = policy'.packets)
    (hbytes : policy.bytes = policy'.bytes) (hflows : policy.newFlows = 0)
    (hflows' : policy'.newFlows = 0) {s s' : State} (h : s.ledger = s'.ledger) (call : EventCall) :
    s.overruns policy call = s'.overruns policy' call := by
  have hcharged : (s.charged policy call).ledger = (s'.charged policy' call).ledger := by
    rw [s.ledger_charged, s'.ledger_charged, h]
  have hcounts : ((s.enter call.now call.flow).2.counts.add call.out call.bytes) =
      ((s'.enter call.now call.flow).2.counts.add call.out call.bytes) := by
    have hcounts := congrArg Ledger.counts hcharged
    rwa [State.charged, State.charged, State.ledger_charge, State.ledger_charge] at hcounts
  simp [State.overruns, State.charge, State.exceeded, hcounts, hpackets, hbytes, hflows, hflows']

/-! ### Two runs -/

variable {env envO envE : Env}

/-- The calls find room for another account and another flow. -/
def Budgets.Roomy (s : Budgets env) : Prop :=
  s.accounts.size < env.accountLimit ∧ s.slots < env.flowLimit

def Budgets.ledgerOf (s : Budgets env) (user : String) : Option Ledger :=
  (s.bookOf user).map fun b => b.1.ledger

/-- The number of breaches of an account; zero if there is none yet. -/
def Budgets.breachesOf (s : Budgets env) (user : String) : UInt64 :=
  ((s.bookOf user).map fun b => b.1.breaches).getD 0

/-- A call of the observing run predicts the same call of the enforcing run. -/
structure Predicts (o : CallStep envO) (e : CallStep envE) : Prop where
  admitted : ∀ call, o.call = .event call → o.answer = some true
  dropped : ∀ call, o.call = .event call → (e.answer = some false ↔
    o.after.breachesOf call.user = o.before.breachesOf call.user + 1)
  ledgers : ∀ user, o.after.ledgerOf user = e.after.ledgerOf user

/-- The ledger of an account, and the time of its last use. -/
def bookView (b : State × UInt64) : Ledger × UInt64 := (b.1.ledger, b.2)

/-- The accounts of the two runs are alike. -/
def Alike (o : Budgets envO) (e : Budgets envE) : Prop :=
  ∀ user, (o.bookOf user).map bookView = (e.bookOf user).map bookView

section Alike

variable {o o' : Budgets envO} {e e' : Budgets envE}

theorem Alike.ledgers (h : Alike o e) (user : String) : o.ledgerOf user = e.ledgerOf user := by
  have hview : ∀ book : Option (State × UInt64),
      (book.map fun b => b.1.ledger) = (book.map bookView).map Prod.fst := by
    intro book
    cases book <;> rfl
  unfold Budgets.ledgerOf
  rw [hview, hview, h user]

theorem view_kept (now : UInt64) (book : Option (State × UInt64)) :
    (pruned now (kept now book)).map bookView =
      (book.map bookView).filter fun v => Word64.satSub now v.2 < accountIdleSeconds := by
  cases book with
  | none => rfl
  | some b =>
      rw [kept_some]
      by_cases hused : Word64.satSub now b.2 < accountIdleSeconds
      · simp [hused, pruned, bookView, Option.filter]
      · simp [hused, pruned, bookView, Option.filter]

theorem alike_maintain {now : UInt64} (h : Alike o e)
    (ho : ∀ user, o'.bookOf user = pruned now (kept now (o.bookOf user)))
    (he : ∀ user, e'.bookOf user = pruned now (kept now (e.bookOf user))) : Alike o' e' := by
  intro user
  rw [ho user, he user, view_kept, view_kept, h user]

/-- The account that an event is charged to has the same ledger in both runs. -/
theorem Alike.getD (h : Alike o e) (user : String) (d : State × UInt64) :
    bookView ((o.bookOf user).getD d) = bookView ((e.bookOf user).getD d) := by
  have hview := h user
  cases ho : o.bookOf user with
  | none =>
      cases he : e.bookOf user with
      | none => rfl
      | some b =>
          rw [ho, he] at hview
          cases hview
  | some b =>
      cases he : e.bookOf user with
      | none =>
          rw [ho, he] at hview
          cases hview
      | some b' =>
          rw [ho, he] at hview
          exact Option.some.inj hview

end Alike

/-! ### The capacities -/

variable {s : Budgets env} {state : State} {lastUsed : UInt64}

theorem size_le_flowsLen {user : String} (hbook : s.bookOf user = some (state, lastUsed)) :
    state.flows.size ≤ s.flowsLen := by
  obtain ⟨cell, a, hmap, ha, heq⟩ := bookOf_eq_some hbook
  cases heq
  rw [Budgets.flowsLen, ← Table.sumBy_erase _ hmap, ha]
  exact Nat.le_add_right _ _

/-- If the stale flow of the event is forgotten, the counter is not at zero. -/
theorem Reached.slotsThen_le (h : Reached s) {call : EventCall}
    (hbook : (s.bookOf call.user).getD (.new call.now, call.now) = (state, lastUsed)) :
    state.slotsThen call s.slots ≤ s.slots := by
  have hsize : state.flows.size ≤ s.slots.toNat := by
    rw [h.slots_eq]
    cases hsome : s.bookOf call.user with
    | none =>
        rw [hsome] at hbook
        cases hbook
        exact Nat.zero_le _
    | some b =>
        rw [hsome] at hbook
        exact size_le_flowsLen (hsome.trans (congrArg some hbook))
  unfold State.slotsThen
  obtain ⟨hexpired, hflows⟩ | ⟨hexpired, -⟩ := state.flows_enter call.now call.flow
  · have hone : (1 : UInt64) ≤ s.slots := by
      rw [UInt64.le_iff_toNat_le]
      change 1 ≤ s.slots.toNat
      omega
    rw [if_pos hexpired, UInt64.le_iff_toNat_le, UInt64.toNat_sub_of_le _ _ hone]
    exact Nat.sub_le _ _
  · rw [hexpired]
    exact UInt64.le_refl _

/-! ### Observing and enforcing -/

theorem breachesOf_eq {call : EventCall}
    (hbook : (s.bookOf call.user).getD (.new call.now, call.now) = (state, lastUsed)) :
    s.breachesOf call.user = state.breaches := by
  unfold Budgets.breachesOf
  cases hsome : s.bookOf call.user with
  | none =>
      rw [hsome] at hbook
      cases hbook
      rfl
  | some b =>
      rw [hsome] at hbook
      cases hbook
      rfl

section Predict

variable (hobserve : envO.policy.enforce = false) (henforce : envE.policy.enforce = true)
  (hpackets : envO.policy.packets = envE.policy.packets)
  (hbytes : envO.policy.bytes = envE.policy.bytes)
  (hflowsO : envO.policy.newFlows = 0) (hflowsE : envE.policy.newFlows = 0)

include hobserve henforce hpackets hbytes hflowsO hflowsE

/-- An event of the observing run predicts the event of the enforcing run, and keeps the runs
alike. -/
theorem alike_event {o o' : Budgets envO} {e e' : Budgets envE} {call : EventCall} {a a' : Bool}
    (h : Alike o e) (he : Reached e) (hroomO : o.Roomy) (hroomE : e.Roomy)
    (hstale : call.stale = 0) (heffectO : EventEffect call o a o')
    (heffectE : EventEffect call e a' e') :
    Alike o' e' ∧ a = true ∧
      (a' = false ↔ o'.breachesOf call.user = o.breachesOf call.user + 1) := by
  cases heffectO with
  | refused _ _ hfull => exact absurd hroomO.1 (by omega)
  | charged _ stateO lastO hbookO hbooksO =>
      cases heffectE with
      | refused _ _ hfull => exact absurd hroomE.1 (by omega)
      | charged _ stateE lastE hbookE hbooksE =>
          have hview := h.getD call.user (.new call.now, call.now)
          rw [hbookO, hbookE] at hview
          have hledger : stateO.ledger = stateE.ledger := congrArg Prod.fst hview
          have hlast : lastO = lastE := congrArg Prod.snd hview
          have houtO := settle_outcome envO call stateO o.slots
          have houtE := settle_outcome envE call stateE e.slots
          refine ⟨fun user => ?_, houtO.admitted_of_observing hobserve, ?_⟩
          · rw [hbooksO user, hbooksE user]
            split
            · simp [bookView, houtO.ledger_eq, houtE.ledger_eq, hledger, hlast]
            · exact h user
          · have hbreaches : o'.breachesOf call.user =
                (settle envO call stateO o.slots).state.breaches := by
              rw [Budgets.breachesOf, hbooksO, if_pos rfl]
              rfl
            have hroom := UInt64.lt_of_le_of_lt (he.slotsThen_le hbookE) hroomE.2
            rw [hbreaches, houtO.breaches_eq, breachesOf_eq hbookO,
              houtE.admitted_of_enforcing henforce hroom,
              ← overruns_eq hpackets hbytes hflowsO hflowsE hledger call]
            cases stateO.overruns envO.policy call with
            | false => simp
            | true => simp

theorem predicts_of_calls {o o' : Budgets envO} {e e' : Budgets envE}
    {stepsO : List (CallStep envO)} {stepsE : List (CallStep envE)} (h : Alike o e)
    (ho : Reached o) (he : Reached e) (hrunO : Calls envO o stepsO o')
    (hrunE : Calls envE e stepsE e') (hsame : stepsO.map (·.call) = stepsE.map (·.call))
    (hroomO : ∀ step ∈ stepsO, step.before.Roomy) (hroomE : ∀ step ∈ stepsE, step.before.Roomy) :
    List.Forall₂ Predicts stepsO stepsE := by
  induction hrunO generalizing e stepsE with
  | nil =>
      cases hrunE with
      | nil => exact .nil
      | event => cases hsame
      | maintain => cases hsame
  | event i call hrun _ ih =>
      cases hrunE with
      | nil => cases hsame
      | maintain => cases hsame
      | event i' call' hrun' hrest' =>
          simp only [List.map_cons, List.cons.injEq, Call.event.injEq] at hsame
          obtain ⟨rfl, hsame⟩ := hsame
          obtain ⟨ho₁, heffectO⟩ := ho.event hrun
          obtain ⟨he₁, heffectE⟩ := he.event hrun'
          obtain ⟨halike, hadmitted, hdropped⟩ :=
            alike_event hobserve henforce hpackets hbytes hflowsO hflowsE h he
              (hroomO _ List.mem_cons_self) (hroomE _ List.mem_cons_self) rfl heffectO heffectE
          refine .cons ⟨fun _ _ => congrArg some hadmitted, fun call' hcall => ?_, halike.ledgers⟩
            (ih halike ho₁ he₁ hrest' hsame
              (fun step hstep => hroomO _ (List.mem_cons_of_mem _ hstep))
              fun step hstep => hroomE _ (List.mem_cons_of_mem _ hstep))
          cases hcall
          simpa using hdropped
  | maintain now hrun _ ih =>
      cases hrunE with
      | nil => cases hsame
      | event => cases hsame
      | maintain now' hrun' hrest' =>
          simp only [List.map_cons, List.cons.injEq, Call.maintain.injEq] at hsame
          obtain ⟨rfl, hsame⟩ := hsame
          obtain ⟨ho₁, hbooksO⟩ := ho.maintain hrun
          obtain ⟨he₁, hbooksE⟩ := he.maintain hrun'
          have halike := alike_maintain h hbooksO hbooksE
          refine .cons ⟨fun _ hcall => ?_, fun _ hcall => ?_, halike.ledgers⟩
            (ih halike ho₁ he₁ hrest' hsame
              (fun step hstep => hroomO _ (List.mem_cons_of_mem _ hstep))
              fun step hstep => hroomE _ (List.mem_cons_of_mem _ hstep))
          · cases hcall
          · cases hcall

end Predict

/-- Observing predicts enforcing.  Any calls can be made on both budgets.  Where the limits on
packets and bytes are the same, there is none on new flows and no capacity is exhausted, the
enforcing budgets drop exactly the events at which the observing ones count a breach, the observing
ones admit every event, and after every call all accounts have counted the same. -/
theorem observing_budgets_predict_enforcing (hcallersO : 0 < envO.callers)
    (hcallersE : 0 < envE.callers)
    (hobserve : envO.policy.enforce = false) (henforce : envE.policy.enforce = true)
    (hpackets : envO.policy.packets = envE.policy.packets)
    (hbytes : envO.policy.bytes = envE.policy.bytes)
    (hflowsO : envO.policy.newFlows = 0) (hflowsE : envE.policy.newFlows = 0)
    (calls : List Call) :
    (∃ stepsO o, Calls envO .new stepsO o ∧ stepsO.map (·.call) = calls) ∧
    (∃ stepsE e, Calls envE .new stepsE e ∧ stepsE.map (·.call) = calls) ∧
    ∀ stepsO o stepsE e, Calls envO .new stepsO o → Calls envE .new stepsE e →
      stepsO.map (·.call) = calls → stepsE.map (·.call) = calls →
      (∀ step ∈ stepsO, step.before.Roomy) → (∀ step ∈ stepsE, step.before.Roomy) →
      List.Forall₂ Predicts stepsO stepsE := by
  refine ⟨Calls.total hcallersO calls atRest_new, Calls.total hcallersE calls atRest_new, ?_⟩
  intro stepsO o stepsE e hrunO hrunE hcallsO hcallsE hroomO hroomE
  exact predicts_of_calls hobserve henforce hpackets hbytes hflowsO hflowsE (fun _ => rfl)
    reached_new reached_new hrunO hrunE (hcallsO.trans hcallsE.symm) hroomO hroomE

/-- One packet in a second is allowed. -/
def modeEnv (enforce : Bool) : Env :=
  { sampleEnv with policy := ⟨enforce, 1, 1000, 0⟩, accountLimit := 2 }

def modeCaller (enforce : Bool) : Fin (modeEnv enforce).callers := ⟨0, Nat.zero_lt_two⟩

/-- The second of two packets is a breach. -/
theorem observing_budgets_predict_enforcing_sample :
    ∃ stepsO o stepsE e, Calls (modeEnv false) .new stepsO o ∧ Calls (modeEnv true) .new stepsE e ∧
      stepsO.map (·.answer) = [some true, some true] ∧
      stepsE.map (·.answer) = [some true, some false] ∧ List.Forall₂ Predicts stepsO stepsE := by
  have hrun : ∀ enforce, ∃ (s₂ : Budgets (modeEnv enforce)) (steps : List (CallStep _)),
      Calls (modeEnv enforce) .new steps s₂ ∧
      steps.map (·.call) = [.event (sampleCall "a" 0 53), .event (sampleCall "a" 0 53)] ∧
      steps.map (·.answer) = [some true, some (!enforce)] ∧
      ∀ step ∈ steps, step.before.Roomy := by
    intro enforce
    have hruns : ∃ s₁ s₂ : Budgets (modeEnv enforce),
        (eventAnswer (modeEnv enforce) (sampleCall "a" 0 53)).run (budgetSystem (modeEnv enforce))
          (.caller (modeCaller enforce)) .new = some (true, s₁) ∧ s₁.Roomy ∧
        (eventAnswer (modeEnv enforce) (sampleCall "a" 0 53)).run (budgetSystem (modeEnv enforce))
          (.caller (modeCaller enforce)) s₁ = some (!enforce, s₂) := by
      cases enforce with
      | false => exact ⟨_, _, rfl, ⟨by decide, by decide⟩, rfl⟩
      | true => exact ⟨_, _, rfl, ⟨by decide, by decide⟩, rfl⟩
    obtain ⟨s₁, s₂, hfirst, hroom, hsecond⟩ := hruns
    refine ⟨s₂, _, .event (modeCaller enforce) (sampleCall "a" 0 53) hfirst
      (.event (modeCaller enforce) (sampleCall "a" 0 53) hsecond (.nil s₂)), rfl, rfl, ?_⟩
    intro step hstep
    obtain rfl | hstep := List.mem_cons.1 hstep
    · exact ⟨Nat.zero_lt_two, (by decide : (0 : UInt64) < 2)⟩
    · obtain rfl := List.mem_singleton.1 hstep
      exact hroom
  obtain ⟨o, stepsO, hrunO, hcallsO, hanswersO, hroomO⟩ := hrun false
  obtain ⟨e, stepsE, hrunE, hcallsE, hanswersE, hroomE⟩ := hrun true
  have hpredicts := (@observing_budgets_predict_enforcing (modeEnv false) (modeEnv true)
    (by decide) (by decide) rfl rfl rfl rfl rfl rfl
    [.event (sampleCall "a" 0 53), .event (sampleCall "a" 0 53)]).2.2
  exact ⟨stepsO, o, stepsE, e, hrunO, hrunE, hanswersO, hanswersE,
    hpredicts _ _ _ _ hrunO hrunE hcallsO hcallsE hroomO hroomE⟩

end SwiftRelay.AccountBudget
