/-
**What an event does to its account.**

An event that is charged to an account can be dropped because a limit is exceeded, or admitted or
dropped because its flow cannot be tracked; otherwise it is admitted and its flow is tracked.  Here
the ways it can end are listed, with the state in which they leave the account.  What is counted in
the windows, the totals, the peaks and the samples does not depend on them.

Main definitions:

* `settle`, `Outcome` — an event as a function of the state of its account, and the ways it can end;
* `Ledger`, `Ledger.event` — what is counted for an account, and when.

Main results:

* `settle_outcome` — an event ends in one of these ways;
* `Outcome.ledger_eq`, `Outcome.breaches_eq` — what is counted.
-/

import SwiftRelay.AccountBudget

set_option autoImplicit false

namespace SwiftRelay.AccountBudget

/-! ### What an event does to its account -/

/-- What becomes of an event: its answer, the state of the account, and the counter of tracked
flows. -/
structure Settled where
  admitted : Bool
  state : State
  slots : UInt64

/-- The flow of an event is tracked, if there is room. -/
def settleFlow (env : Env) (state : State) (key : Flow) (now : UInt64) (newFlow : Bool)
    (slots : UInt64) : Settled :=
  if newFlow then
    if slots < env.flowLimit then ⟨true, state.track key now true, slots + 1⟩
    else ⟨!env.policy.enforce, state.noteUntracked env.policy, slots⟩
  else ⟨true, state.track key now false, slots⟩

/-- What happens with the event after it was charged. -/
def settleCharged (env : Env) (state : State) (flow : Option Flow) (now : UInt64)
    (newFlow exceeded : Bool) (slots : UInt64) : Settled :=
  if exceeded && env.policy.enforce then ⟨false, state, slots⟩
  else
    match flow with
    | none => ⟨true, state, slots⟩
    | some key => settleFlow env state key now newFlow slots

/-- An event at the effective time `now`, from where it is counted. -/
def settleEntered (env : Env) (call : EventCall) (now : UInt64) (state : State)
    (slots : UInt64) : Settled :=
  let charged := state.charge env.policy call.out call.bytes call.flow
  settleCharged env charged.2 call.flow now charged.1.1 charged.1.2 slots

/-- An event that is charged to an account with state `state`. -/
def settle (env : Env) (call : EventCall) (state : State) (slots : UInt64) : Settled :=
  let entered := state.enter call.now call.flow
  settleEntered env call entered.1.1 entered.2 (if entered.1.2 then slots - 1 else slots)

/-- The state in which the event was counted. -/
def State.charged (policy : Policy) (call : EventCall) (state : State) : State :=
  ((state.enter call.now call.flow).2.charge policy call.out call.bytes call.flow).2

/-- The event exceeds a limit. -/
def State.overruns (policy : Policy) (call : EventCall) (state : State) : Bool :=
  ((state.enter call.now call.flow).2.charge policy call.out call.bytes call.flow).1.2

/-- The event has a flow that is not tracked, or no longer. -/
def State.opens (call : EventCall) (state : State) : Bool :=
  (state.enter call.now call.flow).2.isNewFlow call.flow

/-- The event has entered its flow, which was not tracked. -/
def flowEntered (call : EventCall) (state state' : State) : Bool :=
  state.opens call && call.flow.any fun key => (state'.flows.lookup key).isSome

/-- The counter of tracked flows, when the flow of the event is looked up. -/
def State.slotsThen (call : EventCall) (state : State) (slots : UInt64) : UInt64 :=
  if (state.enter call.now call.flow).1.2 then slots - 1 else slots

/-- The ways an event can end, with its answer and the state of the account. -/
inductive Outcome (env : Env) (call : EventCall) (state : State) (slots : UInt64) :
    Bool → State → Prop
  | dropped (henforce : env.policy.enforce = true)
      (hover : state.overruns env.policy call = true) :
      Outcome env call state slots false (state.charged env.policy call)
  | plain (hover : state.overruns env.policy call = true → env.policy.enforce = false)
      (hflow : call.flow = none) :
      Outcome env call state slots true (state.charged env.policy call)
  | untracked (hover : state.overruns env.policy call = true → env.policy.enforce = false)
      (hopens : state.opens call = true) (hfull : ¬state.slotsThen call slots < env.flowLimit) :
      Outcome env call state slots (!env.policy.enforce)
        ((state.charged env.policy call).noteUntracked env.policy)
  | tracked (hover : state.overruns env.policy call = true → env.policy.enforce = false)
      (key : Flow) (hflow : call.flow = some key) :
      Outcome env call state slots true
        ((state.charged env.policy call).track key (max call.now state.second) (state.opens call))

theorem settle_outcome (env : Env) (call : EventCall) (state : State) (slots : UInt64) :
    Outcome env call state slots (settle env call state slots).admitted
      (settle env call state slots).state := by
  have hsettle : settle env call state slots = settleCharged env (state.charged env.policy call)
      call.flow (max call.now state.second) (state.opens call) (state.overruns env.policy call)
      (state.slotsThen call slots) := by
    rw [← (state.enter_windows call.now call.flow).1]
    rfl
  rw [hsettle]
  unfold settleCharged
  split
  · next hdropped =>
      obtain ⟨hover, henforce⟩ := Bool.and_eq_true_iff.1 hdropped
      exact .dropped henforce hover
  · next hkept =>
      have hover : state.overruns env.policy call = true → env.policy.enforce = false := by
        intro hover
        simpa [hover] using hkept
      split
      · next hflow => exact .plain hover hflow
      · next key hflow =>
          have htracked : Outcome env call state slots true _ := .tracked hover key hflow
          unfold settleFlow
          split
          · next hopens =>
              rw [hopens] at htracked
              split
              · exact htracked
              · next hfull => exact .untracked hover hopens hfull
          · next hopens =>
              rw [Bool.eq_false_of_not_eq_true hopens] at htracked
              exact htracked

/-! ### The ledger of an account -/

/-- What is counted for an account, and the windows in which it is counted. -/
structure Ledger where
  second : UInt64
  minute : UInt64
  counts : Counts
  totals : Counts
  peaks : Counts
  samples : List Counts
  deriving DecidableEq

/-- What an event does to the ledger, whatever becomes of it. -/
def Ledger.event (l : Ledger) (call : EventCall) : Ledger :=
  let now := max call.now l.second
  let rolled := decide (l.second ≠ now)
  let counts := (if rolled then .zero else l.counts).add call.out call.bytes
  { second := now
    minute := now / 60
    counts
    totals := l.totals.add call.out call.bytes
    peaks := l.peaks.raise call.out counts
    samples :=
      if rolled then
        (if l.samples.length = 60 then l.samples.drop 1 else l.samples) ++ [l.counts]
      else l.samples }

namespace State

def ledger (s : State) : Ledger where
  second := s.second
  minute := s.minute
  counts := s.counts
  totals := s.totals
  peaks := s.peaks
  samples := s.samples

@[simp] theorem ledger_track (s : State) (key : Flow) (now : UInt64) (newFlow : Bool) :
    (s.track key now newFlow).ledger = s.ledger := by
  cases newFlow <;> rfl

@[simp] theorem ledger_retainFlows (s : State) (now : UInt64) :
    (s.retainFlows now).ledger = s.ledger := rfl

theorem ledger_rollSecond (s : State) (now : UInt64) : (s.rollSecond now).ledger =
    { s.ledger with
      second := now
      counts := if s.second ≠ now then .zero else s.counts
      samples :=
        if s.second ≠ now then
          (if s.samples.length = 60 then s.samples.drop 1 else s.samples) ++ [s.counts]
        else s.samples } := by
  unfold rollSecond
  by_cases hsecond : s.second = now
  · subst hsecond
    simp [ledger]
  · simp [ledger, hsecond]

theorem ledger_rollMinute (s : State) (now : UInt64) :
    (s.rollMinute now).ledger = { s.ledger with minute := now / 60 } := by
  unfold rollMinute
  split
  · rfl
  · next hminute =>
      rw [← not_not.1 hminute]
      rfl

theorem ledger_enter (s : State) (now : UInt64) (flow : Option Flow) :
    (s.enter now flow).2.ledger =
      ((s.rollSecond (max now s.second)).rollMinute (max now s.second)).ledger := by
  unfold enter
  cases flow with
  | none => rfl
  | some key =>
      simp only
      split <;> rfl

theorem ledger_charge (s : State) (policy : Policy) (out : Bool) (bytes : UInt64)
    (flow : Option Flow) : (s.charge policy out bytes flow).2.ledger =
    { s.ledger with
      counts := s.ledger.counts.add out bytes
      totals := s.ledger.totals.add out bytes
      peaks := s.ledger.peaks.raise out (s.ledger.counts.add out bytes) } := by
  unfold charge
  simp only
  split <;> rfl

/-- The event is counted, whatever its flow and the policy are. -/
theorem ledger_charged (s : State) (policy : Policy) (call : EventCall) :
    (s.charged policy call).ledger = s.ledger.event call := by
  rw [charged, ledger_charge, ledger_enter, ledger_rollMinute, ledger_rollSecond, Ledger.event]
  simp only [decide_eq_true_eq]
  rfl

end State

/-! ### The other counters -/

/-- What else is counted for an account. -/
structure Marks where
  breaches : UInt64
  drops : UInt64
  untracked : UInt64
  totalNewFlows : UInt64
  peakFlows : ℕ

def State.marks (s : State) : Marks where
  breaches := s.breaches
  drops := s.drops
  untracked := s.untracked
  totalNewFlows := s.totalNewFlows
  peakFlows := s.peakFlows

theorem marks_enter (s : State) (now : UInt64) (flow : Option Flow) :
    (s.enter now flow).2.marks = s.marks := by
  have hsecond : ∀ now, (s.rollSecond now).marks = s.marks := by
    intro now
    unfold State.rollSecond
    split <;> rfl
  have hminute : ∀ (s : State) now, (s.rollMinute now).marks = s.marks := by
    intro s now
    unfold State.rollMinute
    split <;> rfl
  unfold State.enter
  cases flow with
  | none => exact (hminute _ _).trans (hsecond _)
  | some key =>
      simp only
      split <;> exact (hminute _ _).trans (hsecond _)

theorem marks_charged (s : State) (policy : Policy) (call : EventCall) :
    (s.charged policy call).marks =
      { s.marks with
        breaches := if s.overruns policy call then s.breaches + 1 else s.breaches
        drops := if s.overruns policy call && policy.enforce then s.drops + 1 else s.drops } := by
  have hcharge : ∀ s' : State, (s'.charge policy call.out call.bytes call.flow).2.marks =
      { s'.marks with
        breaches :=
          if (s'.charge policy call.out call.bytes call.flow).1.2 then s'.marks.breaches + 1
          else s'.marks.breaches
        drops :=
          if (s'.charge policy call.out call.bytes call.flow).1.2 && policy.enforce then
            s'.marks.drops + 1
          else s'.marks.drops } := by
    intro s'
    unfold State.charge
    simp only
    split
    · next hover => simp [State.marks, hover]
    · next hover => simp [State.marks, hover]
  rw [State.charged, hcharge, marks_enter]
  rfl

@[simp] theorem breaches_track (s : State) (key : Flow) (now : UInt64) (newFlow : Bool) :
    (s.track key now newFlow).breaches = s.breaches := by
  cases newFlow <;> rfl

@[simp] theorem drops_track (s : State) (key : Flow) (now : UInt64) (newFlow : Bool) :
    (s.track key now newFlow).drops = s.drops := by
  cases newFlow <;> rfl

@[simp] theorem untracked_track (s : State) (key : Flow) (now : UInt64) (newFlow : Bool) :
    (s.track key now newFlow).untracked = s.untracked := by
  cases newFlow <;> rfl

namespace Outcome

variable {env : Env} {call : EventCall} {s st : State} {slots : UInt64} {admitted : Bool}

theorem ledger_eq (h : Outcome env call s slots admitted st) :
    st.ledger = s.ledger.event call := by
  rw [← s.ledger_charged env.policy call]
  cases h with
  | dropped => rfl
  | plain => rfl
  | untracked => rfl
  | tracked hover key hflow => exact State.ledger_track _ _ _ _

/-- A breach is counted exactly if the event exceeds a limit. -/
theorem breaches_eq (h : Outcome env call s slots admitted st) :
    st.breaches = if s.overruns env.policy call then s.breaches + 1 else s.breaches := by
  have hcharged : (s.charged env.policy call).breaches =
      if s.overruns env.policy call then s.breaches + 1 else s.breaches :=
    congrArg Marks.breaches (marks_charged s env.policy call)
  cases h with
  | dropped => exact hcharged
  | plain => exact hcharged
  | untracked => exact hcharged
  | tracked => rw [breaches_track, hcharged]

/-- A drop is counted exactly if the event is not admitted. -/
theorem drops_eq (h : Outcome env call s slots admitted st) :
    st.drops = if admitted then s.drops else s.drops + 1 := by
  have hcharged : (s.charged env.policy call).drops =
      if s.overruns env.policy call && env.policy.enforce then s.drops + 1 else s.drops :=
    congrArg Marks.drops (marks_charged s env.policy call)
  -- an event that exceeds a limit goes on only where nothing is enforced
  have hkept : (s.overruns env.policy call = true → env.policy.enforce = false) →
      (s.charged env.policy call).drops = s.drops := by
    intro hover
    rw [hcharged, if_neg]
    intro hboth
    obtain ⟨hover', henforce⟩ := Bool.and_eq_true_iff.1 hboth
    rw [hover hover'] at henforce
    cases henforce
  cases h with
  | dropped henforce hover =>
      rw [hcharged, hover, henforce]
      rfl
  | plain hover => exact hkept hover
  | untracked hover =>
      simp only [State.noteUntracked, hkept hover]
      cases env.policy.enforce <;> rfl
  | tracked hover => rw [drops_track, hkept hover, if_pos rfl]

/-- Where the limits are enforced, an event is dropped because of a breach or because it cannot be
tracked. -/
theorem faults (h : Outcome env call s slots admitted st) (henforce : env.policy.enforce = true) :
    (admitted = true ∧ st.breaches = s.breaches ∧ st.untracked = s.untracked) ∨
    (admitted = false ∧ st.breaches = s.breaches + 1 ∧ st.untracked = s.untracked) ∨
    (admitted = false ∧ st.breaches = s.breaches ∧ st.untracked = s.untracked + 1) := by
  have hcharged : (s.charged env.policy call).untracked = s.untracked :=
    congrArg Marks.untracked (marks_charged s env.policy call)
  have hbreaches := h.breaches_eq
  have hwithin : (s.overruns env.policy call = true → env.policy.enforce = false) →
      ¬s.overruns env.policy call = true := by
    intro hover hover'
    rw [hover hover'] at henforce
    cases henforce
  cases h with
  | dropped _ hover => exact Or.inr (Or.inl ⟨rfl, by rw [hbreaches, if_pos hover], hcharged⟩)
  | plain hover => exact Or.inl ⟨rfl, by rw [hbreaches, if_neg (hwithin hover)], hcharged⟩
  | untracked hover =>
      refine Or.inr (Or.inr ⟨by rw [henforce]; rfl, ?_, ?_⟩)
      · rw [hbreaches, if_neg (hwithin hover)]
      · rw [← hcharged]
        rfl
  | tracked hover =>
      refine Or.inl ⟨rfl, ?_, ?_⟩
      · rw [hbreaches, if_neg (hwithin hover)]
      · rw [untracked_track, hcharged]

theorem flows_charged (s : State) (policy : Policy) (call : EventCall) :
    (s.charged policy call).flows = (s.enter call.now call.flow).2.flows :=
  State.flows_charge _ _ _ _ _

theorem totalNewFlows_eq (h : Outcome env call s slots admitted st) :
    st.totalNewFlows = if flowEntered call s st then s.totalNewFlows + 1 else s.totalNewFlows := by
  have hcharged : (s.charged env.policy call).totalNewFlows = s.totalNewFlows :=
    congrArg Marks.totalNewFlows (marks_charged s env.policy call)
  -- a flow that is new and was not entered is still not there
  have hout : ∀ st : State, st.flows = (s.charged env.policy call).flows →
      flowEntered call s st = false := by
    intro st hflows
    unfold flowEntered State.opens State.isNewFlow
    rw [hflows, flows_charged]
    cases call.flow with
    | none => rfl
    | some key => cases hkey : (s.enter call.now (some key)).2.flows.lookup key <;> simp [hkey]
  cases h with
  | dropped => rw [hout _ rfl, hcharged]; rfl
  | plain => rw [hout _ rfl, hcharged]; rfl
  | untracked => rw [hout _ (State.flows_noteUntracked _ _)]; exact hcharged
  | tracked hover key hflow =>
      have hentered : ∀ newFlow, flowEntered call s ((s.charged env.policy call).track key
          (max call.now s.second) newFlow) = s.opens call := by
        intro newFlow
        cases newFlow <;> simp [flowEntered, hflow, State.track, Table.lookup_insert_eq]
      rw [hentered, ← hcharged]
      cases s.opens call <;> rfl

theorem size_le_peakFlows (h : Outcome env call s slots admitted st)
    (hs : s.flows.size ≤ s.peakFlows) : st.flows.size ≤ st.peakFlows := by
  have hcharged : (s.charged env.policy call).peakFlows = s.peakFlows :=
    congrArg Marks.peakFlows (marks_charged s env.policy call)
  have hflows : (s.charged env.policy call).flows.size ≤ (s.charged env.policy call).peakFlows := by
    rw [hcharged, flows_charged]
    obtain ⟨-, hsize⟩ | ⟨-, hsize⟩ := s.flows_enter call.now call.flow
    · omega
    · rw [hsize]
      exact hs
  cases h with
  | dropped => exact hflows
  | plain => exact hflows
  | untracked => exact hflows
  | tracked hover key hflow => exact Nat.le_max_right _ _

theorem admitted_of_observing (h : Outcome env call s slots admitted st)
    (hobserve : env.policy.enforce = false) : admitted = true := by
  cases h with
  | dropped henforce => rw [hobserve] at henforce; cases henforce
  | plain => rfl
  | untracked => rw [hobserve]; rfl
  | tracked => rfl

/-- Where the limits are enforced and there is room for the flow, the event is dropped exactly if it
exceeds a limit. -/
theorem admitted_of_enforcing (h : Outcome env call s slots admitted st)
    (henforce : env.policy.enforce = true) (hroom : s.slotsThen call slots < env.flowLimit) :
    admitted = !s.overruns env.policy call := by
  have hwithin : (s.overruns env.policy call = true → env.policy.enforce = false) →
      s.overruns env.policy call = false := by
    intro hover
    by_contra hne
    rw [hover (Bool.eq_true_of_not_eq_false hne)] at henforce
    cases henforce
  cases h with
  | dropped _ hover => rw [hover]; rfl
  | plain hover => rw [hwithin hover]; rfl
  | untracked _ _ hfull => exact absurd hroom hfull
  | tracked hover => rw [hwithin hover]; rfl

end Outcome

end SwiftRelay.AccountBudget
