/-
**The counters of an account tell the truth.**

The history of an account is the list of the events that were charged to it since its state was
created.  An event belongs to its effective second: the later of its own timestamp and that of the
event before it.  The totals, the peaks and the samples of the account are determined by the history
as sums over all of it or over one second, and the numbers of drops and of new flows count the
events that were dropped and those whose flow was entered.

Main definitions:

* `Charge`, `history` — the events that were charged to an account;
* `sumOf`, `sumIn`, `seconds` — sums over a history, and its effective seconds;
* `Truthful` — the counters are those of the history.

Main results:

* `Tells.event` — the ledger after one more event;
* `counters_tell_truth` — the counters after any calls.
-/

import Mathlib.Order.Bounds.Basic
import SwiftRelay.BudgetCalls
import SwiftRelay.Buckets

set_option autoImplicit false

namespace SwiftRelay.AccountBudget

open Conc

/-! ### The four counters -/

inductive Counter
  | packetsIn
  | bytesIn
  | packetsOut
  | bytesOut
  deriving DecidableEq

namespace Counter

def isOut : Counter → Bool
  | packetsIn | bytesIn => false
  | packetsOut | bytesOut => true

/-- What an event adds to the counter. -/
def amount (k : Counter) (out : Bool) (bytes : UInt64) : ℕ :=
  if k.isOut = out then
    match k with
    | packetsIn | packetsOut => 1
    | bytesIn | bytesOut => bytes.toNat
  else 0

end Counter

namespace Counts

def get (counts : Counts) : Counter → UInt64
  | .packetsIn => counts.packetsIn
  | .bytesIn => counts.bytesIn
  | .packetsOut => counts.packetsOut
  | .bytesOut => counts.bytesOut

/-- The counters as numbers. -/
def value (counts : Counts) (k : Counter) : ℕ := (counts.get k).toNat

variable (counts peaks : Counts) (out : Bool) (bytes : UInt64) (k : Counter)

@[simp] theorem value_zero : zero.value k = 0 := by
  cases k <;> rfl

theorem value_add :
    (counts.add out bytes).value k = min (counts.value k + k.amount out bytes) (2 ^ 64 - 1) := by
  have hlt := Word64.toNat_lt (counts.get k)
  cases k <;> cases out <;>
    simp [value, get, add, Counter.amount, Counter.isOut, Word64.toNat_satAdd] at hlt ⊢ <;> omega

theorem value_raise : (peaks.raise out counts).value k =
    if k.isOut = out then max (peaks.value k) (counts.value k) else peaks.value k := by
  cases k <;> cases out <;> simp [value, get, raise, Counter.isOut, Word64.toNat_max]

end Counts

/-! ### Histories -/

/-- An event that was charged to an account: its effective second, its direction and size, whether
it was admitted, and whether its flow was entered. -/
structure Charge where
  second : UInt64
  out : Bool
  bytes : UInt64
  admitted : Bool
  inserted : Bool

def Charge.amount (k : Counter) (c : Charge) : ℕ := k.amount c.out c.bytes

/-- What the events add up to in one of the counters. -/
def sumOf (k : Counter) (h : List Charge) : ℕ := Buckets.total (Charge.amount k) h

/-- What the events of one second add up to. -/
def sumIn (k : Counter) (second : UInt64) (h : List Charge) : ℕ :=
  Buckets.totalAt (Charge.amount k) Charge.second second h

/-- The effective seconds of the events, in order. -/
def seconds (h : List Charge) : List UInt64 := Buckets.keys Charge.second h

/-- No counter is exhausted. -/
structure Unsaturated (h : List Charge) : Prop where
  sums : ∀ k, sumOf k h < 2 ^ 64
  dropped : h.countP (fun c => !c.admitted) < 2 ^ 64
  inserted : h.countP Charge.inserted < 2 ^ 64

/-! ### The ledger tells the history -/

/-- The ledger is that of the history. -/
structure Tells (h : List Charge) (l : Ledger) : Prop where
  last : ∀ c ∈ h.getLast?, c.second = l.second
  bound : ∀ c ∈ h, c.second ≤ l.second
  finished : ∀ second ∈ (seconds h).dropLast, second < l.second
  counts : ∀ k, l.counts.value k = sumIn k l.second h
  totals : ∀ k, l.totals.value k = sumOf k h
  le_peaks : ∀ k, ∀ c ∈ h, sumIn k c.second h ≤ l.peaks.value k
  peaks : ∀ k, l.peaks.value k = 0 ∨ ∃ c ∈ h, sumIn k c.second h = l.peaks.value k
  samples : l.samples.map Counts.value =
    ((seconds h).dropLast.rtake 60).map fun second k => sumIn k second h

theorem tells_new (now : UInt64) : Tells [] (State.new now).ledger where
  last c hc := by cases hc
  bound c hc := by cases hc
  finished second hsecond := by cases hsecond
  counts := Counts.value_zero
  totals := Counts.value_zero
  le_peaks k c hc := by cases hc
  peaks k := Or.inl (Counts.value_zero k)
  samples := rfl

section Snoc

variable (k : Counter) (h : List Charge) (c : Charge)

theorem sumIn_snoc_self : sumIn k c.second (h ++ [c]) = sumIn k c.second h + c.amount k := by
  rw [sumIn, Buckets.totalAt_snoc, if_pos rfl]
  rfl

theorem sumIn_snoc_of_ne {second : UInt64} (hne : second ≠ c.second) :
    sumIn k second (h ++ [c]) = sumIn k second h := by
  rw [sumIn, Buckets.totalAt_snoc, if_neg hne.symm]
  rfl

theorem sumOf_snoc : sumOf k (h ++ [c]) = sumOf k h + c.amount k := Buckets.total_snoc _ _ _

theorem sumIn_le_sumOf (second : UInt64) : sumIn k second h ≤ sumOf k h :=
  Buckets.totalAt_le_total _ _ _ _

/-- Another event in the last second, or the first of all. -/
theorem dropLast_seconds_same (hlast : ∀ c' ∈ h.getLast?, c'.second = c.second) :
    (seconds (h ++ [c])).dropLast = (seconds h).dropLast := by
  rw [seconds, Buckets.keys_snoc, Buckets.addKey, Buckets.getLast?_keys]
  cases hh : h.getLast? with
  | none =>
      rw [List.getLast?_eq_none_iff.1 hh]
      rfl
  | some c' => rw [Option.map_some, hlast c' hh, if_pos rfl]; rfl

theorem dropLast_seconds_next {c' : Charge} (hh : h.getLast? = some c')
    (hne : c'.second ≠ c.second) :
    (seconds (h ++ [c])).dropLast = (seconds h).dropLast ++ [c'.second] := by
  have hlast : (seconds h).getLast? = some c'.second := by
    rw [seconds, Buckets.getLast?_keys, hh]
    rfl
  have hadd : seconds (h ++ [c]) = seconds h ++ [c.second] := by
    rw [seconds, Buckets.keys_snoc, Buckets.addKey, Buckets.getLast?_keys, hh, if_neg]
    · rfl
    · simpa using hne
  rw [hadd, List.dropLast_concat, List.dropLast_append_getLast? _ hlast]

end Snoc

namespace Tells

variable {h : List Charge} {l : Ledger} {call : EventCall} {c : Charge}

/-- The counters of the second of an event before it is counted. -/
theorem base (ht : Tells h l) {now : UInt64} (hnow : l.second ≤ now) (k : Counter) :
    (if l.second ≠ now then Counts.zero else l.counts).value k = sumIn k now h := by
  split
  · next hrolled =>
      rw [Counts.value_zero]
      refine (Buckets.totalAt_eq_zero _ _ fun c hc heq => hrolled ?_).symm
      exact UInt64.le_antisymm hnow (heq ▸ ht.bound c hc)
  · next hsame =>
      rw [ht.counts k, not_not.1 hsame]

theorem sumIn_le_peaks (ht : Tells h l) (k : Counter) (second : UInt64) :
    sumIn k second h ≤ l.peaks.value k := by
  by_cases hmem : ∃ c ∈ h, c.second = second
  · obtain ⟨c, hc, rfl⟩ := hmem
    exact ht.le_peaks k c hc
  · have hzero : sumIn k second h = 0 :=
      Buckets.totalAt_eq_zero _ _ fun c hc heq => hmem ⟨c, hc, heq⟩
    rw [hzero]
    exact Nat.zero_le _

section Event

variable (ht : Tells h l) (hsecond : c.second = max call.now l.second)
  (hout : c.out = call.out) (hbytes : c.bytes = call.bytes)

include hsecond in
theorem second_le : l.second ≤ c.second := by
  rw [hsecond, UInt64.le_iff_toNat_le, Word64.toNat_max]
  exact le_max_right _ _

include ht hsecond hout hbytes in
theorem counts_event (hunsat : ∀ k, sumOf k (h ++ [c]) < 2 ^ 64) (k : Counter) :
    (l.event call).counts.value k = sumIn k c.second (h ++ [c]) := by
  have hcounts : (l.event call).counts =
      (if l.second ≠ c.second then Counts.zero else l.counts).add c.out c.bytes := by
    rw [hsecond, hout, hbytes, Ledger.event]
    simp only [decide_eq_true_eq]
  have hle := (sumIn_le_sumOf k (h ++ [c]) c.second).trans_lt (hunsat k)
  rw [sumIn_snoc_self] at hle ⊢
  rw [hcounts, Counts.value_add, ht.base (second_le hsecond)]
  exact Nat.min_eq_left (Nat.le_pred_of_lt hle)

include ht hout hbytes in
theorem totals_event (hunsat : ∀ k, sumOf k (h ++ [c]) < 2 ^ 64) (k : Counter) :
    (l.event call).totals.value k = sumOf k (h ++ [c]) := by
  have htotals : (l.event call).totals = l.totals.add c.out c.bytes := by
    rw [hout, hbytes]
    rfl
  have hlt := hunsat k
  rw [sumOf_snoc] at hlt ⊢
  rw [htotals, Counts.value_add, ht.totals k]
  exact Nat.min_eq_left (Nat.le_pred_of_lt hlt)

include ht hout in
/-- The peak is the old one, or that of the second of the event. -/
theorem peaks_event (hcounts : ∀ k, (l.event call).counts.value k = sumIn k c.second (h ++ [c]))
    (k : Counter) :
    (l.event call).peaks.value k = max (l.peaks.value k) (sumIn k c.second (h ++ [c])) := by
  have hpeaks : (l.event call).peaks = l.peaks.raise c.out (l.event call).counts := by
    rw [hout]
    rfl
  rw [hpeaks, Counts.value_raise, hcounts]
  split
  · rfl
  · next hother =>
      have hamount : c.amount k = 0 := if_neg hother
      rw [sumIn_snoc_self, hamount, Nat.add_zero, max_eq_left (ht.sumIn_le_peaks k c.second)]

include ht hsecond in
/-- Whether or not the event begins another second, the samples are the last finished ones. -/
theorem samples_event (hfresh : h = [] → call.now = l.second) :
    (∀ second ∈ (seconds (h ++ [c])).dropLast, second < c.second) ∧
    (l.event call).samples.map Counts.value =
      ((seconds (h ++ [c])).dropLast.rtake 60).map fun second k => sumIn k second (h ++ [c]) := by
  -- the finished seconds are before that of the event, which adds nothing to them
  have hsums : ∀ ks : List UInt64, (∀ second ∈ ks, second < c.second) →
      (ks.rtake 60).map (fun second k => sumIn k second (h ++ [c])) =
        (ks.rtake 60).map fun second k => sumIn k second h := by
    intro ks hks
    refine List.map_congr_left fun second hmem => funext fun k => ?_
    exact sumIn_snoc_of_ne k h c (UInt64.ne_of_lt (hks second (List.mem_of_mem_drop hmem)))
  by_cases hsame : l.second = c.second
  · have hdrop : (seconds (h ++ [c])).dropLast = (seconds h).dropLast :=
      dropLast_seconds_same h c fun c' hc' => (ht.last c' hc').trans hsame
    have hsamples : (l.event call).samples = l.samples := by
      rw [Ledger.event, ← hsecond]
      simp [hsame]
    rw [hdrop, hsamples]
    have hfinished : ∀ second ∈ (seconds h).dropLast, second < c.second :=
      hsame ▸ ht.finished
    exact ⟨hfinished, by rw [hsums _ hfinished, ht.samples]⟩
  · have hlt : l.second < c.second := UInt64.lt_of_le_of_ne (second_le hsecond) hsame
    obtain ⟨c', hc'⟩ : ∃ c', h.getLast? = some c' := by
      cases hh : h.getLast? with
      | some c' => exact ⟨c', rfl⟩
      | none =>
          have hnow := hfresh (List.getLast?_eq_none_iff.1 hh)
          rw [hsecond, hnow] at hsame
          exact absurd (UInt64.toNat_inj.1 (by rw [Word64.toNat_max, max_self])) hsame
    have hlast : c'.second = l.second := ht.last c' hc'
    have hdrop : (seconds (h ++ [c])).dropLast = (seconds h).dropLast ++ [l.second] := by
      rw [← hlast]
      exact dropLast_seconds_next h c hc' (hlast ▸ hsame)
    have hfinished : ∀ second ∈ (seconds h).dropLast ++ [l.second], second < c.second := by
      intro second hmem
      obtain hmem | hmem := List.mem_append.1 hmem
      · exact UInt64.lt_trans (ht.finished second hmem) hlt
      · rw [List.mem_singleton.1 hmem]
        exact hlt
    have hsamples : (l.event call).samples = Buckets.push 60 l.samples l.counts := by
      rw [Ledger.event, ← hsecond]
      simp [hsame, Buckets.push]
    rw [hdrop, hsamples, hsums _ hfinished, Buckets.map_push, ht.samples, ← Buckets.push_rtake,
      Buckets.map_push]
    exact ⟨hfinished, congrArg _ (funext ht.counts)⟩

include ht hsecond hout hbytes in
/-- The ledger after one more event.  An account without events has no second that could be
finished. -/
theorem event (hfresh : h = [] → call.now = l.second)
    (hunsat : ∀ k, sumOf k (h ++ [c]) < 2 ^ 64) : Tells (h ++ [c]) (l.event call) := by
  have hcounts := ht.counts_event hsecond hout hbytes hunsat
  have hpeaks := ht.peaks_event hout hcounts
  obtain ⟨hfinished, hsamples⟩ := ht.samples_event hsecond hfresh
  have hnow : (l.event call).second = c.second := hsecond.symm
  refine ⟨?_, ?_, ?_, ?_, ht.totals_event hout hbytes hunsat, ?_, ?_, hsamples⟩
  · intro c' hc'
    rw [List.getLast?_concat] at hc'
    cases hc'
    exact hnow.symm
  · intro c' hc'
    rw [hnow]
    obtain hc' | hc' := List.mem_append.1 hc'
    · exact UInt64.le_trans (ht.bound c' hc') (second_le hsecond)
    · rw [List.mem_singleton.1 hc']
      exact UInt64.le_refl _
  · rw [hnow]
    exact hfinished
  · rw [hnow]
    exact hcounts
  · intro k c' hc'
    rw [hpeaks k]
    by_cases hsame : c'.second = c.second
    · rw [hsame]
      exact le_max_right _ _
    · rw [sumIn_snoc_of_ne k h c hsame]
      exact (ht.sumIn_le_peaks k c'.second).trans (le_max_left _ _)
  · intro k
    have hmem : c ∈ h ++ [c] := List.mem_append_right _ List.mem_cons_self
    rw [hpeaks k]
    obtain hlt | hle := Nat.lt_or_ge (sumIn k c.second (h ++ [c])) (l.peaks.value k)
    · rw [max_eq_left hlt.le]
      obtain hzero | ⟨c', hc', hpeak⟩ := ht.peaks k
      · exact Or.inl hzero
      · refine Or.inr ⟨c', List.mem_append_left _ hc', ?_⟩
        rw [sumIn_snoc_of_ne k h c, hpeak]
        -- the old peak is not in the second of the event, which is below it
        intro hsame
        rw [hsame] at hpeak
        rw [sumIn_snoc_self] at hlt
        omega
    · exact Or.inr ⟨c, hmem, (max_eq_right hle).symm⟩

end Event

end Tells

/-! ### The history of an account -/

/-- The effective second of an event. -/
def effective (h : List Charge) (call : EventCall) : UInt64 :=
  (h.getLast?.map fun c => max call.now c.second).getD call.now

variable {env : Env}

/-- The history of a user's account after another call.  It ends with the account. -/
def record (user : String) (h : List Charge) (step : CallStep env) : List Charge :=
  match step.after.bookOf user with
  | none => []
  | some book =>
      match step.call with
      | .maintain _ => h
      | .event call =>
          if call.user = user then
            let found := ((step.before.bookOf user).getD (.new call.now, call.now)).1
            h ++ [{
              second := effective h call
              out := call.out
              bytes := call.bytes
              admitted := step.answer.getD true
              inserted := flowEntered call found book.1 }]
          else h

/-- The events that were charged to a user's account since it was added. -/
def history (user : String) (steps : List (CallStep env)) : List Charge :=
  steps.foldl (record user) []

/-- The counters of the account are those of the history, while none of them is exhausted. -/
structure Recorded (policy : Policy) (h : List Charge) (st : State) : Prop where
  peakFlows : st.flows.size ≤ st.peakFlows
  observing : policy.enforce = false → ∀ c ∈ h, c.admitted = true
  tells : Unsaturated h → Tells h st.ledger
  drops : Unsaturated h → st.drops.toNat = h.countP fun c => !c.admitted
  faults : Unsaturated h → policy.enforce = true →
    st.breaches.toNat + st.untracked.toNat = h.countP fun c => !c.admitted
  newFlows : Unsaturated h → st.totalNewFlows.toNat = h.countP Charge.inserted

theorem recorded_new (policy : Policy) (now : UInt64) : Recorded policy [] (.new now) where
  peakFlows := le_rfl
  observing _ c hc := by cases hc
  tells _ := tells_new now
  drops _ := rfl
  faults _ _ := rfl
  newFlows _ := rfl

section Recorded

variable {h : List Charge} {c : Charge}

theorem Unsaturated.of_snoc (hu : Unsaturated (h ++ [c])) : Unsaturated h where
  sums k := by
    have hlt := hu.sums k
    rw [sumOf_snoc] at hlt
    omega
  dropped := by
    have hlt := hu.dropped
    rw [List.countP_append] at hlt
    omega
  inserted := by
    have hlt := hu.inserted
    rw [List.countP_append] at hlt
    omega

theorem toNat_add_one {a : UInt64} (h : a.toNat + 1 < 2 ^ 64) : (a + 1).toNat = a.toNat + 1 := by
  rw [UInt64.toNat_add]
  exact Nat.mod_eq_of_lt h

theorem toNat_counted {p : Charge → Bool} {n n' : UInt64} (hn : n.toNat = h.countP p)
    (hn' : n' = if p c then n + 1 else n) (hlt : (h ++ [c]).countP p < 2 ^ 64) :
    n'.toNat = (h ++ [c]).countP p := by
  rw [List.countP_append, List.countP_singleton] at hlt ⊢
  rw [hn']
  split
  · next hp =>
      rw [if_pos hp] at hlt
      rw [toNat_add_one (by omega), hn]
  · exact hn

theorem Recorded.event {call : EventCall} {s st : State} {slots : UInt64} {admitted : Bool}
    (hr : Recorded env.policy h s) (ho : Outcome env call s slots admitted st)
    (hfresh : h = [] → call.now = s.second) :
    Recorded env.policy (h ++ [⟨effective h call, call.out, call.bytes, admitted,
      flowEntered call s st⟩]) st where
  peakFlows := ho.size_le_peakFlows hr.peakFlows
  observing hobserve c hc := by
    obtain hc | hc := List.mem_append.1 hc
    · exact hr.observing hobserve c hc
    · rw [List.mem_singleton.1 hc]
      exact ho.admitted_of_observing hobserve
  tells hu := by
    have ht := hr.tells hu.of_snoc
    have hsecond : effective h call = max call.now s.second := by
      unfold effective
      cases hh : h.getLast? with
      | none =>
          rw [← hfresh (List.getLast?_eq_none_iff.1 hh)]
          exact UInt64.toNat_inj.1 (by rw [Word64.toNat_max, max_self]; rfl)
      | some c =>
          rw [Option.map_some, ht.last c hh]
          rfl
    rw [ho.ledger_eq]
    exact ht.event hsecond rfl rfl hfresh hu.sums
  drops hu := by
    refine toNat_counted (hr.drops hu.of_snoc) ?_ hu.dropped
    rw [ho.drops_eq]
    cases admitted <;> rfl
  faults hu henforce := by
    have hold := hr.faults hu.of_snoc henforce
    have hlt := hu.dropped
    rw [List.countP_append, List.countP_singleton] at hlt ⊢
    obtain ⟨rfl, hb, hu'⟩ | ⟨rfl, hb, hu'⟩ | ⟨rfl, hb, hu'⟩ := ho.faults henforce
    · rw [hb, hu', hold]
      rfl
    · simp only [Bool.not_false, if_true] at hlt ⊢
      rw [hb, hu', toNat_add_one (by omega)]
      omega
    · simp only [Bool.not_false, if_true] at hlt ⊢
      rw [hb, hu', toNat_add_one (by omega)]
      omega
  newFlows hu :=
    toNat_counted (hr.newFlows hu.of_snoc) ho.totalNewFlows_eq hu.inserted

end Recorded

/-! ### Along the calls -/

/-- An account has a history exactly if it is there, and its counters are those of the history. -/
structure Told (policy : Policy) (h : List Charge) (book : Option (State × UInt64)) : Prop where
  none : book = none → h = []
  some : ∀ b, book = some b → h ≠ [] ∧ Recorded policy h b.1

section Told

variable {s s' : Budgets env} {hist : String → List Charge}

theorem record_of_none {user : String} {h : List Charge} {step : CallStep env}
    (hnone : step.after.bookOf user = none) : record user h step = [] := by
  simp [record, hnone]

theorem told_event {call : EventCall} {admitted : Bool}
    (hs : ∀ user, Told env.policy (hist user) (s.bookOf user))
    (heffect : EventEffect call s admitted s') (user : String) :
    Told env.policy (record user (hist user) ⟨.event call, s, some admitted, s'⟩)
      (s'.bookOf user) := by
  -- the accounts of the other users
  have hother : s'.bookOf user = s.bookOf user → (s.bookOf user ≠ none → call.user ≠ user) →
      Told env.policy (record user (hist user) ⟨.event call, s, some admitted, s'⟩)
        (s'.bookOf user) := by
    intro hsame huser
    have hrecord : record user (hist user) ⟨.event call, s, some admitted, s'⟩ = hist user := by
      cases hbook : s.bookOf user with
      | none =>
          rw [record_of_none (hsame.trans hbook), (hs user).none hbook]
      | some b =>
          have hne := huser (by rw [hbook]; exact Option.some_ne_none b)
          simp [record, hsame, hbook, hne]
    rw [hrecord, hsame]
    exact hs user
  cases heffect with
  | refused _ hnone _ hbooks =>
      refine hother (hbooks user) fun hsome huser => hsome ?_
      rw [← huser]
      exact hnone
  | charged _ state lastUsed hbook hbooks =>
      by_cases huser : user = call.user
      · have hafter : s'.bookOf user = _ := (hbooks user).trans (if_pos huser)
        have hfound : (s.bookOf user).getD (.new call.now, call.now) = (state, lastUsed) :=
          huser ▸ hbook
        have hold : Recorded env.policy (hist user) state ∧
            (hist user = [] → call.now = state.second) := by
          cases hb : s.bookOf user with
          | none =>
              rw [hb] at hfound
              cases hfound
              rw [(hs user).none hb]
              exact ⟨recorded_new _ _, fun _ => rfl⟩
          | some b =>
              obtain ⟨hne, hrec⟩ := (hs user).some b hb
              rw [hb] at hfound
              cases hfound
              exact ⟨hrec, fun hnil => absurd hnil hne⟩
        have hrecord : record user (hist user)
            ⟨.event call, s, some (settle env call state s.slots).admitted, s'⟩ =
            hist user ++ [⟨effective (hist user) call, call.out, call.bytes,
              (settle env call state s.slots).admitted,
              flowEntered call state (settle env call state s.slots).state⟩] := by
          simp [record, hafter, huser.symm, hfound]
        rw [hrecord, hafter]
        refine ⟨fun hnone => (by cases hnone), fun b hb => ?_⟩
        cases hb
        exact ⟨by simp, hold.1.event (settle_outcome env call state s.slots) hold.2⟩
      · exact hother ((hbooks user).trans (if_neg huser)) fun _ => Ne.symm huser

theorem told_maintain {now : UInt64} (hs : ∀ user, Told env.policy (hist user) (s.bookOf user))
    (hbooks : ∀ user, s'.bookOf user = pruned now (kept now (s.bookOf user))) (user : String) :
    Told env.policy (record user (hist user) ⟨.maintain now, s, none, s'⟩) (s'.bookOf user) := by
  cases hafter : s'.bookOf user with
  | none => exact ⟨fun _ => record_of_none hafter, fun b hb => by cases hb⟩
  | some b' =>
      have hrecord : record user (hist user) ⟨.maintain now, s, none, s'⟩ = hist user := by
        simp [record, hafter]
      obtain ⟨b, hkept, rfl⟩ := Option.map_eq_some_iff.1 ((hbooks user).symm.trans hafter)
      obtain ⟨hne, hrec⟩ := (hs user).some b (Option.eq_some_of_filter_eq_some hkept)
      rw [hrecord]
      refine ⟨fun hnone => (by cases hnone), fun b' hb' => ?_⟩
      cases hb'
      exact ⟨hne, (b.1.size_retainFlows now).trans hrec.peakFlows, hrec.observing, hrec.tells,
        hrec.drops, hrec.faults, hrec.newFlows⟩

theorem told_calls {steps : List (CallStep env)} (hrun : Calls env s steps s')
    (hreached : Reached s) (hs : ∀ user, Told env.policy (hist user) (s.bookOf user))
    (user : String) : Told env.policy (steps.foldl (record user) (hist user)) (s'.bookOf user) := by
  induction hrun generalizing hist with
  | nil => exact hs user
  | event i call hevent _ ih =>
      obtain ⟨hreached', heffect⟩ := hreached.event hevent
      exact ih hreached' fun user => told_event hs heffect user
  | maintain now hmaintain _ ih =>
      obtain ⟨hreached', hbooks⟩ := hreached.maintain hmaintain
      exact ih hreached' fun user => told_maintain hs hbooks user

end Told

/-! ### The truth -/

/-- The counters of an account are those of its history. -/
structure Truthful (policy : Policy) (h : List Charge) (st : State) : Prop where
  totals : ∀ k, (st.totals.get k).toNat = sumOf k h
  peaks : ∀ k, IsGreatest {n | ∃ c ∈ h, sumIn k c.second h = n} (st.peaks.get k).toNat
  drops : st.drops.toNat = h.countP fun c => !c.admitted
  enforcing : policy.enforce = true → st.drops.toNat = st.breaches.toNat + st.untracked.toNat
  observing : policy.enforce = false → st.drops = 0
  newFlows : st.totalNewFlows.toNat = h.countP Charge.inserted
  peakFlows : st.flows.size ≤ st.peakFlows
  samples : st.samples.map (fun sample k => (sample.get k).toNat) =
    ((seconds h).dropLast.rtake 60).map fun second k => sumIn k second h

theorem Recorded.truthful {policy : Policy} {h : List Charge} {st : State}
    (hr : Recorded policy h st) (hne : h ≠ []) (hu : Unsaturated h) : Truthful policy h st where
  totals := (hr.tells hu).totals
  peaks k := by
    have ht := hr.tells hu
    refine ⟨?_, ?_⟩
    · obtain hzero | hpeak := ht.peaks k
      · obtain ⟨c, hc⟩ := List.exists_mem_of_ne_nil h hne
        have hle := ht.le_peaks k c hc
        exact ⟨c, hc, (Nat.le_zero.1 (hzero ▸ hle)).trans hzero.symm⟩
      · exact hpeak
    · rintro n ⟨c, hc, rfl⟩
      exact ht.le_peaks k c hc
  drops := hr.drops hu
  enforcing henforce := (hr.drops hu).trans (hr.faults hu henforce).symm
  observing hobserve := by
    have hdrops := hr.drops hu
    have hzero : (h.countP fun c => !c.admitted) = 0 :=
      List.countP_eq_zero.2 fun c hc => by simp [hr.observing hobserve c hc]
    exact UInt64.toNat_inj.1 (hdrops.trans hzero)
  newFlows := hr.newFlows hu
  peakFlows := hr.peakFlows
  samples := (hr.tells hu).samples

/-- The counters of an account tell the truth.  After any calls, the counters of every account are
those of the events that were charged to it since its state was created, while none of them is
exhausted. -/
theorem counters_tell_truth {steps : List (CallStep env)} {s : Budgets env}
    (hrun : Calls env .new steps s) {user : String} {st : State} {lastUsed : UInt64}
    (hbook : s.bookOf user = some (st, lastUsed)) (hunsat : Unsaturated (history user steps)) :
    Truthful env.policy (history user steps) st := by
  have hnew : ∀ user, Told env.policy [] ((.new : Budgets env).bookOf user) :=
    fun user => ⟨fun _ => rfl, fun b hb => by cases hb⟩
  obtain ⟨hne, hrec⟩ := (told_calls hrun reached_new hnew user).some _ hbook
  exact hrec.truthful hne hunsat

/-- Another packet of one user. -/
def packetStep (s : Budgets sampleEnv) : CallStep sampleEnv :=
  let r := ((eventAnswer sampleEnv (sampleCall "a" 0 53)).run (budgetSystem sampleEnv)
    (.caller firstCaller) s).getD (true, s)
  ⟨.event (sampleCall "a" 0 53), s, some r.1, r.2⟩

/-- The second of two packets is dropped. -/
theorem counters_tell_truth_sample :
    ∃ steps s st lastUsed, Calls sampleEnv .new steps s ∧ s.bookOf "a" = some (st, lastUsed) ∧
      (history "a" steps).map Charge.admitted = [true, false] ∧
      Truthful sampleEnv.policy (history "a" steps) st := by
  have hrun : Calls sampleEnv .new
      [packetStep .new, packetStep (packetStep .new).after]
      (packetStep (packetStep .new).after).after :=
    .event firstCaller (sampleCall "a" 0 53) rfl
      (.event firstCaller (sampleCall "a" 0 53) rfl (.nil _))
  have hunsat : Unsaturated (history "a" [packetStep .new, packetStep (packetStep .new).after]) :=
    ⟨fun k => by cases k <;> decide +kernel, by decide +kernel, by decide +kernel⟩
  have hbook : ((packetStep (packetStep .new).after).after.bookOf "a").isSome = true := by
    decide +kernel
  obtain ⟨⟨st, lastUsed⟩, hbook⟩ := Option.isSome_iff_exists.1 hbook
  exact ⟨_, _, st, lastUsed, hrun, hbook, by decide +kernel, counters_tell_truth hrun hbook hunsat⟩

end SwiftRelay.AccountBudget
