/-
**The account of a user.**

All sessions of an authenticated user share one account, which counts what they send and receive.
Packets and bytes are counted by the second and new flows by the minute; both windows move on with
the events, never back.  An event is *charged* to the account whether or not it is then dropped.

This module has the state of an account and what an event and a maintenance pass do to it, cut where
the code touches the counter of tracked flows that all accounts share.

Main definitions:

* `Policy`, `Flow`, `State`;
* `State.enter`, `State.charge`, `State.noteUntracked`, `State.track` — the parts of an event;
* `State.retainFlows` — the part of a maintenance pass.

Main results:

* `State.flows_enter`, `State.size_track` — the number of tracked flows;
* `State.enter_windows` — the windows after time has moved on;
* `State.charge_windows`, `State.within_of_charge` — the windows after an event was counted, and
  what it means that no limit is exceeded.
-/

import SwiftRelay.Address
import SwiftRelay.Table
import SwiftRelay.Word64

set_option autoImplicit false

namespace SwiftRelay.AccountBudget

/-! ### Policy, flows and counters -/

/-- The limits of an account; zero means unlimited. -/
structure Policy where
  enforce : Bool
  packets : UInt64
  bytes : UInt64
  newFlows : UInt64
  deriving DecidableEq

structure Flow where
  sid : SessionId
  proto : UInt8
  src : Ipv4Addr
  dst : Ipv4Addr
  sport : UInt16
  dport : UInt16
  deriving DecidableEq

/-- Packets and bytes in, packets and bytes out. -/
structure Counts where
  packetsIn : UInt64
  bytesIn : UInt64
  packetsOut : UInt64
  bytesOut : UInt64
  deriving DecidableEq

namespace Counts

def zero : Counts := ⟨0, 0, 0, 0⟩

/-- One packet more in one direction. -/
def add (counts : Counts) (out : Bool) (bytes : UInt64) : Counts :=
  if out then
    { counts with
      packetsOut := Word64.satAdd counts.packetsOut 1
      bytesOut := Word64.satAdd counts.bytesOut bytes }
  else
    { counts with
      packetsIn := Word64.satAdd counts.packetsIn 1
      bytesIn := Word64.satAdd counts.bytesIn bytes }

/-- The larger of the counters of one direction. -/
def raise (peaks : Counts) (out : Bool) (counts : Counts) : Counts :=
  if out then
    { peaks with
      packetsOut := max peaks.packetsOut counts.packetsOut
      bytesOut := max peaks.bytesOut counts.bytesOut }
  else
    { peaks with
      packetsIn := max peaks.packetsIn counts.packetsIn
      bytesIn := max peaks.bytesIn counts.bytesIn }

/-- Packets in both directions. -/
def packets (counts : Counts) : UInt64 := Word64.satAdd counts.packetsIn counts.packetsOut

/-- Bytes in both directions. -/
def bytes (counts : Counts) : UInt64 := Word64.satAdd counts.bytesIn counts.bytesOut

/-- The packets in both directions, as a number. -/
def packetTotal (counts : Counts) : ℕ := counts.packetsIn.toNat + counts.packetsOut.toNat

/-- The bytes in both directions, as a number. -/
def byteTotal (counts : Counts) : ℕ := counts.bytesIn.toNat + counts.bytesOut.toNat

section Add

variable (counts : Counts) (out : Bool) (bytes : UInt64)

theorem packetTotal_le_add : counts.packetTotal ≤ (counts.add out bytes).packetTotal := by
  have hin := UInt64.toNat_lt counts.packetsIn
  have hout := UInt64.toNat_lt counts.packetsOut
  cases out <;> simp [packetTotal, add, Word64.toNat_satAdd] <;> omega

theorem byteTotal_le_add : counts.byteTotal ≤ (counts.add out bytes).byteTotal := by
  have hin := UInt64.toNat_lt counts.bytesIn
  have hout := UInt64.toNat_lt counts.bytesOut
  cases out <;> simp [byteTotal, add, Word64.toNat_satAdd] <;> omega

/-- A packet that keeps the counters below their maximum is counted. -/
theorem packetTotal_add {counts : Counts} {limit : UInt64} (hlimit : limit.toNat < 2 ^ 64 - 1)
    (h : (counts.add out bytes).packets.toNat ≤ limit.toNat) :
    (counts.add out bytes).packetTotal = counts.packetTotal + 1 ∧
      (counts.add out bytes).packetTotal ≤ limit.toNat := by
  cases out <;> simp [packetTotal, packets, add, Word64.toNat_satAdd] at h ⊢ <;> omega

theorem byteTotal_add {counts : Counts} {limit : UInt64} (hlimit : limit.toNat < 2 ^ 64 - 1)
    (h : (counts.add out bytes).bytes.toNat ≤ limit.toNat) :
    (counts.add out bytes).byteTotal = counts.byteTotal + bytes.toNat ∧
      (counts.add out bytes).byteTotal ≤ limit.toNat := by
  cases out <;> simp [byteTotal, Counts.bytes, add, Word64.toNat_satAdd] at h ⊢ <;> omega

end Add

end Counts

def flowIdleSeconds : UInt64 := 120

def accountIdleSeconds : UInt64 := 600

/-! ### The state of an account -/

structure State where
  second : UInt64
  minute : UInt64
  counts : Counts
  totals : Counts
  peaks : Counts
  samples : List Counts
  newFlows : UInt64
  totalNewFlows : UInt64
  peakFlows : ℕ
  breaches : UInt64
  drops : UInt64
  untracked : UInt64
  flows : Table Flow UInt64

namespace State

def new (now : UInt64) : State where
  second := now
  minute := now / 60
  counts := .zero
  totals := .zero
  peaks := .zero
  samples := []
  newFlows := 0
  totalNewFlows := 0
  peakFlows := 0
  breaches := 0
  drops := 0
  untracked := 0
  flows := ∅

/-- Begin another second, and keep what was counted in the last sixty. -/
def rollSecond (s : State) (now : UInt64) : State :=
  if s.second ≠ now then
    { s with
      samples := (if s.samples.length = 60 then s.samples.drop 1 else s.samples) ++ [s.counts]
      counts := .zero
      second := now }
  else s

/-- Begin another minute. -/
def rollMinute (s : State) (now : UInt64) : State :=
  if s.minute ≠ now / 60 then { s with newFlows := 0, minute := now / 60 } else s

/-- The flow is tracked, but has not been seen for long. -/
def isStale (s : State) (key : Flow) (now : UInt64) : Bool :=
  (s.flows.lookup key).any fun seen => Word64.satSub now seen ≥ flowIdleSeconds

/-- The first part of an event: time moves on, and a flow that went stale is forgotten.  The answer
is the effective time of the event and whether a flow was forgotten. -/
def enter (s : State) (now : UInt64) (flow : Option Flow) : (UInt64 × Bool) × State :=
  -- an older timestamp does not reopen a window
  let now := max now s.second
  let s := (s.rollSecond now).rollMinute now
  match flow with
  | none => ((now, false), s)
  | some key =>
      if s.isStale key now then ((now, true), { s with flows := s.flows.erase key })
      else ((now, false), s)

/-- The event has a flow that is not tracked. -/
def isNewFlow (s : State) (flow : Option Flow) : Bool :=
  flow.any fun key => (s.flows.lookup key).isNone

def exceeded (policy : Policy) (s : State) (newFlow : Bool) : Bool :=
  (policy.packets > 0 && s.counts.packets > policy.packets) ||
  (policy.bytes > 0 && s.counts.bytes > policy.bytes) ||
  (newFlow && policy.newFlows > 0 && s.newFlows ≥ policy.newFlows)

/-- The second part of an event: it is counted, and compared with the limits.  The answer is whether
its flow is new and whether a limit is exceeded. -/
def charge (policy : Policy) (s : State) (out : Bool) (bytes : UInt64) (flow : Option Flow) :
    (Bool × Bool) × State :=
  let counts := s.counts.add out bytes
  let s := { s with
    counts
    totals := s.totals.add out bytes
    peaks := s.peaks.raise out counts }
  let newFlow := s.isNewFlow flow
  let exceeded := s.exceeded policy newFlow
  let s :=
    if exceeded then
      { s with
        breaches := s.breaches + 1
        drops := if policy.enforce then s.drops + 1 else s.drops }
    else s
  ((newFlow, exceeded), s)

/-- There was no room to track the flow of the event. -/
def noteUntracked (policy : Policy) (s : State) : State :=
  { s with
    untracked := s.untracked + 1
    drops := if policy.enforce then s.drops + 1 else s.drops }

/-- The last part of an event: its flow has been seen. -/
def track (s : State) (key : Flow) (now : UInt64) (newFlow : Bool) : State :=
  let s :=
    if newFlow then
      { s with newFlows := s.newFlows + 1, totalNewFlows := s.totalNewFlows + 1 }
    else s
  let flows := s.flows.insert key now
  { s with flows, peakFlows := max s.peakFlows flows.size }

/-- Forget the flows that have not been seen for long. -/
def retainFlows (s : State) (now : UInt64) : State :=
  { s with flows := s.flows.retain fun _ seen => Word64.satSub now seen < flowIdleSeconds }

/-! ### The tracked flows -/

section Flows

variable (s : State) (now : UInt64) (flow : Option Flow)

@[simp] theorem flows_rollSecond : (s.rollSecond now).flows = s.flows := by
  unfold rollSecond
  split <;> rfl

@[simp] theorem flows_rollMinute : (s.rollMinute now).flows = s.flows := by
  unfold rollMinute
  split <;> rfl

theorem flows_enter :
    ((s.enter now flow).1.2 = true ∧ (s.enter now flow).2.flows.size + 1 = s.flows.size) ∨
    ((s.enter now flow).1.2 = false ∧ (s.enter now flow).2.flows = s.flows) := by
  unfold enter
  cases flow with
  | none => exact Or.inr ⟨rfl, by simp⟩
  | some key =>
      simp only
      split
      · next hstale =>
          unfold isStale at hstale
          obtain ⟨seen, hseen, -⟩ := (Option.any_eq_true _ _).1 hstale
          refine Or.inl ⟨rfl, ?_⟩
          rw [Table.size_erase hseen, flows_rollMinute, flows_rollSecond]
      · exact Or.inr ⟨rfl, by simp⟩

@[simp] theorem flows_charge (policy : Policy) (out : Bool) (bytes : UInt64) :
    (s.charge policy out bytes flow).2.flows = s.flows := by
  unfold charge
  simp only
  split <;> rfl

theorem isNewFlow_charge (policy : Policy) (out : Bool) (bytes : UInt64) :
    (s.charge policy out bytes flow).1.1 = s.isNewFlow flow := rfl

@[simp] theorem flows_noteUntracked (policy : Policy) :
    (s.noteUntracked policy).flows = s.flows := rfl

theorem size_track (key : Flow) (newFlow : Bool) (h : s.isNewFlow (some key) = newFlow) :
    (s.track key now newFlow).flows.size = s.flows.size + if newFlow then 1 else 0 := by
  have hflows : (s.track key now newFlow).flows = s.flows.insert key now := by
    unfold track
    cases newFlow <;> rfl
  rw [hflows, ← h]
  cases hlookup : s.flows.lookup key with
  | none => simp [isNewFlow, hlookup, Table.size_insert_of_none _ hlookup]
  | some seen => simp [isNewFlow, hlookup, Table.size_insert_of_some _ hlookup]

theorem size_retainFlows : (s.retainFlows now).flows.size ≤ s.flows.size :=
  List.length_filter_le _ _

end Flows

/-! ### The windows -/

section Windows

variable (s : State) (now : UInt64) (flow : Option Flow)

theorem rollSecond_windows :
    (s.rollSecond now).second = now ∧ (s.rollSecond now).minute = s.minute ∧
    (s.rollSecond now).newFlows = s.newFlows ∧
    ((s.rollSecond now).counts = s.counts ∨ s.second ≠ now) := by
  unfold rollSecond
  split
  · next hne => exact ⟨rfl, rfl, rfl, Or.inr hne⟩
  · next heq => exact ⟨not_not.1 heq, rfl, rfl, Or.inl rfl⟩

theorem rollMinute_windows :
    (s.rollMinute now).second = s.second ∧ (s.rollMinute now).minute = now / 60 ∧
    (s.rollMinute now).counts = s.counts ∧
    ((s.rollMinute now).newFlows = s.newFlows ∨ s.minute ≠ now / 60) := by
  unfold rollMinute
  split
  · next hne => exact ⟨rfl, rfl, rfl, Or.inr hne⟩
  · next heq => exact ⟨rfl, not_not.1 heq, rfl, Or.inl rfl⟩

/-- Time moves on, and the counters start again with their window. -/
theorem enter_windows :
    (s.enter now flow).1.1 = max now s.second ∧
    (s.enter now flow).2.second = max now s.second ∧
    (s.enter now flow).2.minute = max now s.second / 60 ∧
    ((s.enter now flow).2.counts = s.counts ∨ s.second ≠ max now s.second) ∧
    ((s.enter now flow).2.newFlows = s.newFlows ∨ s.minute ≠ max now s.second / 60) := by
  obtain ⟨hsecond, hminute, hflows, hcounts⟩ := s.rollSecond_windows (max now s.second)
  obtain ⟨hsecond', hminute', hcounts', hflows'⟩ :=
    (s.rollSecond (max now s.second)).rollMinute_windows (max now s.second)
  rw [← hsecond'] at hsecond
  rw [← hcounts'] at hcounts
  rw [hflows, hminute] at hflows'
  unfold enter
  cases flow with
  | none => exact ⟨rfl, hsecond, hminute', hcounts, hflows'⟩
  | some key =>
      simp only
      split <;> exact ⟨rfl, hsecond, hminute', hcounts, hflows'⟩

variable (policy : Policy) (out : Bool) (bytes : UInt64)

/-- An event is counted in both windows that it can exceed. -/
theorem charge_windows :
    (s.charge policy out bytes flow).2.second = s.second ∧
    (s.charge policy out bytes flow).2.minute = s.minute ∧
    (s.charge policy out bytes flow).2.newFlows = s.newFlows ∧
    (s.charge policy out bytes flow).2.counts = s.counts.add out bytes := by
  unfold charge
  simp only
  split <;> exact ⟨rfl, rfl, rfl, rfl⟩

theorem within_of_charge (h : (s.charge policy out bytes flow).1.2 = false) :
    (0 < policy.packets → (s.counts.add out bytes).packets.toNat ≤ policy.packets.toNat) ∧
    (0 < policy.bytes → (s.counts.add out bytes).bytes.toNat ≤ policy.bytes.toNat) ∧
    (s.isNewFlow flow = true → 0 < policy.newFlows →
      s.newFlows.toNat < policy.newFlows.toNat) := by
  have hexceeded : State.exceeded policy { s with counts := s.counts.add out bytes }
      (s.isNewFlow flow) = false := h
  simp only [exceeded, Bool.or_eq_false_iff, Bool.and_eq_false_imp, Bool.and_eq_true,
    decide_eq_true_eq, decide_eq_false_iff_not, UInt64.lt_iff_toNat_lt, gt_iff_lt, ge_iff_le,
    UInt64.le_iff_toNat_le] at hexceeded
  obtain ⟨⟨hpackets, hbytes⟩, hflows⟩ := hexceeded
  simp only [UInt64.lt_iff_toNat_lt]
  exact ⟨fun hlimit => Nat.le_of_not_lt (hpackets hlimit),
    fun hlimit => Nat.le_of_not_lt (hbytes hlimit),
    fun hnew hlimit => Nat.lt_of_not_le (hflows ⟨hnew, hlimit⟩)⟩

end Windows

end State

end SwiftRelay.AccountBudget
