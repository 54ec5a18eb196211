/-
**Idle flows in the first datapath.**

The flow map of the first datapath is cleaned up by soft deletion too, but the three kinds of
activity treat a mark differently: a client packet and a response take it back, a keepalive only
moves the last activity.  The cleanup looks at the age of a mark before it looks at the last
activity, and its passes are as far apart as the grace period, so a keepalive does not save a flow
that is marked.

As long as keepalives find only flows without a mark, every flow that the cleanup removes has been
idle for the timeout and the grace period.

Main definitions:

* `flowActivity` — when an event of a run counts as activity of a flow;
* `ReadsForward` — the clock does not go back from one activity of a flow to the next;
* `KeepsUnmarked` — a keepalive finds its flow without a mark.

Main results:

* `v1_cleanup_removes_idle_flows` — every run in which this is so;
* `v1_cleanup_removes_kept_flow` — a flow goes ten seconds after a keepalive for it.
-/

import SwiftRelay.SessionCounts
import SwiftRelay.SoftDelete

set_option autoImplicit false

namespace SwiftRelay

open Conc SoftDelete

/-! ### The cleanup of a flow is a soft deletion -/

def FlowEntry.timing (flow : FlowEntry) : Timing := ⟨flow.lastActivity, flow.markedForRemoval⟩

theorem FlowEntry.timing_cleanup (flow : FlowEntry) (now : Instant) :
    (flow.cleanup now).map FlowEntry.timing =
      flow.timing.sweep sessionTimeout flowGracePeriod (secs 10) now := by
  unfold FlowEntry.cleanup Timing.sweep durationSince
  cases hmark : flow.markedForRemoval with
  | none =>
      simp only [FlowEntry.timing, hmark]
      split <;> simp [FlowEntry.timing, hmark]
  | some markedAt =>
      simp only [FlowEntry.timing, hmark]
      split
      · rfl
      · split <;> simp [FlowEntry.timing, hmark]

/-! ### Activity -/

variable {env : RelayEnv} {key : FlowKey}

/-- The time at which an event counts as activity of the flow. -/
def flowActivity (key : FlowKey) : RelayEvent env → Option Instant
  | .exec _ (.v1 o) _ pre _ => o.activity key (pre.v1.flows.lookup key)
  | _ => none

/-- The clock does not go back from one activity of a flow to the next. -/
def ReadsForward (w : RelayWorld env) (e : RelayEvent env) : Prop :=
  ∀ key now, flowActivity key e = some now →
    ∀ e' ∈ w.hist, ∀ earlier, flowActivity key e' = some earlier → earlier ≤ now

/-- A keepalive finds the flow without a mark. -/
def KeepsUnmarked (w : RelayWorld env) : RelayEvent env → Prop
  | .exec _ (.v1 (.flowKeepalive key _ _)) _ _ _ =>
      ∀ flow, w.st.v1.flows.lookup key = some flow → flow.markedForRemoval = none
  | _ => True

/-! ### Every run -/

/-- The activity of the flow so far is not later than its last activity, and the mark is later by
the timeout. -/
structure TrackedEntry (key : FlowKey) (hist : List (RelayEvent env)) (flow : FlowEntry) :
    Prop where
  recorded : ∀ e ∈ hist, ∀ now, flowActivity key e = some now → now ≤ flow.lastActivity
  settled : flow.timing.Settled sessionTimeout

variable {e : RelayEvent env} {w : RelayWorld env}

/-- An event that is no activity of the flow, and that leaves its times alone. -/
theorem TrackedEntry.cons {hist : List (RelayEvent env)} {flow flow' : FlowEntry}
    (h : TrackedEntry key hist flow) (he : flowActivity key e = none)
    (hlast : flow'.lastActivity = flow.lastActivity)
    (hsettled : flow'.timing.Settled sessionTimeout) : TrackedEntry key (e :: hist) flow' := by
  refine ⟨fun e' he' now hnow => ?_, hsettled⟩
  rcases List.mem_cons.1 he' with rfl | he'
  · rw [he] at hnow
    cases hnow
  · rw [hlast]
    exact h.recorded e' he' now hnow

theorem TrackedEntry.of_activity {flow : FlowEntry}
    (he : flowActivity key e = some flow.lastActivity) (hclock : ReadsForward w e)
    (hmark : flow.markedForRemoval = none) : TrackedEntry key (e :: w.hist) flow := by
  refine ⟨fun e' he' now hnow => ?_, Timing.settled_of_unmarked hmark⟩
  rcases List.mem_cons.1 he' with rfl | he'
  · rw [he] at hnow
    exact Nat.le_of_eq (Option.some.inj hnow).symm
  · exact hclock key _ he e' he' now hnow

theorem trackedEntry_exec {t : Tid} {o : V1Op} {r : o.Ret} {st : RelayState}
    (h : ∀ flow, w.st.v1.flows.lookup key = some flow → TrackedEntry key w.hist flow)
    (hexec : execRelay env t (.v1 o) w.st = some (r, st))
    (hclock : ReadsForward w (.exec t (.v1 o) r w.st st))
    (hkeeps : KeepsUnmarked w (.exec t (.v1 o) r w.st st)) {flow' : FlowEntry}
    (hflow' : st.v1.flows.lookup key = some flow') :
    TrackedEntry key (.exec t (.v1 o) r w.st st :: w.hist : List (RelayEvent env)) flow' := by
  have hstep := flowEntryStep (execRelay_v1 hexec).1 key
  have hactivity : flowActivity key (.exec t (.v1 o) r w.st st : RelayEvent env) =
    o.activity key (w.st.v1.flows.lookup key) := rfl
  rw [hflow'] at hstep
  generalize hflow : w.st.v1.flows.lookup key = x, hy : some flow' = y at hstep
  rw [hflow] at hactivity
  cases hstep with
  | opened addr info payload now ho =>
      cases hy
      exact .of_activity (by rw [hactivity, ho, V1Op.activity, if_pos rfl]) hclock rfl
  | used flow addr info payload now newFlow ho =>
      cases hy
      exact .of_activity (by rw [hactivity, ho, V1Op.activity, if_pos rfl]; rfl) hclock rfl
  | kept flow addr now ho =>
      cases hy
      have hmark : flow.markedForRemoval = none := by
        subst ho
        exact hkeeps flow hflow
      exact .of_activity (by rw [hactivity, ho, V1Op.activity, if_pos rfl]; rfl) hclock hmark
  | touched flow now ho =>
      cases hy
      exact .of_activity (by simp [hactivity, ho, V1Op.activity, FlowEntry.touch]) hclock rfl
  | removed flow ho => cases hy
  | swept flow now ho =>
      have hkey := h flow hflow
      have hsweep := FlowEntry.timing_cleanup flow now
      rw [← hy, Option.map_some] at hsweep
      exact hkey.cons (by rw [hactivity, ho]; rfl) (Timing.sweep_lastActivity hsweep.symm)
        (Timing.settled_sweep (by decide) hkey.settled hsweep.symm)
  | absent => cases hy
  | same flow ho =>
      cases hy
      have hkey := h flow' hflow
      exact hkey.cons (by rw [hactivity, ho]) rfl hkey.settled

theorem trackedEntry_run {bucketOf : Ipv4Addr → ℕ} {createdAt : Instant}
    {c : (relaySystem env).Config}
    (h : (relaySystem env).Run (fun w e => ReadsForward w e ∧ KeepsUnmarked w e)
      (relayStart env bucketOf createdAt) c) {flow : FlowEntry}
    (hflow : c.st.v1.flows.lookup key = some flow) : TrackedEntry key c.hist flow := by
  induction h generalizing flow with
  | refl => cases hflow
  | tail _ hstep ih =>
      obtain ⟨e, ⟨hclock, hkeeps⟩, hstep⟩ := hstep
      cases hstep with
      | start a hidle =>
          have hkey := ih hflow
          exact hkey.cons rfl rfl hkey.settled
      | exec t o k r st hctl hexec =>
          have hexec : execRelay env t o _ = some (r, st) := hexec
          cases o with
          | v1 o => exact trackedEntry_exec (fun _ => ih) hexec hclock hkeeps hflow
          | core o =>
              have hflow : st.v1.flows.lookup key = some flow := hflow
              rw [(execRelay_core hexec).2.1] at hflow
              exact (ih hflow).cons rfl rfl (ih hflow).settled
          | v2 o =>
              have hflow : st.v1.flows.lookup key = some flow := hflow
              rw [(execRelay_v2 hexec).2.2] at hflow
              exact (ih hflow).cons rfl rfl (ih hflow).settled

/-- **Only idle flows are cleaned up, as long as keepalives find no mark.**  Whenever the cleanup
task removes a flow, no client packet for it, keepalive of its session or response on it refreshed
the flow in the timeout and the grace period before. -/
theorem v1_cleanup_removes_idle_flows {bucketOf : Ipv4Addr → ℕ} {createdAt : Instant}
    {c c' : (relaySystem env).Config}
    (h : (relaySystem env).Run (fun w e => ReadsForward w e ∧ KeepsUnmarked w e)
      (relayStart env bucketOf createdAt) c) {t : Tid} {i : ℕ} {now : Instant} {r : Unit}
    {pre post : RelayState}
    (hstep : (relaySystem env).Step c (.exec t (.v1 (.flowsRetain i now)) r pre post) c')
    (hbefore : c.st.v1.flows.lookup key ≠ none) (hafter : c'.st.v1.flows.lookup key = none) :
    ∀ e ∈ c.hist, ∀ τ, flowActivity key e = some τ →
      τ + (sessionTimeout + flowGracePeriod) ≤ now := by
  intro e he τ hτ
  obtain ⟨flow, hflow⟩ := Option.ne_none_iff_exists'.1 hbefore
  have htracked := trackedEntry_run h hflow
  cases hstep with
  | exec _ _ _ _ st hctl hexec =>
      have hexec : execRelay env t (.v1 (.flowsRetain i now)) c.st = some (r, post) := hexec
      have hafter : post.v1.flows.lookup key = none := hafter
      have hswept := flowEntryStep (execRelay_v1 hexec).1 key
      rw [hflow] at hswept
      obtain hremove | ⟨now', ho, hcleanup⟩ := hswept.gone hafter
      · cases hremove
      · cases ho
        have hsweep := FlowEntry.timing_cleanup flow now
        rw [hcleanup, Option.map_none] at hsweep
        have hidle := Timing.idle_of_swept (by decide) htracked.settled hsweep.symm
        exact (Nat.add_le_add_right (htracked.recorded e he τ hτ) _).trans hidle

/-! ### Sample runs -/

/-- The flow that an operation is about. -/
def V1Op.activeKey : V1Op → Option FlowKey
  | .flowForward key .. => some key
  | .flowKeepalive key .. => some key
  | .flowTouchIf key .. => some key
  | _ => none

theorem V1Op.activeKey_of_activity {o : V1Op} {flow : Option FlowEntry} {now : Instant}
    (h : o.activity key flow = some now) : o.activeKey = some key := by
  cases o <;> simp_all [V1Op.activity, V1Op.activeKey]

/-- The test of `ReadsForward`. -/
def readsForward (w : RelayWorld env) : RelayEvent env → Bool
  | .exec t (.v1 o) r pre post =>
      o.activeKey.all fun key =>
        (flowActivity key (.exec t (.v1 o) r pre post : RelayEvent env)).all fun now =>
          w.hist.all fun e' => (flowActivity key e').all fun earlier => decide (earlier ≤ now)
  | _ => true

theorem readsForward_of_test (h : readsForward w e = true) : ReadsForward w e := by
  intro key now hnow e' he' earlier hearlier
  cases e with
  | start a => cases hnow
  | exec t o r pre post =>
      cases o with
      | v1 o =>
          have hkey : o.activeKey = some key := V1Op.activeKey_of_activity hnow
          simp only [readsForward, hkey, hnow, Option.all_some] at h
          have he := List.all_eq_true.1 h e' he'
          rw [hearlier] at he
          exact of_decide_eq_true he
      | core o => cases hnow
      | v2 o => cases hnow

/-- The test of `KeepsUnmarked`. -/
def keepsUnmarked (w : RelayWorld env) : RelayEvent env → Bool
  | .exec _ (.v1 (.flowKeepalive key _ _)) _ _ _ =>
      (w.st.v1.flows.lookup key).all fun flow => flow.markedForRemoval = none
  | _ => true

theorem keepsUnmarked_of_test (h : keepsUnmarked w e = true) : KeepsUnmarked w e := by
  unfold KeepsUnmarked
  split
  · intro flow hflow
    simp only [keepsUnmarked, hflow] at h
    exact of_decide_eq_true h
  · trivial

/-- A relay in the first datapath that does not ask for tickets. -/
def openEnvV1 : RelayEnv := { openEnv with datapath := .v1 }

abbrev openStartV1 : (relaySystem openEnvV1).Config := relayStart openEnvV1 (fun _ => 0) 0

/-- The cleanup is about to visit the flow map. -/
def isFlowsRetain (now : Instant) : RelayOp → Bool
  | .v1 (.flowsRetain i now') => i = 0 ∧ now' = now
  | _ => false

theorem eq_of_isFlowsRetain {now : Instant} {o : RelayOp} (h : isFlowsRetain now o = true) :
    o = .v1 (.flowsRetain 0 now) := by
  unfold isFlowsRetain at h
  split at h
  · obtain ⟨rfl, rfl⟩ := of_decide_eq_true h
    rfl
  · cases h

/-- The flow of the sample packet is there, the next visit of the cleanup removes it, and there was
activity at time `τ`. -/
def Doomed (now τ : Instant) (c : (relaySystem openEnvV1).Config) : Prop :=
  c.st.v1.flows.lookup sampleFlowKey ≠ none ∧
    System.ready (M := relaySystem openEnvV1) .cleanup (isFlowsRetain now) (c.st, c.ctl) = true ∧
    (System.outcome (M := relaySystem openEnvV1) System.free [.fire .cleanup 1]
      (c.st, c.ctl)).1.v1.flows.lookup sampleFlowKey = none ∧
    ∃ e ∈ c.hist, flowActivity sampleFlowKey e = some τ

instance (now τ : Instant) (c : (relaySystem openEnvV1).Config) : Decidable (Doomed now τ c) :=
  inferInstanceAs (Decidable (_ ∧ _ ∧ _ ∧ ∃ e ∈ c.hist, flowActivity sampleFlowKey e = some τ))

theorem Doomed.step {now τ : Instant} {c : (relaySystem openEnvV1).Config} (h : Doomed now τ c) :
    ∃ c' r post, (relaySystem openEnvV1).Step c
        (.exec .cleanup (.v1 (.flowsRetain 0 now)) r c.st post) c' ∧
      c'.st.v1.flows.lookup sampleFlowKey = none := by
  obtain ⟨-, hready, hafter, -⟩ := h
  obtain ⟨o, r, st, c', hasked, hstep, hshows⟩ := System.Config.Shows.step
    (M := relaySystem openEnvV1) (x := (c.st, c.ctl)) ⟨rfl, rfl⟩ .cleanup (isFlowsRetain now) hready
  obtain rfl := eq_of_isFlowsRetain hasked
  exact ⟨c', r, st, hstep, by rw [hshows.1]; exact hafter⟩

/-- A client packet opens a flow at time zero.  The flow is marked after three minutes, and removed
half a minute later. -/
theorem v1_cleanup_removes_idle_flows_sample :
    ∃ c c' r post, (relaySystem openEnvV1).Run (fun w e => ReadsForward w e ∧ KeepsUnmarked w e)
        openStartV1 c ∧
      (relaySystem openEnvV1).Step c
        (.exec .cleanup (.v1 (.flowsRetain 0 (secs 210))) r c.st post) c' ∧
      (∃ e ∈ c.hist, flowActivity sampleFlowKey e = some 0) ∧
      ∀ e ∈ c.hist, ∀ τ, flowActivity sampleFlowKey e = some τ →
        τ + (sessionTimeout + flowGracePeriod) ≤ secs 210 := by
  have hreplay : ((System.Config.replay (M := relaySystem openEnvV1)
      (fun w e => readsForward w e && keepsUnmarked w e)
      [.start (.datagram (sampleFrame samplePacket sampleClient 0)), .fire .rx 30,
        .start (.cleanup ⟨secs 180, 180⟩), .fire .cleanup 30,
        .start (.cleanup ⟨secs 210, 210⟩)]
      openStartV1).map fun c => (Doomed (secs 210) 0 c : Bool)) = some true := by
    decide +kernel
  obtain ⟨c, hc, hfacts⟩ := Option.map_eq_some_iff.1 hreplay
  have hdoomed : Doomed (secs 210) 0 c := of_decide_eq_true hfacts
  have hrun := (System.Config.run_of_replay hc).mono fun w e he =>
    And.intro (readsForward_of_test (Bool.and_eq_true_iff.1 he).1)
      (keepsUnmarked_of_test (Bool.and_eq_true_iff.1 he).2)
  obtain ⟨c', r, post, hstep, hafter⟩ := hdoomed.step
  exact ⟨c, c', r, post, hrun, hstep, hdoomed.2.2.2,
    v1_cleanup_removes_idle_flows hrun hstep hdoomed.1 hafter⟩

/-- After the flow was marked, a keepalive refreshes it.  The next pass of the cleanup, ten seconds
later, removes it. -/
theorem v1_cleanup_removes_kept_flow :
    ∃ c c' r post, (relaySystem openEnvV1).Run ReadsForward openStartV1 c ∧
      (relaySystem openEnvV1).Step c
        (.exec .cleanup (.v1 (.flowsRetain 0 (secs 210))) r c.st post) c' ∧
      c.st.v1.flows.lookup sampleFlowKey ≠ none ∧ c'.st.v1.flows.lookup sampleFlowKey = none ∧
      ∃ e ∈ c.hist, flowActivity sampleFlowKey e = some (secs 200) := by
  have hreplay : ((System.Config.replay (M := relaySystem openEnvV1) readsForward
      [.start (.datagram (sampleFrame samplePacket sampleClient 0)), .fire .rx 30,
        .start (.cleanup ⟨secs 180, 180⟩), .fire .cleanup 30,
        .start (.datagram (sampleKeepalive 1 sampleClient 200)), .fire .rx 30,
        .start (.cleanup ⟨secs 210, 210⟩)]
      openStartV1).map fun c => (Doomed (secs 210) (secs 200) c : Bool)) = some true := by
    decide +kernel
  obtain ⟨c, hc, hfacts⟩ := Option.map_eq_some_iff.1 hreplay
  have hdoomed : Doomed (secs 210) (secs 200) c := of_decide_eq_true hfacts
  obtain ⟨c', r, post, hstep, hafter⟩ := hdoomed.step
  exact ⟨c, c', r, post, (System.Config.run_of_replay hc).mono fun _ _ => readsForward_of_test,
    hstep, hdoomed.1, hafter, hdoomed.2.2.2⟩

end SwiftRelay
