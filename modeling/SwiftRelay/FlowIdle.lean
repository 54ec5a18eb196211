/-
**Only idle flows are cleaned up.**

The loop of a shard refreshes a flow when it sends a client packet on it, when it handles a
keepalive of its session, and when it has read a response from it while the lease of the session was
current.  Each of these takes a mark on the flow back.  A keepalive finds the flows through the list
of the session, so this rests on the lists being complete.

Hence every flow that the periodic cleanup removes has been idle for the timeout and the grace
period.  The clock of a shard thread does not go back, and nothing else is assumed about it.

Main definitions:

* `LoopOp.activity` — which operations count as activity of a flow, and when;
* `Clocked` — the clock of a shard does not go back;
* `Tracked` — the last activity of each flow is recorded, and its mark is later by the timeout.

Main results:

* `execLoop_flow` — everything that an operation can do to a flow;
* `cleanup_removes_idle_flows` — every run.
-/

import SwiftRelay.ShardTables
import SwiftRelay.SoftDelete

set_option autoImplicit false

namespace SwiftRelay

open SoftDelete

/-! ### The cleanup of a flow is a soft deletion -/

def FlowState.timing (flow : FlowState) : Timing := ⟨flow.lastActivity, flow.markedForRemoval⟩

theorem FlowState.timing_cleanup (flow : FlowState) (now : Instant) :
    (flow.cleanup now).map FlowState.timing =
      flow.timing.sweep sessionTimeout flowGracePeriod (secs 10) now := by
  unfold FlowState.cleanup Timing.sweep durationSince
  cases hmark : flow.markedForRemoval with
  | none =>
      simp only [FlowState.timing, hmark]
      split <;> simp [FlowState.timing, hmark]
  | some markedAt =>
      simp only [FlowState.timing, hmark]
      split
      · rfl
      · split <;> simp [FlowState.timing, hmark]

namespace Datapath

open Conc

variable {env : Env} {k : Fin env.shardCount} {key : FlowKey}

/-! ### Activity -/

/-- The clock reading with which an operation refreshes or enters a flow. -/
def LoopOp.reading : LoopOp → Option Instant
  | .touch _ now => some now
  | .use _ _ _ now => some now
  | .keepalive _ _ now => some now
  | .insert _ flow => some flow.lastActivity
  | _ => none

/-- The time at which an operation counts as activity of the flow: a response read from it under a
current lease, a client packet sent on it, a keepalive of its session. -/
def LoopOp.activity (key : FlowKey) : LoopOp → Option Instant
  | .touch key' now => if key' = key then some now else none
  | .use key' _ _ now => if key' = key then some now else none
  | .keepalive sid _ now => if sid = key.sessionId then some now else none
  | _ => none

/-- What an event has to say about the loop of shard `k`. -/
def ofShard {α : Type} (k : Fin env.shardCount) (f : LoopOp → Option α) : Event env → Option α
  | .exec _ (.loop j o) _ _ _ => if j = k then f o else none
  | _ => none

/-- The clock of a shard does not go back. -/
def Clocked (w : World env) (e : Event env) : Prop :=
  ∀ k now, ofShard k LoopOp.reading e = some now →
    ∀ e' ∈ w.hist, ∀ earlier, ofShard k LoopOp.reading e' = some earlier → earlier ≤ now

variable {now : Instant} {e : Event env} {w : World env}

theorem LoopOp.reading_of_activity {o : LoopOp} (h : o.activity key = some now) :
    o.reading = some now := by
  cases o <;> simp_all [LoopOp.activity, LoopOp.reading]

theorem ofShard_reading (h : ofShard k (LoopOp.activity key) e = some now) :
    ofShard k LoopOp.reading e = some now := by
  cases e with
  | start a => cases h
  | exec t o r pre post =>
      cases o with
      | loop j o =>
          simp only [ofShard] at h ⊢
          split at h
          · next hj => rw [if_pos hj, LoopOp.reading_of_activity h]
          · cases h
      | _ => cases h

/-! ### One operation -/

/-- What an operation can do to a flow that is there afterwards: it has entered the flow, it is
activity of the flow, it is the cleanup, or it leaves the flow as it is. -/
inductive FlowStep (o : LoopOp) (key : FlowKey) : Option FlowState → FlowState → Prop
  | entered (flow : FlowState) (x : Option FlowState) (ho : o = .insert key flow) :
      FlowStep o key x flow
  | active (flow flow' : FlowState) (now : Instant) (ho : o.activity key = some now)
      (hlast : flow'.lastActivity = now) (hmark : flow'.markedForRemoval = none) :
      FlowStep o key (some flow) flow'
  | swept (flow flow' : FlowState) (now : Instant) (ho : o = .cleanup now)
      (hflow : flow.cleanup now = some flow') : FlowStep o key (some flow) flow'
  | same (flow : FlowState) (ho : o.activity key = none) : FlowStep o key (some flow) flow

theorem execLoop_flow {o : LoopOp} {r : o.Ret} {l l' : LoopState}
    (h : execLoop o l = some (r, l')) (hl : l.tables.Consistent) {flow' : FlowState}
    (hflow' : l'.tables.flows.lookup key = some flow') :
    FlowStep o key (l.tables.flows.lookup key) flow' := by
  have hmodify {key' : FlowKey} {f : FlowState → FlowState} {now : Instant}
      (hl' : l'.tables = l.tables.modifyFlow key' f)
      (ho : o.activity key = if key' = key then some now else none)
      (hlast : ∀ flow, (f flow).lastActivity = now)
      (hmark : ∀ flow, (f flow).markedForRemoval = none) :
      FlowStep o key (l.tables.flows.lookup key) flow' := by
    rw [hl', FlowTables.lookup_modifyFlow] at hflow'
    split at hflow'
    · next heq =>
        obtain ⟨flow, hflow, rfl⟩ := Option.map_eq_some_iff.1 hflow'
        rw [if_pos heq.symm] at ho
        rw [heq, hflow]
        exact .active flow _ now (heq ▸ ho) (hlast flow) (hmark flow)
    · next hne =>
        rw [hflow']
        exact .same flow' (by rw [ho, if_neg (Ne.symm hne)])
  have hsame (hl' : l'.tables.flows.lookup key = l.tables.flows.lookup key)
      (ho : o.activity key = none) : FlowStep o key (l.tables.flows.lookup key) flow' := by
    rw [← hl', hflow']
    exact .same flow' ho
  cases o with
  | touch key' now => cases h; exact hmodify rfl rfl (fun _ => rfl) fun _ => rfl
  | use key' addr info now => cases h; exact hmodify rfl rfl (fun _ => rfl) fun _ => rfl
  | keepalive sid addr now =>
      cases h
      rw [FlowTables.lookup_keepalive] at hflow'
      obtain ⟨flow, hflow, rfl⟩ := Option.map_eq_some_iff.1 hflow'
      rw [hflow]
      by_cases hsid : sid = key.sessionId
      · -- a flow of the session is listed for it
        have hlisted : key.gameAddr ∈ l.tables.flowsOf key.sessionId :=
          List.count_pos_iff.1 (by rw [hl.listed key flow hflow]; exact Nat.one_pos)
        rw [if_pos ⟨hsid.symm, hsid ▸ hlisted⟩]
        exact .active flow _ now (if_pos hsid) rfl rfl
      · rw [if_neg fun h => hsid h.1.symm]
        exact .same flow (if_neg hsid)
  | insert key' flow =>
      cases h
      simp only [FlowTables.insertFlow, Table.lookup_insert_eq] at hflow'
      split at hflow'
      · next heq =>
          cases hflow'
          exact .entered flow' _ (by rw [heq])
      · rw [hflow']
        exact .same flow' rfl
  | removeSession sid =>
      cases h
      rw [l.tables.lookup_of_removeSession hflow']
      exact .same flow' rfl
  | cleanup now =>
      cases h
      have hcleanup : (l.tables.cleanup now).flows.lookup key = some flow' := hflow'
      rw [FlowTables.lookup_cleanup] at hcleanup
      obtain ⟨flow, hflow, hcleanup⟩ := Option.bind_eq_some_iff.1 hcleanup
      rw [hflow]
      exact .swept flow flow' now rfl hcleanup
  | poll timedOut picked =>
      obtain ⟨-, rfl⟩ := execLoop_poll h
      exact hsame rfl rfl
  | recv key' fails =>
      obtain rfl | ⟨s, queue, rfl⟩ := execLoop_recv h <;> exact hsame rfl rfl
  | _ => cases h; exact hsame rfl rfl

/-! ### Every run -/

/-- The activity of the flow so far is not later than its last activity, and the mark is later by
the timeout. -/
structure TrackedFlow (k : Fin env.shardCount) (key : FlowKey) (hist : List (Event env))
    (flow : FlowState) : Prop where
  recorded : ∀ e ∈ hist, ∀ now, ofShard k (LoopOp.activity key) e = some now →
    now ≤ flow.lastActivity
  settled : flow.timing.Settled sessionTimeout

/-- Every flow of the shard is tracked. -/
def Tracked (k : Fin env.shardCount) (w : World env) : Prop :=
  ∀ key flow, (w.st.loops k).tables.flows.lookup key = some flow → TrackedFlow k key w.hist flow

/-- An event that is no activity of the flow, and that leaves its times alone. -/
theorem TrackedFlow.cons {hist : List (Event env)} {flow flow' : FlowState}
    (h : TrackedFlow k key hist flow) (he : ofShard k (LoopOp.activity key) e = none)
    (hlast : flow'.lastActivity = flow.lastActivity)
    (hsettled : flow'.timing.Settled sessionTimeout) : TrackedFlow k key (e :: hist) flow' := by
  refine ⟨fun e' he' now hnow => ?_, hsettled⟩
  rcases List.mem_cons.1 he' with rfl | he'
  · rw [he] at hnow
    cases hnow
  · rw [hlast]
    exact h.recorded e' he' now hnow

theorem TrackedFlow.of_reading {flow : FlowState}
    (he : ofShard k LoopOp.reading e = some flow.lastActivity) (hclock : Clocked w e)
    (hmark : flow.markedForRemoval = none) : TrackedFlow k key (e :: w.hist) flow := by
  refine ⟨fun e' he' now hnow => ?_, Timing.settled_of_unmarked hmark⟩
  have hreading := ofShard_reading hnow
  rcases List.mem_cons.1 he' with rfl | he'
  · rw [he] at hreading
    exact Nat.le_of_eq (Option.some.inj hreading).symm
  · exact hclock k _ he e' he' now hreading

theorem tracked_exec {t : Tid env} {o : Op env} {r : o.Ret} {st : State env}
    (htracked : Tracked k w) (hsound : (w.st.loops k).own.Sound)
    (hpre : (tablesContract env).pre t o w) (hexec : exec t o w.st = some (r, st))
    (hclock : Clocked w (.exec t o r w.st st)) : Tracked k (w.after t o r st : World env) := by
  -- the loop of the shard is not touched
  have hother (he : ∀ key, ofShard k (LoopOp.activity key) (.exec t o r w.st st : Event env) = none)
      (hloops : st.loops k = w.st.loops k) : Tracked k (w.after t o r st : World env) := by
    intro key flow hflow
    rw [System.World.after_st, hloops] at hflow
    have hkey := htracked key flow hflow
    exact hkey.cons (he key) rfl hkey.settled
  cases o with
  | loop j o =>
      obtain ⟨l, hloop, rfl⟩ := exec_loop hexec
      by_cases hj : j = k
      · subst hj
        intro key flow' hflow'
        rw [System.World.after_st, State.setLoop_self] at hflow'
        have hstep := execLoop_flow hloop hsound.consistent hflow'
        generalize hflow : (w.st.loops j).tables.flows.lookup key = x at hstep
        cases hstep with
        | entered _ _ ho =>
            subst ho
            exact .of_reading (by simp [ofShard, LoopOp.reading]) hclock
              ((hpre j _ rfl).2 key flow' rfl).unmarked
        | active flow _ now ho hlast hmark =>
            refine .of_reading ?_ hclock hmark
            simp [ofShard, LoopOp.reading_of_activity ho, hlast]
        | swept flow _ now ho hcleanup =>
            subst ho
            have hkey := htracked key flow hflow
            have hsweep := FlowState.timing_cleanup flow now
            rw [hcleanup, Option.map_some] at hsweep
            exact hkey.cons (by simp [ofShard, LoopOp.activity])
              (Timing.sweep_lastActivity hsweep.symm)
              (Timing.settled_sweep (by decide) hkey.settled hsweep.symm)
        | same _ ho =>
            have hkey := htracked key flow' hflow
            exact hkey.cons (by simp [ofShard, ho]) rfl hkey.settled
      · exact hother (fun key => by simp [ofShard, hj]) (State.setLoop_of_ne (Ne.symm hj))
  | queue o =>
      obtain ⟨q, -, rfl⟩ := exec_queue hexec
      exact hother (fun _ => rfl) rfl
  | leaseCurrent sid => cases hexec; exact hother (fun _ => rfl) rfl
  | setLease sid current => cases hexec; exact hother (fun _ => rfl) rfl
  | sendTo addr bytes => cases hexec; exact hother (fun _ => rfl) rfl

theorem tracked_run {c : Config env} (h : (pathSystem env).Run Clocked (start env) c)
    (k : Fin env.shardCount) : Tracked k c.toWorld := by
  have hallowed := (tablesContract_sound env).run_allowed (fun _ _ _ => trivial) h
    (tables_good_start env)
  clear h
  induction hallowed with
  | refl =>
      intro key flow hflow
      cases hflow
  | tail _ hstep ih =>
      obtain ⟨e, ⟨hclock, -, hsound, hpermitted⟩, hstep⟩ := hstep
      cases hstep with
      | start a hidle =>
          intro key flow hflow
          have hkey := ih key flow hflow
          exact hkey.cons rfl rfl hkey.settled
      | exec t o k' r st hctl hexec =>
          exact tracked_exec ih (hsound k) hpermitted.2 hexec hclock

/-- **Only idle flows are cleaned up.**  Whenever the periodic cleanup of a shard removes a flow, no
client packet was sent on the flow, no keepalive of its session was handled and no response was read
from it under a current lease in the timeout and the grace period before. -/
theorem cleanup_removes_idle_flows {c c' : Config env}
    (h : (pathSystem env).Run Clocked (start env) c) {t : Tid env} {now : Instant} {r : Unit}
    {pre post : State env}
    (hstep : (pathSystem env).Step c (.exec t (.loop k (.cleanup now)) r pre post) c')
    (hbefore : (c.st.loops k).tables.flows.lookup key ≠ none)
    (hafter : (c'.st.loops k).tables.flows.lookup key = none) :
    ∀ e ∈ c.hist, ∀ τ, ofShard k (LoopOp.activity key) e = some τ →
      τ + (sessionTimeout + flowGracePeriod) ≤ now := by
  intro e he τ hτ
  obtain ⟨flow, hflow⟩ := Option.ne_none_iff_exists'.1 hbefore
  have htracked := tracked_run h k key flow hflow
  cases hstep with
  | exec _ _ _ _ st hctl hexec =>
      have hexec : exec t (.loop k (.cleanup now)) c.st = some (r, post) := hexec
      obtain ⟨l, hl, rfl⟩ := exec_loop hexec
      cases hl
      have hafter : ((c.st.loops k).tables.cleanup now).flows.lookup key = none := by
        simpa [LoopState.setTables] using hafter
      rw [FlowTables.lookup_cleanup, hflow, Option.bind_some] at hafter
      have hswept := FlowState.timing_cleanup flow now
      rw [hafter, Option.map_none] at hswept
      have hidle := Timing.idle_of_swept (by decide) htracked.settled hswept.symm
      exact (Nat.add_le_add_right (htracked.recorded e he τ hτ) _).trans hidle

/-- The clock of a shard does not go back, as a test. -/
def clocked (w : World env) (e : Event env) : Bool :=
  (List.finRange env.shardCount).all fun k =>
    (ofShard k LoopOp.reading e).all fun now =>
      w.hist.all fun e' => (ofShard k LoopOp.reading e').all fun earlier => earlier ≤ now

theorem clocked_of_test (h : clocked w e = true) : Clocked w e := by
  intro k now hnow e' he' earlier hearlier
  have hk := List.all_eq_true.1 h k (List.mem_finRange k)
  rw [hnow] at hk
  have he := List.all_eq_true.1 hk e' he'
  rw [hearlier] at he
  exact of_decide_eq_true he

/-- A round at the end of which the flows are cleaned up. -/
def sweepRound (now : Instant) : RoundTurn :=
  { sampleRound [] with timedOut := true, cleanupAt := some now }

def isCleanup (now : Instant) : Op sampleEnv → Bool
  | .loop _ (.cleanup now') => now' = now
  | _ => false

theorem eq_of_isCleanup {o : Op sampleEnv} (h : isCleanup now o = true) :
    o = .loop onlyShard (.cleanup now) := by
  unfold isCleanup at h
  split at h
  · next j now' =>
      have hj : j = onlyShard := Fin.ext (Nat.lt_one_iff.1 j.isLt)
      rw [of_decide_eq_true h, hj]
  · cases h

/-- A client packet opens a flow at time zero.  The flow is marked after three minutes, and removed
half a minute later. -/
theorem cleanup_removes_idle_flows_sample :
    ∃ c c' r post, (pathSystem sampleEnv).Run Clocked sampleStart c ∧
      (pathSystem sampleEnv).Step c
        (.exec (.shard onlyShard) (.loop onlyShard (.cleanup (secs 210))) r c.st post) c' ∧
      (∃ e ∈ c.hist, ofShard onlyShard (LoopOp.activity sampleKey) e = some 0) ∧
      ∀ e ∈ c.hist, ∀ τ, ofShard onlyShard (LoopOp.activity sampleKey) e = some τ →
        τ + (sessionTimeout + flowGracePeriod) ≤ secs 210 := by
  have hreplay : ((System.Config.replay (M := pathSystem sampleEnv) clocked
      [.start (.rx (.packet (sampleInbound 1 0) .new)), .fire .rx 10,
        .start (.round onlyShard (sampleRound [tokenWake])), .fire (.shard onlyShard) 40,
        .start (.round onlyShard (sweepRound (secs 180))), .fire (.shard onlyShard) 10,
        .start (.round onlyShard (sweepRound (secs 210))), .fire (.shard onlyShard) 2]
      sampleStart).map fun c =>
        ((c.st.loops onlyShard).tables.flows.lookup sampleKey ≠ none ∧
          System.ready (M := pathSystem sampleEnv) (.shard onlyShard) (isCleanup (secs 210))
            (c.st, c.ctl) ∧
          ((System.outcome (M := pathSystem sampleEnv) System.free [.fire (.shard onlyShard) 1]
            (c.st, c.ctl)).1.loops onlyShard).tables.flows.lookup sampleKey = none ∧
          ∃ e ∈ c.hist, ofShard onlyShard (LoopOp.activity sampleKey) e = some 0 : Bool)) =
      some true := by
    decide +kernel
  obtain ⟨c, hc, hfacts⟩ := Option.map_eq_some_iff.1 hreplay
  obtain ⟨hbefore, hready, hafter, hactive⟩ := of_decide_eq_true hfacts
  have hrun := (System.Config.run_of_replay hc).mono fun _ _ => clocked_of_test
  obtain ⟨o, r, st, c', hasked, hstep, hshows⟩ := System.Config.Shows.step
    (M := pathSystem sampleEnv) (x := (c.st, c.ctl)) ⟨rfl, rfl⟩ (.shard onlyShard)
    (isCleanup (secs 210)) hready
  obtain rfl := eq_of_isCleanup hasked
  have hafter : (c'.st.loops onlyShard).tables.flows.lookup sampleKey = none := by
    rw [hshows.1]
    exact hafter
  exact ⟨c, c', r, st, hrun, hstep, hactive,
    cleanup_removes_idle_flows hrun hstep hbefore hafter⟩

end Datapath

end SwiftRelay
