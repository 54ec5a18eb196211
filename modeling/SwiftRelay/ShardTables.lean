/-
**The flow tables of the shards in every run.**

A shard enters a flow into its tables several operations after it has found that there is none, that
the session may have one more, and which token is unused.  Nobody else touches its tables in the
meantime, so all of this still holds when the flow is entered, and the tables of every shard
describe one set of flows at every moment of every run.  For the same reason the socket of a flow is
registered under the token of the flow.

Main definitions:

* `OwnState.Insertable`, `OwnState.Loose` — when a flow may be entered, and when a socket may be
  registered;
* `OwnState.Sound` — the tables are consistent and match the registrations;
* `tablesContract` — the contract.

Main results:

* `execLoop_kept`, `execLoop_consistent`, `execLoop_registered` — one operation;
* `tablesContract_sound`, `tables_consistent` — every run.
-/

import SwiftRelay.Datapath

set_option autoImplicit false

namespace SwiftRelay.Datapath

open Conc

variable {env : Env} {k : Fin env.shardCount}

/-! ### One operation -/

namespace OwnState

variable (s : OwnState)

/-- The socket has been created and is that of no flow. -/
structure Loose (socket : ℕ) : Prop where
  created : socket < s.nextSocket
  unused : ∀ key flow, s.tables.flows.lookup key = some flow → flow.socket ≠ socket

/-- The flow is new and not marked, its session may have one more, its token is not in use, and its
socket is registered under the token. -/
structure Insertable (key : FlowKey) (flow : FlowState) : Prop where
  fresh : s.tables.flows.lookup key = none
  unmarked : flow.markedForRemoval = none
  room : (s.tables.flowsOf key.sessionId).length < maxFlowsPerSession
  nonzero : flow.token ≠ 0
  unused : s.tables.tokenToFlow.lookup flow.token = none
  created : flow.socket < s.nextSocket
  registered : s.tokens flow.socket = some flow.token

/-- The socket of every flow is registered under the token of the flow. -/
def Registered : Prop :=
  ∀ key flow, s.tables.flows.lookup key = some flow →
    flow.socket < s.nextSocket ∧ s.tokens flow.socket = some flow.token

structure Sound : Prop where
  consistent : s.tables.Consistent
  registered : s.Registered

end OwnState

theorem OwnState.Registered.kept {s s' : OwnState} (h : s.Registered)
    (hkept : s.tables.Kept s'.tables) (hnext : s.nextSocket ≤ s'.nextSocket)
    (htokens : ∀ key flow, s'.tables.flows.lookup key = some flow → flow.socket < s.nextSocket →
      s'.tokens flow.socket = s.tokens flow.socket) : s'.Registered := by
  intro key flow' hflow'
  obtain ⟨flow, hflow, hsocket, htoken⟩ := hkept key flow' hflow'
  obtain ⟨hlt, hreg⟩ := h key flow hflow
  rw [← hsocket] at hlt hreg
  exact ⟨hlt.trans_le hnext, by rw [htokens key flow' hflow' hlt, hreg, htoken]⟩

/-- The flows of a shard keep their sockets and tokens, unless one is entered. -/
theorem execLoop_kept {o : LoopOp} {r : o.Ret} {l l' : LoopState}
    (h : execLoop o l = some (r, l')) :
    l.tables.Kept l'.tables ∨
      ∃ key flow, o = .insert key flow ∧ l'.tables = l.tables.insertFlow key flow := by
  cases o with
  | poll timedOut picked =>
      obtain ⟨-, rfl⟩ := execLoop_poll h
      exact .inl (.refl _)
  | recv key fails =>
      obtain rfl | ⟨s, queue, rfl⟩ := execLoop_recv h <;> exact .inl (.refl _)
  | insert key flow =>
      cases h
      exact .inr ⟨key, flow, rfl, rfl⟩
  | touch key now =>
      cases h
      exact .inl (l.tables.modifyFlow_kept key (fun _ => rfl) fun _ => rfl)
  | use key addr info now =>
      cases h
      exact .inl (l.tables.modifyFlow_kept key (fun _ => rfl) fun _ => rfl)
  | keepalive sid addr now => cases h; exact .inl (l.tables.keepalive_kept sid addr now)
  | removeSession sid => cases h; exact .inl (l.tables.removeSession_kept sid)
  | cleanup now => cases h; exact .inl (l.tables.cleanup_kept now)
  | _ => cases h; exact .inl (.refl _)

/-- The operations on the loop of a shard keep its tables consistent. -/
theorem execLoop_consistent {o : LoopOp} {r : o.Ret} {l l' : LoopState}
    (h : execLoop o l = some (r, l')) (hl : l.tables.Consistent)
    (hinsert : ∀ key flow, o = .insert key flow → l.own.Insertable key flow) :
    l'.tables.Consistent := by
  cases o with
  | poll timedOut picked =>
      obtain ⟨-, rfl⟩ := execLoop_poll h
      exact hl
  | recv key fails =>
      obtain rfl | ⟨s, queue, rfl⟩ := execLoop_recv h <;> exact hl
  | touch key now => cases h; exact hl.modifyFlow key fun _ => rfl
  | allocateToken => cases h; exact hl.allocateFlowToken
  | insert key flow =>
      cases h
      have hok := hinsert key flow rfl
      exact hl.insertFlow hok.fresh hok.nonzero hok.unused hok.room
  | use key addr info now => cases h; exact hl.modifyFlow key fun _ => rfl
  | keepalive sid addr now => cases h; exact hl.keepalive sid addr now
  | removeSession sid => cases h; exact hl.removeSession sid
  | cleanup now => cases h; exact hl.cleanup now
  | _ => cases h; exact hl

theorem registered_setTables {l : LoopState} {tables : FlowTables} (hl : l.own.Registered)
    (hkept : l.tables.Kept tables) : (l.setTables tables).own.Registered := by
  refine hl.kept hkept (Nat.le_refl _) fun key flow hflow _ => ?_
  have howns : LoopState.owns tables flow.socket = true := LoopState.owns_of_lookup hflow
  simp only [LoopState.own, l.setTables_sockets howns]

/-- The operations on the loop of a shard keep the registrations. -/
theorem execLoop_registered {o : LoopOp} {r : o.Ret} {l l' : LoopState}
    (h : execLoop o l = some (r, l')) (hl : l.own.Registered)
    (hregister : ∀ s token, o = .register s token → l.own.Loose s)
    (hinsert : ∀ key flow, o = .insert key flow → l.own.Insertable key flow) :
    l'.own.Registered := by
  have hkept {tables : FlowTables} (hkept : l.tables.Kept tables) :
      ({ l with tables } : LoopState).own.Registered :=
    hl.kept hkept (Nat.le_refl _) fun _ _ _ _ => rfl
  cases o with
  | poll timedOut picked =>
      obtain ⟨-, rfl⟩ := execLoop_poll h
      exact hl
  | recv key fails =>
      obtain rfl | ⟨s, queue, rfl⟩ := execLoop_recv h
      · exact hl
      · rw [LoopState.setSocket_own]
        exact hl
  | arrive s d =>
      cases h
      rw [LoopState.setSocket_own]
      exact hl
  | createSocket =>
      cases h
      refine hl.kept (.refl _) (Nat.le_succ _) fun key flow _ hlt => ?_
      have hne : flow.socket ≠ l.nextSocket := Nat.ne_of_lt hlt
      simp [LoopState.own, LoopState.setSocket, hne]
  | register s token =>
      cases h
      refine hl.kept (.refl _) (Nat.le_refl _) fun key flow hflow _ => ?_
      have hne : flow.socket ≠ s := (hregister s token rfl).unused key flow hflow
      simp [LoopState.own, LoopState.setSocket, hne]
  | insert key flow =>
      cases h
      have hok := hinsert key flow rfl
      intro key' flow' hflow'
      simp only [LoopState.own, FlowTables.insertFlow, Table.lookup_insert_eq] at hflow'
      split at hflow'
      · cases hflow'
        exact ⟨hok.created, hok.registered⟩
      · exact hl key' flow' hflow'
  | touch key now => cases h; exact hkept (l.tables.modifyFlow_kept key (fun _ => rfl) fun _ => rfl)
  | use key addr info now =>
      cases h
      exact hkept (l.tables.modifyFlow_kept key (fun _ => rfl) fun _ => rfl)
  | keepalive sid addr now => cases h; exact hkept (l.tables.keepalive_kept sid addr now)
  | removeSession sid =>
      cases h
      exact registered_setTables hl (l.tables.removeSession_kept sid)
  | cleanup now => cases h; exact registered_setTables hl (l.tables.cleanup_kept now)
  | _ => cases h; exact hl

/-! ### Every run -/

/-- The tables are consistent and match the registrations; flows are entered and sockets registered
only if they may be. -/
def tablesContract (env : Env) : Contract (pathSystem env) where
  cond _ _ := True
  inv w := ∀ k, (w.st.loops k).own.Sound
  may := Op.UsedBy
  pre _ o w := ∀ k o', o = .loop k o' →
    (∀ s token, o' = .register s token → (w.st.loops k).own.Loose s) ∧
    ∀ key flow, o' = .insert key flow → (w.st.loops k).own.Insertable key flow
  post _ _ := True

theorem tables_onEntries : OnEntries (tablesContract env) := by
  intro t o w h k o' heq
  have henters := h k o' heq
  constructor
  · rintro s token rfl
    cases henters
  · rintro key flow rfl
    cases henters

/-- An operation of shard `k`, with an assertion about what belongs to it. -/
theorem tables_loop {α : Type} {o : LoopOp} {f : o.Ret → PathProg env α}
    {Q : α → World env → Prop} {w : World env} (P : OwnState → Prop)
    (hw : P (w.st.loops k).own) (hpre : o.enters = false)
    (hnext : ∀ (w' : World env) (r : o.Ret) (l : LoopState), P (w'.st.loops k).own →
      (w'.st.loops k).own.Sound → execLoop o (w'.st.loops k) = some (r, l) →
      (tablesContract env).wp (.shard k) (f r) Q
        (w'.after (.shard k) (.loop k o) r (w'.st.setLoop k l))) :
    (tablesContract env).wp (.shard k) (loop k o >>= f) Q w := by
  refine wp_loop _ (Stable.own (fun _ _ h => h) P) hw ?_
    fun w' r l hinv hw' hl _ => hnext w' r l hw' (hinv k) hl
  intro w' _ _
  refine tables_onEntries _ _ w' fun j o' heq => ?_
  cases heq
  exact hpre

/-- A new flow for the packet may be entered. -/
def OwnState.Lacks (packet : ClientPacket) (s : OwnState) : Prop :=
  s.tables.flows.lookup (packetKey packet) = none ∧
    (s.tables.flowsOf packet.sessionId).length < maxFlowsPerSession

theorem createFlow_tables (turn : InboxTurn) (packet : ClientPacket) {w : World env}
    (hw : (w.st.loops k).own.Lacks packet) :
    (tablesContract env).wp (.shard k) (createFlow k turn packet) (fun _ _ => True) w := by
  unfold createFlow
  split
  · trivial
  refine tables_loop (OwnState.Lacks packet) hw rfl fun w₁ socket l hw₁ hsound hl => ?_
  have hloose : l.own.Lacks packet ∧ l.own.Loose socket := by
    cases hl
    exact ⟨hw₁, Nat.lt_succ_self _, fun key flow hflow =>
      Nat.ne_of_lt (hsound.registered key flow hflow).1⟩
  refine tables_loop (fun s => s.Lacks packet ∧ s.Loose socket) (by simpa using hloose) rfl
    fun w₂ token l hw₂ _ hl => ?_
  cases token with
  | none => trivial
  | some token =>
      obtain ⟨htoken, rfl⟩ := Prod.ext_iff.1 (Option.some_inj.1 hl)
      obtain ⟨hnonzero, hunused⟩ := FlowTables.allocateFlowToken_free _ htoken
      dsimp only
      split
      · trivial
      -- the token stays unused until the flow is entered
      refine wp_loop _ (Stable.own (fun _ _ h => h) fun s => (s.Lacks packet ∧ s.Loose socket) ∧
        s.tables.tokenToFlow.lookup token = none) ?_ ?_ fun w₃ _ l _ hw₃ hl _ => ?_
      · rw [System.World.after_st, State.setLoop_self]
        exact ⟨⟨hw₂.1, hw₂.2.created, hw₂.2.unused⟩, hunused⟩
      · intro w₃ _ hw₃ j o' heq
        cases heq
        refine ⟨fun s t heq => ?_, fun key flow heq => by cases heq⟩
        cases heq
        exact hw₃.1.2
      · have hready : l.own.Insertable (packetKey packet)
            (newFlow packet socket token turn.now) := by
          cases hl
          exact ⟨hw₃.1.1.1, rfl, hw₃.1.1.2, hnonzero, hw₃.2, hw₃.1.2.created,
            by simp [LoopState.own, LoopState.setSocket, newFlow]⟩
        refine wp_loop _ (Stable.own (fun _ _ h => h) fun s => s.Insertable (packetKey packet)
          (newFlow packet socket token turn.now)) (by simpa using hready) ?_
          fun _ _ _ _ _ _ _ => trivial
        intro w₄ _ hw₄ j o' heq
        cases heq
        refine ⟨fun s t heq => (by cases heq), fun key flow heq => ?_⟩
        cases heq
        exact hw₄

theorem openFlow_tables (turn : InboxTurn) (packet : ClientPacket) {w : World env}
    (hw : (w.st.loops k).own.tables.flows.lookup (packetKey packet) = none) :
    (tablesContract env).wp (.shard k) (openFlow k turn packet) (fun _ _ => True) w := by
  unfold openFlow
  -- adding the counters up leaves the tables alone
  refine Contract.wp_seq (Contract.wp_of_uses (uses_flowTotal _) _
    (Stable.own (fun _ _ h => h) fun s => s.tables.flows.lookup (packetKey packet) = none)
    ?_ hw) ?_
  · rintro o ⟨j, rfl⟩ w' _ hw'
    refine ⟨tables_onEntries _ _ w' fun _ _ heq => (by cases heq; rfl), fun r st hexec _ => ?_⟩
    have hexec : exec (.shard k) (.loop j .countLoad) w'.st = some (r, st) := hexec
    obtain ⟨-, rfl⟩ := exec_countLoad hexec
    exact hw'
  · intro total w hw
    split
    · trivial
    · refine tables_loop (fun s => s.tables.flows.lookup (packetKey packet) = none) hw rfl
        fun w' len l hw' _ hl => ?_
      cases hl
      split
      · trivial
      · next hlen =>
          split
          · trivial
          · refine createFlow_tables turn packet ?_
            rw [System.World.after_st, State.setLoop_self]
            exact ⟨hw', Nat.lt_of_not_ge hlen⟩

theorem opensWell_tables (k : Fin env.shardCount) : OpensWell (tablesContract env) k := by
  intro turn packet w l hl
  obtain ⟨hfound, rfl⟩ := Prod.ext_iff.1 (Option.some_inj.1 hl)
  refine openFlow_tables turn packet ?_
  rw [System.World.after_st, State.setLoop_self]
  simpa [LoopState.own] using hfound

theorem tablesContract_sound (env : Env) : (tablesContract env).Sound where
  start_inv w a hinv _ _ := hinv
  exec_inv w t o r st hinv _ hpre hexec _ k := by
    rw [System.World.after_st]
    obtain heq | ⟨o', r', rfl, hloop⟩ := exec_loops hexec k
    · rw [heq]
      exact hinv k
    · obtain ⟨hregister, hinsert⟩ := hpre k o' rfl
      exact ⟨execLoop_consistent hloop (hinv k).consistent hinsert,
        execLoop_registered hloop (hinv k).registered hregister hinsert⟩
  post_stable t := Contract.Stable.true
  prog_may := uses_prog
  prog_wp _ a _ _ _ := prog_wp_of_opens tables_onEntries opensWell_tables a _

theorem tables_good_start (env : Env) : Contract.Sound.Good (tablesContract env) (start env) :=
  Contract.Sound.good_initial
    (fun _ => ⟨FlowTables.consistent_new, fun _ _ h => by cases h⟩) fun _ => trivial

/-- The three tables of a shard describe the same flows, in every state that can be reached. -/
theorem tables_consistent {c : Config env} (h : (pathSystem env).Steps (start env) c)
    (k : Fin env.shardCount) :
    (c.st.loops k).tables.Consistent ∧
      ∀ token key, (c.st.loops k).tables.tokenToFlow.lookup token = some key →
        ∃! key', ∃ flow, (c.st.loops k).tables.flows.lookup key' = some flow ∧
          flow.token = token := by
  have hgood := (tablesContract_sound env).run h (tables_good_start env)
  have hk : (c.st.loops k).tables.Consistent := (hgood.1 k).consistent
  refine ⟨hk, fun token key htoken => ?_⟩
  obtain ⟨-, flow, hflow, heq⟩ := hk.live token key htoken
  refine ⟨key, ⟨flow, hflow, heq⟩, ?_⟩
  rintro key' ⟨flow', hflow', heq'⟩
  exact hk.token_inj hflow' hflow (heq'.trans heq.symm)

/-- A client packet has opened a flow. -/
theorem tables_consistent_sample :
    ∃ c, (pathSystem sampleEnv).Steps sampleStart c ∧
      (c.st.loops onlyShard).tables.flows.size = 1 ∧
      (c.st.loops onlyShard).tables.Consistent ∧
      ∀ token key, (c.st.loops onlyShard).tables.tokenToFlow.lookup token = some key →
        ∃! key', ∃ flow, (c.st.loops onlyShard).tables.flows.lookup key' = some flow ∧
          flow.token = token := by
  obtain ⟨c, hrun, hc⟩ := (reaches_sampleStart System.free).follow
    [.start (.rx (.packet (sampleInbound 1 0) .new)), .fire .rx 10,
      .start (.round onlyShard (sampleRound [tokenWake])), .fire (.shard onlyShard) 40]
    (by decide +kernel)
  have hsize : (c.st.loops onlyShard).tables.flows.size = 1 :=
    (congrArg (fun s => (s.loops onlyShard).tables.flows.size) hc.1).trans (by decide +kernel)
  exact ⟨c, hrun.steps, hsize, tables_consistent hrun.steps onlyShard⟩

end SwiftRelay.Datapath
