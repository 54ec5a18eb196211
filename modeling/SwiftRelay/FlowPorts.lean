/-
**Flow sockets and ports.**

Every flow has a socket of its own, and `create_flow_socket` binds it to a port that the operating
system chooses.  The socket is bound to the wildcard address, without address reuse, so the port is
one that no open socket has.  This is all that is assumed here, and about the step that creates a
socket only.  That the sockets of the flows then have different ports at every moment, and that
there are not more flows than ports, is proved over all runs: it depends on when the shards create
sockets, enter flows and close them.  A port is a number of sixteen bits, so the cap on the flows is
never reached, although the counters that the shards check against it lag behind (`FlowCap`).

A socket is open from when it is created until its flow is gone.  If no flow is entered for it,
because there is no token for it or it cannot be registered, the shard drops it with the buffer of
the packet.

Main definitions:

* `inMaking`, `openSockets` — the sockets that are open;
* `BindsUnused` — what the operating system guarantees.

Main results:

* `portsContract_sound` — open sockets have different ports;
* `flows_le_ports`, `flows_within_cap` — there are not more flows than ports.
-/

import Mathlib.Order.Interval.Finset.Nat
import SwiftRelay.ShardTables
import SwiftRelay.TableSum

set_option autoImplicit false

namespace SwiftRelay.Datapath

open Conc

variable {env : Env} {k : Fin env.shardCount}

/-! ### Open sockets -/

/-- The socket that shard `k` has created and neither entered with a flow nor given up: all that the
shard has done since is to look for a token and to register the socket. -/
def inMaking (k : Fin env.shardCount) : List (Event env) → Option ℕ
  | [] => none
  | .exec (.shard j) (.loop _ .createSocket) socket _ _ :: hist =>
      if j = k then some socket else inMaking k hist
  | .exec _ (.loop _ .allocateToken) _ _ _ :: hist => inMaking k hist
  | .exec _ (.loop _ (.register ..)) _ _ _ :: hist => inMaking k hist
  | .exec (.shard j) _ _ _ _ :: hist => if j = k then none else inMaking k hist
  | _ :: hist => inMaking k hist

/-- The sockets of shard `k` that are open: those of its flows, and one in the making. -/
def openSockets (w : World env) (k : Fin env.shardCount) : List ℕ :=
  (w.st.loops k).tables.flows.entries.map (fun e => e.2.socket) ++ (inMaking k w.hist).toList

/-- **What the operating system guarantees**, where `port k s` is the port of socket `s` of shard
`k`: a new socket is bound to a port that no open socket has. -/
def BindsUnused (port : Fin env.shardCount → ℕ → UInt16) (w : World env) : Event env → Prop
  | .exec _ (.loop k .createSocket) socket _ _ =>
      port k socket ≠ 0 ∧ ∀ j, ∀ s ∈ openSockets w j, port j s ≠ port k socket
  | _ => True

section Making

variable {t : Tid env} {o : Op env} {r : o.Ret} {pre post : State env} {hist : List (Event env)}
  {s : ℕ}

/-- The others do not change what a shard has in the making. -/
theorem inMaking_of_ne (h : t ≠ .shard k) :
    inMaking k (.exec t o r pre post :: hist) = inMaking k hist := by
  rw [inMaking.eq_def]
  split <;> grind

/-- Only creating a socket puts one in the making. -/
theorem inMaking_of_cons (ho : ∀ j, o ≠ .loop j .createSocket)
    (h : inMaking k (.exec t o r pre post :: hist) = some s) : inMaking k hist = some s := by
  rw [inMaking.eq_def] at h
  split at h <;> grind

end Making

/-! ### One operation -/

section Step

variable {t : Tid env} {o : Op env} {r : o.Ret} {st : State env} {w : World env} {s : ℕ}

theorem mem_openSockets : s ∈ openSockets w k ↔
    (∃ key flow, (w.st.loops k).tables.flows.lookup key = some flow ∧ flow.socket = s) ∨
      inMaking k w.hist = some s := by
  rw [openSockets, List.mem_append, List.mem_map, Option.mem_toList]
  refine or_congr_left ⟨?_, ?_⟩
  · rintro ⟨⟨key, flow⟩, he, rfl⟩
    exact ⟨key, flow, Table.lookup_eq_some_iff.2 he, rfl⟩
  · rintro ⟨key, flow, hflow, rfl⟩
    exact ⟨⟨key, flow⟩, Table.lookup_eq_some_iff.1 hflow, rfl⟩

/-- A flow is entered with the socket in the making. -/
def EntersMade (o : Op env) (w : World env) : Prop :=
  ∀ k key flow, o = .loop k (.insert key flow) → inMaking k w.hist = some flow.socket

/-- The socket of a flow after an operation was open before. -/
theorem open_of_flow (hpre : EntersMade o w) (hexec : exec t o w.st = some (r, st))
    {key : FlowKey} {flow : FlowState}
    (hflow : (st.loops k).tables.flows.lookup key = some flow) :
    flow.socket ∈ openSockets w k := by
  rw [mem_openSockets]
  obtain heq | ⟨o', r', rfl, hloop⟩ := exec_loops hexec k
  · exact .inl ⟨key, flow, heq ▸ hflow, rfl⟩
  · obtain hkept | ⟨key', flow', rfl, heq⟩ := execLoop_kept hloop
    · obtain ⟨flow', hflow', hsocket, -⟩ := hkept key flow hflow
      exact .inl ⟨key, flow', hflow', hsocket.symm⟩
    · rw [heq, FlowTables.insertFlow, Table.lookup_insert_eq] at hflow
      split at hflow
      · cases hflow
        exact .inr (hpre k key' _ rfl)
      · exact .inl ⟨key, flow, hflow, rfl⟩

theorem open_of_after (hpre : EntersMade o w) (hexec : exec t o w.st = some (r, st))
    (ho : ∀ j, o ≠ .loop j .createSocket) (hs : s ∈ openSockets (w.after t o r st : World env) k) :
    s ∈ openSockets w k := by
  obtain ⟨key, flow, hflow, rfl⟩ | hmaking := mem_openSockets.1 hs
  · exact open_of_flow hpre hexec hflow
  · exact mem_openSockets.2 (.inr (inMaking_of_cons ho hmaking))

theorem open_of_create {j : Fin env.shardCount} {socket : ℕ}
    (hexec : exec (.shard j) (.loop j .createSocket) w.st = some (socket, st))
    (hs : s ∈ openSockets (w.after (.shard j) (.loop j .createSocket) socket st : World env) k) :
    s ∈ openSockets w k ∨ k = j ∧ s = socket := by
  obtain ⟨key, flow, hflow, rfl⟩ | hmaking := mem_openSockets.1 hs
  · exact .inl (open_of_flow (fun _ _ _ heq => by cases heq) hexec hflow)
  · rw [System.World.after_hist, inMaking] at hmaking
    split at hmaking
    · next heq =>
        cases hmaking
        exact .inr ⟨heq.symm, rfl⟩
    · exact .inl (mem_openSockets.2 (.inr hmaking))

end Step

/-! ### Every run -/

/-- Open sockets have ports of their own. -/
structure Apart (port : Fin env.shardCount → ℕ → UInt16) (w : World env) : Prop where
  nonzero : ∀ k, ∀ s ∈ openSockets w k, port k s ≠ 0
  unique : ∀ j k, ∀ s ∈ openSockets w j, ∀ s' ∈ openSockets w k, port j s = port k s' →
    j = k ∧ s = s'

/-- The shards enter flows with the sockets that they have created. -/
def portsContract (port : Fin env.shardCount → ℕ → UInt16) : Contract (pathSystem env) where
  cond := BindsUnused port
  inv := Apart port
  may := Op.UsedBy
  pre _ := EntersMade
  post _ _ := True

variable {port : Fin env.shardCount → ℕ → UInt16}

theorem apart_exec {t : Tid env} {o : Op env} {r : o.Ret} {st : State env} {w : World env}
    (h : Apart port w) (hmay : o.UsedBy t) (hpre : EntersMade o w)
    (hexec : exec t o w.st = some (r, st)) (hcond : BindsUnused port w (.exec t o r w.st st)) :
    Apart port (w.after t o r st : World env) := by
  by_cases hcreate : ∃ j, o = .loop j .createSocket
  · obtain ⟨j, rfl⟩ := hcreate
    obtain rfl : t = .shard j := hmay
    obtain ⟨hzero, hunused⟩ := hcond
    refine ⟨fun k s hs => ?_, fun i k s hs s' hs' heq => ?_⟩
    · obtain hs | ⟨rfl, rfl⟩ := open_of_create hexec hs
      · exact h.nonzero k s hs
      · exact hzero
    -- the new socket differs from those that were open before
    · obtain hold | ⟨rfl, rfl⟩ := open_of_create hexec hs
      · obtain hold' | ⟨rfl, rfl⟩ := open_of_create hexec hs'
        · exact h.unique i k s hold s' hold' heq
        · exact absurd heq (hunused i s hold)
      · obtain hold' | ⟨rfl, rfl⟩ := open_of_create hexec hs'
        · exact absurd heq.symm (hunused k s' hold')
        · exact ⟨rfl, rfl⟩
  · have hopen {k : Fin env.shardCount} {s : ℕ} :=
      open_of_after (k := k) (s := s) hpre hexec (not_exists.1 hcreate)
    exact ⟨fun k s hs => h.nonzero k s (hopen hs), fun j k s hs s' hs' =>
      h.unique j k s (hopen hs) s' (hopen hs')⟩

theorem stable_inMaking (s : ℕ) :
    (portsContract port).Stable (.shard k) fun w => inMaking k w.hist = some s := by
  refine Contract.Stable.of_exec (fun w a hw => hw) fun w u o r st hne _ _ _ _ _ hw => ?_
  rw [System.World.after_hist, inMaking_of_ne hne]
  exact hw

theorem ports_onEntries : OnEntries (portsContract port) := by
  intro t o w h k key flow heq
  cases h k _ heq

theorem createFlow_ports (turn : InboxTurn) (packet : ClientPacket) (w : World env) :
    (portsContract port).wp (.shard k) (createFlow k turn packet) (fun _ _ => True) w := by
  have hpre {o : LoopOp} (ho : ∀ key flow, o ≠ .insert key flow) (w : World env) :
      EntersMade (.loop k o) w := by
    intro j key flow heq
    cases heq
    exact absurd rfl (ho key flow)
  unfold createFlow
  split
  · trivial
  refine wp_loop _ .true trivial (fun w' _ _ => hpre (by simp) w') fun w₁ socket l _ _ _ _ => ?_
  refine wp_loop _ (stable_inMaking socket) (by simp [inMaking])
    (fun w' _ _ => hpre (by simp) w') fun w₂ token l _ hw₂ _ _ => ?_
  cases token with
  | none => trivial
  | some token =>
      dsimp only
      split
      · trivial
      refine wp_loop _ (stable_inMaking socket) hw₂
        (fun w' _ _ => hpre (by simp) w') fun w₃ _ l _ hw₃ _ _ => ?_
      refine wp_loop _ (stable_inMaking socket) hw₃ (fun w' _ hw' j key flow heq => ?_)
        fun _ _ _ _ _ _ _ => trivial
      cases heq
      exact hw'

theorem opensWell_ports (k : Fin env.shardCount) : OpensWell (portsContract port) k := by
  intro turn packet _ _ _
  unfold openFlow
  refine Contract.wp_seq (quiet_wp ports_onEntries (uses_flowTotal _) ?_ _) fun total w _ => ?_
  · rintro j o ⟨_, heq⟩
    cases heq
    rfl
  split
  · trivial
  refine wp_loop _ .true trivial
    (fun w' _ _ => ports_onEntries _ _ w' fun _ _ heq => by cases heq; rfl)
    fun w' count l _ _ _ _ => ?_
  split
  · trivial
  split
  · trivial
  exact createFlow_ports turn packet _

theorem portsContract_sound : (portsContract port).Sound where
  start_inv _ _ hinv _ _ := ⟨hinv.nonzero, hinv.unique⟩
  exec_inv _ _ _ _ _ hinv hmay hpre hexec hcond := apart_exec hinv hmay hpre hexec hcond
  post_stable _ := Contract.Stable.true
  prog_may := uses_prog
  prog_wp _ a _ _ _ := prog_wp_of_opens ports_onEntries opensWell_ports a _

section Run

variable {c : Config env} (h : (pathSystem env).Run (BindsUnused port) (start env) c)

include h

theorem apart_run : Apart port c.toWorld := by
  have hstart : Apart port (⟨.new, []⟩ : World env) :=
    ⟨fun _ _ hs => (by cases hs), fun _ _ _ hs => (by cases hs)⟩
  exact (portsContract_sound.run h (Contract.Sound.good_initial hstart fun _ => trivial)).1

/-- Flows have ports of their own. -/
theorem flow_port_unique {j k : Fin env.shardCount} {key key' : FlowKey} {flow flow' : FlowState}
    (hflow : (c.st.loops j).tables.flows.lookup key = some flow)
    (hflow' : (c.st.loops k).tables.flows.lookup key' = some flow')
    (heq : port j flow.socket = port k flow'.socket) : j = k ∧ key = key' := by
  obtain ⟨rfl, hsocket⟩ := (apart_run h).unique j k
    _ (mem_openSockets.2 (.inl ⟨key, flow, hflow, rfl⟩))
    _ (mem_openSockets.2 (.inl ⟨key', flow', hflow', rfl⟩)) heq
  -- one socket is registered under one token, which is that of one flow
  have hsound := ((tablesContract_sound env).run (h.mono fun _ _ _ => trivial)
    (tables_good_start env)).1 j
  have htoken := (hsound.registered key flow hflow).2
  rw [hsocket, (hsound.registered key' flow' hflow').2] at htoken
  exact ⟨rfl, hsound.consistent.token_inj hflow hflow' (Option.some.inj htoken).symm⟩

/-- There are not more flows than ports. -/
theorem flows_le_ports : ∑ k, (c.st.loops k).tables.flows.size ≤ 65535 := by
  have hcard := Table.sum_size_le (fun k => (c.st.loops k).tables.flows)
    (fun k flow => (port k flow.socket).toNat) (Finset.Ico 1 65536)
    (fun k key flow hflow => ?_) fun j k key key' flow flow' hflow hflow' heq =>
      flow_port_unique h hflow hflow' (UInt16.toNat_inj.1 heq)
  · rwa [Nat.card_Ico] at hcard
  · have hzero := (apart_run h).nonzero k _ (mem_openSockets.2 (.inl ⟨key, flow, hflow, rfl⟩))
    refine Finset.mem_Ico.2 ⟨Nat.one_le_iff_ne_zero.2 fun heq => hzero ?_, UInt16.toNat_lt _⟩
    exact UInt16.toNat_inj.1 heq

/-- **The cap on the flows holds in every run**, whatever the counters say: the shards have at most
as many flows as there are ports. -/
theorem flows_within_cap :
    ∑ k, (c.st.loops k).tables.flows.size ≤ maxFlowsTotal + env.shardCount :=
  (flows_le_ports h).trans (Nat.le_add_right_of_le (by decide))

end Run

def samplePort (_ : Fin sampleEnv.shardCount) (socket : ℕ) : UInt16 := 40000 + UInt16.ofNat socket

/-- A test for `BindsUnused`. -/
def bindsUnused (w : World sampleEnv) : Event sampleEnv → Bool
  | .exec _ (.loop k .createSocket) socket _ _ =>
      decide (samplePort k socket ≠ 0) && (List.finRange _).all fun j =>
        (openSockets w j).all fun s => samplePort j s != samplePort k socket
  | _ => true

theorem bindsUnused_of_test {w : World sampleEnv} {e : Event sampleEnv}
    (h : bindsUnused w e = true) : BindsUnused samplePort w e := by
  unfold BindsUnused
  split
  · simpa [bindsUnused] using h
  · trivial

/-- Two client packets open flows, on different ports. -/
theorem flows_within_cap_sample :
    ∃ c, (pathSystem sampleEnv).Run (BindsUnused samplePort) sampleStart c ∧
      (c.st.loops onlyShard).tables.flows.size = 2 ∧
      ∑ k, (c.st.loops k).tables.flows.size ≤ maxFlowsTotal + sampleEnv.shardCount := by
  have hreplay : ((System.Config.replay (M := pathSystem sampleEnv) bindsUnused
      [.start (.rx (.packet (sampleInbound 1 0) .new)), .fire .rx 10,
        .start (.round onlyShard (sampleRound [tokenWake])), .fire (.shard onlyShard) 40,
        .start (.rx (.packet (sampleInbound 1 1) .new)), .fire .rx 10,
        .start (.round onlyShard (sampleRound [tokenWake])), .fire (.shard onlyShard) 40]
      sampleStart).map fun c => (c.st.loops onlyShard).tables.flows.size) = some 2 := by
    decide +kernel
  obtain ⟨c, hc, hsize⟩ := Option.map_eq_some_iff.1 hreplay
  have hrun := (System.Config.run_of_replay hc).mono fun _ _ => bindsUnused_of_test
  exact ⟨c, hrun, hsize, flows_within_cap hrun⟩

end SwiftRelay.Datapath
