/-
**Readiness of the flow sockets.**

The sockets of the flows are registered for edge-triggered events: when the event of a socket is
delivered the shard has to read until the socket is empty, because no further event arises from the
datagrams that are there already.  The shard reads at most a burst, and it stops early when the
lease of the session has lapsed, when there is no free buffer, when a response does not fit and when
a read fails.  What it leaves behind is noticed only when another datagram arrives.

The shard owes a socket a number of reads: a burst when the event has been delivered, one less after
each read.  If a socket never holds more than it is owed, unless an event is due, then nothing is
stranded.

Main definitions:

* `Watched` — no socket holds more than it is owed, unless an event is due;
* `Unhindered` — the conditions under which bursts empty the sockets.

Main results:

* `readContract_sound`, `no_datagram_stranded` — every run under these conditions;
* `datagram_stranded_behind_burst` — a run with one datagram too many.
-/

import SwiftRelay.ShardTables

set_option autoImplicit false

namespace SwiftRelay.Datapath

open Conc

variable {env : Env} {k : Fin env.shardCount}

/-! ### What is owed to a socket -/

/-- No socket of a flow whose session may receive holds more datagrams than the reads owed to its
token, unless an event is due. -/
def LoopState.Watched (l : LoopState) (lease : SessionId → Bool) (owed : ℕ → ℕ) : Prop :=
  ∀ key flow, l.tables.flows.lookup key = some flow → lease key.sessionId = true →
    (l.sockets flow.socket).queue.length ≤ owed flow.token ∨ (l.sockets flow.socket).ready = true

/-- The same in a world. -/
def Watched (k : Fin env.shardCount) (owed : ℕ → ℕ) (w : World env) : Prop :=
  (w.st.loops k).Watched w.st.lease owed

/-- The response with a payload does not fit a buffer. -/
def TooLong (payload : List UInt8) : Prop :=
  ipHeaderMin + (udpHeaderSize + payload.length) > maxPacketSize - sessionIdLen

/-- What lets a burst empty a socket: at most a burst is there when the event is delivered, a read
that fails or that takes a datagram with too long a response leaves nothing behind, a shard finds a
free buffer, and a lease begins while no datagram waits for the session. -/
def Unhindered (w : World env) : Event env → Prop
  | .exec _ (.loop k (.poll _ picked)) _ _ _ =>
      ∀ key flow, (w.st.loops k).tables.flows.lookup key = some flow →
        w.st.lease key.sessionId = true → flow.token ∈ (w.st.loops k).delivered picked →
        ((w.st.loops k).sockets flow.socket).queue.length ≤ maxFlowRecvBurst
  | .exec _ (.loop k (.recv key fails)) _ _ _ =>
      ∀ flow, (w.st.loops k).tables.flows.lookup key = some flow →
        w.st.lease key.sessionId = true →
        (fails = true → ((w.st.loops k).sockets flow.socket).queue = []) ∧
        ∀ datagram rest, ((w.st.loops k).sockets flow.socket).queue = datagram :: rest →
          TooLong (datagram.take maxPacketSize) → rest = []
  | .exec (.shard _) (.queue .acquire) _ _ _ => w.st.queues.free ≠ []
  | .exec _ (.setLease sid true) _ _ _ =>
      w.st.lease sid = false → ∀ k key flow,
        (w.st.loops k).tables.flows.lookup key = some flow → key.sessionId = sid →
        ((w.st.loops k).sockets flow.socket).queue = []
  | _ => True

namespace LoopState.Watched

variable {l l' : LoopState} {lease : SessionId → Bool} {owed owed' : ℕ → ℕ}

theorem mono (h : l.Watched lease owed) (howed : ∀ token, owed token ≤ owed' token) :
    l.Watched lease owed' :=
  fun key flow hflow hlease => (h key flow hflow hlease).imp_left fun hle => hle.trans (howed _)

/-- Flows that remain, with sockets that hold no more than before. -/
theorem kept (h : l.Watched lease owed) (hkept : l.tables.Kept l'.tables)
    (hsockets : ∀ key flow, l'.tables.flows.lookup key = some flow →
      (l'.sockets flow.socket).queue.length ≤ (l.sockets flow.socket).queue.length ∧
      (l'.sockets flow.socket).ready = (l.sockets flow.socket).ready) : l'.Watched lease owed := by
  intro key flow' hflow' hlease
  obtain ⟨flow, hflow, hsocket, htoken⟩ := hkept key flow' hflow'
  obtain ⟨hqueue, hready⟩ := hsockets key flow' hflow'
  rw [hready, htoken]
  refine (h key flow hflow hlease).imp (fun hle => ?_) fun hr => ?_
  · exact (hqueue.trans (by rw [hsocket])).trans hle
  · rwa [hsocket]

theorem arrive (h : l.Watched lease owed) (hl : l.own.Registered) (s : ℕ)
    (datagram : List UInt8) :
    (l.setSocket s ⟨(l.sockets s).token, (l.sockets s).token.isSome,
      (l.sockets s).queue ++ [datagram]⟩).Watched lease owed := by
  intro key flow hflow hlease
  by_cases hs : flow.socket = s
  · -- the socket of a flow is registered, so an event is due now
    have htoken : (l.sockets flow.socket).token = some flow.token := (hl key flow hflow).2
    subst hs
    exact .inr (by simp [LoopState.setSocket, htoken])
  · have hsame := h key flow hflow hlease
    simpa [LoopState.setSocket, hs] using hsame

end LoopState.Watched

/-! ### The contract -/

/-- An idle shard owes nothing.  What is known of the tables is assumed. -/
def readContract (env : Env) : Contract (pathSystem env) where
  cond w e := Unhindered w e ∧ (tablesContract env).inv w ∧ (tablesContract env).Allows w e
  inv _ := True
  may := Op.UsedBy
  pre _ _ _ := True
  post t w := ∀ k, t = .shard k → Watched k (fun _ => 0) w

variable {w : World env} {owed : ℕ → ℕ}

/-- A lease that begins does not change what is watched, because nothing waits for it. -/
theorem watched_setLease {sid : SessionId} {current : Bool} (h : Watched k owed w)
    (hbegin : current = true → w.st.lease sid = false → ∀ key flow,
      (w.st.loops k).tables.flows.lookup key = some flow → key.sessionId = sid →
      ((w.st.loops k).sockets flow.socket).queue = []) :
    (w.st.loops k).Watched (Function.update w.st.lease sid current) owed := by
  intro key flow hflow hlease
  by_cases hsid : key.sessionId = sid
  · rw [hsid, Function.update_self] at hlease
    cases hold : w.st.lease sid with
    | true => exact h key flow hflow (by rw [hsid, hold])
    | false => exact .inl (by rw [hbegin hlease hold key flow hflow hsid]; exact Nat.zero_le _)
  · rw [Function.update_of_ne hsid] at hlease
    exact h key flow hflow hlease

/-- What the others do leaves the sockets of a shard watched. -/
theorem stable_watched (owed : ℕ → ℕ) : (readContract env).Stable (.shard k) (Watched k owed) := by
  intro w w' hstep hw
  have hothers := Stable.others (fun _ _ h => h) hstep
  cases hstep with
  | start a => exact hw
  | exec u o r st hne hinv hused hpre hexec hcond =>
      obtain ⟨hunhindered, hsound, -⟩ := hcond
      change (st.loops k).Watched st.lease owed
      obtain hlease | ⟨sid, current, rfl⟩ := exec_lease hexec
      · rw [hlease]
        obtain heq | heq | ⟨s, d, heq⟩ := hothers
        · rw [System.World.after_st] at heq
          rw [heq]
          exact hw
        · rw [System.World.after_st] at heq
          rw [heq]
          exact hw
        · rw [System.World.after_st] at heq
          rw [heq]
          exact LoopState.Watched.arrive hw (hsound k).registered s d
      · cases hexec
        refine watched_setLease hw fun hcurrent hold => ?_
        subst hcurrent
        exact hunhindered hold k

/-! ### Operations that leave the sockets alone -/

/-- An operation that does not touch the sockets of the flows that remain. -/
def LoopOp.settled : LoopOp → Bool
  | .poll .. => false
  | .recv .. => false
  | .arrive .. => false
  | .createSocket => false
  | .register .. => false
  | .insert .. => false
  | _ => true

theorem execLoop_watched {o : LoopOp} {r : o.Ret} {l l' : LoopState} {lease : SessionId → Bool}
    (h : execLoop o l = some (r, l')) (ho : o.settled = true) (hl : l.Watched lease owed) :
    l'.Watched lease owed := by
  have hkept {tables : FlowTables} (hkept : l.tables.Kept tables) :
      ({ l with tables } : LoopState).Watched lease owed :=
    hl.kept hkept fun _ _ _ => ⟨Nat.le_refl _, rfl⟩
  have hset {tables : FlowTables} (hkept : l.tables.Kept tables) :
      (l.setTables tables).Watched lease owed := by
    refine hl.kept hkept fun key flow hflow => ?_
    have howns : LoopState.owns tables flow.socket = true := LoopState.owns_of_lookup hflow
    rw [l.setTables_sockets howns]
    exact ⟨Nat.le_refl _, rfl⟩
  cases o with
  | poll timedOut picked => cases ho
  | recv key fails => cases ho
  | arrive s d => cases ho
  | createSocket => cases ho
  | register s token => cases ho
  | insert key flow => cases ho
  | touch key now => cases h; exact hkept (l.tables.modifyFlow_kept key (fun _ => rfl) fun _ => rfl)
  | use key addr info now =>
      cases h
      exact hkept (l.tables.modifyFlow_kept key (fun _ => rfl) fun _ => rfl)
  | allocateToken => cases h; exact hkept (.refl _)
  | keepalive sid addr now => cases h; exact hkept (l.tables.keepalive_kept sid addr now)
  | removeSession sid => cases h; exact hset (l.tables.removeSession_kept sid)
  | cleanup now => cases h; exact hset (l.tables.cleanup_kept now)
  | _ => cases h; exact hl

/-- A program of shard `k` that leaves the sockets alone. -/
theorem wp_watched {α : Type} {φ : Op env → Prop} {p : PathProg env α} (hp : p.Uses φ)
    (hloop : ∀ j o, φ (.loop j o) → o.settled = true) (hlease : ∀ sid b, ¬φ (.setLease sid b))
    (hw : Watched k owed w) : (readContract env).wp (.shard k) p (fun _ => Watched k owed) w := by
  refine Contract.wp_of_uses hp _ (stable_watched owed) (fun o ho w' _ hw' => ⟨trivial, ?_⟩) hw
  intro r st hexec _
  change (st.loops k).Watched st.lease owed
  have hsame : st.lease = w'.st.lease := by
    obtain heq | ⟨sid, current, rfl⟩ := exec_lease hexec
    · exact heq
    · exact absurd ho (hlease sid current)
  rw [hsame]
  obtain heq | ⟨o', r', rfl, hexec'⟩ := exec_loops hexec k
  · rw [heq]
    exact hw'
  · exact execLoop_watched hexec' (hloop k o' ho) hw'

/-! ### A burst -/

/-- The reads owed while the events of `tokens` are to be handled. -/
def burstOwed (tokens : List ℕ) : ℕ → ℕ := fun x =>
  if x = tokenWake then 0 else if x ∈ tokens then maxFlowRecvBurst else 0

/-- The reads owed while the event of `token` is handled, with `n` reads left, and the events of
`rest` follow. -/
def burstOwing (rest : List ℕ) (token n : ℕ) : ℕ → ℕ := fun x =>
  if x = tokenWake then 0 else if x = token then n else burstOwed rest x

/-- The flow is in the tables, with the given token. -/
def OwnState.Live (key : FlowKey) (token : ℕ) (s : OwnState) : Prop :=
  ∃ flow, s.tables.flows.lookup key = some flow ∧ flow.token = token

section Owing

variable {rest : List ℕ} {token m n x : ℕ}

theorem burstOwing_of_ne (h : x ≠ token) : burstOwing rest token m x = burstOwed rest x := by
  simp only [burstOwing, burstOwed, if_neg h]
  split <;> rfl

theorem burstOwed_cons_le (x : ℕ) :
    burstOwed (token :: rest) x ≤ burstOwing rest token maxFlowRecvBurst x := by
  by_cases hx : x = token
  · subst hx
    simp only [burstOwed, burstOwing, if_true]
    split
    · exact Nat.le_refl 0
    · split
      · exact Nat.le_refl _
      · exact Nat.zero_le _
  · rw [burstOwing_of_ne hx]
    simp [burstOwed, hx]

theorem burstOwing_zero_le (x : ℕ) : burstOwing rest token 0 x ≤ burstOwed rest x := by
  by_cases hx : x = token
  · simp [burstOwing, hx]
  · exact Nat.le_of_eq (burstOwing_of_ne hx)

end Owing

section Burst

variable {rest : List ℕ} {token m n : ℕ} {key : FlowKey} {l : LoopState} {w : World env}

/-- How many reads are owed to a token is decided by its flow alone. -/
theorem watched_of_flow {lease : SessionId → Bool} (h : l.Watched lease (burstOwing rest token m))
    (hl : l.tables.Consistent) {flow : FlowState} (hlookup : l.tables.flows.lookup key = some flow)
    (htoken : flow.token = token) (hflow : lease key.sessionId = true →
      (l.sockets flow.socket).queue.length ≤ n ∨ (l.sockets flow.socket).ready = true) :
    l.Watched lease (burstOwing rest token n) := by
  intro key' flow' hflow' hlease
  by_cases heq : flow'.token = token
  · have hkey : key' = key := hl.token_inj hflow' hlookup (heq.trans htoken.symm)
    subst hkey
    rw [hlookup] at hflow'
    cases hflow'
    have hnonzero : token ≠ tokenWake :=
      (hl.live token key' (by rw [← htoken]; exact hl.token key' flow hlookup)).1
    simpa [burstOwing, heq, hnonzero] using hflow hlease
  · have hold := h key' flow' hflow' hlease
    rwa [burstOwing_of_ne heq] at hold ⊢

theorem watched_of_none {lease : SessionId → Bool} (h : l.Watched lease (burstOwing rest token m))
    (hnone : ∀ key flow, l.tables.flows.lookup key = some flow → flow.token ≠ token) :
    l.Watched lease (burstOwing rest token n) := by
  intro key flow hflow hlease
  have hold := h key flow hflow hlease
  rwa [burstOwing_of_ne (hnone key flow hflow)] at hold ⊢

/-- While a burst is on, its flow stays in the tables. -/
def Bursting (k : Fin env.shardCount) (key : FlowKey) (rest : List ℕ) (token n : ℕ)
    (w : World env) : Prop :=
  Watched k (burstOwing rest token n) w ∧ (w.st.loops k).own.Live key token

theorem stable_bursting :
    (readContract env).Stable (.shard k) (Bursting k key rest token n) :=
  (stable_watched _).and (Stable.own (fun _ _ h => h) (OwnState.Live key token))

/-- What a read leaves: with a datagram one read less, and none if the response is too long;
otherwise nothing is owed to the token any more. -/
def Received.Leaves (lease : SessionId → Bool) (key : FlowKey) (rest : List ℕ) (token n : ℕ)
    (l : LoopState) : Received → Prop
  | .datagram payload =>
      l.Watched lease (burstOwing rest token n) ∧ l.own.Live key token ∧
        (TooLong payload → l.Watched lease (burstOwing rest token 0))
  | .wouldBlock => l.Watched lease (burstOwing rest token 0)
  | .error => l.Watched lease (burstOwing rest token 0)

/-- A read: the socket was empty, or it holds one datagram less. -/
theorem recv_bursting {fails : Bool} {r : Received} (hw : Bursting k key rest token (n + 1) w)
    (hsound : (w.st.loops k).own.Sound)
    (hcond : ∀ flow, (w.st.loops k).tables.flows.lookup key = some flow →
      w.st.lease key.sessionId = true →
      (fails = true → ((w.st.loops k).sockets flow.socket).queue = []) ∧
      ∀ datagram rest, ((w.st.loops k).sockets flow.socket).queue = datagram :: rest →
        TooLong (datagram.take maxPacketSize) → rest = [])
    (hexec : execLoop (.recv key fails) (w.st.loops k) = some (r, l)) :
    r.Leaves w.st.lease key rest token n l := by
  obtain ⟨hwatched, flow, hlookup, htoken⟩ := hw
  have hlookup : (w.st.loops k).tables.flows.lookup key = some flow := hlookup
  have hcons := hsound.consistent
  have hempty (hqueue : w.st.lease key.sessionId = true →
      ((w.st.loops k).sockets flow.socket).queue = []) :
      (w.st.loops k).Watched w.st.lease (burstOwing rest token 0) :=
    watched_of_flow hwatched hcons hlookup htoken fun hlease => .inl (by simp [hqueue hlease])
  simp only [execLoop, hlookup] at hexec
  split at hexec
  · next hfails =>
      cases hexec
      exact hempty fun hlease => (hcond flow hlookup hlease).1 hfails
  · split at hexec
    · next hqueue =>
        cases hexec
        exact hempty fun _ => hqueue
    · next datagram queue hqueue =>
        cases hexec
        have hsocket : ((w.st.loops k).setSocket flow.socket
            { (w.st.loops k).sockets flow.socket with queue }).sockets flow.socket =
            { (w.st.loops k).sockets flow.socket with queue } := Function.update_self ..
        have hpopped : ((w.st.loops k).setSocket flow.socket
            { (w.st.loops k).sockets flow.socket with queue }).Watched w.st.lease
              (burstOwing rest token (n + 1)) := by
          refine LoopState.Watched.kept hwatched (.refl _) fun key' flow' _ => ?_
          by_cases hs : flow'.socket = flow.socket
          · rw [hs, hsocket, hqueue]
            exact ⟨Nat.le_succ _, rfl⟩
          · simp [LoopState.setSocket, hs]
        refine ⟨watched_of_flow hpopped hcons hlookup htoken fun hlease => ?_,
          ⟨flow, hlookup, htoken⟩, fun hlong => watched_of_flow hpopped hcons hlookup htoken
            fun hlease => .inl ?_⟩
        · have hnonzero : token ≠ tokenWake :=
            (hcons.live token key (by rw [← htoken]; exact hcons.token key flow hlookup)).1
          rw [hsocket]
          refine (hwatched key flow hlookup hlease).imp_left fun hle => ?_
          simpa [burstOwing, htoken, hnonzero, hqueue] using hle
        · rw [hsocket, (hcond flow hlookup hlease).2 datagram queue hqueue hlong]
          exact Nat.le_refl 0

/-- What is left when a datagram has been taken: `n` reads, and none if its response is too long. -/
def Carrying (k : Fin env.shardCount) (key : FlowKey) (rest : List ℕ) (token n : ℕ)
    (payload : List UInt8) (w : World env) : Prop :=
  Bursting k key rest token n w ∧ (TooLong payload → Watched k (burstOwing rest token 0) w)

variable {payload : List UInt8}

theorem stable_carrying :
    (readContract env).Stable (.shard k) (Carrying k key rest token n payload) :=
  stable_bursting.and (Contract.Stable.imp fun _ => stable_watched _)

/-- What a response leaves: the burst goes on, or nothing is burstOwed any more. -/
def Proceeds (k : Fin env.shardCount) (key : FlowKey) (rest : List ℕ) (token n : ℕ) (more : Bool)
    (w : World env) : Prop :=
  if more = true then Bursting k key rest token n w else Watched k (burstOwing rest token 0) w

theorem carryResponse_proceeds (flow : FlowState) (turn : RecvTurn)
    (hw : Carrying k key rest token n payload w) :
    (readContract env).wp (.shard k) (carryResponse key flow turn payload)
      (Proceeds k key rest token n) w := by
  refine wp_queue _ stable_carrying hw (fun _ _ _ => trivial) fun w₁ r q _ hw₁ hexec hcond => ?_
  cases r with
  | none =>
      -- there is a free buffer
      cases execQueue_step hexec with
      | exhausted hfree => exact absurd hfree hcond.1
  | some idx =>
      dsimp only
      split
      · next hwrite =>
          have hlong : TooLong payload := by
            unfold writeResponseIpPacketWithTos at hwrite
            split at hwrite
            · next hlong => exact hlong
            · cases hwrite
          refine wp_queue _ (stable_watched (burstOwing rest token 0)) (hw₁.2 hlong)
            (fun _ _ _ => trivial) fun w₂ _ _ _ hw₂ _ _ => hw₂
      · refine wp_queue _ stable_bursting hw₁.1 (fun _ _ _ => trivial) fun w₂ _ _ _ hw₂ _ _ => ?_
        refine wp_queue _ stable_bursting hw₂ (fun _ _ _ => trivial) fun w₃ sent _ _ hw₃ _ _ => ?_
        cases sent with
        | true => exact hw₃
        | false =>
            exact wp_queue _ stable_bursting hw₃ (fun _ _ _ => trivial) fun _ _ _ _ hw₄ _ _ => hw₄

theorem touch_carrying {now : Instant} {r : Unit} (hw : Carrying k key rest token n payload w)
    (hexec : execLoop (.touch key now) (w.st.loops k) = some (r, l)) :
    Carrying k key rest token n payload (System.World.after (M := pathSystem env) w (.shard k)
      (.loop k (.touch key now)) r (w.st.setLoop k l)) := by
  obtain ⟨⟨hwatched, hlive⟩, hlong⟩ := hw
  refine ⟨⟨?_, ?_⟩, fun h => ?_⟩
  · simpa [Watched] using execLoop_watched hexec rfl hwatched
  · obtain ⟨flow, hlookup, htoken⟩ := hlive
    rw [System.World.after_st, State.setLoop_self]
    cases hexec
    refine ⟨flow.touch now, ?_, htoken⟩
    have hlookup : (w.st.loops k).tables.flows.lookup key = some flow := hlookup
    simp only [LoopState.own, FlowTables.lookup_modifyFlow, if_true, hlookup, Option.map_some]
  · simpa [Watched] using execLoop_watched hexec rfl (hlong h)

theorem Bursting.lapsed (hw : Bursting k key rest token n w) (hsound : (w.st.loops k).own.Sound)
    (hlease : w.st.lease key.sessionId = false) : Watched k (burstOwing rest token 0) w := by
  obtain ⟨hwatched, flow, hlookup, htoken⟩ := hw
  refine watched_of_flow hwatched hsound.consistent hlookup htoken fun h => ?_
  rw [hlease] at h
  cases h

theorem flowResponse_proceeds (flow : FlowState) (turn : RecvTurn)
    (hw : Bursting k key rest token (n + 1) w) :
    (readContract env).wp (.shard k) (flowResponse k key flow turn)
      (Proceeds k key rest token n) w := by
  refine wp_loop _ stable_bursting hw (fun _ _ _ => trivial) fun w₁ r l _ hw₁ hexec hcond => ?_
  have hleaves := recv_bursting hw₁ (hcond.2.1 k) hcond.1 hexec
  cases r with
  | wouldBlock =>
      have hnone : l.Watched w₁.st.lease (burstOwing rest token 0) := hleaves
      simpa [Proceeds, Watched] using hnone
  | error =>
      have hnone : l.Watched w₁.st.lease (burstOwing rest token 0) := hleaves
      simpa [Proceeds, Watched] using hnone
  | datagram payload =>
      have hcarrying : Carrying k key rest token n payload (System.World.after
          (M := pathSystem env) w₁ (.shard k) (.loop k (.recv key turn.fails))
          (.datagram payload) (w₁.st.setLoop k l)) := by
        obtain ⟨hwatched, hlive, hlong⟩ := hleaves
        exact ⟨⟨by simpa [Watched] using hwatched, by simpa using hlive⟩,
          fun h => by simpa [Watched] using hlong h⟩
      refine Contract.wp_op _ stable_carrying hcarrying (fun _ _ _ => trivial)
        fun w₂ current st _ hw₂ hexec₂ hcond₂ => ?_
      cases hexec₂
      cases hcurrent : w₂.st.lease key.sessionId with
      | false => exact hw₂.1.lapsed (hcond₂.2.1 k) hcurrent
      | true =>
          refine wp_loop _ stable_carrying hw₂ (fun _ _ _ => trivial)
            fun w₃ _ l _ hw₃ hexec₃ _ => ?_
          exact carryResponse_proceeds flow turn (touch_carrying hw₃ hexec₃)

/-- Each datagram taken uses up one of the reads owed. -/
theorem flowBurst_watched (flow : FlowState) (turns : ℕ → RecvTurn) (n : ℕ)
    (hw : Bursting k key rest token n w) :
    (readContract env).wp (.shard k) (flowBurst k key flow turns n)
      (fun _ => Watched k (burstOwing rest token 0)) w := by
  induction n generalizing w with
  | zero => exact hw.1
  | succ n ih =>
      refine Contract.wp_seq (flowResponse_proceeds flow (turns n) hw) fun more w₁ hw₁ => ?_
      cases more with
      | true => exact ih hw₁
      | false => exact hw₁

/-- Looking up the flow of an event finds the flow with its token, if there is one. -/
theorem execLoop_flowOfToken {l' : LoopState} {r : Option (FlowKey × FlowState)}
    (hl : l.tables.Consistent) (h : execLoop (.flowOfToken token) l = some (r, l')) :
    l' = l ∧
      ((r = none ∧ ∀ key flow, l.tables.flows.lookup key = some flow → flow.token ≠ token) ∨
        ∃ key flow, r = some (key, flow) ∧ l.own.Live key token) := by
  cases h
  refine ⟨rfl, ?_⟩
  cases htoken : l.tables.tokenToFlow.lookup token with
  | none =>
      refine .inl ⟨rfl, fun key flow hflow heq => ?_⟩
      rw [← heq, hl.token key flow hflow] at htoken
      cases htoken
  | some key =>
      obtain ⟨-, flow, hflow, heq⟩ := hl.live token key htoken
      exact .inr ⟨key, flow, by simp [hflow], flow, hflow, heq⟩

/-- The event of a socket: its flow is found and read from, or there is no such flow. -/
theorem socketEvent_watched (turns : ℕ → RecvTurn) (hw : Watched k (burstOwed (token :: rest)) w) :
    (readContract env).wp (.shard k) (socketEvent k turns token)
      (fun _ => Watched k (burstOwed rest)) w := by
  unfold socketEvent
  split
  · next hwake =>
      refine LoopState.Watched.mono hw fun x => ?_
      subst hwake
      unfold burstOwed
      split
      · exact Nat.le_refl 0
      · next hx => simp [hx]
  · refine wp_loop _ (stable_watched _) hw (fun _ _ _ => trivial) fun w₁ r l _ hw₁ hexec hcond => ?_
    have hburst : Watched k (burstOwing rest token maxFlowRecvBurst) w₁ :=
      LoopState.Watched.mono hw₁ burstOwed_cons_le
    obtain ⟨rfl, ⟨rfl, hnone⟩ | ⟨key, flow, rfl, hlive⟩⟩ :=
      execLoop_flowOfToken (hcond.2.1 k).consistent hexec
    · rw [State.setLoop_eq]
      exact LoopState.Watched.mono (watched_of_none hburst hnone) burstOwing_zero_le
    · rw [State.setLoop_eq]
      exact Contract.wp_mono (flowBurst_watched flow turns maxFlowRecvBurst ⟨hburst, hlive⟩)
        fun _ _ hw₂ => LoopState.Watched.mono hw₂ burstOwing_zero_le

theorem socketEvents_watched (reads : ℕ → ℕ → RecvTurn) (tokens : List ℕ)
    (hw : Watched k (burstOwed tokens) w) :
    (readContract env).wp (.shard k) (socketEvents k reads tokens)
      (fun _ => Watched k (burstOwed [])) w := by
  induction tokens generalizing w with
  | nil => exact hw
  | cons token tokens ih =>
      exact Contract.wp_seq (socketEvent_watched (reads token) hw) fun _ _ hw₁ => ih hw₁

end Burst

/-! ### A round -/

theorem burstOwed_nil : burstOwed [] = fun _ => 0 := by
  funext x
  simp [burstOwed]

theorem poll_watched {timedOut : Bool} {picked tokens : List ℕ} {l : LoopState}
    (hw : Watched k (fun _ => 0) w) (hsound : (w.st.loops k).own.Sound)
    (hcond : ∀ key flow, (w.st.loops k).tables.flows.lookup key = some flow →
      w.st.lease key.sessionId = true → flow.token ∈ (w.st.loops k).delivered picked →
      ((w.st.loops k).sockets flow.socket).queue.length ≤ maxFlowRecvBurst)
    (hexec : execLoop (.poll timedOut picked) (w.st.loops k) = some (tokens, l)) :
    l.Watched w.st.lease (burstOwed tokens) := by
  obtain ⟨rfl, rfl⟩ := execLoop_poll hexec
  intro key flow hflow hlease
  have hflow : (w.st.loops k).tables.flows.lookup key = some flow := hflow
  have hnonzero : flow.token ≠ tokenWake :=
    (hsound.consistent.live flow.token key (hsound.consistent.token key flow hflow)).1
  by_cases hdelivered : flow.token ∈ (w.st.loops k).delivered picked
  · left
    simpa [burstOwed, hnonzero, hdelivered, LoopState.deliver]
      using hcond key flow hflow hlease hdelivered
  · have htoken : ((w.st.loops k).sockets flow.socket).token = some flow.token :=
      (hsound.registered key flow hflow).2
    refine (hw key flow hflow hlease).imp (fun hle => hle.trans (Nat.zero_le _)) fun hready => ?_
    simp [LoopState.deliver, hready, htoken, hdelivered]

/-- The socket holds nothing, or an event is due. -/
def Fresh (k : Fin env.shardCount) (socket token : ℕ) (w : World env) : Prop :=
  ((w.st.loops k).sockets socket).token = some token ∧
    (((w.st.loops k).sockets socket).queue = [] ∨ ((w.st.loops k).sockets socket).ready = true)

theorem stable_fresh {socket token : ℕ} :
    (readContract env).Stable (.shard k) (Fresh k socket token) := by
  intro w w' hstep hw
  obtain heq | heq | ⟨s, d, heq⟩ := Stable.others (fun _ _ h => h) hstep
  · rw [Fresh, heq]
    exact hw
  · rw [Fresh, heq]
    exact hw
  · rw [Fresh, heq]
    by_cases hs : socket = s
    · subst hs
      simp [LoopState.setSocket, hw.1]
    · unfold Fresh at hw
      simpa [LoopState.setSocket, hs] using hw

section Create

variable {l l' : LoopState} {lease : SessionId → Bool} {owed : ℕ → ℕ} {socket token : ℕ}
  {key : FlowKey} {flow : FlowState} {r : Unit}

theorem createSocket_watched (hl : l.Watched lease owed) (hregistered : l.own.Registered)
    (h : execLoop .createSocket l = some (socket, l')) : l'.Watched lease owed := by
  cases h
  refine hl.kept (.refl _) fun key flow hflow => ?_
  have hlt : flow.socket < l.nextSocket := (hregistered key flow hflow).1
  simp [LoopState.setSocket, Nat.ne_of_lt hlt]

theorem register_watched (hl : l.Watched lease owed) (hloose : l.own.Loose socket)
    (h : execLoop (.register socket token) l = some (r, l')) : l'.Watched lease owed := by
  cases h
  refine hl.kept (.refl _) fun key flow hflow => ?_
  have hne : flow.socket ≠ socket := hloose.unused key flow hflow
  simp [LoopState.setSocket, hne]

theorem insert_watched (hl : l.Watched lease owed)
    (hsocket : (l.sockets flow.socket).queue = [] ∨ (l.sockets flow.socket).ready = true)
    (h : execLoop (.insert key flow) l = some (r, l')) : l'.Watched lease owed := by
  cases h
  intro key' flow' hflow' hlease
  simp only [FlowTables.insertFlow, Table.lookup_insert_eq] at hflow'
  split at hflow'
  · cases hflow'
    exact hsocket.imp_left fun hempty => by simp [hempty]
  · exact hl key' flow' hflow' hlease

end Create

/-- Datagrams that arrive at a new socket before its flow is entered are not missed. -/
theorem createFlow_watched (turn : InboxTurn) (packet : ClientPacket)
    (hw : Watched k (fun _ => 0) w) :
    (readContract env).wp (.shard k) (createFlow k turn packet)
      (fun _ => Watched k (fun _ => 0)) w := by
  unfold createFlow
  split
  · exact hw
  refine wp_loop _ (stable_watched _) hw (fun _ _ _ => trivial)
    fun w₁ socket l _ hw₁ hexec hcond => ?_
  have hl := createSocket_watched hw₁ (hcond.2.1 k).registered hexec
  refine wp_loop (Watched k fun _ => 0) (stable_watched _) (by simpa [Watched] using hl)
    (fun _ _ _ => trivial) fun w₂ token l _ hw₂ hexec₂ _ => ?_
  have hl := execLoop_watched hexec₂ rfl hw₂
  cases token with
  | none => simpa [Watched] using hl
  | some token =>
      dsimp only
      split
      · simpa [Watched] using hl
      refine wp_loop (Watched k fun _ => 0) (stable_watched _) (by simpa [Watched] using hl)
        (fun _ _ _ => trivial) fun w₃ _ l _ hw₃ hexec₃ hcond₃ => ?_
      have hl := register_watched hw₃ ((hcond₃.2.2.2 k _ rfl).1 socket token rfl) hexec₃
      have hfresh : (l.sockets socket).token = some token ∧
          ((l.sockets socket).queue = [] ∨ (l.sockets socket).ready = true) := by
        cases hexec₃
        simp [LoopState.setSocket, em]
      refine wp_loop (fun w => Watched k (fun _ => 0) w ∧ Fresh k socket token w)
        ((stable_watched _).and stable_fresh) (by simpa [Watched, Fresh] using ⟨hl, hfresh⟩)
        (fun _ _ _ => trivial) fun w₄ _ l _ hw₄ hexec₄ _ => ?_
      have hl := insert_watched hw₄.1 hw₄.2.2 hexec₄
      simpa [Watched] using hl

theorem openFlow_watched (turn : InboxTurn) (packet : ClientPacket)
    (hw : Watched k (fun _ => 0) w) :
    (readContract env).wp (.shard k) (openFlow k turn packet)
      (fun _ => Watched k (fun _ => 0)) w := by
  have htotal : (readContract env).wp (.shard k) (flowTotal (List.finRange env.shardCount))
      (fun _ => Watched k (fun _ => 0)) w := by
    refine wp_watched (uses_flowTotal _) ?_ (by simp) hw
    rintro j o ⟨i, heq⟩
    cases heq
    rfl
  refine Contract.wp_seq htotal fun total w₁ hw₁ => ?_
  split
  · exact hw₁
  refine wp_loop _ (stable_watched _) hw₁ (fun _ _ _ => trivial) fun w₂ len l _ hw₂ hexec _ => ?_
  have hl : Watched k (fun _ => 0) (System.World.after (M := pathSystem env) w₂ (.shard k)
      (.loop k (.sessionLen packet.sessionId)) len (w₂.st.setLoop k l)) := by
    simpa [Watched] using execLoop_watched hexec rfl hw₂
  split
  · exact hl
  · split
    · exact hl
    · exact createFlow_watched turn packet hl

theorem shardMsg_watched (turn : InboxTurn) (msg : Msg) (hw : Watched k (fun _ => 0) w) :
    (readContract env).wp (.shard k) (shardMsg k turn msg) (fun _ => Watched k (fun _ => 0)) w := by
  have hrelease (idx : ℕ) {w : World env} (hw : Watched k (fun _ => 0) w) :
      (readContract env).wp (.shard k) (queue (.release idx))
        (fun _ => Watched k (fun _ => 0)) w :=
    wp_watched (φ := (· = .queue (.release idx))) (uses_queue.2 rfl) (by simp) (by simp) hw
  have hloop (o : LoopOp) (ho : o.settled = true) :
      (readContract env).wp (.shard k) (loop k o) (fun _ => Watched k (fun _ => 0)) w :=
    wp_watched (φ := (· = .loop k o)) (uses_loop.2 rfl)
      (fun j o' heq => by cases heq; exact ho) (by simp) hw
  cases msg with
  | clientPacket packet idx len =>
      have hforward {w : World env} (hw : Watched k (fun _ => 0) w) :
          (readContract env).wp (.shard k) (forwardOnFlow k turn packet idx len)
            (fun _ => Watched k (fun _ => 0)) w :=
        wp_watched (uses_forwardOnFlow ..) (fun _ _ h => by cases h <;> rfl)
          (fun _ _ h => by cases h) hw
      change (readContract env).wp (.shard k) (shardClientPacket k turn packet idx len) _ w
      unfold shardClientPacket
      split
      · exact hrelease idx hw
      · refine wp_loop _ (stable_watched _) hw (fun _ _ _ => trivial)
          fun w₁ found l _ hw₁ hexec _ => ?_
        cases hexec
        rw [State.setLoop_eq]
        split
        · exact hforward hw₁
        · refine Contract.wp_seq (openFlow_watched turn packet hw₁) fun opened w₂ hw₂ => ?_
          split
          · exact hforward hw₂
          · exact hrelease idx hw₂
  | keepalive sid addr => exact hloop _ rfl
  | removeSession sid => exact hloop _ rfl

theorem drainInbox_watched (turns : ℕ → InboxTurn) (n : ℕ) (hw : Watched k (fun _ => 0) w) :
    (readContract env).wp (.shard k) (drainInbox k turns n)
      (fun _ => Watched k (fun _ => 0)) w := by
  induction n generalizing w with
  | zero => exact hw
  | succ n ih =>
      refine wp_queue _ (stable_watched _) hw (fun _ _ _ => trivial) fun w₁ r q _ hw₁ _ _ => ?_
      cases r with
      | none => exact hw₁
      | some msg =>
          exact Contract.wp_seq (shardMsg_watched _ msg hw₁) fun _ _ hw₂ => ih hw₂

theorem shardRound_watched (turn : RoundTurn) (hw : Watched k (fun _ => 0) w) :
    (readContract env).wp (.shard k) (shardRound k turn) (fun _ => Watched k (fun _ => 0)) w := by
  refine wp_loop _ (stable_watched _) hw (fun _ _ _ => trivial)
    fun w₁ tokens l _ hw₁ hexec hcond => ?_
  have hl := poll_watched hw₁ (hcond.2.1 k) hcond.1 hexec
  refine Contract.wp_seq (socketEvents_watched turn.reads tokens
    (by simpa [Watched] using hl)) fun _ w₂ hw₂ => ?_
  rw [burstOwed_nil] at hw₂
  refine Contract.wp_seq (drainInbox_watched _ _ hw₂) fun _ w₃ hw₃ => ?_
  cases turn.cleanupAt with
  | none => exact hw₃
  | some now =>
      refine wp_watched (φ := fun o => o = .loop k (.cleanup now) ∨ o = .loop k .storeCount)
        (Prog.uses_bind (uses_loop.2 (.inl rfl)) fun _ => uses_loop.2 (.inr rfl)) ?_ (by simp) hw₃
      rintro j o (heq | heq) <;> cases heq <;> rfl

/-! ### Every run -/

theorem readContract_sound (env : Env) : (readContract env).Sound where
  start_inv _ _ _ _ _ := trivial
  exec_inv _ _ _ _ _ _ _ _ _ _ := trivial
  post_stable t w w' hstep hw k hk := by
    subst hk
    exact stable_watched _ w w' hstep (hw k rfl)
  prog_may := uses_prog
  prog_wp w a _ hpost _ := by
    by_cases hshard : ∃ k turn, a = .round k turn
    · obtain ⟨k, turn, rfl⟩ := hshard
      refine Contract.wp_mono (shardRound_watched turn (hpost k rfl)) fun _ _ hw j hj => ?_
      cases hj
      exact hw
    · -- the other threads have nothing to establish
      refine Contract.wp_mono (Contract.wp_of_uses (uses_prog a) (fun _ => True)
        Contract.Stable.true (fun _ _ _ _ _ => ⟨trivial, fun _ _ _ _ => trivial⟩) trivial)
        fun _ _ _ k hk => ?_
      cases a with
      | round j turn => exact absurd ⟨j, turn, rfl⟩ hshard
      | _ => cases hk

/-- **No datagram is stranded** where bursts can empty the sockets: when a shard is about to poll,
each socket of a flow with a current lease that holds unread datagrams has an event that is due. -/
theorem no_datagram_stranded {c : Config env} (h : (pathSystem env).Run Unhindered (start env) c)
    {k : Fin env.shardCount} (hidle : c.ctl (.shard k) = .ret ()) {key : FlowKey} {flow : FlowState}
    (hflow : (c.st.loops k).tables.flows.lookup key = some flow)
    (hlease : c.st.lease key.sessionId = true)
    (hunread : ((c.st.loops k).sockets flow.socket).queue ≠ []) :
    ((c.st.loops k).sockets flow.socket).ready = true := by
  have hallowed := (tablesContract_sound env).run_allowed (fun _ _ _ => trivial) h
    (tables_good_start env)
  have hgood := (readContract_sound env).run
    (hallowed.mono fun _ _ he => ⟨he.1, he.2.2.1, he.2.2.2⟩)
    (Contract.Sound.good_initial trivial fun _ _ _ _ _ hflow => by cases hflow)
  obtain hle | hready := Contract.Sound.post_of_idle hgood hidle k rfl key flow hflow hlease
  · exact absurd (List.length_eq_zero_iff.1 (Nat.le_zero.1 hle)) hunread
  · exact hready

/-- A test for `Unhindered`: short queues of short datagrams, no failing reads and a free buffer,
and leases that begin when nothing has arrived. -/
def unhindered : System.Test (pathSystem sampleEnv)
  | _, .loop k (.poll ..), s => (s.loops k).tables.flows.entries.all fun e =>
      decide (((s.loops k).sockets e.2.socket).queue.length ≤ maxFlowRecvBurst)
  | _, .loop k (.recv _ fails), s => !fails && (s.loops k).tables.flows.entries.all fun e =>
      ((s.loops k).sockets e.2.socket).queue.all fun datagram => decide (datagram.length ≤ 1000)
  | _, .queue .acquire, s => !s.queues.free.isEmpty
  | _, .setLease _ _, s => (s.loops onlyShard).tables.flows.entries.all fun e =>
      ((s.loops onlyShard).sockets e.2.socket).queue.isEmpty
  | _, _, _ => true

theorem all_of_lookup {tables : FlowTables} {p : FlowState → Bool}
    (h : (tables.flows.entries.all fun e => p e.2) = true) {key : FlowKey} {flow : FlowState}
    (hflow : tables.flows.lookup key = some flow) : p flow = true :=
  List.all_eq_true.1 h ⟨key, flow⟩ (Table.lookup_eq_some_iff.1 hflow)

theorem unhindered_of_passes {w : World sampleEnv} {e : Event sampleEnv}
    (h : System.Passes unhindered w e) : Unhindered w e := by
  unfold Unhindered
  split
  · next k _ _ _ _ _ =>
      intro key flow hflow _ _
      exact of_decide_eq_true (all_of_lookup (p := fun flow =>
        decide (((w.st.loops k).sockets flow.socket).queue.length ≤ maxFlowRecvBurst)) h hflow)
  · next k key fails _ _ _ =>
      obtain ⟨hfails, hshort⟩ := Bool.and_eq_true_iff.1 h
      intro flow hflow _
      refine ⟨fun hfail => by simp [hfail] at hfails, fun datagram rest hqueue hlong => ?_⟩
      have hall := all_of_lookup
        (p := fun flow => ((w.st.loops k).sockets flow.socket).queue.all fun datagram =>
          decide (datagram.length ≤ 1000)) hshort hflow
      rw [hqueue, List.all_cons, Bool.and_eq_true, decide_eq_true_eq] at hall
      have hlength := List.length_take_le' maxPacketSize datagram
      simp only [TooLong, ipHeaderMin, udpHeaderSize, sessionIdLen] at hlong
      unfold maxPacketSize at hlong hlength
      omega
  · intro hfree
    have h : (!w.st.queues.free.isEmpty) = true := h
    simp [hfree] at h
  · intro _ k key flow hflow _
    have : Subsingleton (Fin sampleEnv.shardCount) := inferInstanceAs (Subsingleton (Fin 1))
    rw [Subsingleton.elim k onlyShard] at hflow ⊢
    exact List.isEmpty_iff.1 (all_of_lookup
      (p := fun flow => ((w.st.loops onlyShard).sockets flow.socket).queue.isEmpty) h hflow)
  · trivial

/-- What happens until the flow of a client packet is open and its session has a lease. -/
def openingTurns : List (pathSystem sampleEnv).Turn :=
  [.start (.rx (.packet (sampleInbound 1 0) .new)), .fire .rx 10,
    .start (.round onlyShard (sampleRound [tokenWake])), .fire (.shard onlyShard) 40,
    .start (.setLease 1 true), .fire .network 1]

/-- Some datagrams arrive at the socket of the flow. -/
def arrivalTurns (n : ℕ) : List (pathSystem sampleEnv).Turn :=
  (List.replicate n [.start (.arrive onlyShard 0 [1, 2, 3]), .fire .network 1]).flatten

/-- A round reads from the socket of the flow. -/
def readingTurns : List (pathSystem sampleEnv).Turn :=
  [.start (.round onlyShard (sampleRound [1])), .fire (.shard onlyShard) 400]

/-- Two datagrams have been read, and a third one has arrived. -/
theorem no_datagram_stranded_sample :
    ∃ c flow, (pathSystem sampleEnv).Run Unhindered sampleStart c ∧
      c.ctl (.shard onlyShard) = .ret () ∧
      (c.st.loops onlyShard).tables.flows.lookup sampleKey = some flow ∧
      c.st.lease sampleKey.sessionId = true ∧
      ((c.st.loops onlyShard).sockets flow.socket).queue ≠ [] ∧
      ((c.st.loops onlyShard).sockets flow.socket).ready = true := by
  obtain ⟨c, hrun, hc⟩ := (reaches_sampleStart unhindered).follow
    (openingTurns ++ arrivalTurns 2 ++ readingTurns ++ arrivalTurns 1) (by decide +kernel)
  have hrun := hrun.mono fun _ _ => unhindered_of_passes
  have hidle : c.ctl (.shard onlyShard) = .ret () := by
    rw [hc.2]
    exact System.ctl_of_idle (by decide +kernel)
  have hst : c.st.lease sampleKey.sessionId = true ∧
      ((c.st.loops onlyShard).tables.flows.lookup sampleKey).map FlowState.socket = some 0 ∧
      ((c.st.loops onlyShard).sockets 0).queue ≠ [] := by
    rw [hc.1]
    decide +kernel
  obtain ⟨hlease, hsocket, hunread⟩ := hst
  obtain ⟨flow, hflow, hzero⟩ := Option.map_eq_some_iff.1 hsocket
  rw [← hzero] at hunread
  exact ⟨c, flow, hrun, hidle, hflow, hlease, hunread,
    no_datagram_stranded hrun hidle hflow hlease hunread⟩

/-! ### One datagram too many -/

/-- A burst of datagrams and one more arrive before the shard polls.  The round that follows leaves
one datagram behind, all threads are idle, and the next `poll` blocks. -/
theorem datagram_stranded_behind_burst :
    ∃ c flow, (pathSystem sampleEnv).Steps sampleStart c ∧ (∀ t, c.ctl t = .ret ()) ∧
      (c.st.loops onlyShard).tables.flows.lookup sampleKey = some flow ∧
      c.st.lease sampleKey.sessionId = true ∧
      ((c.st.loops onlyShard).sockets flow.socket).queue ≠ [] ∧
      ((c.st.loops onlyShard).sockets flow.socket).ready = false ∧
      ∀ picked, exec (.shard onlyShard) (.loop onlyShard (.poll false picked)) c.st = none := by
  obtain ⟨c, hrun, hc⟩ := (reaches_sampleStart System.free).follow
    (openingTurns ++ arrivalTurns 65 ++ readingTurns) (by decide +kernel)
  have hidle : ∀ t, c.ctl t = .ret () := by
    intro t
    rw [hc.2]
    refine System.ctl_of_idle ?_
    revert t
    decide +kernel
  have hst : c.st.lease sampleKey.sessionId = true ∧
      ((c.st.loops onlyShard).tables.flows.lookup sampleKey).map FlowState.socket = some 0 ∧
      ((c.st.loops onlyShard).sockets 0).queue = [[1, 2, 3]] ∧
      ((c.st.loops onlyShard).sockets 0).ready = false ∧
      (c.st.loops onlyShard).pendingTokens = [] := by
    rw [hc.1]
    decide +kernel
  obtain ⟨hlease, hsocket, hunread, hready, hpending⟩ := hst
  obtain ⟨flow, hflow, hzero⟩ := Option.map_eq_some_iff.1 hsocket
  refine ⟨c, flow, hrun.steps, hidle, hflow, hlease, ?_, ?_, fun picked => ?_⟩
  · rw [hzero, hunread]
    exact List.cons_ne_nil _ _
  · rw [hzero, hready]
  · simp [exec, execLoop, LoopState.delivered, hpending]

end SwiftRelay.Datapath
