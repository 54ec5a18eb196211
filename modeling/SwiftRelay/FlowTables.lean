/-
**The flow tables of a shard.**

A shard keeps its flows in three maps: the flows by session and game server, the flow of each
registration token, and for each session the list of the game servers it talks to.  The maps are
updated separately: a new flow is entered into all three, the cleanup of idle flows swaps an address
out of a list while it walks over the flows, and the removal of a session takes the list first and
the flows after it.

The three maps nevertheless describe one set of flows.  Removing a flow has to take one entry from
each map, and this is proved once, for any way of taking an address out of the list of a session.

Main definitions:

* `FlowKey`, `FlowState` — a flow and its key;
* `FlowTables` — the maps and the next token to try;
* `allocateFlowToken`, `insertFlow`, `keepalive`, `removeSession`, `cleanup` — what a shard does to
  them;
* `Consistent` — the maps describe the same flows.

Main results:

* `Consistent.removed` — removing one flow;
* `Consistent.insertFlow`, `Consistent.modifyFlow`, `Consistent.keepalive`,
  `Consistent.removeSession`, `Consistent.cleanup` — everything a shard does keeps the maps
  consistent;
* `cleanup_kept`, `removeSession_kept` — the flows that remain keep their sockets and tokens;
* `lookup_removeSession_of_ne` — flows that a removal leaves alone;
* `allocateFlowToken_free` — a token handed out is not in use.
-/

import Mathlib.Algebra.Ring.Nat
import SwiftRelay.Shared

set_option autoImplicit false

/-! ### Swap and remove -/

section SwapRemove

variable {α : Type}

/-- The list without the element at `pos`, whose place the last element takes. -/
def swapRemove (l : List α) (pos : ℕ) : List α :=
  match l.getLast? with
  | none => l
  | some last => (l.set pos last).dropLast

theorem swapRemove_concat (l : List α) (last : α) (pos : ℕ) :
    swapRemove (l ++ [last]) pos = if pos < l.length then l.set pos last else l := by
  simp only [swapRemove, List.getLast?_append, List.getLast?_singleton, Option.some_or]
  split
  · next h => rw [List.set_append_left _ _ h, List.dropLast_concat]
  · next h =>
      rw [List.set_append_right _ _ (by omega)]
      cases hpos : pos - l.length with
      | zero => rw [List.set_cons_zero, List.dropLast_concat]
      | succ n => rw [List.set_cons_succ, List.set_nil, List.dropLast_concat]

/-- Up to order, an element swapped out is an element removed. -/
theorem swapRemove_perm {l : List α} {pos : ℕ} (h : pos < l.length) :
    (swapRemove l pos).Perm (l.eraseIdx pos) := by
  obtain rfl | ⟨l, last, rfl⟩ := List.eq_nil_or_concat l
  · cases h
  · rw [List.concat_eq_append] at h ⊢
    rw [List.length_append, List.length_singleton] at h
    rw [swapRemove_concat]
    split
    · next hpos =>
        rw [List.eraseIdx_append_of_lt_length hpos, List.set_eq_take_cons_drop _ hpos,
          List.eraseIdx_eq_take_drop_succ, List.append_assoc]
        exact (List.perm_append_comm : ([last] ++ l.drop (pos + 1)).Perm _).append_left _
    · next hpos =>
        rw [List.eraseIdx_append_of_length_le (by omega), show pos - l.length = 0 by omega]
        simp

variable [DecidableEq α]

/-- The list with the first occurrence of `a` swapped out. -/
def swapOut (l : List α) (a : α) : List α :=
  match l.idxOf? a with
  | none => l
  | some pos => swapRemove l pos

theorem swapOut_perm (l : List α) (a : α) : (swapOut l a).Perm (l.erase a) := by
  rw [swapOut, List.erase_eq_eraseIdx]
  cases h : l.idxOf? a with
  | none => exact List.Perm.refl _
  | some pos => exact swapRemove_perm (List.findIdx?_eq_some_iff_findIdx_eq.1 h).1

end SwapRemove

namespace SwiftRelay

/-! ### Flows -/

structure FlowKey where
  sessionId : SessionId
  gameAddr : SocketAddr
  deriving DecidableEq

/-- A flow of a shard.  `socket` names the socket, which is the flow's own; `opener` is the account
of the client packet that opened the flow. -/
structure FlowState where
  socket : ℕ
  clientAddr : SocketAddr
  originalInfo : OriginalPacketInfo
  lastActivity : Instant
  markedForRemoval : Option Instant
  token : ℕ
  opener : String
  deriving DecidableEq

namespace FlowState

variable (flow : FlowState)

/-- A flow after a client packet of it was sent on. -/
def used (addr : SocketAddr) (info : OriginalPacketInfo) (now : Instant) : FlowState :=
  { flow with
    clientAddr := addr, originalInfo := info, lastActivity := now, markedForRemoval := none }

/-- A flow after a datagram came back on it. -/
def touch (now : Instant) : FlowState :=
  { flow with lastActivity := now, markedForRemoval := none }

/-- A flow after a keepalive of its session. -/
def keepalive (addr : SocketAddr) (now : Instant) : FlowState :=
  { flow with clientAddr := addr, lastActivity := now, markedForRemoval := none }

/-- A flow after the periodic cleanup, unless that removes it. -/
def cleanup (now : Instant) : Option FlowState :=
  match flow.markedForRemoval with
  | some markedAt =>
      if durationSince now markedAt ≥ flowGracePeriod then none
      else if durationSince now flow.lastActivity < secs 10 then
        some { flow with markedForRemoval := none }
      else some flow
  | none =>
      if durationSince now flow.lastActivity ≥ sessionTimeout then
        some { flow with markedForRemoval := some now }
      else some flow

variable {flow} in
theorem cleanup_eq {now : Instant} {flow' : FlowState} (h : flow.cleanup now = some flow') :
    flow' = { flow with markedForRemoval := flow'.markedForRemoval } := by
  unfold cleanup at h
  split at h
  · split at h
    · cases h
    · split at h <;> cases h <;> rfl
  · split at h <;> cases h <;> rfl

end FlowState

def maxFlowsPerSession : ℕ := 1024

/-! ### The tables -/

/-- The tables of a shard and the next token to try. -/
structure FlowTables where
  nextToken : ℕ
  tokenToFlow : Table ℕ FlowKey
  flows : Table FlowKey FlowState
  sessionFlows : Table SessionId (List SocketAddr)

namespace FlowTables

def new : FlowTables := ⟨1, ∅, ∅, ∅⟩

/-- The number of values of the machine's `usize`. -/
def usizeModulus : ℕ := 2 ^ 64

/-- The token after `n`; zero is the token of the waker and left out. -/
def advanceToken (n : ℕ) : ℕ :=
  let next := (n + 1) % usizeModulus
  if next = 0 then 1 else next

/-- The search for an unused token, with the token to try next.  Each round finds another token in
use, so the search is over after as many rounds as there are tokens in use and one more. -/
def searchToken (tokenToFlow : Table ℕ FlowKey) (start : ℕ) : ℕ → ℕ → Option ℕ × ℕ
  | 0, next => (none, next)
  | rounds + 1, token =>
      let next := advanceToken token
      if token = 0 ∨ (tokenToFlow.lookup token).isSome then
        if next = start then (none, next) else searchToken tokenToFlow start rounds next
      else (some token, next)

variable (t : FlowTables)

/-- The flows of a session, by game server. -/
def flowsOf (sid : SessionId) : List SocketAddr := (t.sessionFlows.lookup sid).getD []

def allocateFlowToken : Option ℕ × FlowTables :=
  let start := if t.nextToken = 0 then 1 else t.nextToken
  let found := searchToken t.tokenToFlow start (t.tokenToFlow.size + 1) start
  (found.1, { t with nextToken := found.2 })

/-- A new flow is entered into the three maps. -/
def insertFlow (key : FlowKey) (flow : FlowState) : FlowTables :=
  { t with
    tokenToFlow := t.tokenToFlow.insert flow.token key
    sessionFlows := t.sessionFlows.insert key.sessionId (t.flowsOf key.sessionId ++ [key.gameAddr])
    flows := t.flows.insert key flow }

/-- Overwrite a flow, if there is one. -/
def modifyFlow (key : FlowKey) (f : FlowState → FlowState) : FlowTables :=
  match t.flows.lookup key with
  | none => t
  | some flow => { t with flows := t.flows.insert key (f flow) }

/-- `Keepalive`: the flows of the session are touched. -/
def keepalive (sid : SessionId) (addr : SocketAddr) (now : Instant) : FlowTables :=
  (t.flowsOf sid).foldl
    (fun t gameAddr => t.modifyFlow ⟨sid, gameAddr⟩ fun flow => flow.keepalive addr now) t

/-- Forget one flow and its token. -/
def dropFlow (key : FlowKey) : FlowTables :=
  match t.flows.lookup key with
  | none => t
  | some flow =>
      { t with flows := t.flows.erase key, tokenToFlow := t.tokenToFlow.erase flow.token }

/-- `RemoveSession`: the list of the session goes first, its flows follow. -/
def removeSession (sid : SessionId) : FlowTables :=
  (t.flowsOf sid).foldl (fun t gameAddr => t.dropFlow ⟨sid, gameAddr⟩)
    { t with sessionFlows := t.sessionFlows.erase sid }

def removeFlowFromSessionIndex (key : FlowKey) : FlowTables :=
  match t.sessionFlows.lookup key.sessionId with
  | none => t
  | some list =>
      let list := swapOut list key.gameAddr
      { t with
        sessionFlows :=
          if list.isEmpty then t.sessionFlows.erase key.sessionId
          else t.sessionFlows.insert key.sessionId list }

/-- What the cleanup does about one flow. -/
def cleanupFlow (now : Instant) (key : FlowKey) (flow : FlowState) : FlowTables :=
  match flow.cleanup now with
  | some flow => { t with flows := t.flows.insert key flow }
  | none =>
      let t := { t with tokenToFlow := t.tokenToFlow.erase flow.token }
      let t := t.removeFlowFromSessionIndex key
      { t with flows := t.flows.erase key }

/-- The periodic cleanup visits every flow: idle flows are marked, and removed when the grace period
is over. -/
def cleanup (now : Instant) : FlowTables :=
  t.flows.entries.foldl (fun t e => t.cleanupFlow now e.1 e.2) t

theorem lookup_modifyFlow (key k : FlowKey) (f : FlowState → FlowState) :
    (t.modifyFlow key f).flows.lookup k =
      if k = key then (t.flows.lookup key).map f else t.flows.lookup k := by
  unfold modifyFlow
  split
  · next hnone =>
      split
      · next heq => rw [heq, hnone, Option.map_none]
      · rfl
  · next flow hflow => rw [Table.lookup_insert_eq, hflow, Option.map_some]

/-! ### Consistency -/

/-- The three maps describe the same set of flows. -/
structure Consistent : Prop where
  /-- The token of a flow leads to the flow. -/
  token : ∀ key flow, t.flows.lookup key = some flow → t.tokenToFlow.lookup flow.token = some key
  /-- A flow is listed once for its session. -/
  listed : ∀ key flow, t.flows.lookup key = some flow →
    (t.flowsOf key.sessionId).count key.gameAddr = 1
  /-- A token is that of a flow. -/
  live : ∀ token key, t.tokenToFlow.lookup token = some key →
    token ≠ 0 ∧ ∃ flow, t.flows.lookup key = some flow ∧ flow.token = token
  /-- The lists name flows only; none is empty and none too long. -/
  index : ∀ sid list, t.sessionFlows.lookup sid = some list →
    list ≠ [] ∧ list.length ≤ maxFlowsPerSession ∧
    ∀ addr ∈ list, ∃ flow, t.flows.lookup ⟨sid, addr⟩ = some flow

/-- The tables with a list entered for a session, unless that is empty. -/
def withList (sid : SessionId) (list : List SocketAddr) : FlowTables :=
  { t with
    sessionFlows := if list.isEmpty then t.sessionFlows else t.sessionFlows.insert sid list }

theorem lookup_withList (sid sid' : SessionId) (list : List SocketAddr) :
    (t.withList sid list).sessionFlows.lookup sid' =
      if sid' = sid ∧ ¬list.isEmpty then some list else t.sessionFlows.lookup sid' := by
  unfold withList
  by_cases hempty : list.isEmpty = true
  · simp [hempty]
  · simp [hempty, Table.lookup_insert_eq]

theorem consistent_new : new.Consistent where
  token key flow h := by cases h
  listed key flow h := by cases h
  live token key h := by cases h
  index sid list h := by cases h

namespace Consistent

variable {t} {t' : FlowTables} {key : FlowKey} {flow : FlowState}

theorem congr (h : t.Consistent) (htoken : ∀ n, t'.tokenToFlow.lookup n = t.tokenToFlow.lookup n)
    (hflows : ∀ key, t'.flows.lookup key = t.flows.lookup key)
    (hindex : ∀ sid, t'.sessionFlows.lookup sid = t.sessionFlows.lookup sid) : t'.Consistent where
  token key flow hflow := by
    rw [htoken]
    exact h.token key flow (by rwa [← hflows])
  listed key flow hflow := by
    rw [flowsOf, hindex]
    exact h.listed key flow (by rwa [← hflows])
  live token key htok := by
    rw [hflows]
    exact h.live token key (by rwa [← htoken])
  index sid list hlist := by
    simp only [hflows]
    exact h.index sid list (by rwa [← hindex])

theorem token_inj (h : t.Consistent) {key' : FlowKey} {flow' : FlowState}
    (hflow : t.flows.lookup key = some flow) (hflow' : t.flows.lookup key' = some flow')
    (heq : flow.token = flow'.token) : key = key' := by
  have htoken := h.token key flow hflow
  rw [heq, h.token key' flow' hflow'] at htoken
  exact (Option.some_inj.1 htoken).symm

theorem lookup_index (h : t.Consistent) (hflow : t.flows.lookup key = some flow) :
    t.sessionFlows.lookup key.sessionId = some (t.flowsOf key.sessionId) := by
  have hcount := h.listed key flow hflow
  cases hlist : t.sessionFlows.lookup key.sessionId with
  | none =>
      rw [flowsOf, hlist, Option.getD_none, List.count_nil] at hcount
      cases hcount
  | some list => rw [flowsOf, hlist, Option.getD_some]

theorem mem_flowsOf (h : t.Consistent) {sid : SessionId} {addr : SocketAddr}
    (hmem : addr ∈ t.flowsOf sid) : ∃ flow, t.flows.lookup ⟨sid, addr⟩ = some flow := by
  unfold flowsOf at hmem
  cases hlist : t.sessionFlows.lookup sid with
  | none =>
      rw [hlist] at hmem
      cases hmem
  | some list =>
      rw [hlist] at hmem
      exact (h.index sid list hlist).2.2 addr hmem

/-- Different flows of one session have different servers. -/
theorem gameAddr_ne {k : FlowKey} (hne : k ≠ key) (hsid : k.sessionId = key.sessionId) :
    k.gameAddr ≠ key.gameAddr := by
  intro haddr
  cases k
  cases key
  exact hne (by simp_all)

/-- One flow leaves: its entry, its token, and its address in the list of its session, which is
dropped when it was the last. -/
theorem removed (h : t.Consistent) (hflow : t.flows.lookup key = some flow)
    (hflows : ∀ k, t'.flows.lookup k = if k = key then none else t.flows.lookup k)
    (htokens : ∀ n, t'.tokenToFlow.lookup n =
      if n = flow.token then none else t.tokenToFlow.lookup n)
    (hothers : ∀ sid, sid ≠ key.sessionId →
      t'.sessionFlows.lookup sid = t.sessionFlows.lookup sid)
    {list : List SocketAddr} (hperm : list.Perm ((t.flowsOf key.sessionId).erase key.gameAddr))
    (hlist : t'.sessionFlows.lookup key.sessionId = if list.isEmpty then none else some list) :
    t'.Consistent := by
  have hof : t'.flowsOf key.sessionId = list := by
    rw [flowsOf, hlist]
    split
    · next hempty => rw [List.isEmpty_iff.1 hempty, Option.getD_none]
    · rfl
  have hcount : list.count key.gameAddr = 0 := by
    rw [hperm.count_eq, List.count_erase_self, h.listed key flow hflow]
  have hne {k : FlowKey} {f : FlowState} (hk : t'.flows.lookup k = some f) :
      k ≠ key ∧ t.flows.lookup k = some f := by
    rw [hflows] at hk
    split at hk
    · cases hk
    · next hne => exact ⟨hne, hk⟩
  refine ⟨fun k f hk => ?_, fun k f hk => ?_, fun n k hn => ?_, fun sid l hl => ?_⟩
  · obtain ⟨hkey, hk⟩ := hne hk
    rw [htokens, if_neg fun heq => hkey (h.token_inj hk hflow heq), h.token k f hk]
  · obtain ⟨hkey, hk⟩ := hne hk
    by_cases hsid : k.sessionId = key.sessionId
    · have hcount' := h.listed k f hk
      rw [hsid] at hcount' ⊢
      rw [hof, hperm.count_eq, List.count_erase_of_ne (gameAddr_ne hkey hsid), hcount']
    · rw [flowsOf, hothers _ hsid]
      exact h.listed k f hk
  · rw [htokens] at hn
    split at hn
    · cases hn
    · next hn' =>
        obtain ⟨hzero, f, hf, hft⟩ := h.live n k hn
        refine ⟨hzero, f, ?_, hft⟩
        rw [hflows, if_neg]
        · exact hf
        · rintro rfl
          rw [hflow] at hf
          cases hf
          exact hn' hft.symm
  · by_cases hsid : sid = key.sessionId
    · subst hsid
      rw [hlist] at hl
      split at hl
      · cases hl
      · next hempty =>
          cases hl
          obtain ⟨-, hlen, -⟩ := h.index _ _ (h.lookup_index hflow)
          refine ⟨by simpa using hempty, ?_, fun addr haddr => ?_⟩
          · rw [hperm.length_eq]
            exact le_trans (List.length_erase_le) hlen
          · obtain ⟨f, hf⟩ := h.mem_flowsOf (List.mem_of_mem_erase (hperm.mem_iff.1 haddr))
            refine ⟨f, ?_⟩
            rw [hflows, if_neg]
            · exact hf
            · intro heq
              rw [← heq] at hcount
              exact List.count_eq_zero.1 hcount haddr
    · rw [hothers _ hsid] at hl
      obtain ⟨hempty, hlen, hmem⟩ := h.index sid l hl
      refine ⟨hempty, hlen, fun addr haddr => ?_⟩
      obtain ⟨f, hf⟩ := hmem addr haddr
      refine ⟨f, ?_⟩
      rw [hflows, if_neg]
      · exact hf
      · rintro rfl
        exact hsid rfl

theorem overwritten (h : t.Consistent) {flow' : FlowState} (hflow : t.flows.lookup key = some flow)
    (htoken : flow'.token = flow.token) :
    ({ t with flows := t.flows.insert key flow' } : FlowTables).Consistent := by
  have hlookup (k : FlowKey) {f : FlowState} (hk : (t.flows.insert key flow').lookup k = some f) :
      ∃ f', t.flows.lookup k = some f' ∧ f'.token = f.token := by
    rw [Table.lookup_insert_eq] at hk
    split at hk
    · next heq =>
        cases hk
        exact ⟨flow, by rw [heq, hflow], htoken.symm⟩
    · exact ⟨f, hk, rfl⟩
  have hlookup' (k : FlowKey) {f : FlowState} (hk : t.flows.lookup k = some f) :
      ∃ f', (t.flows.insert key flow').lookup k = some f' ∧ f'.token = f.token := by
    rw [Table.lookup_insert_eq]
    split
    · next heq =>
        rw [heq, hflow] at hk
        cases hk
        exact ⟨flow', rfl, htoken⟩
    · exact ⟨f, hk, rfl⟩
  refine ⟨fun k f hk => ?_, fun k f hk => ?_, fun n k hn => ?_, fun sid l hl => ?_⟩
  · obtain ⟨f', hf', heq⟩ := hlookup k hk
    rw [← heq]
    exact h.token k f' hf'
  · obtain ⟨f', hf', -⟩ := hlookup k hk
    exact h.listed k f' hf'
  · obtain ⟨hzero, f, hf, hft⟩ := h.live n k hn
    obtain ⟨f', hf', heq⟩ := hlookup' k hf
    exact ⟨hzero, f', hf', heq.trans hft⟩
  · obtain ⟨hempty, hlen, hmem⟩ := h.index sid l hl
    refine ⟨hempty, hlen, fun addr haddr => ?_⟩
    obtain ⟨f, hf⟩ := hmem addr haddr
    obtain ⟨f', hf', -⟩ := hlookup' _ hf
    exact ⟨f', hf'⟩

theorem modifyFlow (h : t.Consistent) (key : FlowKey) {f : FlowState → FlowState}
    (hf : ∀ flow, (f flow).token = flow.token) : (t.modifyFlow key f).Consistent := by
  unfold FlowTables.modifyFlow
  split
  · exact h
  · next flow hflow => exact h.overwritten hflow (hf flow)

theorem keepalive (h : t.Consistent) (sid : SessionId) (addr : SocketAddr) (now : Instant) :
    (t.keepalive sid addr now).Consistent := by
  unfold FlowTables.keepalive
  generalize t.flowsOf sid = list
  induction list generalizing t with
  | nil => exact h
  | cons gameAddr list ih => exact ih (h.modifyFlow _ fun _ => rfl)

/-- A new flow of a session that may have one more, with a token that is not in use. -/
theorem insertFlow (h : t.Consistent) (hkey : t.flows.lookup key = none) (hzero : flow.token ≠ 0)
    (htoken : t.tokenToFlow.lookup flow.token = none)
    (hroom : (t.flowsOf key.sessionId).length < maxFlowsPerSession) :
    (t.insertFlow key flow).Consistent := by
  have hnew : (t.insertFlow key flow).flows.lookup key = some flow := by
    rw [FlowTables.insertFlow, Table.lookup_insert_eq, if_pos rfl]
  have hold {k : FlowKey} {f : FlowState} (hk : t.flows.lookup k = some f) :
      (t.insertFlow key flow).flows.lookup k = some f := by
    rw [FlowTables.insertFlow, Table.lookup_insert_eq, if_neg, hk]
    rintro rfl
    rw [hkey] at hk
    cases hk
  have hof (sid : SessionId) : (t.insertFlow key flow).flowsOf sid =
      if sid = key.sessionId then t.flowsOf key.sessionId ++ [key.gameAddr] else t.flowsOf sid := by
    simp only [FlowTables.insertFlow, flowsOf, Table.lookup_insert_eq]
    split <;> rfl
  -- the list of the session names flows only, so not the new one
  have hmem : key.gameAddr ∉ t.flowsOf key.sessionId := by
    intro hmem
    obtain ⟨f, hf⟩ := h.mem_flowsOf hmem
    rw [hkey] at hf
    cases hf
  refine ⟨fun k f hk => ?_, fun k f hk => ?_, fun n k hn => ?_, fun sid l hl => ?_⟩
  · simp only [FlowTables.insertFlow, Table.lookup_insert_eq] at hk ⊢
    split at hk
    · next heq =>
        cases hk
        rw [if_pos rfl, heq]
    · rw [if_neg, h.token k f hk]
      intro heq
      have := h.token k f hk
      rw [heq, htoken] at this
      cases this
  · simp only [FlowTables.insertFlow, Table.lookup_insert_eq] at hk
    rw [hof]
    split at hk
    · next heq =>
        rw [heq, if_pos rfl, List.count_append, List.count_eq_zero.2 hmem,
          List.count_singleton_self]
    · next hne =>
        split
        · next hsid =>
            have hcount := h.listed k f hk
            rw [hsid] at hcount
            rw [List.count_append, hcount, List.count_singleton, if_neg]
            simpa using (gameAddr_ne hne hsid).symm
        · exact h.listed k f hk
  · simp only [FlowTables.insertFlow, Table.lookup_insert_eq] at hn
    split at hn
    · next heq =>
        cases hn
        exact ⟨heq ▸ hzero, flow, hnew, heq.symm⟩
    · obtain ⟨hzero', f, hf, hft⟩ := h.live n k hn
      exact ⟨hzero', f, hold hf, hft⟩
  · simp only [FlowTables.insertFlow, Table.lookup_insert_eq] at hl
    split at hl
    · next hsid =>
        cases hl
        subst hsid
        refine ⟨by simp, ?_, fun addr haddr => ?_⟩
        · rw [List.length_append, List.length_singleton]
          exact hroom
        rcases List.mem_append.1 haddr with haddr | haddr
        · obtain ⟨f, hf⟩ := h.mem_flowsOf haddr
          exact ⟨f, hold hf⟩
        · rw [List.mem_singleton.1 haddr]
          exact ⟨flow, hnew⟩
    · obtain ⟨hempty, hlen, hflows⟩ := h.index sid l hl
      refine ⟨hempty, hlen, fun addr haddr => ?_⟩
      obtain ⟨f, hf⟩ := hflows addr haddr
      exact ⟨f, hold hf⟩

/-! ### Removing flows -/

/-- The address at the head of the list of a session is taken out, with its flow. -/
theorem dropFlow_head {sid : SessionId} {addr : SocketAddr} {list : List SocketAddr}
    (h : (t.withList sid (addr :: list)).Consistent) (hnone : t.sessionFlows.lookup sid = none) :
    ((t.dropFlow ⟨sid, addr⟩).withList sid list).Consistent ∧
      (t.dropFlow ⟨sid, addr⟩).sessionFlows.lookup sid = none := by
  have hof : (t.withList sid (addr :: list)).flowsOf sid = addr :: list := by
    simp [flowsOf, lookup_withList]
  have hmem : addr ∈ (t.withList sid (addr :: list)).flowsOf sid := by simp [hof]
  obtain ⟨flow, hflow⟩ := h.mem_flowsOf hmem
  have hflow' : t.flows.lookup ⟨sid, addr⟩ = some flow := hflow
  simp only [dropFlow, hflow']
  have herase : list.Perm (((t.withList sid (addr :: list)).flowsOf sid).erase addr) := by
    rw [hof, List.erase_cons_head]
  refine ⟨h.removed hflow (fun k => Table.lookup_erase_eq _ _ _)
    (fun n => Table.lookup_erase_eq _ _ _) (fun sid' hne => ?_) herase ?_, hnone⟩
  · have hne' : sid' ≠ sid := hne
    simp [lookup_withList, hne']
  · simp only [lookup_withList, true_and]
    split <;> simp_all

theorem removeSession (h : t.Consistent) (sid : SessionId) : (t.removeSession sid).Consistent := by
  -- while the flows are dropped, what is left of the list is what the index would have to say
  have hloop (list : List SocketAddr) (t : FlowTables) (h : (t.withList sid list).Consistent)
      (hnone : t.sessionFlows.lookup sid = none) :
      (list.foldl (fun t gameAddr => t.dropFlow ⟨sid, gameAddr⟩) t).Consistent := by
    induction list generalizing t with
    | nil => exact h
    | cons addr list ih =>
        obtain ⟨h', hnone'⟩ := dropFlow_head h hnone
        exact ih _ h' hnone'
  refine hloop _ _ (h.congr (fun _ => rfl) (fun _ => rfl) fun sid' => ?_) ?_
  · rw [lookup_withList, Table.lookup_erase_eq]
    by_cases hsid : sid' = sid
    · subst hsid
      cases hlist : t.sessionFlows.lookup sid' with
      | none => simp [flowsOf, hlist]
      | some list => simp [flowsOf, hlist, (h.index sid' list hlist).1]
    · simp [hsid]
  · rw [Table.lookup_erase_eq, if_pos rfl]

theorem cleanupFlow (h : t.Consistent) (now : Instant) (hflow : t.flows.lookup key = some flow) :
    (t.cleanupFlow now key flow).Consistent := by
  unfold FlowTables.cleanupFlow
  split
  · next flow' hcleanup => exact h.overwritten hflow (by rw [FlowState.cleanup_eq hcleanup])
  · have hindex := h.lookup_index hflow
    simp only [FlowTables.removeFlowFromSessionIndex, hindex]
    refine h.removed hflow (fun k => Table.lookup_erase_eq _ _ _)
      (fun n => Table.lookup_erase_eq _ _ _) (fun sid hne => ?_) (swapOut_perm _ _) ?_
    · dsimp only
      split
      · rw [Table.lookup_erase_eq, if_neg hne]
      · rw [Table.lookup_insert_eq, if_neg hne]
    · dsimp only
      split
      · rw [Table.lookup_erase_eq, if_pos rfl]
      · rw [Table.lookup_insert_eq, if_pos rfl]

end Consistent

theorem removeFlowFromSessionIndex_flows (key : FlowKey) :
    (t.removeFlowFromSessionIndex key).flows = t.flows := by
  unfold removeFlowFromSessionIndex
  split <;> rfl

/-- The cleanup of one flow leaves the others as they are. -/
theorem lookup_cleanupFlow (now : Instant) (key k : FlowKey) (flow : FlowState) :
    (t.cleanupFlow now key flow).flows.lookup k =
      if k = key then flow.cleanup now else t.flows.lookup k := by
  unfold cleanupFlow
  split
  · next flow' hcleanup => rw [Table.lookup_insert_eq, hcleanup]
  · next hcleanup =>
      simp only [Table.lookup_erase_eq, removeFlowFromSessionIndex_flows, hcleanup]

/-- What the cleanup of each flow preserves, the whole cleanup preserves: a flow is as it was when
it is visited. -/
theorem cleanup_induction {now : Instant} {P : FlowTables → Prop} (hP : P t)
    (hstep : ∀ t key flow, t.flows.lookup key = some flow → P t → P (t.cleanupFlow now key flow)) :
    P (t.cleanup now) := by
  -- the entries still to be visited are as they were
  have hloop (entries : List (Σ _ : FlowKey, FlowState)) (t : FlowTables) (h : P t)
      (hnodup : entries.NodupKeys)
      (hsame : ∀ e ∈ entries, t.flows.lookup e.1 = some e.2) :
      P (entries.foldl (fun t e => t.cleanupFlow now e.1 e.2) t) := by
    induction entries generalizing t with
    | nil => exact h
    | cons e entries ih =>
        obtain ⟨hfresh, hnodup⟩ := List.nodupKeys_cons.1 hnodup
        refine ih _ (hstep t e.1 e.2 (hsame e List.mem_cons_self) h) hnodup fun e' he' => ?_
        have hne : e'.1 ≠ e.1 := fun heq => hfresh (heq ▸ List.mem_keys_of_mem he')
        rw [t.lookup_cleanupFlow, if_neg hne, hsame e' (List.mem_cons_of_mem e he')]
  exact hloop _ t hP t.flows.nodupKeys fun e he => Table.lookup_eq_some_iff.2 he

theorem Consistent.cleanup {t : FlowTables} (h : t.Consistent) (now : Instant) :
    (t.cleanup now).Consistent :=
  t.cleanup_induction h fun _ _ _ hflow ht => ht.cleanupFlow now hflow

/-! ### What remains of the flows -/

/-- Every flow of `t'` is one of `t`, with the same socket and token. -/
def Kept (t t' : FlowTables) : Prop :=
  ∀ key flow', t'.flows.lookup key = some flow' →
    ∃ flow, t.flows.lookup key = some flow ∧ flow'.socket = flow.socket ∧ flow'.token = flow.token

theorem Kept.refl : t.Kept t := fun _ flow h => ⟨flow, h, rfl, rfl⟩

theorem Kept.trans {t t₁ t₂ : FlowTables} (h₁ : t.Kept t₁) (h₂ : t₁.Kept t₂) : t.Kept t₂ := by
  intro key flow₂ hflow₂
  obtain ⟨flow₁, hflow₁, hsocket₁, htoken₁⟩ := h₂ key flow₂ hflow₂
  obtain ⟨flow, hflow, hsocket, htoken⟩ := h₁ key flow₁ hflow₁
  exact ⟨flow, hflow, hsocket₁.trans hsocket, htoken₁.trans htoken⟩

variable {t} {key : FlowKey}

theorem Kept.overwritten {flow flow' : FlowState} {t' : FlowTables}
    (hflow : t.flows.lookup key = some flow) (hsocket : flow'.socket = flow.socket)
    (htoken : flow'.token = flow.token) (ht' : t'.flows = t.flows.insert key flow') :
    t.Kept t' := by
  intro k f hf
  rw [ht', Table.lookup_insert_eq] at hf
  split at hf
  · next heq =>
      cases hf
      exact ⟨flow, heq ▸ hflow, hsocket, htoken⟩
  · exact ⟨f, hf, rfl, rfl⟩

theorem Kept.erased {t' : FlowTables} (ht' : t'.flows = t.flows.erase key) : t.Kept t' := by
  intro k f hf
  rw [ht', Table.lookup_erase_eq] at hf
  split at hf
  · cases hf
  · exact ⟨f, hf, rfl, rfl⟩

variable (t)

theorem modifyFlow_kept (key : FlowKey) {f : FlowState → FlowState}
    (hsocket : ∀ flow, (f flow).socket = flow.socket)
    (htoken : ∀ flow, (f flow).token = flow.token) :
    t.Kept (t.modifyFlow key f) := by
  unfold modifyFlow
  split
  · exact .refl t
  · next flow hflow => exact .overwritten hflow (hsocket flow) (htoken flow) rfl

theorem foldl_kept {α : Type} {f : FlowTables → α → FlowTables}
    (hf : ∀ t a, Kept t (f t a))
    (l : List α) : t.Kept (l.foldl f t) := by
  induction l generalizing t with
  | nil => exact .refl t
  | cons a l ih => exact (hf t a).trans (ih _)

theorem keepalive_kept (sid : SessionId) (addr : SocketAddr) (now : Instant) :
    t.Kept (t.keepalive sid addr now) :=
  t.foldl_kept (fun t gameAddr => t.modifyFlow_kept ⟨sid, gameAddr⟩
    (f := fun flow => flow.keepalive addr now) (fun _ => rfl) fun _ => rfl) _

theorem dropFlow_kept (key : FlowKey) : t.Kept (t.dropFlow key) := by
  unfold dropFlow
  split
  · exact .refl t
  · exact .erased rfl

theorem removeSession_kept (sid : SessionId) : t.Kept (t.removeSession sid) :=
  foldl_kept { t with sessionFlows := t.sessionFlows.erase sid } (fun t _ => t.dropFlow_kept _) _

theorem cleanupFlow_kept (now : Instant) {flow : FlowState}
    (hflow : t.flows.lookup key = some flow) : t.Kept (t.cleanupFlow now key flow) := by
  unfold cleanupFlow
  split
  · next flow' hcleanup =>
      exact .overwritten hflow (by rw [FlowState.cleanup_eq hcleanup])
        (by rw [FlowState.cleanup_eq hcleanup]) rfl
  · refine Kept.erased (?_ : _ = t.flows.erase key)
    simp only [removeFlowFromSessionIndex_flows]

theorem cleanup_kept (now : Instant) : t.Kept (t.cleanup now) :=
  t.cleanup_induction (P := t.Kept) (.refl t) fun t' _ _ hflow ht =>
    ht.trans (t'.cleanupFlow_kept now hflow)

/-- A keepalive touches the flows that are listed for the session. -/
theorem lookup_keepalive (sid : SessionId) (addr : SocketAddr) (now : Instant) (key : FlowKey) :
    (t.keepalive sid addr now).flows.lookup key = (t.flows.lookup key).map fun flow =>
      if key.sessionId = sid ∧ key.gameAddr ∈ t.flowsOf sid then flow.keepalive addr now
      else flow := by
  unfold keepalive
  generalize t.flowsOf sid = list
  induction list generalizing t with
  | nil => simp
  | cons gameAddr list ih =>
      rw [List.foldl_cons, ih, lookup_modifyFlow]
      by_cases hkey : key = ⟨sid, gameAddr⟩
      · -- a flow that is listed again is touched again, which changes nothing
        subst hkey
        rw [if_pos rfl, Option.map_map]
        congr 1
        funext flow
        simp [FlowState.keepalive]
      · have hlisted : (key.sessionId = sid ∧ key.gameAddr ∈ gameAddr :: list) ↔
            key.sessionId = sid ∧ key.gameAddr ∈ list := by
          refine and_congr_right fun hsid => ?_
          rw [List.mem_cons, or_iff_right]
          rintro rfl
          exact hkey (by rw [← hsid])
        simp only [if_neg hkey, hlisted]

theorem lookup_of_dropFlow {k : FlowKey} {flow : FlowState}
    (h : (t.dropFlow key).flows.lookup k = some flow) : t.flows.lookup k = some flow := by
  unfold dropFlow at h
  split at h
  · exact h
  · rw [Table.lookup_erase_eq] at h
    split at h
    · cases h
    · exact h

/-- The flows that remain when a session is removed are as they were. -/
theorem lookup_of_removeSession {sid : SessionId} {flow : FlowState}
    (h : (t.removeSession sid).flows.lookup key = some flow) : t.flows.lookup key = some flow := by
  have hloop (list : List SocketAddr) (t : FlowTables)
      (h : (list.foldl (fun t gameAddr => t.dropFlow ⟨sid, gameAddr⟩) t).flows.lookup key =
        some flow) : t.flows.lookup key = some flow := by
    induction list generalizing t with
    | nil => exact h
    | cons gameAddr list ih => exact t.lookup_of_dropFlow (ih _ h)
  exact hloop (t.flowsOf sid) { t with sessionFlows := t.sessionFlows.erase sid } h

theorem lookup_dropFlow_of_ne {key' : FlowKey} (h : key ≠ key') :
    (t.dropFlow key').flows.lookup key = t.flows.lookup key := by
  unfold dropFlow
  split
  · rfl
  · exact (Table.lookup_erase_eq ..).trans (if_neg h)

/-- Closing the flows of a session leaves those of the others alone. -/
theorem lookup_removeSession_of_ne {sid : SessionId} (h : key.sessionId ≠ sid) :
    (t.removeSession sid).flows.lookup key = t.flows.lookup key := by
  have hloop (list : List SocketAddr) (t : FlowTables) :
      (list.foldl (fun t gameAddr => t.dropFlow ⟨sid, gameAddr⟩) t).flows.lookup key =
        t.flows.lookup key := by
    induction list generalizing t with
    | nil => rfl
    | cons gameAddr list ih =>
        exact (ih _).trans (t.lookup_dropFlow_of_ne fun heq => h (congrArg FlowKey.sessionId heq))
  exact hloop (t.flowsOf sid) { t with sessionFlows := t.sessionFlows.erase sid }

theorem lookup_cleanup (now : Instant) (key : FlowKey) :
    (t.cleanup now).flows.lookup key =
      (t.flows.lookup key).bind fun flow => flow.cleanup now := by
  have hloop (entries : List (Σ _ : FlowKey, FlowState)) (t : FlowTables)
      (hnodup : entries.NodupKeys) (hsame : ∀ e ∈ entries, t.flows.lookup e.1 = some e.2) :
      (entries.foldl (fun t e => t.cleanupFlow now e.1 e.2) t).flows.lookup key =
        if key ∈ entries.keys then (t.flows.lookup key).bind fun flow => flow.cleanup now
        else t.flows.lookup key := by
    induction entries generalizing t with
    | nil => rfl
    | cons e entries ih =>
        obtain ⟨hfresh, hnodup⟩ := List.nodupKeys_cons.1 hnodup
        rw [List.foldl_cons, ih _ hnodup, t.lookup_cleanupFlow]
        · by_cases hkey : key = e.1
          · subst hkey
            simp [hfresh, hsame e List.mem_cons_self]
          · simp [hkey]
        · intro e' he'
          have hne : e'.1 ≠ e.1 := fun heq => hfresh (heq ▸ List.mem_keys_of_mem he')
          rw [t.lookup_cleanupFlow, if_neg hne, hsame e' (List.mem_cons_of_mem e he')]
  rw [cleanup, hloop _ t t.flows.nodupKeys fun e he => Table.lookup_eq_some_iff.2 he]
  split
  · rfl
  · next hkey => rw [Table.lookup_eq_none_iff.2 hkey, Option.bind_none]

/-! ### Tokens -/

/-- A token found is not in use and not that of the waker. -/
theorem searchToken_free {tokenToFlow : Table ℕ FlowKey} {start rounds next token : ℕ}
    (h : (searchToken tokenToFlow start rounds next).1 = some token) :
    token ≠ 0 ∧ tokenToFlow.lookup token = none := by
  induction rounds generalizing next with
  | zero => cases h
  | succ rounds ih =>
      simp only [searchToken] at h
      split at h
      · split at h
        · cases h
        · exact ih h
      · next hfree =>
          cases h
          obtain ⟨hzero, hnone⟩ := not_or.1 hfree
          exact ⟨hzero, by simpa using hnone⟩

theorem allocateFlowToken_free {token : ℕ} (h : t.allocateFlowToken.1 = some token) :
    token ≠ 0 ∧ t.tokenToFlow.lookup token = none :=
  searchToken_free h

theorem Consistent.allocateFlowToken {t : FlowTables} (h : t.Consistent) :
    t.allocateFlowToken.2.Consistent :=
  h.congr (fun _ => rfl) (fun _ => rfl) fun _ => rfl

end FlowTables

end SwiftRelay
