/-
**The locks of the relay.**

The threads of the relay share maps, whose shards have locks, and some mutexes.  Comments of the
source give rules for them: no guard on `session_traffic` while `sessions` is touched, the index of
the flows before the flows, no count of a map under an entry of it.  Here each function is the
skeleton of the guards it takes, with `wait` for receives, sleeps and sends that may block, and one
rank is kept by all threads.  A task is like a thread, since it awaits nothing under a guard.

Guards are released in the opposite order, and `retain`, `len` and `iter` lock a shard at a time.

Main results:

* `relay_never_deadlocks` — **no threads of the relay wait for each other**;
* `guards_keep_rules` — the rules of the source hold in every run.
-/

import SwiftRelay.LockOrder

set_option autoImplicit false

namespace SwiftRelay

namespace Guards

open LockOrder Relation

/-- What has a lock: a map, whose shards are numbered, or a mutex. -/
inductive Guarded
  | sessionToIp
  | sessionFlowKeys
  | flows
  | sessions
  | admission
  | accounts
  | state
  | ipToSession
  | sessionTraffic
  | sourceSessionCounts
  | pendingAuth
  | seenJti
  | sources
  | tally
  | rateWindow
  | connectionsSnapshot
  deriving DecidableEq

def rank : Guarded → ℕ
  | .sessionToIp | .sessionFlowKeys => 0
  | .flows | .sessions => 1
  | .admission => 2
  | .accounts => 3
  | .state => 4
  | _ => 5

abbrev Code := Skel Guarded

/-! ### Functions -/

def decrementSourceSessionCount : Code := .upTo [.write .sourceSessionCounts,
  .write .sourceSessionCounts]

def updateSourceSessionCountForRebind : Code :=
  .opt (.block [decrementSourceSessionCount, .write .sourceSessionCounts])

/-- The limiter of a source: pruned at times, counted for a new source. -/
def allowSourceEvent : Code := .block [.opt (.visit .sources .exclusive .skip),
  .upTo [.read .sources, .visit .sources .shared .skip], .opt (.write .sources)]

def acceptOnce : Code := .block [.opt (.visit .seenJti .exclusive .skip), .write .seenJti]

def account : Code := .upTo [.read .accounts, .lock .admission .exclusive
  (.upTo [.read .accounts, .visit .accounts .shared .skip, .write .accounts])]

def event : Code := .upTo [account, .write .state]

/-- The guard on the session is held while its account is charged. -/
def allow : Code := .lock .sessions .shared (.opt event)

def snapshot : Code := .visit .accounts .shared (.write .state)

def maintain : Code := .block [.visit .accounts .exclusive .skip, snapshot]

def removeV1Flow : Code := .lock .sessionFlowKeys .exclusive (.write .flows)

def retainSessions : Code := .visit .sessions .exclusive
  (.opt (.block [.write .sessionTraffic, decrementSourceSessionCount]))

def removeExpired : Code := .visit .sessionToIp .exclusive
  (.upTo [.read .sessions, .write .ipToSession])

def rebind : Code := .lock .sessions .exclusive updateSourceSessionCountForRebind

/-- One pass of a receive loop, where `send` is how it answers a hello and `pong` how it answers a
ping. -/
def receive (send pong keepalive forward : Code) : Code :=
  .upTo [.wait,
    .opt (.upTo [.write .pendingAuth, .opt acceptOnce, send]),
    .opt (.upTo [.read .sessions, .write .pendingAuth, send]),
    .opt (.read .sessions),
    allowSourceEvent,
    .upTo [.read .sessions, .visit .sessions .shared .skip, .read .sourceSessionCounts,
      allowSourceEvent],
    .alt rebind (.block [.write .sessions, .write .sourceSessionCounts]),
    .write .sessionTraffic,
    .alt (.block [.opt (.upTo [.read .sessions, rebind]), send]) (.alt pong
      (.alt (.read .sessionTraffic)
        (.alt keepalive (.upTo [.opt (.write .tally), allow, .write .sessions, forward]))))]

/-- A frame on its way to the client. -/
def respond : Code := .upTo [.wait, .opt (.upTo [.read .sessions, allow]), .wait,
  .read .sessionTraffic]

/-! ### Threads -/

inductive Thread
  | rxV1
  | rxV2
  | shard
  | flowHandler
  | sender
  | cleanupV1
  | cleanupV2
  | tunWriter
  | tunReader
  | snapshotUpdater
  | statsClient
  | budgets

def Thread.body : Thread → Code
  | .rxV1 => .many (receive .wait (.upTo [.wait, .read .sessionTraffic])
      (.lock .sessionFlowKeys .shared (.many (.write .flows))) (.upTo [.read .flows,
        .opt (.upTo [.visit .flows .shared .skip, .read .sessionFlowKeys, allowSourceEvent]),
        .write .flows, .alt removeV1Flow (.write .sessionFlowKeys)]))
  | .rxV2 => .many (receive .skip .skip .skip .skip)
  | .shard => .many (.block [.wait, .many (.upTo [.read .sessions, .write .sessions]),
      .many (.opt allowSourceEvent)])
  | .flowHandler => .block [.opt (.seq .wait (.many (.seq .wait (.alt .wait (.alt (.read .flows)
      (.upTo [.read .sessions, .read .flows,
        .alt (.read .sessions) (.block [.write .flows, .write .sessions])])))))), removeV1Flow]
  | .sender => .many respond
  | .cleanupV1 => .many (.block [.wait, .visit .flows .exclusive .skip,
      .visit .sessionFlowKeys .exclusive (.block [.many (.read .flows), .opt (.read .sessions)]),
      retainSessions, .opt removeExpired, .visit .flows .shared .skip,
      .opt (.block [.visit .sessions .shared .skip, .visit .flows .shared .skip])])
  | .cleanupV2 => .many (.block [.wait, retainSessions, .opt removeExpired,
      .opt (.visit .sessions .shared .skip)])
  | .tunWriter => .many (.upTo [.wait, .block [.read .sessionToIp,
      .opt (.upTo [.many (.read .ipToSession), .write .sessionToIp])], .write .ipToSession, .wait])
  | .tunReader => .many (.upTo [.wait, .read .ipToSession, .wait])
  | .snapshotUpdater => .many (.block [.visit .sessions .shared .skip,
      .visit .sessionTraffic .shared .skip, .write .connectionsSnapshot, .wait])
  | .statsClient => .block [.wait, .opt (.alt (.write .rateWindow)
      (.alt (.read .connectionsSnapshot) (.alt snapshot (.write .tally)))), .wait]
  | .budgets => .many (.block [.wait, maintain])

theorem body_within (t : Thread) : t.body.within rank 0 := by
  cases t <;> decide

section Runs

variable {ι : Type} [Fintype ι] [DecidableEq ι] (threads : ι → Thread) (sched : List (ι × ℕ))

/-- The threads of a relay after a schedule. -/
def after : ι → List (Item Guarded) := run (fun t => (threads t).body) sched

theorem ordered_after : ∀ t, Ordered rank (after threads sched t) :=
  ordered_run (fun t => body_within (threads t)) sched

/-- **The relay does not deadlock.**  After every schedule of any threads, none waits for itself
over others, and one that asks for a lock is behind a thread that can go on by itself. -/
theorem relay_never_deadlocks (t : ι) :
    ¬ TransGen (Behind (after threads sched)) t t ∧
      ∀ l m s k, after threads sched t = .want l m s :: k →
        ∃ v, ReflTransGen (Behind (after threads sched)) t v ∧
          (∀ k, after threads sched v ≠ .run .wait :: k) ∧
          (move (after threads sched) 0 (after threads sched v)).isSome := by
  have ho := ordered_after threads sched
  exact ⟨not_behind_itself ho, fun l m s k h => exists_moves ho ⟨l, m, .inr ⟨s, k, h⟩⟩⟩

-- a sender asks for the shard of sessions that the cleanup is just visiting
example : Behind (after (fun t => cond t .sender .cleanupV2)
    ([1, 0, 0, 0, 1, 3, 0].map (Prod.mk false) ++
      [1, 0, 0, 1, 0, 1, 0, 3].map (Prod.mk true)).reverse) true false :=
  ⟨(.sessions, 3), .shared, _, _, .exclusive, rfl, by decide⟩

/-- **The rules for guards.**  A thread with a guard on a map asks for no other lock of the map;
with one on `session_traffic` it asks for none of `sessions`, and with one on the flows for none of
their index; and while it waits for something else it has no guard. -/
theorem guards_keep_rules (t : ι) (k : List (Item Guarded)) :
    (∀ l m s, after threads sched t = .want l m s :: k → ∀ l' m', .held l' m' ∈ k →
      l'.1 ≠ l.1 ∧ (l'.1, l.1) ≠ (.sessionTraffic, .sessions) ∧
        (l'.1, l.1) ≠ (.flows, .sessionFlowKeys)) ∧
    (after threads sched t = .run .wait :: k → ∀ l m, .held l m ∉ k) := by
  have ho := ordered_after threads sched t
  refine ⟨fun l m s h l' m' hl => ?_, fun h l m => (h ▸ ho).not_held⟩
  have hlt : rank l'.1 < rank l.1 := (h ▸ ho).rank_lt hl
  refine ⟨fun heq => ?_, fun heq => ?_, fun heq => ?_⟩
  · exact hlt.ne (congrArg rank heq)
  all_goals
    obtain ⟨hheld, hwant⟩ := Prod.mk.inj heq
    rw [hheld, hwant] at hlt
    exact absurd hlt (by decide)

end Runs

end Guards

end SwiftRelay
