/-
**Rate limits per source address.**

Each source address has a window of one second in which packets, new sessions and new flows are
counted.  The source limiter keeps a window per address and forgets the idle ones from time to time;
the limiter in front of the signature check has a fixed number of windows, which addresses share
according to a hash.

Main definitions:

* `SourceRateState.allow` — one window;
* `allow`, `PendingAuthLimiter.allow` — the two limiters.
-/

import SwiftRelay.Address
import SwiftRelay.Table

set_option autoImplicit false

namespace SwiftRelay

def sourceRateWindow : ℕ := secs 1

def sourceRatePruneInterval : ℕ := secs 30

def sourceRateIdleTtl : ℕ := secs 120

def maxPacketsPerSourceWindow : ℕ := 50000

def maxNewSessionsPerSourceWindow : ℕ := 256

def maxNewFlowsPerSourceWindow : ℕ := 4096

def maxSessionsTotal : ℕ := 65536

inductive SourceLimitKind
  | packet
  | newSession
  | newFlow
  deriving DecidableEq

/-- What was counted in the current window. -/
structure SourceRateState where
  windowStart : Instant
  packets : ℕ
  newSessions : ℕ
  newFlows : ℕ
  deriving DecidableEq

namespace SourceRateState

def new (now : Instant) : SourceRateState := ⟨now, 0, 0, 0⟩

/-- Count one event, if the window has room for it; a window that is over starts again. -/
def allow (state : SourceRateState) (kind : SourceLimitKind) (now : Instant) :
    Bool × SourceRateState :=
  let state :=
    if durationSince now state.windowStart ≥ sourceRateWindow then new now else state
  match kind with
  | .packet =>
      if state.packets ≥ maxPacketsPerSourceWindow then (false, state)
      else (true, { state with packets := state.packets + 1 })
  | .newSession =>
      if state.newSessions ≥ maxNewSessionsPerSourceWindow then (false, state)
      else (true, { state with newSessions := state.newSessions + 1 })
  | .newFlow =>
      if state.newFlows ≥ maxNewFlowsPerSourceWindow then (false, state)
      else (true, { state with newFlows := state.newFlows + 1 })

end SourceRateState

/-- The windows of the sources; `Ip` is the type of addresses. -/
structure SourceRateLimiter (Ip : Type) where
  sources : Table Ip SourceRateState
  createdAt : Instant
  lastPruneMs : ℕ

namespace SourceRateLimiter

variable {Ip : Type}

def new (createdAt : Instant) : SourceRateLimiter Ip := ⟨∅, createdAt, 0⟩

def durationMillisU64 (duration : ℕ) : ℕ := min (duration / 1000000) (2 ^ 64 - 1)

/-- Forget the sources whose window started long ago, at most every half minute.  `casWon` is the
outcome of the `compare_exchange` that claims the prune. -/
def pruneIdle (limiter : SourceRateLimiter Ip) (now : Instant) (casWon : Bool) :
    SourceRateLimiter Ip :=
  let nowMs := durationMillisU64 (durationSince now limiter.createdAt)
  if nowMs - limiter.lastPruneMs < durationMillisU64 sourceRatePruneInterval then limiter
  else if !casWon then limiter
  else
    { limiter with
      lastPruneMs := nowMs
      sources := limiter.sources.retain fun _ state =>
        decide (durationSince now state.windowStart < sourceRateIdleTtl) }

def allow [DecidableEq Ip] (limiter : SourceRateLimiter Ip) (ip : Ip) (kind : SourceLimitKind)
    (now : Instant) (casWon : Bool) : Bool × SourceRateLimiter Ip :=
  let limiter := limiter.pruneIdle now casWon
  match limiter.sources.lookup ip with
  | none =>
      if limiter.sources.size ≥ maxSessionsTotal then (false, limiter)
      else
        let (allowed, state) := (SourceRateState.new now).allow kind now
        (allowed, { limiter with sources := limiter.sources.insert ip state })
  | some state =>
      let (allowed, state) := state.allow kind now
      (allowed, { limiter with sources := limiter.sources.insert ip state })

end SourceRateLimiter

/-- A fixed number of windows; `bucketOf` is the randomly keyed hash. -/
structure PendingAuthLimiter where
  bucketOf : Ipv4Addr → ℕ
  buckets : ℕ → SourceRateState

namespace PendingAuthLimiter

def bucketCount : ℕ := 4096

def new (bucketOf : Ipv4Addr → ℕ) (now : Instant) : PendingAuthLimiter :=
  ⟨bucketOf, fun _ => .new now⟩

def allow (limiter : PendingAuthLimiter) (ip : Ipv4Addr) (now : Instant) :
    Bool × PendingAuthLimiter :=
  let index := limiter.bucketOf ip % bucketCount
  let (allowed, state) := (limiter.buckets index).allow .newSession now
  (allowed, { limiter with buckets := Function.update limiter.buckets index state })

end PendingAuthLimiter

end SwiftRelay
