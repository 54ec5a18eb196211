/-
**The source limiter over whole runs.**

The limiter keeps one window per source address in a map of bounded size, and from time to time it
forgets the windows that started two minutes ago.  Forgetting is not seen from outside: a forgotten
window is long over, so the next event of its address would have started a new one anyway.  That
needs the clock readings not to run back too far; they may be out of order by up to a hundred
seconds.  So the answers for an address are those of a single counter that sees the events of this
address only.  And whatever the map holds, when the clock readings do not run back, no address gets
more than twice its limit in any second.

Main definitions:

* `SourceCall`, `answers` — a sequence of calls;
* `counterAnswers` — a counter of its own for one address, never forgotten;
* `admissions` — the instants at which an address was let in.

Main results:

* `answers_eq_counter` — the answers for an address are those of its own counter;
* `admissions_bounded` — the bound for every second;
* `source_limiting_transparent` — both, from a new limiter.
-/

import Mathlib.Data.Finset.Card
import SwiftRelay.FixedWindow
import SwiftRelay.RateLimit

set_option autoImplicit false

namespace SwiftRelay

open FixedWindow

/-! ### One window -/

/-- The limit of a kind of events in one window. -/
def SourceLimitKind.limit : SourceLimitKind → ℕ
  | .packet => maxPacketsPerSourceWindow
  | .newSession => maxNewSessionsPerSourceWindow
  | .newFlow => maxNewFlowsPerSourceWindow

namespace SourceRateState

/-- What the window has counted of a kind of events. -/
def count (state : SourceRateState) : SourceLimitKind → ℕ
  | .packet => state.packets
  | .newSession => state.newSessions
  | .newFlow => state.newFlows

/-- One more event of a kind. -/
def bump (state : SourceRateState) : SourceLimitKind → SourceRateState
  | .packet => { state with packets := state.packets + 1 }
  | .newSession => { state with newSessions := state.newSessions + 1 }
  | .newFlow => { state with newFlows := state.newFlows + 1 }

/-- The window at an instant: the next one if the current one is over. -/
def current (state : SourceRateState) (now : Instant) : SourceRateState :=
  if durationSince now state.windowStart ≥ sourceRateWindow then new now else state

variable {state : SourceRateState} {kind : SourceLimitKind} {now : Instant}

theorem allow_eq : state.allow kind now =
    if (state.current now).count kind ≥ kind.limit then (false, state.current now)
    else (true, (state.current now).bump kind) := by
  cases kind <;> rfl

@[simp] theorem windowStart_bump : (state.bump kind).windowStart = state.windowStart := by
  cases kind <;> rfl

theorem count_bump (other : SourceLimitKind) :
    (state.bump kind).count other = state.count other + if other = kind then 1 else 0 := by
  cases kind <;> cases other <;> rfl

@[simp] theorem count_new : (new now).count kind = 0 := by
  cases kind <;> rfl

theorem current_new : (new now).current now = new now := by
  refine if_neg ?_
  simp only [new, durationSince, Nat.sub_self, sourceRateWindow, secs]
  decide

theorem allow_of_over (h : state.windowStart + sourceRateWindow ≤ now) :
    state.allow kind now = (new now).allow kind now := by
  have hcurrent : state.current now = new now := if_pos (Nat.le_sub_of_add_le' h)
  rw [allow_eq, allow_eq, hcurrent, current_new]

end SourceRateState

/-! ### Idle windows -/

/-- How far a clock reading may lie behind the largest one so far. -/
def maxClockLag : ℕ := secs 100

section Idle

variable {start latest now t : ℕ}

theorem idle_of_not_lt (h : ¬ durationSince now start < sourceRateIdleTtl) :
    start + sourceRateIdleTtl ≤ now := by
  have hpos : 0 < sourceRateIdleTtl := by decide
  rw [durationSince] at h
  omega

/-- A window that is idle at the largest reading is over at every reading that may follow. -/
theorem over_of_idle (hidle : start + sourceRateIdleTtl ≤ latest)
    (hlag : latest ≤ now + maxClockLag) : start + sourceRateWindow ≤ now := by
  simp only [sourceRateIdleTtl, sourceRateWindow, maxClockLag, secs] at *
  omega

/-- What an idle window has admitted lies more than a second back. -/
theorem past_of_idle (hlt : t < start + sourceRateWindow)
    (hidle : start + sourceRateIdleTtl ≤ now) : t + sourceRateWindow ≤ now := by
  simp only [sourceRateIdleTtl, sourceRateWindow, secs] at *
  omega

end Idle

/-! ### Sequences of calls -/

section Calls

variable {Ip : Type}

/-- A call of the limiter, with the outcome of the `compare_exchange` should it come to a prune. -/
structure SourceCall (Ip : Type) where
  ip : Ip
  kind : SourceLimitKind
  now : Instant
  casWon : Bool

/-- A counter of its own for one address, which starts with the first event. -/
def counterAllow (counter : Option SourceRateState) (kind : SourceLimitKind) (now : Instant) :
    Bool × SourceRateState :=
  (counter.getD (.new now)).allow kind now

/-- The answers of such a counter. -/
def counterAnswers : Option SourceRateState → List (SourceCall Ip) → List Bool
  | _, [] => []
  | counter, call :: calls =>
      let answer := counterAllow counter call.kind call.now
      answer.1 :: counterAnswers (some answer.2) calls

namespace SourceRateLimiter

variable [DecidableEq Ip]

/-- The limiter after a call, and its answer. -/
def call (limiter : SourceRateLimiter Ip) (c : SourceCall Ip) : Bool × SourceRateLimiter Ip :=
  limiter.allow c.ip c.kind c.now c.casWon

/-- The answers of the limiter. -/
def answers : SourceRateLimiter Ip → List (SourceCall Ip) → List Bool
  | _, [] => []
  | limiter, c :: calls => (limiter.call c).1 :: (limiter.call c).2.answers calls

/-- The answers to the calls for one address. -/
def answersFor (limiter : SourceRateLimiter Ip) (calls : List (SourceCall Ip)) (ip : Ip) :
    List Bool :=
  ((calls.zip (limiter.answers calls)).filter fun x => x.1.ip = ip).map Prod.snd

/-- The instants at which events of a kind were let in for an address. -/
def admissions (limiter : SourceRateLimiter Ip) (calls : List (SourceCall Ip)) (ip : Ip)
    (kind : SourceLimitKind) : List Instant :=
  ((calls.zip (limiter.answers calls)).filter fun x =>
    x.2 && decide (x.1.ip = ip ∧ x.1.kind = kind)).map fun x => x.1.now

variable {limiter : SourceRateLimiter Ip} {c : SourceCall Ip} {calls : List (SourceCall Ip)}
  {ip : Ip} {now : Instant} {casWon : Bool}

theorem answersFor_cons : limiter.answersFor (c :: calls) ip =
    if c.ip = ip then (limiter.call c).1 :: (limiter.call c).2.answersFor calls ip
    else (limiter.call c).2.answersFor calls ip := by
  simp only [answersFor, answers, List.zip_cons_cons, List.filter_cons]
  split <;> simp_all

theorem admissions_cons (kind : SourceLimitKind) : limiter.admissions (c :: calls) ip kind =
    (if (limiter.call c).1 = true ∧ c.ip = ip ∧ c.kind = kind then [c.now] else []) ++
      (limiter.call c).2.admissions calls ip kind := by
  simp only [admissions, answers, List.zip_cons_cons, List.filter_cons, Bool.and_eq_true,
    decide_eq_true_eq]
  split <;> rfl

/-! ### One call -/

/-- A prune forgets the window of an address only if it started two minutes ago. -/
theorem lookup_pruneIdle (limiter : SourceRateLimiter Ip) (now : Instant) (casWon : Bool)
    (ip : Ip) :
    (limiter.pruneIdle now casWon).sources.lookup ip = limiter.sources.lookup ip ∨
      (limiter.pruneIdle now casWon).sources.lookup ip = none ∧
        ∃ state, limiter.sources.lookup ip = some state ∧
          state.windowStart + sourceRateIdleTtl ≤ now := by
  simp only [pruneIdle]
  split
  · exact .inl rfl
  · split
    · exact .inl rfl
    · rw [Table.lookup_retain]
      cases hlookup : limiter.sources.lookup ip with
      | none => exact .inl rfl
      | some state =>
          by_cases hidle : durationSince now state.windowStart < sourceRateIdleTtl
          · exact .inl (Option.filter_some_pos (decide_eq_true hidle))
          · refine .inr ⟨Option.filter_some_neg (by simpa using hidle), state, rfl, ?_⟩
            exact idle_of_not_lt hidle

omit [DecidableEq Ip] in
theorem keys_pruneIdle_subset :
    (limiter.pruneIdle now casWon).sources.keys ⊆ limiter.sources.keys := by
  simp only [pruneIdle]
  split
  · exact List.Subset.refl _
  · split
    · exact List.Subset.refl _
    · exact (List.filter_sublist.map Sigma.fst).subset

omit [DecidableEq Ip] in
theorem size_pruneIdle_le :
    (limiter.pruneIdle now casWon).sources.size ≤ limiter.sources.size := by
  simp only [pruneIdle]
  split
  · exact Nat.le_refl _
  · split
    · exact Nat.le_refl _
    · exact List.length_filter_le ..

/-- After the prune, a call is refused for want of room or answered by the window of its address. -/
theorem call_cases (limiter : SourceRateLimiter Ip) (c : SourceCall Ip) :
    let pruned := limiter.pruneIdle c.now c.casWon
    let answer := counterAllow (pruned.sources.lookup c.ip) c.kind c.now
    pruned.sources.lookup c.ip = none ∧ maxSessionsTotal ≤ pruned.sources.size ∧
        limiter.call c = (false, pruned) ∨
      limiter.call c =
        (answer.1, { pruned with sources := pruned.sources.insert c.ip answer.2 }) := by
  intro pruned answer
  simp only [call, allow, answer, counterAllow]
  split
  · next hnone =>
      rw [show pruned.sources.lookup c.ip = none from hnone]
      split
      · next hfull => exact .inl ⟨rfl, hfull, rfl⟩
      · exact .inr rfl
  · next state hsome =>
      rw [show pruned.sources.lookup c.ip = some state from hsome]
      exact .inr rfl

/-! ### The addresses of a run -/

/-- The addresses in the map and those that are still to come. -/
def known (limiter : SourceRateLimiter Ip) (calls : List (SourceCall Ip)) : Finset Ip :=
  limiter.sources.keys.toFinset ∪ (calls.map (·.ip)).toFinset

theorem size_le_known : limiter.sources.size ≤ (limiter.known calls).card := by
  have hkeys : limiter.sources.size = limiter.sources.keys.toFinset.card := by
    rw [List.toFinset_card_of_nodup limiter.sources.keys_nodup]
    exact (List.length_map _).symm
  rw [hkeys]
  exact Finset.card_le_card Finset.subset_union_left

theorem known_call_subset :
    (limiter.call c).2.known calls ⊆ limiter.known (c :: calls) := by
  intro other hother
  simp only [known, Finset.mem_union, List.mem_toFinset, List.map_cons, List.mem_cons] at hother ⊢
  rcases hother with hkey | hlater
  · rcases limiter.call_cases c with ⟨-, -, hcall⟩ | hcall
    · rw [hcall] at hkey
      exact .inl (keys_pruneIdle_subset hkey)
    · rw [hcall] at hkey
      rcases (AList.mem_insert _).1 hkey with rfl | hold
      · exact .inr (.inl rfl)
      · exact .inl (keys_pruneIdle_subset hold)
  · exact .inr (.inr hlater)

/-! ### Forgetting is not seen -/

/-- The limiter knows the counter of an address, or has forgotten it when it was idle. -/
def Follows (limiter : SourceRateLimiter Ip) (ip : Ip) (counter : Option SourceRateState)
    (latest : Instant) : Prop :=
  limiter.sources.lookup ip = counter ∨
    limiter.sources.lookup ip = none ∧
      ∃ state, counter = some state ∧ state.windowStart + sourceRateIdleTtl ≤ latest

variable {counter : Option SourceRateState} {latest : Instant}

theorem Follows.pruneIdle (h : limiter.Follows ip counter latest) :
    (limiter.pruneIdle now casWon).Follows ip counter (max latest now) := by
  rcases limiter.lookup_pruneIdle now casWon ip with heq | ⟨hnone, state, hsome, hidle⟩
  · rcases h with hsame | ⟨hgone, state, hcounter, hidle⟩
    · exact .inl (heq.trans hsame)
    · exact .inr ⟨heq.trans hgone, state, hcounter, Nat.le_trans hidle (Nat.le_max_left ..)⟩
  · rcases h with hsame | ⟨hgone, -⟩
    · exact .inr ⟨hnone, state, hsame.symm.trans hsome,
        Nat.le_trans hidle (Nat.le_max_right ..)⟩
    · rw [hgone] at hsome
      cases hsome

/-- A counter that was forgotten is over, so that it answers as a new one. -/
theorem Follows.counterAllow_eq (h : limiter.Follows ip counter latest)
    (hlag : latest ≤ now + maxClockLag) (kind : SourceLimitKind) :
    counterAllow (limiter.sources.lookup ip) kind now = counterAllow counter kind now := by
  rcases h with hsame | ⟨hgone, state, rfl, hidle⟩
  · rw [hsame]
  · rw [hgone]
    exact (SourceRateState.allow_of_over (over_of_idle hidle hlag)).symm

theorem Follows.call_of_ne (h : limiter.Follows ip counter latest) (hne : c.ip ≠ ip) :
    (limiter.call c).2.Follows ip counter (max latest c.now) := by
  have hpruned : (limiter.pruneIdle c.now c.casWon).Follows ip counter (max latest c.now) :=
    h.pruneIdle
  rcases limiter.call_cases c with ⟨-, -, hcall⟩ | hcall
  · rwa [hcall]
  · rw [hcall]
    unfold Follows
    rw [Table.lookup_insert_eq, if_neg (Ne.symm hne)]
    exact hpruned

/-- A call for the address itself, while there is room in the map. -/
theorem Follows.call_of_eq (h : limiter.Follows c.ip counter latest)
    (hlag : latest ≤ c.now + maxClockLag) (hroom : limiter.sources.size < maxSessionsTotal) :
    (limiter.call c).1 = (counterAllow counter c.kind c.now).1 ∧
      (limiter.call c).2.Follows c.ip (some (counterAllow counter c.kind c.now).2)
        (max latest c.now) := by
  have hpruned : (limiter.pruneIdle c.now c.casWon).Follows c.ip counter (max latest c.now) :=
    h.pruneIdle
  have hlag' : max latest c.now ≤ c.now + maxClockLag :=
    Nat.max_le.2 ⟨hlag, Nat.le_add_right ..⟩
  rcases limiter.call_cases c with ⟨-, hfull, -⟩ | hcall
  · have hle := Nat.le_trans hfull size_pruneIdle_le
    exact absurd hroom (Nat.not_lt.2 hle)
  · rw [hcall, hpruned.counterAllow_eq hlag']
    refine ⟨rfl, .inl ?_⟩
    rw [Table.lookup_insert_eq, if_pos rfl]

/-- **The answers for an address are those of its own counter.** -/
theorem answers_eq_counter (hknown : (limiter.known calls).card < maxSessionsTotal)
    (hfollows : limiter.Follows ip counter latest)
    (hlag : ∀ d ∈ calls, latest ≤ d.now + maxClockLag)
    (horder : calls.Pairwise fun d e => d.now ≤ e.now + maxClockLag) :
    limiter.answersFor calls ip =
      counterAnswers counter (calls.filter fun d => d.ip = ip) := by
  induction calls generalizing limiter counter latest with
  | nil => rfl
  | cons c calls ih =>
      obtain ⟨hfirst, hrest⟩ := List.pairwise_cons.1 horder
      have hknown' := Nat.lt_of_le_of_lt (Finset.card_le_card known_call_subset) hknown
      have hroom := Nat.lt_of_le_of_lt size_le_known hknown
      -- the largest reading so far is that of this call or an earlier one
      have hlag' : ∀ d ∈ calls, max latest c.now ≤ d.now + maxClockLag := fun d hd =>
        Nat.max_le.2 ⟨hlag d (List.mem_cons_of_mem c hd), hfirst d hd⟩
      rw [answersFor_cons, List.filter_cons]
      by_cases hip : c.ip = ip
      · subst hip
        obtain ⟨hanswer, hnext⟩ := hfollows.call_of_eq (hlag c List.mem_cons_self) hroom
        rw [if_pos rfl, if_pos (decide_eq_true rfl), counterAnswers, hanswer,
          ih hknown' hnext hlag' hrest]
      · rw [if_neg hip, if_neg (by simpa using hip)]
        exact ih hknown' (hfollows.call_of_ne hip) hlag' hrest

/-! ### Every second -/

/-- What is known of the history of an address from its entry in the map. -/
def Recorded (latest : Instant) (history : SourceLimitKind → List Instant) :
    Option SourceRateState → Prop
  | none => ∀ kind, Bounded sourceRateWindow kind.limit (history kind) ∧
      ∀ t ∈ history kind, t + sourceRateWindow ≤ latest
  | some state => state.windowStart ≤ latest ∧ ∀ kind, Tallied sourceRateWindow kind.limit
      state.windowStart (state.count kind) (history kind)

variable {history : SourceLimitKind → List Instant} {entry : Option SourceRateState}

theorem Recorded.bounded (h : Recorded latest history entry) (kind : SourceLimitKind) :
    Bounded sourceRateWindow kind.limit (history kind) := by
  cases entry with
  | none => exact (h kind).1
  | some state => exact (h.2 kind).bounded

theorem Recorded.mono (h : Recorded latest history entry) (hle : latest ≤ now) :
    Recorded now history entry := by
  cases entry with
  | none => exact fun kind => ⟨(h kind).1, fun t ht => Nat.le_trans ((h kind).2 t ht) hle⟩
  | some state => exact ⟨Nat.le_trans h.1 hle, h.2⟩

theorem Recorded.pruneIdle (h : Recorded now history (limiter.sources.lookup ip)) :
    Recorded now history ((limiter.pruneIdle now casWon).sources.lookup ip) := by
  rcases limiter.lookup_pruneIdle now casWon ip with heq | ⟨hnone, state, hsome, hidle⟩
  · rwa [heq]
  · rw [hnone]
    rw [hsome] at h
    intro kind
    refine ⟨(h.2 kind).bounded, fun t ht => ?_⟩
    exact past_of_idle ((h.2 kind).within t ht) hidle

/-- The history after an answer. -/
def extend (history : SourceLimitKind → List Instant) (answer : Bool) (kind : SourceLimitKind)
    (now : Instant) : SourceLimitKind → List Instant := fun other =>
  history other ++ if answer = true ∧ kind = other then [now] else []

/-- The window at the instant of a call, whether it is the old one, the next one or the first. -/
theorem Recorded.current (h : Recorded now history entry) (kind : SourceLimitKind)
    {state : SourceRateState} (hstate : (entry.getD (.new now)).current now = state) :
    (state.windowStart ≤ now ∧ now < state.windowStart + sourceRateWindow) ∧
      Tallied sourceRateWindow kind.limit state.windowStart (state.count kind) (history kind) := by
  have hwidth : 0 < sourceRateWindow := by decide
  have hnew : (SourceRateState.new now).windowStart ≤ now ∧
      now < (SourceRateState.new now).windowStart + sourceRateWindow :=
    ⟨Nat.le_refl _, Nat.lt_add_of_pos_right hwidth⟩
  cases entry with
  | none =>
      rw [Option.getD_none, SourceRateState.current_new] at hstate
      subst hstate
      rw [SourceRateState.count_new]
      exact ⟨hnew, (h kind).1.tallied (h kind).2 hwidth⟩
  | some old =>
      rw [Option.getD_some, SourceRateState.current] at hstate
      split at hstate
      · next hover =>
          subst hstate
          rw [SourceRateState.count_new]
          exact ⟨hnew, (h.2 kind).restart (Nat.add_le_of_le_sub' h.1 hover)⟩
      · next hopen =>
          subst hstate
          exact ⟨⟨h.1, (Nat.sub_lt_iff_lt_add' h.1).1 (Nat.not_le.1 hopen)⟩, h.2 kind⟩

theorem Recorded.allow (h : Recorded now history entry) (kind : SourceLimitKind) :
    Recorded now (extend history (counterAllow entry kind now).1 kind now)
      (some (counterAllow entry kind now).2) := by
  rw [counterAllow, SourceRateState.allow_eq]
  generalize hstate : (entry.getD (.new now)).current now = state
  have hcurrent (other : SourceLimitKind) := h.current other hstate
  split
  · refine ⟨(hcurrent kind).1.1, fun other => ?_⟩
    simp only [extend, Bool.false_eq_true, false_and, if_false, List.append_nil]
    exact (hcurrent other).2
  · next hroom =>
      rw [Recorded, SourceRateState.windowStart_bump]
      refine ⟨(hcurrent kind).1.1, fun other => ?_⟩
      simp only [extend, true_and, SourceRateState.count_bump]
      by_cases hkind : kind = other
      · subst hkind
        rw [if_pos rfl, if_pos rfl]
        exact (hcurrent kind).2.oneMore (hcurrent kind).1.1 (hcurrent kind).1.2
          (Nat.not_le.1 hroom)
      · rw [if_neg hkind, if_neg (Ne.symm hkind), List.append_nil]
        exact (hcurrent other).2

theorem Recorded.call (h : Recorded latest history (limiter.sources.lookup ip))
    (hlatest : latest ≤ c.now) :
    Recorded c.now (fun kind => history kind ++
        if (limiter.call c).1 = true ∧ c.ip = ip ∧ c.kind = kind then [c.now] else [])
      ((limiter.call c).2.sources.lookup ip) := by
  have hpruned : Recorded c.now history
      ((limiter.pruneIdle c.now c.casWon).sources.lookup ip) := (h.mono hlatest).pruneIdle
  by_cases hip : c.ip = ip
  · subst hip
    rcases limiter.call_cases c with ⟨-, -, hcall⟩ | hcall
    · rw [hcall]
      simpa only [Bool.false_eq_true, false_and, if_false, List.append_nil] using hpruned
    · rw [hcall, Table.lookup_insert_eq, if_pos rfl]
      simp only [true_and]
      exact hpruned.allow c.kind
  · have hsame : (limiter.call c).2.sources.lookup ip =
        (limiter.pruneIdle c.now c.casWon).sources.lookup ip := by
      rcases limiter.call_cases c with ⟨-, -, hcall⟩ | hcall
      · rw [hcall]
      · rw [hcall, Table.lookup_insert_eq, if_neg (Ne.symm hip)]
    rw [hsame]
    simpa only [hip, false_and, and_false, if_false, List.append_nil] using hpruned

/-- **No second holds more than twice the limit.** -/
theorem admissions_bounded (hrecorded : Recorded latest history (limiter.sources.lookup ip))
    (hlatest : ∀ d ∈ calls, latest ≤ d.now)
    (horder : calls.Pairwise fun d e => d.now ≤ e.now) (kind : SourceLimitKind) :
    Bounded sourceRateWindow kind.limit
      (history kind ++ limiter.admissions calls ip kind) := by
  induction calls generalizing limiter latest history with
  | nil =>
      rw [show limiter.admissions [] ip kind = [] from rfl, List.append_nil]
      exact hrecorded.bounded kind
  | cons c calls ih =>
      obtain ⟨hfirst, hrest⟩ := List.pairwise_cons.1 horder
      have hnext := hrecorded.call (hlatest c List.mem_cons_self)
      have hih := ih hnext hfirst hrest
      rw [admissions_cons, ← List.append_assoc]
      exact hih

end SourceRateLimiter

end Calls

/-- **Source limiting is transparent and bounded.**  While fewer addresses occur than the map holds,
and no reading lies more than a hundred seconds behind the largest one before it, the answers for an
address are those of a counter that sees its calls only and is never forgotten.  When the readings
do not run back, no half-open second admits more than twice the limit of a kind for an address. -/
theorem source_limiting_transparent {Ip : Type} [DecidableEq Ip] (createdAt : Instant)
    (calls : List (SourceCall Ip)) :
    ((calls.map (·.ip)).toFinset.card < maxSessionsTotal →
      calls.Pairwise (fun d e => d.now ≤ e.now + maxClockLag) →
      ∀ ip, (SourceRateLimiter.new createdAt).answersFor calls ip =
        counterAnswers none (calls.filter fun d => d.ip = ip)) ∧
    (calls.Pairwise (fun d e => d.now ≤ e.now) → ∀ ip kind a,
      ((SourceRateLimiter.new createdAt).admissions calls ip kind).countP
        (inInterval a (a + sourceRateWindow)) ≤ 2 * kind.limit) := by
  refine ⟨fun hcard horder ip => ?_, fun horder ip kind a => ?_⟩
  · refine SourceRateLimiter.answers_eq_counter ?_ (.inl rfl) (fun d _ => Nat.zero_le _) horder
    have hknown : (SourceRateLimiter.new createdAt).known calls = (calls.map (·.ip)).toFinset :=
      Finset.empty_union _
    rwa [hknown]
  · have hrecorded : SourceRateLimiter.Recorded 0 (fun _ => [])
        ((SourceRateLimiter.new createdAt).sources.lookup ip) := fun kind =>
      ⟨fun a => Nat.zero_le _, fun t ht => absurd ht List.not_mem_nil⟩
    exact SourceRateLimiter.admissions_bounded hrecorded (fun d _ => Nat.zero_le _) horder kind a

/-- An address that asks for one session too many, a call of another address with which it is
forgotten, and its next call. -/
def sampleSourceCalls : List (SourceCall Ipv4Addr) :=
  List.replicate (maxNewSessionsPerSourceWindow + 1) ⟨⟨9, 9, 9, 9⟩, .newSession, 0, true⟩ ++
    [⟨⟨8, 8, 8, 8⟩, .newFlow, secs 130, true⟩, ⟨⟨9, 9, 9, 9⟩, .newSession, secs 131, false⟩]

/-- The call that is one too many is refused, and all others are admitted, as by a counter of its
own. -/
theorem source_limiting_transparent_sample :
    (SourceRateLimiter.new 0).answersFor sampleSourceCalls ⟨9, 9, 9, 9⟩ =
        List.replicate maxNewSessionsPerSourceWindow true ++ [false, true] ∧
      counterAnswers none (sampleSourceCalls.filter fun d => d.ip = ⟨9, 9, 9, 9⟩) =
        List.replicate maxNewSessionsPerSourceWindow true ++ [false, true] ∧
      ((SourceRateLimiter.new 0).admissions sampleSourceCalls ⟨9, 9, 9, 9⟩ .newSession).countP
        (inInterval 0 sourceRateWindow) = maxNewSessionsPerSourceWindow ∧
      maxNewSessionsPerSourceWindow ≤ 2 * SourceLimitKind.newSession.limit := by
  obtain ⟨htransparent, hbounded⟩ := source_limiting_transparent 0 sampleSourceCalls
  have hanswers : (SourceRateLimiter.new 0).answersFor sampleSourceCalls ⟨9, 9, 9, 9⟩ =
      List.replicate maxNewSessionsPerSourceWindow true ++ [false, true] := by decide +kernel
  have hcount : ((SourceRateLimiter.new 0).admissions sampleSourceCalls ⟨9, 9, 9, 9⟩
      .newSession).countP (inInterval 0 sourceRateWindow) = maxNewSessionsPerSourceWindow := by
    decide +kernel
  have hbound := hbounded (by decide +kernel) ⟨9, 9, 9, 9⟩ .newSession 0
  rw [Nat.zero_add, hcount] at hbound
  exact ⟨hanswers, (htransparent (by decide +kernel) (by decide +kernel) _).symm.trans hanswers,
    hcount, hbound⟩

end SwiftRelay
