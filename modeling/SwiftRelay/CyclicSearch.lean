/-
**Searching along a cycle.**

An allocator that hands out names from a cycle starts at some name, passes over the names that are
taken, and gives up when it is back at its start.  The walk has no measure that decreases; what
bounds it is the period of the start.  Either a name of the cycle is free, and the first free one is
found, or the whole cycle is taken, and the search ends where it began.

The search carries a number of rounds, and says so when these run out.  The names passed in one turn
are distinct, so one round more than there are taken names is enough.

Main definitions:

* `CyclicSearch.search` — the search.

Main results:

* `CyclicSearch.search_of_free`, `CyclicSearch.search_of_taken` — the two ends of the search;
* `CyclicSearch.exists_search` — the search ends, and fails only on a cycle that is taken as a
  whole.
-/

import Mathlib.Dynamics.PeriodicPts.Defs

set_option autoImplicit false

namespace CyclicSearch

open Function

variable {α : Type*}

section Search

variable [DecidableEq α]

/-- The search for a name that is not taken, from `x` on: the name, and where the next search
begins.  The outer `none` says that the rounds ran out. -/
def search (f : α → α) (taken : α → Bool) (start : α) : ℕ → α → Option (Option α × α)
  | 0, _ => none
  | rounds + 1, x =>
      if taken x then
        if f x = start then some (none, f x) else search f taken start rounds (f x)
      else some (some x, f x)

end Search

variable {f : α → α} {taken : α → Bool} {start : α}

/-! ### One turn -/

theorem iterate_succ_ne {n i : ℕ} (hn : n < minimalPeriod f start) (hi : i < n) :
    f^[i + 1] start ≠ start :=
  not_isPeriodicPt_of_pos_of_lt_minimalPeriod (by omega) (by omega)

/-- The names passed in one turn are distinct, so there are at most as many as taken names. -/
theorem le_card_of_taken {n : ℕ} (hn : n ≤ minimalPeriod f start) {s : Finset α}
    (hs : ∀ i, taken (f^[i] start) = true → f^[i] start ∈ s)
    (htaken : ∀ i < n, taken (f^[i] start) = true) : n ≤ s.card := by
  have hmaps : Set.MapsTo (fun i => f^[i] start) (Finset.range n) s :=
    fun i hi => hs i (htaken i (by simpa using hi))
  have hinj : Set.InjOn (fun i => f^[i] start) (Finset.range n) := by
    intro i hi j hj hij
    have hlt : ∀ k ∈ Finset.range n, k < minimalPeriod f start :=
      fun k hk => lt_of_lt_of_le (by simpa using hk) hn
    exact iterate_injOn_Iio_minimalPeriod (hlt i hi) (hlt j hj) hij
  simpa using Finset.card_le_card_of_injOn _ hmaps hinj

theorem forall_taken_of_turn
    (htaken : ∀ i < minimalPeriod f start, taken (f^[i] start) = true)
    (hstart : start ∈ periodicPts f) (n : ℕ) : taken (f^[n] start) = true := by
  rw [← iterate_mod_minimalPeriod_eq]
  exact htaken _ (Nat.mod_lt _ (minimalPeriod_pos_of_mem_periodicPts hstart))

/-! ### The search -/

section Ends

variable [DecidableEq α]

/-- The search passes over names that are taken, up to a return to the start. -/
theorem search_add {n : ℕ} {x : α} (htaken : ∀ i < n, taken (f^[i] x) = true)
    (haway : ∀ i < n, f^[i + 1] x ≠ start) (rounds : ℕ) :
    search f taken start (n + rounds) x = search f taken start rounds (f^[n] x) := by
  induction n generalizing x with
  | zero => simp
  | succ n ih =>
      have hx : taken x = true := htaken 0 (by omega)
      have hnext : f x ≠ start := haway 0 (by omega)
      rw [show n + 1 + rounds = n + rounds + 1 by omega, search, if_pos hx, if_neg hnext,
        ih (fun i hi => htaken (i + 1) (by omega)) (fun i hi => haway (i + 1) (by omega))]
      rfl

theorem search_of_free {n : ℕ} (hn : n < minimalPeriod f start)
    (htaken : ∀ i < n, taken (f^[i] start) = true) (hfree : taken (f^[n] start) = false)
    {rounds : ℕ} (hrounds : n < rounds) :
    search f taken start rounds start = some (some (f^[n] start), f^[n + 1] start) := by
  obtain ⟨k, rfl⟩ := Nat.exists_eq_add_of_lt hrounds
  rw [Nat.add_assoc, search_add htaken fun i hi => iterate_succ_ne hn hi, search, hfree,
    iterate_succ_apply']
  rfl

/-- When the whole cycle is taken, the search ends where it began. -/
theorem search_of_taken (hstart : start ∈ periodicPts f)
    (htaken : ∀ i < minimalPeriod f start, taken (f^[i] start) = true)
    {rounds : ℕ} (hrounds : minimalPeriod f start ≤ rounds) :
    search f taken start rounds start = some (none, start) := by
  have hpos : 0 < minimalPeriod f start := minimalPeriod_pos_of_mem_periodicPts hstart
  obtain ⟨n, hn⟩ : ∃ n, minimalPeriod f start = n + 1 := ⟨minimalPeriod f start - 1, by omega⟩
  obtain ⟨k, rfl⟩ := Nat.exists_eq_add_of_le hrounds
  have hback : f (f^[n] start) = start := by
    have hperiod : f^[n + 1] start = start := hn ▸ isPeriodicPt_minimalPeriod f start
    rwa [iterate_succ_apply'] at hperiod
  rw [hn, show n + 1 + k = n + (k + 1) by omega,
    search_add (fun i hi => htaken i (by omega)) fun i hi => iterate_succ_ne (by omega) hi, search,
    if_pos (htaken n (by omega)), if_pos hback, hback]

/-- The search ends, with a free name unless every name of the cycle is taken. -/
theorem exists_search (hstart : start ∈ periodicPts f) {s : Finset α}
    (hs : ∀ i, taken (f^[i] start) = true → f^[i] start ∈ s) :
    (∃ n, taken (f^[n] start) = false ∧ ∀ rounds, s.card < rounds →
        search f taken start rounds start = some (some (f^[n] start), f^[n + 1] start)) ∨
      (∀ n, taken (f^[n] start) = true) ∧ ∀ rounds, s.card < rounds →
        search f taken start rounds start = some (none, start) := by
  by_cases hfree : ∃ n < minimalPeriod f start, taken (f^[n] start) = false
  · -- the first free name of the turn
    refine .inl ⟨Nat.find hfree, (Nat.find_spec hfree).2, fun rounds hrounds => ?_⟩
    have hlt : Nat.find hfree < minimalPeriod f start := (Nat.find_spec hfree).1
    have htaken : ∀ i < Nat.find hfree, taken (f^[i] start) = true := by
      intro i hi
      by_contra hnot
      exact Nat.find_min hfree hi ⟨by omega, by simpa using hnot⟩
    have hcard := le_card_of_taken hlt.le hs htaken
    exact search_of_free hlt htaken (Nat.find_spec hfree).2 (by omega)
  · have htaken : ∀ i < minimalPeriod f start, taken (f^[i] start) = true := by
      intro i hi
      by_contra hnot
      exact hfree ⟨i, hi, by simpa using hnot⟩
    have hcard := le_card_of_taken le_rfl hs htaken
    exact .inr ⟨forall_taken_of_turn htaken hstart,
      fun rounds hrounds => search_of_taken hstart htaken (by omega)⟩

end Ends

end CyclicSearch
