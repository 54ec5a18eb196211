/-
**Intervals that nest or are disjoint.**

A family of half-open intervals is *laminar* if an interval that starts inside another one ends
there as well.  Sort such a family by where the intervals start, an outer one before those inside
it.  Then one pass that drops each interval covered by the last one kept leaves intervals that are
apart from each other and have the same union, and whether a point lies in the union is decided by a
single one of them: the last that starts at or before the point.

The typical family is that of *aligned blocks*, whose length is a power of two and whose start is a
multiple of it.

Main definitions:

* `Intervals.Precedes`, `Intervals.Covers` — the order that the pass relies on, and inclusion;
* `Intervals.collapse` — the pass;
* `Intervals.lastUpTo` — the last interval that starts at or before a point.

Main results:

* `Intervals.collapsed` — what the pass leaves;
* `Intervals.exists_mem_iff` — **membership in the union, decided by the last candidate**;
* `Intervals.end_le_of_start_lt`, `Intervals.block_subset_iff` — aligned blocks are laminar.
-/

import Mathlib.Algebra.Order.Ring.Nat
import Mathlib.Data.List.Basic
import Mathlib.Order.Defs.LinearOrder
import Mathlib.Tactic.Common

set_option autoImplicit false

namespace Intervals

section Family

variable {ι α : Type} [LinearOrder α] (lo hi : ι → α)

/-- Interval `i` starts no later than `j`, and if `j` starts inside `i` it ends there. -/
def Precedes (i j : ι) : Prop := lo i ≤ lo j ∧ (lo j < hi i → hi j ≤ hi i)

/-- Interval `j` lies inside interval `i`. -/
def Covers (i j : ι) : Prop := lo i ≤ lo j ∧ hi j ≤ hi i

/-- Keep an interval unless the last one kept covers it. -/
def keep (covers : ι → ι → Bool) (kept : List ι) (i : ι) : List ι :=
  if kept.getLast?.any fun last => covers last i then kept else kept ++ [i]

/-- Drop every interval that the last one kept before it covers. -/
def collapse (covers : ι → ι → Bool) (l : List ι) : List ι := l.foldl (keep covers) []

/-- The last interval of a list that starts at or before a point. -/
def lastUpTo (x : α) (l : List ι) : Option ι := (l.takeWhile fun i => decide (lo i ≤ x)).getLast?

/-- What the pass has kept of the intervals it has seen. -/
structure Collapsed (seen kept : List ι) : Prop where
  mem : ∀ i ∈ kept, i ∈ seen
  apart : kept.Pairwise fun i j => hi i ≤ lo j
  covered : ∀ j ∈ seen, ∃ i ∈ kept, Covers lo hi i j

variable {lo hi} {covers : ι → ι → Bool} {seen kept l : List ι} {j : ι} {x : α}

/-- An interval that the last one does not cover starts behind all that were kept. -/
theorem Collapsed.behind (h : Collapsed lo hi seen kept) (hne : ∀ i ∈ seen, lo i < hi i)
    (hprec : ∀ i ∈ seen, Precedes lo hi i j)
    (hlast : ∀ i, kept.getLast? = some i → ¬ Covers lo hi i j) : ∀ i ∈ kept, hi i ≤ lo j := by
  intro i hi'
  obtain ⟨front, last, rfl⟩ := kept.eq_nil_or_concat'.resolve_left (List.ne_nil_of_mem hi')
  have hseen : last ∈ seen := h.mem last (by simp)
  have hbehind : hi last ≤ lo j := by
    by_contra hlt
    exact hlast last (by simp)
      ⟨(hprec last hseen).1, (hprec last hseen).2 (lt_of_not_ge hlt)⟩
  rcases List.mem_append.1 hi' with hfront | hmem
  · have hapart : hi i ≤ lo last := (List.pairwise_append.1 h.apart).2.2 i hfront last (by simp)
    exact hapart.trans ((hne last hseen).le.trans hbehind)
  · rw [List.mem_singleton.1 hmem]
    exact hbehind

theorem Collapsed.keep (h : Collapsed lo hi seen kept) (hne : ∀ i ∈ seen, lo i < hi i)
    (hprec : ∀ i ∈ seen, Precedes lo hi i j)
    (hcovers : ∀ i ∈ seen, covers i j = true ↔ Covers lo hi i j) :
    Collapsed lo hi (seen ++ [j]) (keep covers kept j) := by
  unfold Intervals.keep
  split
  · next hany =>
      obtain ⟨last, hlast, hcov⟩ := (Option.any_eq_true ..).1 hany
      have hmem := List.mem_of_getLast? hlast
      refine ⟨fun i hi' => List.mem_append_left _ (h.mem i hi'), h.apart, fun i hi' => ?_⟩
      rcases List.mem_append.1 hi' with hi' | hi'
      · exact h.covered i hi'
      · rw [List.mem_singleton.1 hi']
        exact ⟨last, hmem, (hcovers last (h.mem last hmem)).1 hcov⟩
  · next hany =>
      have hlast : ∀ i, kept.getLast? = some i → ¬ Covers lo hi i j := by
        intro i hlast hcov
        refine hany ?_
        rw [hlast]
        exact (hcovers i (h.mem i (List.mem_of_getLast? hlast))).2 hcov
      refine ⟨fun i hi' => ?_, ?_, fun i hi' => ?_⟩
      · exact (List.mem_append.1 hi').elim (fun hi' => List.mem_append_left _ (h.mem i hi'))
          (List.mem_append_right _)
      · refine List.pairwise_append.2 ⟨h.apart, List.pairwise_singleton _ _, fun i hi' k hk => ?_⟩
        rw [List.mem_singleton.1 hk]
        exact h.behind hne hprec hlast i hi'
      · rcases List.mem_append.1 hi' with hi' | hi'
        · obtain ⟨k, hk, hcov⟩ := h.covered i hi'
          exact ⟨k, List.mem_append_left _ hk, hcov⟩
        · exact ⟨i, List.mem_append_right _ hi', le_rfl, le_rfl⟩

theorem Collapsed.foldl (h : Collapsed lo hi seen kept) (hne : ∀ i ∈ seen ++ l, lo i < hi i)
    (hprec : (seen ++ l).Pairwise (Precedes lo hi))
    (hcovers : ∀ i ∈ seen ++ l, ∀ j ∈ seen ++ l, covers i j = true ↔ Covers lo hi i j) :
    Collapsed lo hi (seen ++ l) (l.foldl (Intervals.keep covers) kept) := by
  induction l generalizing seen kept with
  | nil => simpa using h
  | cons j l ih =>
      have hstep : Collapsed lo hi (seen ++ [j]) (Intervals.keep covers kept j) := by
        refine h.keep (fun i hi' => hne i (List.mem_append_left _ hi'))
          (fun i hi' => (List.pairwise_append.1 hprec).2.2 i hi' j List.mem_cons_self)
          fun i hi' => hcovers i (List.mem_append_left _ hi') j (by simp)
      have happend : seen ++ j :: l = (seen ++ [j]) ++ l := by simp
      rw [happend] at hne hprec hcovers ⊢
      exact ih hstep hne hprec hcovers

theorem collapsed (hne : ∀ i ∈ l, lo i < hi i) (hprec : l.Pairwise (Precedes lo hi))
    (hcovers : ∀ i ∈ l, ∀ j ∈ l, covers i j = true ↔ Covers lo hi i j) :
    Collapsed lo hi l (collapse covers l) := by
  have hnil : Collapsed lo hi [] [] := ⟨by simp, List.Pairwise.nil, by simp⟩
  exact hnil.foldl hne hprec hcovers

theorem mem_of_lastUpTo {i : ι} (h : lastUpTo lo x l = some i) : i ∈ l :=
  List.takeWhile_subset _ (List.mem_of_getLast? h)

/-- Among intervals that are apart, the one around a point is the last that starts up to it. -/
theorem lastUpTo_of_mem (hne : ∀ i ∈ l, lo i < hi i) (hapart : l.Pairwise fun i j => hi i ≤ lo j)
    {i : ι} (hi' : i ∈ l) (hlo : lo i ≤ x) (hhi : x < hi i) : lastUpTo lo x l = some i := by
  obtain ⟨front, back, rfl⟩ := List.append_of_mem hi'
  obtain ⟨-, hback, hfront⟩ := List.pairwise_append.1 hapart
  have hbefore : ∀ k ∈ front, decide (lo k ≤ x) = true := by
    intro k hk
    have hlt : lo k < hi k := hne k (List.mem_append_left _ hk)
    exact decide_eq_true (hlt.le.trans ((hfront k hk i List.mem_cons_self).trans hlo))
  have hafter : back.takeWhile (fun k => decide (lo k ≤ x)) = [] := by
    cases back with
    | nil => rfl
    | cons k back =>
        have hk : x < lo k := hhi.trans_le ((List.pairwise_cons.1 hback).1 k List.mem_cons_self)
        rw [List.takeWhile_cons_of_neg (by simpa using hk)]
  rw [lastUpTo, List.takeWhile_append_of_pos hbefore,
    List.takeWhile_cons_of_pos (by simpa using hlo), hafter]
  simp

/-- A point lies in the union of a sorted laminar family if and only if it lies in the last kept
interval that starts at or before it. -/
theorem exists_mem_iff (hne : ∀ i ∈ l, lo i < hi i) (hprec : l.Pairwise (Precedes lo hi))
    (hcovers : ∀ i ∈ l, ∀ j ∈ l, covers i j = true ↔ Covers lo hi i j) :
    (∃ i ∈ l, lo i ≤ x ∧ x < hi i) ↔
      ∃ i, lastUpTo lo x (collapse covers l) = some i ∧ lo i ≤ x ∧ x < hi i := by
  have hc := collapsed hne hprec hcovers
  constructor
  · rintro ⟨j, hj, hlo, hhi⟩
    obtain ⟨i, hi', hcov⟩ := hc.covered j hj
    have hlo' := hcov.1.trans hlo
    have hhi' := hhi.trans_le hcov.2
    exact ⟨i, lastUpTo_of_mem (fun k hk => hne k (hc.mem k hk)) hc.apart hi' hlo' hhi', hlo', hhi'⟩
  · rintro ⟨i, hlast, hlo, hhi⟩
    exact ⟨i, hc.mem i (mem_of_lastUpTo hlast), hlo, hhi⟩

end Family

/-! ### Aligned blocks -/

section Blocks

variable {a b k m : ℕ}

theorem add_le_of_dvd {d : ℕ} (ha : d ∣ a) (hb : d ∣ b) (h : a < b) : a + d ≤ b := by
  obtain ⟨u, rfl⟩ := ha
  obtain ⟨v, rfl⟩ := hb
  have huv : u + 1 ≤ v := Nat.lt_of_mul_lt_mul_left h
  calc d * u + d = d * (u + 1) := (Nat.mul_succ d u).symm
    _ ≤ d * v := Nat.mul_le_mul_left d huv

/-- An aligned block that starts inside another one lies inside it, unless it is the larger of two
blocks with the same start. -/
theorem end_le_of_start_lt (ha : 2 ^ k ∣ a) (hb : 2 ^ m ∣ b) (hle : a ≤ b) (hlt : b < a + 2 ^ k)
    (hsame : a = b → m ≤ k) : b + 2 ^ m ≤ a + 2 ^ k := by
  by_cases hmk : m ≤ k
  · have hpow : 2 ^ m ∣ 2 ^ k := Nat.pow_dvd_pow 2 hmk
    exact add_le_of_dvd hb (Nat.dvd_add (hpow.trans ha) hpow) hlt
  · have hpow : 2 ^ k ∣ 2 ^ m := Nat.pow_dvd_pow 2 (Nat.le_of_not_le hmk)
    have hab : a ≠ b := fun heq => hmk (hsame heq)
    have hnext := add_le_of_dvd ha (hpow.trans hb) (Nat.lt_of_le_of_ne hle hab)
    omega

/-- A block lies inside another one if and only if it is no larger and starts there. -/
theorem block_subset_iff (ha : 2 ^ k ∣ a) (hb : 2 ^ m ∣ b) :
    (a ≤ b ∧ b + 2 ^ m ≤ a + 2 ^ k) ↔ m ≤ k ∧ a ≤ b ∧ b < a + 2 ^ k := by
  constructor
  · rintro ⟨hle, hend⟩
    have hpos : 0 < 2 ^ m := Nat.two_pow_pos m
    refine ⟨?_, hle, by omega⟩
    by_contra hmk
    have hgrow : 2 ^ k < 2 ^ m := Nat.pow_lt_pow_right Nat.one_lt_two (Nat.lt_of_not_le hmk)
    omega
  · rintro ⟨hmk, hle, hlt⟩
    exact ⟨hle, end_le_of_start_lt ha hb hle hlt fun _ => hmk⟩

end Blocks

end Intervals
