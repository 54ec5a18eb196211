/-
**Sums by key along a history.**

A history is a list to which entries are added at the end.  Each entry has a key, such as the second
in which it happened, and an amount.  What is asked is the sum of all amounts, the sum of those with
one key, and the keys in the order in which they came up, where a key that is repeated at once
counts as the same.  A log of bounded length that drops its oldest entry when it is full is the end
of the list of everything that was ever pushed.

Main definitions:

* `Buckets.total`, `Buckets.totalAt` — the sum of the amounts, and of those with one key;
* `Buckets.keys` — the keys in order;
* `Buckets.push` — a log of bounded length.

Main results:

* `Buckets.total_snoc`, `Buckets.totalAt_snoc`, `Buckets.keys_snoc` — one entry more;
* `Buckets.totalAt_le_total` — the sum of one key is part of the whole;
* `Buckets.push_rtake` — the log is the end of what was pushed.
-/

import Mathlib.Algebra.Order.BigOperators.Group.List
import Mathlib.Algebra.Order.Ring.Nat
import Mathlib.Data.List.DropRight
import Mathlib.Tactic.Common

set_option autoImplicit false

namespace Buckets

/-! ### Sums -/

section Sums

variable {α κ : Type} (amount : α → ℕ)

def total (l : List α) : ℕ := (l.map amount).sum

theorem total_snoc (l : List α) (a : α) : total amount (l ++ [a]) = total amount l + amount a := by
  simp [total]

variable [DecidableEq κ] (key : α → κ)

/-- The sum of the amounts with the key `k`. -/
def totalAt (k : κ) (l : List α) : ℕ := total amount (l.filter fun a => key a = k)

theorem totalAt_snoc (k : κ) (l : List α) (a : α) :
    totalAt amount key k (l ++ [a]) =
      totalAt amount key k l + if key a = k then amount a else 0 := by
  unfold totalAt
  by_cases h : key a = k
  · simp [List.filter_append, h, total_snoc]
  · simp [List.filter_append, h]

theorem totalAt_le_total (k : κ) (l : List α) : totalAt amount key k l ≤ total amount l :=
  List.Sublist.sum_le_sum (List.filter_sublist.map amount) fun _ _ => Nat.zero_le _

theorem totalAt_eq_zero {k : κ} {l : List α} (h : ∀ a ∈ l, key a ≠ k) :
    totalAt amount key k l = 0 := by
  have hnil : (l.filter fun a => key a = k) = [] := by
    simpa [List.filter_eq_nil_iff] using h
  rw [totalAt, hnil]
  rfl

end Sums

/-! ### Keys -/

section Keys

variable {α κ : Type} [DecidableEq κ] (key : α → κ)

/-- Another key has come up, unless it is the last one. -/
def addKey (ks : List κ) (k : κ) : List κ := if ks.getLast? = some k then ks else ks ++ [k]

/-- The keys in the order in which they came up. -/
def keys (l : List α) : List κ := l.foldl (fun ks a => addKey ks (key a)) []

theorem keys_snoc (l : List α) (a : α) : keys key (l ++ [a]) = addKey (keys key l) (key a) := by
  simp [keys, List.foldl_append]

theorem getLast?_keys (l : List α) : (keys key l).getLast? = l.getLast?.map key := by
  induction l using List.reverseRecOn with
  | nil => rfl
  | append_singleton l a ih =>
      rw [keys_snoc, addKey]
      split
      · next h => simp [h]
      · simp

end Keys

/-! ### A log of bounded length -/

section Push

variable {α : Type}

/-- The oldest entry of a full log makes room for a new one. -/
def push (size : ℕ) (log : List α) (a : α) : List α :=
  (if log.length = size then log.drop 1 else log) ++ [a]

theorem push_rtake (n : ℕ) (l : List α) (a : α) :
    push (n + 1) (l.rtake (n + 1)) a = (l ++ [a]).rtake (n + 1) := by
  rw [List.rtake_concat_succ, push]
  congr 1
  simp only [List.rtake, List.length_drop]
  split
  · rw [List.drop_drop]
    congr 1
    omega
  · congr 1
    omega

theorem map_push {β : Type} (f : α → β) (size : ℕ) (log : List α) (a : α) :
    (push size log a).map f = push size (log.map f) (f a) := by
  unfold push
  rw [List.map_append, List.length_map]
  split <;> simp

end Push

end Buckets
