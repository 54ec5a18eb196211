/-
**Counting in fixed windows.**

A limiter with fixed windows remembers when its window started and how many events it has admitted
since; an event behind the end of the window starts the next one.  Windows start at least their
length apart, so an interval of that length meets at most one start, and the events that it holds
come from at most two windows.  The argument is carried along a run by what is known of the history
of admitted events: those of the current window, and those before it that one interval can still
hold.

Main definitions:

* `FixedWindow.inInterval` — the instants of a half-open interval;
* `FixedWindow.Bounded` — no interval of the length of a window holds more than twice the limit;
* `FixedWindow.Tallied` — what the state of a window says about the history.

Main results:

* `FixedWindow.Bounded.tallied`, `FixedWindow.Tallied.restart`, `FixedWindow.Tallied.oneMore` — a
  first window, the next window, and one more event.
-/

import Mathlib.Data.List.Basic
import Mathlib.Order.Basic

set_option autoImplicit false

namespace FixedWindow

variable {width limit start count now : ℕ} {history : List ℕ}

/-- The instants from `a` to the one before `b`. -/
def inInterval (a b t : ℕ) : Bool := a ≤ t && t < b

/-- No interval of the length of a window holds more than twice the limit. -/
def Bounded (width limit : ℕ) (history : List ℕ) : Prop :=
  ∀ a, history.countP (inInterval a (a + width)) ≤ 2 * limit

/-- A window that started at `start` and has counted `count` events, after the admitted events of
the history. -/
structure Tallied (width limit start count : ℕ) (history : List ℕ) : Prop where
  counted : history.countP (start ≤ ·) = count
  count_le : count ≤ limit
  within : ∀ t ∈ history, t < start + width
  -- an interval that reaches the window holds at most a limit of what was before it
  before : ∀ a, start < a + width → history.countP (inInterval a start) ≤ limit
  bounded : Bounded width limit history

/-- A test that implies one of two others holds no more often than they do together. -/
theorem countP_le_add {p q r : ℕ → Bool} {l : List ℕ}
    (h : ∀ t ∈ l, p t = true → q t = true ∨ r t = true) :
    l.countP p ≤ l.countP q + l.countP r := by
  induction l with
  | nil => exact Nat.zero_le _
  | cons t l ih =>
      have htail := ih fun u hu => h u (List.mem_cons_of_mem t hu)
      have hhead := h t List.mem_cons_self
      simp only [List.countP_cons]
      cases hp : p t with
      | false => simp only [Bool.false_eq_true, if_false]; omega
      | true =>
          rcases hhead hp with hq | hr
          · rw [hq]; simp only [if_true]; omega
          · rw [hr]; simp only [if_true]; omega

/-- A window that starts so late that no interval reaches back from it to the history. -/
theorem Bounded.tallied (h : Bounded width limit history)
    (hpast : ∀ t ∈ history, t + width ≤ now) (hwidth : 0 < width) :
    Tallied width limit now 0 history where
  counted := by
    refine List.countP_eq_zero.2 fun t ht hle => ?_
    have := hpast t ht
    have hle := of_decide_eq_true hle
    omega
  count_le := Nat.zero_le _
  within := by
    intro t ht
    have := hpast t ht
    omega
  before := by
    intro a ha
    rw [List.countP_eq_zero.2]
    · exact Nat.zero_le _
    · intro t ht hin
      have := hpast t ht
      simp only [inInterval, Bool.and_eq_true, decide_eq_true_eq] at hin
      omega
  bounded := h

/-- The next window: what an interval can still hold is what the last one has counted. -/
theorem Tallied.restart (h : Tallied width limit start count history) (hnow : start + width ≤ now) :
    Tallied width limit now 0 history where
  counted := by
    refine List.countP_eq_zero.2 fun t ht hle => ?_
    have := h.within t ht
    have hle := of_decide_eq_true hle
    omega
  count_le := Nat.zero_le _
  within := by
    intro t ht
    have := h.within t ht
    omega
  before := by
    intro a ha
    have hle : history.countP (inInterval a now) ≤ history.countP (start ≤ ·) := by
      refine List.countP_mono_left fun t _ hin => ?_
      simp only [inInterval, Bool.and_eq_true, decide_eq_true_eq] at hin ⊢
      omega
    exact Nat.le_trans hle (h.counted ▸ h.count_le)
  bounded := h.bounded

theorem Tallied.oneMore (h : Tallied width limit start count history) (hstart : start ≤ now)
    (hnow : now < start + width) (hroom : count < limit) :
    Tallied width limit start (count + 1) (history ++ [now]) where
  counted := by
    rw [List.countP_append, h.counted, List.countP_singleton, if_pos (decide_eq_true hstart)]
  count_le := hroom
  within := by
    intro t ht
    rcases List.mem_append.1 ht with ht | ht
    · exact h.within t ht
    · rw [List.mem_singleton.1 ht]
      exact hnow
  before := by
    intro a ha
    have hout : inInterval a start now = false := by
      simp only [inInterval, Bool.and_eq_false_iff, decide_eq_false_iff_not]
      omega
    rw [List.countP_append, List.countP_singleton, hout]
    exact h.before a ha
  bounded := by
    intro a
    rw [List.countP_append, List.countP_singleton]
    split
    · next hin =>
        -- the interval holds the new event, so it reaches the window
        simp only [inInterval, Bool.and_eq_true, decide_eq_true_eq] at hin
        have hbefore := h.before a (by omega)
        have hsplit : history.countP (inInterval a (a + width)) ≤
            history.countP (inInterval a start) + history.countP (start ≤ ·) := by
          refine countP_le_add fun t _ ht => ?_
          simp only [inInterval, Bool.and_eq_true, decide_eq_true_eq] at ht ⊢
          omega
        rw [h.counted] at hsplit
        omega
    · exact h.bounded a

end FixedWindow
