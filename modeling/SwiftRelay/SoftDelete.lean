/-
**Soft deletion.**

A sweep over the items of a table does not remove an idle item at once.  It marks an item that has
been idle for the timeout, and removes it in a later sweep, when the mark is as old as the grace
period; a mark on an item that was active a moment ago is taken back.

As long as activity takes the mark back, a marked item has been idle since the timeout before the
mark, and one that is removed was idle for the timeout and the grace period together.

Main definitions:

* `SoftDelete.Timing` — the last activity of an item and its mark;
* `SoftDelete.Timing.sweep` — what a sweep makes of them;
* `SoftDelete.Timing.Settled` — the mark is younger than the last activity by the timeout.

Main results:

* `SoftDelete.Timing.settled_sweep` — a sweep keeps an item settled;
* `SoftDelete.Timing.idle_of_swept` — a settled item that is removed was idle.
-/

import Mathlib.Tactic.Common

set_option autoImplicit false

namespace SoftDelete

/-- When an item was last active, and when it was marked. -/
@[ext]
structure Timing where
  lastActivity : ℕ
  markedAt : Option ℕ

namespace Timing

/-- A sweep at time `now`: an item is removed when its mark is `grace` old, and marked when it has
been idle for `timeout`.  A mark is taken back if the item was active in the last `recent`. -/
def sweep (timeout grace recent now : ℕ) (t : Timing) : Option Timing :=
  match t.markedAt with
  | some m =>
      if now - m ≥ grace then none
      else if now - t.lastActivity < recent then some { t with markedAt := none }
      else some t
  | none =>
      if now - t.lastActivity ≥ timeout then some { t with markedAt := some now } else some t

/-- When the item was marked, it had been idle for the timeout. -/
def Settled (timeout : ℕ) (t : Timing) : Prop :=
  ∀ m, t.markedAt = some m → t.lastActivity + timeout ≤ m

variable {timeout grace recent now : ℕ} {t t' : Timing}

theorem settled_of_unmarked (h : t.markedAt = none) : t.Settled timeout := by
  intro m hm
  rw [h] at hm
  cases hm

theorem sweep_lastActivity (h : t.sweep timeout grace recent now = some t') :
    t'.lastActivity = t.lastActivity := by
  unfold sweep at h
  split at h
  · split at h
    · cases h
    · split at h <;> cases h <;> rfl
  · split at h <;> cases h <;> rfl

theorem settled_sweep (htimeout : 0 < timeout) (ht : t.Settled timeout)
    (h : t.sweep timeout grace recent now = some t') : t'.Settled timeout := by
  unfold sweep at h
  split at h
  · split at h
    · cases h
    · split at h
      · cases h
        exact settled_of_unmarked rfl
      · cases h
        exact ht
  · split at h
    · next hidle =>
        cases h
        rintro m ⟨⟩
        change t.lastActivity + timeout ≤ now
        omega
    · cases h
      exact ht

/-- An item that a sweep removes has been idle for the timeout and the grace period. -/
theorem idle_of_swept (hgrace : 0 < grace) (ht : t.Settled timeout)
    (h : t.sweep timeout grace recent now = none) :
    t.lastActivity + (timeout + grace) ≤ now := by
  unfold sweep at h
  split at h
  · next m hm =>
      have hsettled := ht m hm
      split at h
      · omega
      · split at h <;> cases h
  · split at h <;> cases h

end Timing

end SoftDelete
