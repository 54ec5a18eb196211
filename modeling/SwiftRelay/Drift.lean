/-
**What a pass has changed so far.**

For a quantity with values in a commutative group, the *drift* of a thread is the sum of the changes
that the operations of its current pass have made.  If only some threads change the quantity and
each of them is back at drift zero whenever it has finished a pass, the quantity is at any time the
sum of the drifts of these threads, and it is zero whenever they are idle.  This is how agreement
between two parts of the state that are never updated together is stated and proved.

Main definitions:

* `Conc.System.drift` — the drift of a thread;
* `Conc.System.Balanced` — the quantity is the sum of the drifts.

Main results:

* `Conc.System.Balanced.begin`, `Conc.System.Balanced.after`, `Conc.System.Balanced.after_of_eq` —
  balance is kept;
* `Conc.System.Balanced.eq_zero` — the quantity when nothing is under way.
-/

import Mathlib.Algebra.BigOperators.Group.Finset.Piecewise
import SwiftRelay.Contract

set_option autoImplicit false

namespace Conc

namespace System

variable {S : Signature} {M : System S} [DecidableEq M.Tid] {G : Type} [AddCommGroup G]

/-- The change of a quantity in one event. -/
def change (q : M.State → G) : M.Event → G
  | .start _ => 0
  | .exec _ _ _ pre post => q post - q pre

/-- The change of a quantity by what thread `t` has done since its last activation. -/
def drift (q : M.State → G) (t : M.Tid) (hist : List M.Event) : G :=
  ((opsSince t hist).map (change q)).sum

section Drift

variable {q : M.State → G} {t u : M.Tid} {hist : List M.Event} {o : S.Op} {r : S.Ret o}
  {pre post : M.State}

@[simp] theorem drift_nil : drift q t [] = 0 := rfl

theorem drift_start_self {a : M.Act} : drift q (M.tidOf a) (.start a :: hist) = 0 := by
  rw [drift, opsSince_start_self]
  rfl

theorem drift_start_of_ne {a : M.Act} (hne : M.tidOf a ≠ t) :
    drift q t (.start a :: hist) = drift q t hist := by
  rw [drift, opsSince_start_of_ne hne, drift]

theorem drift_exec_self :
    drift q t (.exec t o r pre post :: hist) = q post - q pre + drift q t hist := by
  rw [drift, opsSince_exec_self, List.map_cons, List.sum_cons]
  rfl

theorem drift_exec_of_ne (hne : u ≠ t) :
    drift q t (.exec u o r pre post :: hist) = drift q t hist := by
  rw [drift, opsSince_exec_of_ne hne, drift]

end Drift

/-- The quantity is what the current passes of the given threads have made of it. -/
def Balanced (q : M.State → G) (threads : Finset M.Tid) (w : M.World) : Prop :=
  q w.st = ∑ t ∈ threads, drift q t w.hist

namespace Balanced

variable {q : M.State → G} {threads : Finset M.Tid} {w : M.World}

theorem begin (h : Balanced q threads w) {a : M.Act}
    (hidle : M.tidOf a ∈ threads → drift q (M.tidOf a) w.hist = 0) :
    Balanced q threads (w.begin a) := by
  unfold Balanced at h ⊢
  rw [World.begin_st, h]
  refine Finset.sum_congr rfl fun t ht => ?_
  by_cases hta : M.tidOf a = t
  · subst hta
    rw [hidle ht, World.begin_hist, drift_start_self]
  · rw [World.begin_hist, drift_start_of_ne hta]

theorem after (h : Balanced q threads w) {u : M.Tid} (hu : u ∈ threads) (o : S.Op) (r : S.Ret o)
    (st : M.State) : Balanced q threads (w.after u o r st) := by
  unfold Balanced at h ⊢
  have hdrift : ∀ t, drift q t (w.after u o r st).hist =
      drift q t w.hist + if t = u then q st - q w.st else 0 := by
    intro t
    by_cases htu : t = u
    · subst htu
      rw [World.after_hist, drift_exec_self, if_pos rfl, add_comm]
    · rw [World.after_hist, drift_exec_of_ne (Ne.symm htu), if_neg htu, add_zero]
  rw [Finset.sum_congr rfl fun t _ => hdrift t, Finset.sum_add_distrib,
    Finset.sum_ite_eq' threads u, if_pos hu, ← h, World.after_st, add_sub_cancel]

theorem after_of_eq (h : Balanced q threads w) {u : M.Tid} (hu : u ∉ threads) {o : S.Op}
    {r : S.Ret o} {st : M.State} (hst : q st = q w.st) : Balanced q threads (w.after u o r st) := by
  unfold Balanced at h ⊢
  rw [World.after_st, hst, h]
  refine Finset.sum_congr rfl fun t ht => ?_
  have hne : u ≠ t := by
    rintro rfl
    exact hu ht
  rw [World.after_hist, drift_exec_of_ne hne]

theorem eq_zero (h : Balanced q threads w) (hidle : ∀ t ∈ threads, drift q t w.hist = 0) :
    q w.st = 0 :=
  h.trans (Finset.sum_eq_zero hidle)

end Balanced

end System

/-- The others do not change what a thread has changed. -/
theorem Contract.Stable.drift {S : Signature} {M : System S} [DecidableEq M.Tid] {G : Type}
    [AddCommGroup G] {C : Contract M} {t : M.Tid} {q : M.State → G} {x : G} :
    C.Stable t fun w => System.drift q t w.hist = x :=
  Contract.Stable.opsSince fun ops => (ops.map (System.change q)).sum = x

end Conc
