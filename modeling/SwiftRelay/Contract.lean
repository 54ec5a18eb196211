/-
**Rely and guarantee for interleaved programs.**

A *contract* for a system names an invariant of the worlds, the operations that occur in the
programs of each thread at all, and for each operation a condition under which it is permitted.
What the other threads may do meanwhile is then determined: any of their operations where its
condition holds.  A thread may *rely* on that, and its program is correct if it meets the condition
of each of its operations whatever the others did in between.

`Conc.Contract.Sound` collects what has to be shown: that permitted operations keep the invariant,
and that each program is correct by itself.  The theorem is that in every run the invariant holds
and every operation performed was permitted.

Main definitions:

* `Conc.Contract`, `Conc.Contract.Sound` — a contract and its proof obligations;
* `Conc.Contract.Env`, `Conc.Contract.Rely`, `Conc.Contract.Stable` — the steps of the other
  threads, and what they leave true;
* `Conc.Contract.wp` — correctness of a program from a world on;
* `Conc.Contract.Extends` — a contract that may assume another one.

Main results:

* `Conc.Contract.Stable.of_exec`, `Conc.Contract.Stable.of_hist` — how an assertion is shown stable;
* `Conc.Contract.wp_seq`, `Conc.Contract.wp_op`, `Conc.Contract.wp_of_uses`,
  `Conc.Contract.wp_of_permitted`, `Conc.Contract.wp_of_ends`, `Conc.Contract.wp_forM` — the rules
  by which programs are verified;
* `Conc.Contract.Sound.run` — invariant and correctness of all threads along a run;
* `Conc.Contract.Sound.pre_of_step` — every operation performed in a run was permitted;
* `Conc.Contract.Sound.run_allowed`, `Conc.Contract.Extends.stable` — what a sound contract
  guarantees may be assumed by another one.
-/

import SwiftRelay.Interleaving

set_option autoImplicit false

namespace Conc

variable {S : Signature}

/-- An assumption about the steps of the run, an invariant, the operations that a thread uses, the
condition under which it may perform one of them, and what it has established when it is idle. -/
structure Contract (M : System S) where
  cond : M.World → M.Event → Prop
  inv : M.World → Prop
  may : M.Tid → S.Op → Prop
  pre : M.Tid → S.Op → M.World → Prop
  post : M.Tid → M.World → Prop

namespace Contract

variable {M : System S} (C : Contract M) {α β : Type}

/-- A step of a thread other than `t`. -/
inductive Env (t : M.Tid) : M.World → M.World → Prop
  | start (w : M.World) (a : M.Act) (hne : M.tidOf a ≠ t) (hinv : C.inv w)
      (hcond : C.cond w (.start a)) : Env t w (w.begin a)
  | exec (w : M.World) (u : M.Tid) (o : S.Op) (r : S.Ret o) (st : M.State) (hne : u ≠ t)
      (hinv : C.inv w) (hmay : C.may u o) (hpre : C.pre u o w)
      (hexec : M.exec u o w.st = some (r, st)) (hcond : C.cond w (.exec u o r w.st st)) :
      Env t w (w.after u o r st)

/-- Any number of steps of threads other than `t`. -/
def Rely (t : M.Tid) : M.World → M.World → Prop := Relation.ReflTransGen (C.Env t)

/-- The threads other than `t` do not invalidate `P`. -/
def Stable (t : M.Tid) (P : M.World → Prop) : Prop := ∀ w w', C.Env t w w' → P w → P w'

/-- A step that the contract permits: the thread activated has established what an idle thread has
to, the operation performed is permitted. -/
def Allows (w : M.World) : M.Event → Prop
  | .start a => C.post (M.tidOf a) w
  | .exec t o _ _ _ => C.may t o ∧ C.pre t o w

/-- Thread `t` may run the program from the world `w` on: each operation is permitted when it is
performed, whatever the other threads do before, and the result satisfies `Q`. -/
def wp (t : M.Tid) : Prog S α → (α → M.World → Prop) → M.World → Prop
  | .ret a, Q, w => Q a w
  | .op o k, Q, w =>
      ∀ w', C.Rely t w w' → C.inv w' →
        C.pre t o w' ∧
        ∀ r st, M.exec t o w'.st = some (r, st) → C.cond w' (.exec t o r w'.st st) →
          wp t (k r) Q (w'.after t o r st)

variable {C} {t : M.Tid}

/-! ### Stable assertions -/

variable {P : M.World → Prop} {w w' : M.World} {Q : α → M.World → Prop} {p : Prog S α}

theorem Stable.rely (hP : C.Stable t P) (h : C.Rely t w w') (hw : P w) : P w' := by
  induction h with
  | refl => exact hw
  | tail _ hstep ih => exact hP _ _ hstep ih

theorem Stable.true : C.Stable t fun _ => True := fun _ _ _ _ => trivial

theorem Stable.and {Q : M.World → Prop} (hP : C.Stable t P) (hQ : C.Stable t Q) :
    C.Stable t fun w => P w ∧ Q w :=
  fun w w' hstep hw => ⟨hP w w' hstep hw.1, hQ w w' hstep hw.2⟩

theorem Stable.or {Q : M.World → Prop} (hP : C.Stable t P) (hQ : C.Stable t Q) :
    C.Stable t fun w => P w ∨ Q w :=
  fun w w' hstep hw => hw.imp (hP w w' hstep) (hQ w w' hstep)

theorem Stable.imp {q : Prop} (hP : q → C.Stable t P) : C.Stable t fun w => q → P w :=
  fun w w' hstep hw hq => hP hq w w' hstep (hw hq)

theorem Stable.const {q : Prop} : C.Stable t fun _ => q := fun _ _ _ hw => hw

/-- The others do not change what the thread is busy with. -/
theorem Stable.lastAct [DecidableEq M.Tid] (φ : Option M.Act → Prop) :
    C.Stable t fun w => φ (System.lastAct t w.hist) := by
  intro w w' hstep hw
  cases hstep with
  | start a hne => simpa only [System.World.begin_hist, System.lastAct_start_of_ne hne] using hw
  | exec u o r st hne => simpa only [System.World.after_hist, System.lastAct_exec] using hw

/-- The others do not change what the thread has done. -/
theorem Stable.opsSince [DecidableEq M.Tid] (φ : List M.Event → Prop) :
    C.Stable t fun w => φ (System.opsSince t w.hist) := by
  intro w w' hstep hw
  cases hstep with
  | start a hne => simpa only [System.World.begin_hist, System.opsSince_start_of_ne hne] using hw
  | exec u o r st hne =>
      simpa only [System.World.after_hist, System.opsSince_exec_of_ne hne] using hw

/-- The others do not change what the thread did last. -/
theorem Stable.lastOp [DecidableEq M.Tid] (φ : Option S.Op → Prop) :
    C.Stable t fun w => φ (System.lastOp t w.hist) := by
  intro w w' hstep hw
  cases hstep with
  | start a hne => simpa only [System.World.begin_hist, System.lastOp_start] using hw
  | exec u o r st hne =>
      simpa only [System.World.after_hist, System.lastOp_exec_of_ne hne] using hw

/-- The others do not change what the thread was answered last. -/
theorem Stable.lastAnswer [DecidableEq M.Tid] (φ : Option (Σ o : S.Op, S.Ret o) → Prop) :
    C.Stable t fun w => φ (System.lastAnswer t w.hist) := by
  intro w w' hstep hw
  cases hstep with
  | start a hne => simpa only [System.World.begin_hist, System.lastAnswer_start] using hw
  | exec u o r st hne =>
      simpa only [System.World.after_hist, System.lastAnswer_exec_of_ne hne] using hw

/-- An assertion that no activation and no operation of the others invalidates. -/
theorem Stable.of_exec (hstart : ∀ w a, P w → P (w.begin a))
    (hexec : ∀ w u o r st, u ≠ t → C.inv w → C.may u o → C.pre u o w →
      M.exec u o w.st = some (r, st) → C.cond w (.exec u o r w.st st) → P w →
      P (w.after u o r st)) : C.Stable t P := by
  intro w w' hstep hw
  cases hstep with
  | start a => exact hstart w a hw
  | exec u o r st hne hinv hmay hpre h hcond =>
      exact hexec w u o r st hne hinv hmay hpre h hcond hw

/-- An assertion about the history that stays true as the history grows. -/
theorem Stable.of_hist {P : List M.Event → Prop} (hP : ∀ e hist, P hist → P (e :: hist)) :
    C.Stable t fun w => P w.hist := by
  intro w w' hstep hw
  cases hstep with
  | start => exact hP _ _ hw
  | exec => exact hP _ _ hw

/-! ### Rules for programs -/

@[simp] theorem wp_ret {a : α} :
    C.wp t (.ret a) Q w ↔ Q a w := Iff.rfl

/-- To verify an operation, carry a stable assertion up to it. -/
theorem wp_op {o : S.Op} {k : S.Ret o → Prog S α} (P : M.World → Prop) (hP : C.Stable t P)
    (hw : P w) (hpre : ∀ w', C.inv w' → P w' → C.pre t o w')
    (hnext : ∀ w' r st, C.inv w' → P w' → M.exec t o w'.st = some (r, st) →
      C.cond w' (.exec t o r w'.st st) → C.wp t (k r) Q (w'.after t o r st)) :
    C.wp t (.op o k) Q w := by
  intro w' hrely hinv
  have hw' := hP.rely hrely hw
  exact ⟨hpre w' hinv hw', fun r st hexec hcond => hnext w' r st hinv hw' hexec hcond⟩

theorem wp_mono {Q' : α → M.World → Prop} (h : C.wp t p Q w) (hQ : ∀ a w, Q a w → Q' a w) :
    C.wp t p Q' w := by
  induction p generalizing w with
  | ret a => exact hQ a w h
  | op o k ih =>
      intro w' hrely hinv
      obtain ⟨hpre, hnext⟩ := h w' hrely hinv
      exact ⟨hpre, fun r st hexec hcond => ih r (hnext r st hexec hcond)⟩

theorem wp_bind {f : α → Prog S β} {Q : β → M.World → Prop} :
    C.wp t (p >>= f) Q w ↔ C.wp t p (fun a w => C.wp t (f a) Q w) w := by
  induction p generalizing w with
  | ret a => rfl
  | op o k ih =>
      constructor
      · intro h w' hrely hinv
        obtain ⟨hpre, hnext⟩ := h w' hrely hinv
        exact ⟨hpre, fun r st hexec hcond => (ih r).1 (hnext r st hexec hcond)⟩
      · intro h w' hrely hinv
        obtain ⟨hpre, hnext⟩ := h w' hrely hinv
        exact ⟨hpre, fun r st hexec hcond => (ih r).2 (hnext r st hexec hcond)⟩

theorem wp_seq {f : α → Prog S β} {R : α → M.World → Prop} {Q : β → M.World → Prop}
    (hp : C.wp t p R w) (hf : ∀ a w, R a w → C.wp t (f a) Q w) : C.wp t (p >>= f) Q w :=
  wp_bind.2 (wp_mono hp hf)

/-- A program whose operations are all permitted and all keep the assertion `P`. -/
theorem wp_of_uses {φ : S.Op → Prop} (hp : p.Uses φ) (P : M.World → Prop) (hP : C.Stable t P)
    (hstep : ∀ o, φ o → ∀ w, C.inv w → P w → C.pre t o w ∧
      ∀ r st, M.exec t o w.st = some (r, st) → C.cond w (.exec t o r w.st st) →
        P (w.after t o r st)) (hw : P w) : C.wp t p (fun _ w => P w) w := by
  induction p generalizing w with
  | ret a => exact hw
  | op o k ih =>
      intro w' hrely hinv
      obtain ⟨hpre, hnext⟩ := hstep o hp.1 w' hinv (hP.rely hrely hw)
      exact ⟨hpre, fun r st hexec hcond => ih r (hp.2 r) (hnext r st hexec hcond)⟩

/-- A program whose operations are all permitted anyway. -/
theorem wp_of_permitted (hp : p.Uses fun o => ∀ w, C.inv w → C.pre t o w) :
    C.wp t p (fun _ _ => True) w :=
  wp_of_uses hp (fun _ => True) .true (fun _ ho w hinv _ => ⟨ho w hinv, fun _ _ _ _ => trivial⟩)
    trivial

/-- A program whose operations are all permitted and keep the assertion `P`, up to one of some
programs that are correct where `P` holds. -/
theorem wp_of_ends {φ : S.Op → Prop} {B : Prog S α → Prop} (hp : p.Ends φ B) (P : M.World → Prop)
    (hP : C.Stable t P) (hstep : ∀ o, φ o → ∀ w, C.inv w → P w → C.pre t o w ∧
      ∀ r st, M.exec t o w.st = some (r, st) → C.cond w (.exec t o r w.st st) →
        P (w.after t o r st)) (hQ : ∀ a w, P w → Q a w) (hB : ∀ p, B p → ∀ w, P w → C.wp t p Q w)
    (hw : P w) : C.wp t p Q w := by
  induction p generalizing w with
  | ret a => exact hQ a w hw
  | op o k ih =>
      obtain hend | ⟨ho, hrest⟩ := hp
      · exact hB _ hend w hw
      · intro w' hrely hinv
        obtain ⟨hpre, hnext⟩ := hstep o ho w' hinv (hP.rely hrely hw)
        exact ⟨hpre, fun r st hexec hcond => ih r (hrest r) (hnext r st hexec hcond)⟩

/-- A loop over a list, with an assertion about what is left of it. -/
theorem wp_forM {γ : Type} {f : γ → Prog S PUnit} (P : List γ → M.World → Prop)
    (hstep : ∀ x l w, P (x :: l) w → C.wp t (f x) (fun _ w => P l w) w) {l : List γ} (hw : P l w) :
    C.wp t (l.forM f) (fun _ w => P [] w) w := by
  induction l generalizing w with
  | nil => exact hw
  | cons x l ih =>
      change C.wp t (f x >>= fun _ => l.forM f) _ w
      exact wp_bind.2 (wp_mono (hstep x l w hw) fun _ w hw => ih hw)

/-- What a thread has still to do stays correct while the others take steps. -/
theorem wp_rely (hQ : ∀ a, C.Stable t (Q a)) (h : C.wp t p Q w) (hrely : C.Rely t w w') :
    C.wp t p Q w' := by
  cases p with
  | ret a => exact (hQ a).rely hrely h
  | op o k => exact fun w'' hrely' hinv => h w'' (hrely.trans hrely') hinv

/-! ### Soundness -/

/-- What has to be shown of a contract. -/
structure Sound (C : Contract M) : Prop where
  /-- Activations keep the invariant. -/
  start_inv : ∀ w a, C.inv w → C.post (M.tidOf a) w → C.cond w (.start a) → C.inv (w.begin a)
  /-- Permitted operations keep the invariant. -/
  exec_inv : ∀ w t o r st, C.inv w → C.may t o → C.pre t o w → M.exec t o w.st = some (r, st) →
    C.cond w (.exec t o r w.st st) → C.inv (w.after t o r st)
  /-- What an idle thread has established is not invalidated by the others. -/
  post_stable : ∀ t, C.Stable t (C.post t)
  /-- The programs of a thread keep to its operations. -/
  prog_may : ∀ a, (M.prog a).Uses (C.may (M.tidOf a))
  /-- Each program is correct. -/
  prog_wp : ∀ w a, C.inv w → C.post (M.tidOf a) w → C.cond w (.start a) →
    C.wp (M.tidOf a) (M.prog a) (fun _ => C.post (M.tidOf a)) (w.begin a)

namespace Sound

/-- The invariant holds, and every thread runs a correct program of its operations. -/
def Good (C : Contract M) (c : M.Config) : Prop :=
  C.inv c.toWorld ∧ ∀ t, (c.ctl t).Uses (C.may t) ∧ C.wp t (c.ctl t) (fun _ => C.post t) c.toWorld

theorem good_initial {s : M.State} (hinv : C.inv ⟨s, []⟩) (hpost : ∀ t, C.post t ⟨s, []⟩) :
    Good C (M.initial s) :=
  ⟨hinv, fun t => ⟨trivial, hpost t⟩⟩

variable {c : M.Config}

theorem post_of_idle (hc : Good C c) {t : M.Tid} (hidle : c.ctl t = .ret ()) :
    C.post t c.toWorld := by
  have ht := (hc.2 t).2
  rw [hidle] at ht
  exact ht

/-- The next operation of a thread is one of its operations and is permitted. -/
theorem pre_of_next (hc : Good C c) {t : M.Tid} {o : S.Op} {k : S.Ret o → Prog S Unit}
    (hctl : c.ctl t = .op o k) : C.may t o ∧ C.pre t o c.toWorld := by
  have ht := hc.2 t
  rw [hctl] at ht
  exact ⟨ht.1.1, (ht.2 _ Relation.ReflTransGen.refl hc.1).1⟩

variable [DecidableEq M.Tid] {c' : M.Config}

theorem good_step (hC : C.Sound) {e : M.Event} (hcond : C.cond c.toWorld e) (hstep : M.Step c e c')
    (hc : Good C c) : Good C c' := by
  obtain ⟨hinv, hthreads⟩ := hc
  cases hstep with
  | start a hidle =>
      have hpost := post_of_idle ⟨hinv, hthreads⟩ hidle
      refine ⟨hC.start_inv _ a hinv hpost hcond, fun u => ?_⟩
      by_cases hu : u = M.tidOf a
      · subst hu
        simpa only [Function.update_self] using ⟨hC.prog_may a, hC.prog_wp _ a hinv hpost hcond⟩
      · have henv : C.Env u c.toWorld (c.toWorld.begin a) := .start _ a (Ne.symm hu) hinv hcond
        simpa only [Function.update_of_ne hu] using
          ⟨(hthreads u).1, wp_rely (fun _ => hC.post_stable u) (hthreads u).2
            (Relation.ReflTransGen.single henv)⟩
  | exec t o k r st hctl hexec =>
      have ht := hthreads t
      rw [hctl] at ht
      obtain ⟨⟨hmay, huses⟩, hwp⟩ := ht
      obtain ⟨hpre, hnext⟩ := hwp _ Relation.ReflTransGen.refl hinv
      refine ⟨hC.exec_inv _ t o r st hinv hmay hpre hexec hcond, fun u => ?_⟩
      by_cases hu : u = t
      · subst hu
        simpa only [Function.update_self] using ⟨huses r, hnext r st hexec hcond⟩
      · have henv : C.Env u c.toWorld (c.toWorld.after t o r st) :=
          .exec _ t o r st (Ne.symm hu) hinv hmay hpre hexec hcond
        simpa only [Function.update_of_ne hu] using
          ⟨(hthreads u).1, wp_rely (fun _ => hC.post_stable u) (hthreads u).2
            (Relation.ReflTransGen.single henv)⟩

/-- Invariant and correctness of all threads hold along every run. -/
theorem run (hC : C.Sound) (h : M.Run C.cond c c') (hc : Good C c) : Good C c' := by
  induction h with
  | refl => exact hc
  | tail _ hstep ih =>
      obtain ⟨e, hcond, hstep⟩ := hstep
      exact hC.good_step hcond hstep ih

/-- Every operation performed is one of its thread and was permitted. -/
theorem pre_of_step (hc : Good C c) {t : M.Tid} {o : S.Op} {r : S.Ret o} {pre post : M.State}
    (hstep : M.Step c (.exec t o r pre post) c') : C.may t o ∧ C.pre t o c.toWorld := by
  cases hstep with
  | exec _ _ k _ _ hctl hexec => exact pre_of_next hc hctl

/-- Along a run, the invariant holds before every step and the step is permitted. -/
theorem run_allowed (hC : C.Sound) {cond : M.World → M.Event → Prop}
    (hcond : ∀ w e, cond w e → C.cond w e) (h : M.Run cond c c') (hc : Good C c) :
    M.Run (fun w e => cond w e ∧ C.cond w e ∧ C.inv w ∧ C.Allows w e) c c' := by
  induction h with
  | refl => exact Relation.ReflTransGen.refl
  | @tail d d' hrun hstep ih =>
      obtain ⟨e, he, hstep⟩ := hstep
      have hgood := hC.run (System.Run.mono hcond hrun) hc
      refine ih.tail ⟨e, ⟨he, hcond _ e he, hgood.1, ?_⟩, hstep⟩
      cases e with
      | start a =>
          cases hstep with
          | start _ hidle => exact post_of_idle hgood hidle
      | exec t o r pre post => exact pre_of_step hgood hstep

end Sound

/-! ### Contracts on top of contracts -/

/-- The steps of the contract `D` are assumed to be permitted by the contract `C`, in worlds where
the invariant of `C` holds. -/
def Extends (D C : Contract M) : Prop :=
  ∀ w e, D.cond w e → C.cond w e ∧ C.inv w ∧ C.Allows w e

theorem Extends.env {D : Contract M} (h : D.Extends C) (hstep : D.Env t w w') : C.Env t w w' := by
  cases hstep with
  | start a hne hinv hcond =>
      obtain ⟨hcond', hinv', -⟩ := h _ _ hcond
      exact .start _ a hne hinv' hcond'
  | exec u o r st hne hinv hmay hpre hexec hcond =>
      obtain ⟨hcond', hinv', hmay', hpre'⟩ := h _ _ hcond
      exact .exec _ u o r st hne hinv' hmay' hpre' hexec hcond'

/-- What is stable under `C` is stable under `D`. -/
theorem Extends.stable {D : Contract M} (h : D.Extends C) (hP : C.Stable t P) : D.Stable t P :=
  fun w w' hstep hw => hP w w' (h.env hstep) hw

end Contract

end Conc
