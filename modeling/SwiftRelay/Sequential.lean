/-
**Passes one after another.**

A system in which each activation runs to its end before the next one begins is the sequential
reading of the same programs.  Its steps are whole passes, and what a pass does is proved with rules
for the parts of its program, without anything that the other threads could do in between.

Main definitions:

* `Conc.Prog.Ensures` — what holds when a program has run alone;
* `Conc.Prog.Achieves` — the same for a program that is not blocked;
* `Conc.System.Pass`, `Conc.System.Sequence` — a whole pass, and passes one after another.

Main results:

* `Conc.Prog.ensures_op`, `Conc.Prog.ensures_bind`, `Conc.Prog.ensures_of_uses`,
  `Conc.Prog.ensures_forM` — the rules for what holds in the end;
* `Conc.Prog.achieves_op`, `Conc.Prog.achieves_bind`, `Conc.Prog.achieves_of_uses`,
  `Conc.Prog.achieves_forM` — the rules for what is achieved;
* `Conc.System.Sequence.invariant` — what every pass keeps holds after any number of them;
* `Conc.System.Sequence.steps` — a sequence of passes is one of the interleavings.
-/

import SwiftRelay.Interleaving

set_option autoImplicit false

namespace Conc

variable {S : Signature} {M : System S} {t : M.Tid} {α β : Type}

namespace Prog

variable (M t) in
/-- If thread `t` runs the program alone from state `s` on, the result satisfies `Q`. -/
def Ensures (p : Prog S α) (Q : α → M.State → Prop) (s : M.State) : Prop :=
  ∀ a s', p.run M t s = some (a, s') → Q a s'

variable {Q : α → M.State → Prop} {s : M.State}

theorem ensures_ret {a : α} (h : Q a s) : (Prog.ret a : Prog S α).Ensures M t Q s := by
  intro a' s' hrun
  cases hrun
  exact h

theorem ensures_op {o : S.Op} {k : S.Ret o → Prog S α}
    (h : ∀ r s', M.exec t o s = some (r, s') → (k r).Ensures M t Q s') :
    (Prog.op o k).Ensures M t Q s := by
  intro a s' hrun
  obtain ⟨⟨r, s₁⟩, hexec, hrest⟩ := Option.bind_eq_some_iff.1 hrun
  exact h r s₁ hexec a s' hrest

theorem ensures_bind {p : Prog S β} {f : β → Prog S α}
    (h : p.Ensures M t (fun b s => (f b).Ensures M t Q s) s) : (p >>= f).Ensures M t Q s := by
  intro a s' hrun
  rw [run_bind] at hrun
  obtain ⟨⟨b, s₁⟩, hp, hrest⟩ := Option.bind_eq_some_iff.1 hrun
  exact h b s₁ hp a s' hrest

variable {p : Prog S α}

theorem Ensures.mono {Q' : α → M.State → Prop} (h : p.Ensures M t Q s)
    (hQ : ∀ a s, Q a s → Q' a s) : p.Ensures M t Q' s :=
  fun a s' hrun => hQ a s' (h a s' hrun)

/-- A program whose operations all keep `P`. -/
theorem ensures_of_uses {φ : S.Op → Prop} (hp : p.Uses φ) (P : M.State → Prop)
    (hstep : ∀ o, φ o → ∀ r s s', M.exec t o s = some (r, s') → P s → P s') {s : M.State}
    (hs : P s) : p.Ensures M t (fun _ s => P s) s := by
  induction p generalizing s with
  | ret a => exact ensures_ret hs
  | op o k ih => exact ensures_op fun r s' hexec => ih r (hp.2 r) (hstep o hp.1 r s s' hexec hs)

/-- A program whose operations all keep `P`, up to one of some programs that are correct where `P`
holds. -/
theorem ensures_of_ends {φ : S.Op → Prop} {B : Prog S α → Prop} (hp : p.Ends φ B)
    (P : M.State → Prop)
    (hstep : ∀ o, φ o → ∀ r s s', M.exec t o s = some (r, s') → P s → P s')
    (hQ : ∀ a s, P s → Q a s) (hB : ∀ p, B p → ∀ s, P s → p.Ensures M t Q s) {s : M.State}
    (hs : P s) : p.Ensures M t Q s := by
  induction p generalizing s with
  | ret a => exact ensures_ret (hQ a s hs)
  | op o k ih =>
      obtain hend | ⟨ho, hrest⟩ := hp
      · exact hB _ hend s hs
      · exact ensures_op fun r s' hexec => ih r (hrest r) (hstep o ho r s s' hexec hs)

/-- A loop over a list, with an assertion about what is left of it. -/
theorem ensures_forM {γ : Type} {f : γ → Prog S PUnit} (P : List γ → M.State → Prop)
    (hstep : ∀ x l s, P (x :: l) s → (f x).Ensures M t (fun _ s => P l s) s) {l : List γ}
    {s : M.State} (hs : P l s) : (l.forM f).Ensures M t (fun _ s => P [] s) s := by
  induction l generalizing s with
  | nil => exact ensures_ret hs
  | cons x l ih =>
      change (f x >>= fun _ => l.forM f).Ensures M t _ s
      exact ensures_bind ((hstep x l s hs).mono fun _ s hs => ih hs)

/-! ### Programs that are not blocked -/

variable (M t) in
/-- Thread `t` can run the program alone from state `s` on, and the result satisfies `Q`. -/
def Achieves (p : Prog S α) (Q : α → M.State → Prop) (s : M.State) : Prop :=
  ∃ a s', p.run M t s = some (a, s') ∧ Q a s'

theorem achieves_ret {a : α} (h : Q a s) : (Prog.ret a : Prog S α).Achieves M t Q s :=
  ⟨a, s, rfl, h⟩

theorem achieves_op {o : S.Op} {k : S.Ret o → Prog S α}
    (h : ∃ r s', M.exec t o s = some (r, s') ∧ (k r).Achieves M t Q s') :
    (Prog.op o k).Achieves M t Q s := by
  obtain ⟨r, s₁, hexec, a, s', hrun, hQ⟩ := h
  exact ⟨a, s', by rw [run_op, hexec]; exact hrun, hQ⟩

theorem Achieves.mono {Q' : α → M.State → Prop} (h : p.Achieves M t Q s)
    (hQ : ∀ a s, Q a s → Q' a s) : p.Achieves M t Q' s := by
  obtain ⟨a, s', hrun, ha⟩ := h
  exact ⟨a, s', hrun, hQ a s' ha⟩

theorem achieves_bind {p : Prog S β} {f : β → Prog S α}
    (h : p.Achieves M t (fun b s => (f b).Achieves M t Q s) s) : (p >>= f).Achieves M t Q s := by
  obtain ⟨b, s₁, hp, a, s', hrun, hQ⟩ := h
  exact ⟨a, s', by rw [run_bind, hp]; exact hrun, hQ⟩

theorem achieves_ite {c : Prop} [Decidable c] {q : Prog S α} (hp : c → p.Achieves M t Q s)
    (hq : ¬c → q.Achieves M t Q s) : (if c then p else q).Achieves M t Q s := by
  split
  · next h => exact hp h
  · next h => exact hq h

/-- A program whose operations are not blocked where `P` holds, and keep it. -/
theorem achieves_of_uses {φ : S.Op → Prop} (hp : p.Uses φ) (P : M.State → Prop)
    (hstep : ∀ o, φ o → ∀ s, P s → ∃ r s', M.exec t o s = some (r, s') ∧ P s') {s : M.State}
    (hs : P s) : p.Achieves M t (fun _ s => P s) s := by
  induction p generalizing s with
  | ret a => exact achieves_ret hs
  | op o k ih =>
      obtain ⟨r, s', hexec, hs'⟩ := hstep o hp.1 s hs
      exact achieves_op ⟨r, s', hexec, ih r (hp.2 r) hs'⟩

/-- A loop over a list, with an assertion about what is left of it. -/
theorem achieves_forM {γ : Type} {f : γ → Prog S PUnit} (P : List γ → M.State → Prop)
    (hstep : ∀ x l s, P (x :: l) s → (f x).Achieves M t (fun _ s => P l s) s) {l : List γ}
    {s : M.State} (hs : P l s) : (l.forM f).Achieves M t (fun _ s => P [] s) s := by
  induction l generalizing s with
  | nil => exact achieves_ret hs
  | cons x l ih =>
      change (f x >>= fun _ => l.forM f).Achieves M t _ s
      exact achieves_bind ((hstep x l s hs).mono fun _ s hs => ih hs)

end Prog

namespace System

variable (M) in
/-- The activation `a` takes the state `s` to the state `s'`. -/
def Pass (a : M.Act) (s s' : M.State) : Prop := (M.prog a).run M (M.tidOf a) s = some ((), s')

variable (M) in
/-- Passes one after another that all meet a condition on the state before the pass. -/
def Sequence (cond : M.State → M.Act → Prop) : M.State → M.State → Prop :=
  Relation.ReflTransGen fun s s' => ∃ a, cond s a ∧ M.Pass a s s'

variable {cond : M.State → M.Act → Prop} {s s' : M.State}

theorem Sequence.invariant {P : M.State → Prop}
    (hpass : ∀ a s, cond s a → P s → (M.prog a).Ensures M (M.tidOf a) (fun _ s' => P s') s)
    (h : M.Sequence cond s s') (hs : P s) : P s' := by
  induction h with
  | refl => exact hs
  | tail _ hstep ih =>
      obtain ⟨a, hcond, hrun⟩ := hstep
      exact hpass a _ hcond ih () _ hrun

variable [DecidableEq M.Tid]

theorem steps_of_run {p : Prog S Unit} {c : M.Config} (hctl : c.ctl t = p)
    (hrun : p.run M t c.st = some ((), s')) :
    ∃ c', M.Steps c c' ∧ c'.st = s' ∧ c'.ctl = Function.update c.ctl t (.ret ()) := by
  induction p generalizing c with
  | ret a =>
      cases hrun
      refine ⟨c, Relation.ReflTransGen.refl, rfl, ?_⟩
      rw [← hctl, Function.update_eq_self]
  | op o k ih =>
      obtain ⟨⟨r, st⟩, hexec, hrest⟩ := Option.bind_eq_some_iff.1 hrun
      obtain ⟨c', hsteps, hst, hctl'⟩ :=
        ih r (c := ⟨c.toWorld.after t o r st, Function.update c.ctl t (k r)⟩)
          (Function.update_self ..) hrest
      refine ⟨c', hsteps.head ⟨_, trivial, .exec c t o k r st hctl hexec⟩, hst, ?_⟩
      rw [hctl', Function.update_idem]

/-- Passes one after another are one of the interleavings of the threads. -/
theorem Sequence.steps (h : M.Sequence cond s s') :
    ∃ c, M.Steps (M.initial s) c ∧ c.st = s' ∧ ∀ t, c.ctl t = .ret () := by
  induction h with
  | refl => exact ⟨_, Relation.ReflTransGen.refl, rfl, fun _ => rfl⟩
  | tail _ hstep ih =>
      obtain ⟨c, hsteps, rfl, hidle⟩ := ih
      obtain ⟨a, -, hrun⟩ := hstep
      obtain ⟨c', hsteps', hst, hctl⟩ := steps_of_run (t := M.tidOf a)
        (c := ⟨c.toWorld.begin a, Function.update c.ctl (M.tidOf a) (M.prog a)⟩)
        (Function.update_self ..) hrun
      refine ⟨c', hsteps.trans (hsteps'.head ⟨_, trivial, .start c a (hidle _)⟩), hst, fun t => ?_⟩
      rw [hctl]
      by_cases ht : t = M.tidOf a
      · rw [ht, Function.update_self]
      · rw [Function.update_of_ne ht]
        exact (Function.update_of_ne ht ..).trans (hidle t)

end System

end Conc
