/-
**Programs of atomic operations.**

Concurrent code is a set of threads that perform atomic operations on a shared state: one access to
a concurrent map, one send on a channel, one read of a clock.  A *program* is the tree of the
operations that one activation of a thread performs, each followed by a program that depends on the
answer.  Programs form a monad, so code is written down in its own order with `do`.

A *system* says what the operations do.  The answer to an operation and the next state are a
function of the state and the thread; an operation without an answer is blocked, as is an access to
a map of which another thread holds a guard.  Everything outside the modelled state, such as a clock
or the outcome of a system call, is part of the activation.

Main definitions:

* `Conc.Signature`, `Conc.Prog` — operations with their answers, and programs over them;
* `Conc.System` — the state, the threads, the activations and the meaning of the operations;
* `Conc.Prog.run` — a program that runs alone;
* `Conc.Prog.Uses` — which operations occur in a program;
* `Conc.Prog.Ends` — which operations occur before a program comes to one of some last parts.

Main results:

* `Conc.System.of_guarded` — an operation that waits;
* `Conc.Prog.bind_bind`, `Conc.Prog.ite_bind` — composing programs;
* `Conc.Prog.run_bind` — running a composed program;
* `Conc.Prog.uses_bind`, `Conc.Prog.Uses.ite`, `Conc.Prog.Uses.mono` — the operations of a composed
  program;
* `Conc.Prog.ends_bind`, `Conc.Prog.Ends.ite` — the last parts of a composed program.
-/

import Mathlib.Tactic.Common

set_option autoImplicit false

namespace Conc

/-- Atomic operations and the type of the answer to each. -/
structure Signature where
  Op : Type
  Ret : Op → Type

/-- A result, or an operation followed by a program that depends on the answer. -/
inductive Prog (S : Signature) (α : Type)
  | ret (a : α)
  | op (o : S.Op) (k : S.Ret o → Prog S α)

/-- The meaning of the operations on a shared state, the threads that perform them, and the
activations of the threads with their programs. -/
structure System (S : Signature) where
  State : Type
  Tid : Type
  Act : Type
  exec : Tid → (o : S.Op) → State → Option (S.Ret o × State)
  tidOf : Act → Tid
  prog : Act → Prog S Unit

theorem System.of_guarded {ρ σ : Type} {c : Prop} [Decidable c] {r r' : ρ} {s s' : σ}
    (h : (if c then some (r, s) else none) = some (r', s')) : c ∧ r' = r ∧ s' = s := by
  obtain ⟨hc, h⟩ := Option.ite_none_right_eq_some.1 h
  cases h
  exact ⟨hc, rfl, rfl⟩

variable {S : Signature} {α β : Type}

namespace Prog

@[simp] def bind : Prog S α → (α → Prog S β) → Prog S β
  | .ret a, f => f a
  | .op o k, f => .op o fun r => (k r).bind f

instance : Monad (Prog S) where
  pure := .ret
  bind := bind

/-- The program that performs one operation. -/
def perform (o : S.Op) : Prog S (S.Ret o) := .op o .ret

@[simp] theorem pure_eq (a : α) : (pure a : Prog S α) = .ret a := rfl

@[simp] theorem ret_bind (a : α) (f : α → Prog S β) : (Prog.ret a >>= f) = f a := rfl

@[simp] theorem op_bind (o : S.Op) (k : S.Ret o → Prog S α) (f : α → Prog S β) :
    (Prog.op o k >>= f) = .op o fun r => k r >>= f := rfl

theorem bind_ret (p : Prog S α) : (p >>= .ret) = p := by
  induction p with
  | ret a => rfl
  | op o k ih => exact congrArg (Prog.op o) (funext ih)

theorem bind_bind {γ : Type} (p : Prog S α) (f : α → Prog S β) (g : β → Prog S γ) :
    ((p >>= f) >>= g) = p >>= fun a => f a >>= g := by
  induction p with
  | ret a => rfl
  | op o k ih => exact congrArg (Prog.op o) (funext ih)

instance : LawfulMonad (Prog S) := LawfulMonad.mk' _ bind_ret (fun _ _ => rfl) bind_bind

variable {c : Prop} {q : Prog S α}

theorem ite_bind [Decidable c] (p q : Prog S α) (f : α → Prog S β) :
    ((if c then p else q) >>= f) = if c then p >>= f else q >>= f := by
  split <;> rfl

variable {p : Prog S α}

theorem ite_bind_eq [Decidable c] {p' q' : Prog S β} {f : α → Prog S β} (hp : c → (p >>= f) = p')
    (hq : ¬c → (q >>= f) = q') : ((if c then p else q) >>= f) = if c then p' else q' := by
  split
  · next h => exact hp h
  · next h => exact hq h

theorem op_congr {o : S.Op} {k k' : S.Ret o → Prog S α} (h : ∀ r, k r = k' r) :
    Prog.op o k = .op o k' :=
  congrArg (Prog.op o) (funext h)

/-! ### Running alone -/

/-- The result of a program that thread `t` runs with no other thread in between, or nothing if one
of its operations is blocked. -/
def run (M : System S) (t : M.Tid) : Prog S α → M.State → Option (α × M.State)
  | .ret a, s => some (a, s)
  | .op o k, s => (M.exec t o s).bind fun r => (k r.1).run M t r.2

section Run

variable (M : System S) (t : M.Tid)

@[simp] theorem run_ret (a : α) (s : M.State) :
    (Prog.ret a : Prog S α).run M t s = some (a, s) := rfl

theorem run_op (o : S.Op) (k : S.Ret o → Prog S α) (s : M.State) :
    (Prog.op o k).run M t s = (M.exec t o s).bind fun r => (k r.1).run M t r.2 := rfl

theorem run_bind (p : Prog S α) (f : α → Prog S β) (s : M.State) :
    (p >>= f).run M t s = (p.run M t s).bind fun r => (f r.1).run M t r.2 := by
  induction p generalizing s with
  | ret a => rfl
  | op o k ih =>
      rw [op_bind, run_op, run_op, Option.bind_assoc]
      congr 1
      funext r
      exact ih r.1 r.2

end Run

/-! ### The operations that occur in a program -/

/-- Every operation that the program may come to perform satisfies `φ`. -/
def Uses (φ : S.Op → Prop) : Prog S α → Prop
  | .ret _ => True
  | .op o k => φ o ∧ ∀ r, (k r).Uses φ

variable {φ ψ : S.Op → Prop}

@[simp] theorem uses_ret (a : α) : (Prog.ret a : Prog S α).Uses φ := trivial

@[simp] theorem uses_op {o : S.Op} {k : S.Ret o → Prog S α} :
    (Prog.op o k).Uses φ ↔ φ o ∧ ∀ r, (k r).Uses φ := Iff.rfl

@[simp] theorem uses_perform {o : S.Op} : (perform o).Uses φ ↔ φ o := by
  simp [perform]

theorem Uses.mono (h : p.Uses φ) (hφ : ∀ o, φ o → ψ o) : p.Uses ψ := by
  induction p with
  | ret a => trivial
  | op o k ih => exact ⟨hφ o h.1, fun r => ih r (h.2 r)⟩

theorem Uses.and (hφ : p.Uses φ) (hψ : p.Uses ψ) : p.Uses fun o => φ o ∧ ψ o := by
  induction p with
  | ret a => trivial
  | op o k ih => exact ⟨⟨hφ.1, hψ.1⟩, fun r => ih r (hφ.2 r) (hψ.2 r)⟩

theorem uses_bind {f : α → Prog S β} (hp : p.Uses φ) (hf : ∀ a, (f a).Uses φ) :
    (p >>= f).Uses φ := by
  induction p with
  | ret a => exact hf a
  | op o k ih => exact ⟨hp.1, fun r => ih r (hp.2 r)⟩

@[simp] theorem uses_ite [Decidable c] :
    (if c then p else q).Uses φ ↔ (c → p.Uses φ) ∧ (¬c → q.Uses φ) := by
  split <;> simp_all

theorem Uses.ite [Decidable c] (hp : p.Uses φ) (hq : q.Uses φ) : (if c then p else q).Uses φ :=
  uses_ite.2 ⟨fun _ => hp, fun _ => hq⟩

theorem uses_forM {γ : Type} {l : List γ} {f : γ → Prog S PUnit} (hf : ∀ x ∈ l, (f x).Uses φ) :
    (l.forM f).Uses φ := by
  induction l with
  | nil => trivial
  | cons x l ih =>
      change (f x >>= fun _ => l.forM f).Uses φ
      exact uses_bind (hf x List.mem_cons_self) fun _ =>
        ih fun y hy => hf y (List.mem_cons_of_mem x hy)

/-! ### The operations in front of the end of a program -/

/-- The program performs operations that satisfy `φ`, and then nothing more or one of the programs
in `B`. -/
def Ends (φ : S.Op → Prop) (B : Prog S α → Prop) : Prog S α → Prop
  | .ret _ => True
  | .op o k => B (.op o k) ∨ (φ o ∧ ∀ r, (k r).Ends φ B)

variable {B : Prog S α → Prop}

theorem ends_of_mem (h : B p) : p.Ends φ B := by
  cases p with
  | ret a => trivial
  | op o k => exact .inl h

theorem Uses.ends (h : p.Uses φ) : p.Ends φ B := by
  induction p with
  | ret a => trivial
  | op o k ih => exact .inr ⟨h.1, fun r => ih r (h.2 r)⟩

theorem Ends.mono (h : p.Ends φ B) (hφ : ∀ o, φ o → ψ o) : p.Ends ψ B := by
  induction p with
  | ret a => trivial
  | op o k ih => exact h.imp_right fun h => ⟨hφ o h.1, fun r => ih r (h.2 r)⟩

theorem Ends.and (h : p.Ends φ B) (hψ : p.Uses ψ) : p.Ends (fun o => φ o ∧ ψ o) B := by
  induction p with
  | ret a => trivial
  | op o k ih => exact h.imp_right fun h => ⟨⟨h.1, hψ.1⟩, fun r => ih r (h.2 r) (hψ.2 r)⟩

theorem Ends.uses (h : p.Ends φ B) (hφ : ∀ o, φ o → ψ o) (hB : ∀ q, B q → q.Uses ψ) : p.Uses ψ := by
  induction p with
  | ret a => trivial
  | op o k ih =>
      obtain hend | ⟨ho, hrest⟩ := h
      · exact hB _ hend
      · exact ⟨hφ o ho, fun r => ih r (hrest r)⟩

theorem Ends.trans {B' : Prog S α → Prop} (h : p.Ends φ B) (hB : ∀ q, B q → q.Ends φ B') :
    p.Ends φ B' := by
  induction p with
  | ret a => trivial
  | op o k ih =>
      obtain hend | ⟨ho, hrest⟩ := h
      · exact hB _ hend
      · exact .inr ⟨ho, fun r => ih r (hrest r)⟩

theorem ends_bind {p : Prog S β} {f : β → Prog S α} (hp : p.Uses φ) (hf : ∀ a, (f a).Ends φ B) :
    (p >>= f).Ends φ B := by
  induction p with
  | ret a => exact hf a
  | op o k ih => exact .inr ⟨hp.1, fun r => ih r (hp.2 r)⟩

theorem ends_ite [Decidable c] :
    (if c then p else q).Ends φ B ↔ (c → p.Ends φ B) ∧ (¬c → q.Ends φ B) := by
  split <;> simp_all

theorem Ends.ite [Decidable c] (hp : p.Ends φ B) (hq : q.Ends φ B) :
    (if c then p else q).Ends φ B :=
  ends_ite.2 ⟨fun _ => hp, fun _ => hq⟩

end Prog

end Conc
