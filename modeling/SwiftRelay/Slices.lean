/-
**Programs that read a buffer through slices.**

A parser reads a buffer that it does not own.  It sees slices of it, indexes them, and takes slices
of slices; each of these fails when it goes out of bounds.  Such a parser is here a program whose
operations are the accesses, so that the positions that it can come to read are a property of the
program itself, whatever the bytes are.  If they all lie in the first `n` positions, then the
program does not fail on a buffer of at least `n` elements, and its result depends on the first `n`
only.

Main definitions:

* `Slices.Slice` — a part of a buffer;
* `Slices.Read` — programs that read a buffer; `Slices.index`, `Slices.range`, `Slices.copy`;
* `Slices.InBounds` — an access that stays in its slice and in the first `n` positions;
  `Slices.Below` — one that stays in the first `n` positions;
* `Slices.value`, `Slices.eval` — the result of a program, and the same with every access checked.

Main results:

* `Slices.eval_eq_value` — a program that stays in bounds does not fail;
* `Slices.value_congr` — it does not depend on what lies behind its bound.
-/

import SwiftRelay.Program

set_option autoImplicit false

namespace Slices

open Conc

/-! ### Slices and accesses -/

/-- The part of a buffer from position `lo` to the one before `hi`. -/
structure Slice where
  lo : ℕ
  hi : ℕ

namespace Slice

variable {β : Type}

def len (s : Slice) : ℕ := s.hi - s.lo

/-- The slice from `a` to the one before `b`, counted within `s`. -/
def sub (s : Slice) (a b : ℕ) : Slice := ⟨s.lo + a, s.lo + b⟩

/-- The elements of a slice. -/
def of (s : Slice) (buf : List β) : List β := (buf.take s.hi).drop s.lo

@[simp] theorem len_sub (s : Slice) (a b : ℕ) : (s.sub a b).len = b - a := by
  simp only [len, sub]
  omega

theorem length_of {s : Slice} {buf : List β} (h : s.hi ≤ buf.length) :
    (s.of buf).length = s.len := by
  simp [of, len, h]

theorem of_sub {s : Slice} {a b : ℕ} (h : s.lo + b ≤ s.hi) (buf : List β) :
    (s.sub a b).of buf = ((s.of buf).take b).drop a := by
  rw [of, of, sub, List.take_drop, List.take_take, Nat.min_eq_left h, List.drop_drop]

/-- A slice of the first positions does not show the rest. -/
theorem of_congr {s : Slice} {n : ℕ} {buf buf' : List β} (hs : s.hi ≤ n)
    (h : buf.take n = buf'.take n) : s.of buf = s.of buf' := by
  have htake (l : List β) : l.take s.hi = (l.take n).take s.hi := by
    rw [List.take_take, Nat.min_eq_left hs]
  rw [of, of, htake buf, htake buf', h]

theorem of_whole (buf : List β) : (Slice.mk 0 buf.length).of buf = buf := by
  simp [of]

end Slice

/-- The accesses: an element of a slice, a slice of a slice, and all elements of a slice. -/
inductive Access
  | index (s : Slice) (i : ℕ)
  | range (s : Slice) (a b : ℕ)
  | copy (s : Slice)

variable {α β γ : Type}

abbrev Access.Ret (β : Type) : Access → Type
  | .index .. => β
  | .range .. => Unit
  | .copy _ => List β

/-- Programs that read a buffer with elements in `β`. -/
abbrev Read (β α : Type) : Type := Prog ⟨Access, Access.Ret β⟩ α

/-- The element of a slice at a position. -/
def index (s : Slice) (i : ℕ) : Read β β := .op (.index s i) .ret

/-- The slice of a slice from `a` to the one before `b`. -/
def range (s : Slice) (a b : ℕ) : Read β Slice := .op (.range s a b) fun _ => .ret (s.sub a b)

/-- The elements of a slice. -/
def copy (s : Slice) : Read β (List β) := .op (.copy s) .ret

/-- An access stays in its slice, and what it reads lies in the first `n` positions.  Taking a slice
of a slice reads nothing. -/
def InBounds (n : ℕ) : Access → Prop
  | .index s i => i < s.len ∧ s.lo + i < n
  | .range s a b => a ≤ b ∧ b ≤ s.len
  | .copy s => s.lo ≤ s.hi ∧ s.hi ≤ n

/-- What an access reads lies in the first `n` positions, whether or not it stays in its slice. -/
def Below (n : ℕ) : Access → Prop
  | .index s i => s.lo + i < n
  | .range .. => True
  | .copy s => s.hi ≤ n

instance (n : ℕ) : DecidablePred (InBounds n)
  | .index _ _ => inferInstanceAs (Decidable (_ ∧ _))
  | .range _ _ _ => inferInstanceAs (Decidable (_ ∧ _))
  | .copy _ => inferInstanceAs (Decidable (_ ∧ _))

/-! ### Results -/

section Results

variable [Inhabited β]

/-- What an access finds. -/
def Access.answer (buf : List β) : (o : Access) → o.Ret β
  | .index s i => (s.of buf).getD i default
  | .range .. => ()
  | .copy s => s.of buf

/-- The result of a program whose accesses are all in bounds. -/
def value (buf : List β) : Read β α → α
  | .ret a => a
  | .op o k => value buf (k (o.answer buf))

/-- The result of a program that fails at the first access out of bounds. -/
def eval (buf : List β) : Read β α → Option α
  | .ret a => some a
  | .op o k => if InBounds buf.length o then eval buf (k (o.answer buf)) else none

variable {n : ℕ} {buf : List β} {p : Read β α}

theorem InBounds.mono {m : ℕ} (h : n ≤ m) {o : Access} (ho : InBounds n o) : InBounds m o := by
  cases o with
  | index s i => exact ⟨ho.1, Nat.lt_of_lt_of_le ho.2 h⟩
  | range s a b => exact ho
  | copy s => exact ⟨ho.1, Nat.le_trans ho.2 h⟩

/-- What an access in bounds finds does not depend on the rest of the buffer. -/
theorem answer_congr {buf' : List β} (h : buf.take n = buf'.take n) {o : Access}
    (ho : InBounds n o) : o.answer buf = o.answer buf' := by
  cases o with
  | index s i =>
      have helem (l : List β) : (s.of l)[i]? = (l.take n)[s.lo + i]? := by
        have hi : s.lo + i < s.hi := by
          have := ho.1
          simp only [Slice.len] at this
          omega
        rw [Slice.of, List.getElem?_drop, List.getElem?_take_of_lt hi,
          List.getElem?_take_of_lt ho.2]
      simp only [Access.answer, List.getD_eq_getElem?_getD, helem, h]
  | range s a b => rfl
  | copy s => exact Slice.of_congr ho.2 h

/-- **A program that stays in bounds does not fail.** -/
theorem eval_eq_value (hn : n ≤ buf.length) (hp : p.Uses (InBounds n)) :
    eval buf p = some (value buf p) := by
  induction p with
  | ret a => rfl
  | op o k ih =>
      rw [eval, if_pos (hp.1.mono hn), value]
      exact ih _ (hp.2 _)

/-- **The result of a program that stays in bounds does not depend on what lies behind.** -/
theorem value_congr {buf' : List β} (h : buf.take n = buf'.take n) (hp : p.Uses (InBounds n)) :
    value buf p = value buf' p := by
  induction p with
  | ret a => rfl
  | op o k ih =>
      rw [value, value, answer_congr h hp.1]
      exact ih _ (hp.2 _)

@[simp] theorem value_bind (buf : List β) (p : Read β γ) (f : γ → Read β α) :
    value buf (p >>= f) = value buf (f (value buf p)) := by
  induction p with
  | ret a => rfl
  | op o k ih => exact ih _

theorem value_ite {c : Prop} [Decidable c] {q : Read β α} {x y : α} (hp : c → value buf p = x)
    (hq : ¬c → value buf q = y) : value buf (if c then p else q) = if c then x else y := by
  split
  · next h => exact hp h
  · next h => exact hq h

end Results

end Slices
