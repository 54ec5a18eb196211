/-
**Decoders of wire formats.**

A decoder takes what it wants off the front of its input and leaves the rest.  That it reads a value
off some bytes is said for every continuation of the input; so stated, the facts about the parts of
a format compose in the order in which the parts lie in the input, and a list with its length in
front is read element by element.

Main definitions:

* `Wire.Decoder`, `Wire.next`, `Wire.take`, `Wire.require`, `Wire.ofOption`, `Wire.times` —
  decoders;
* `Wire.Reads` — the value that a decoder reads off some bytes, whatever lies behind;
* `Wire.whole` — a decoder that must not leave anything.

Main results:

* `Wire.Reads.bind` — parts one after the other;
* `Wire.reads_times`, `Wire.length_flatMap_le` — a list of parts, and its length;
* `Wire.Reads.whole_eq` — nothing is left over.
-/

import Mathlib.Algebra.Group.Action.Defs
import Mathlib.Algebra.Order.BigOperators.Group.List
import Mathlib.Algebra.Order.Group.Nat

set_option autoImplicit false

namespace Wire

variable {α β γ : Type}

/-- Takes a value off the front of the input. -/
abbrev Decoder (β α : Type) : Type := StateT (List β) Option α

/-- The next element. -/
def next : Decoder β β
  | [] => none
  | b :: rest => some (b, rest)

/-- The next `n` elements. -/
def take (n : ℕ) : Decoder β (List β) := fun input =>
  if n ≤ input.length then some (input.take n, input.drop n) else none

/-- Fails unless the condition holds. -/
def require (c : Prop) [Decidable c] : Decoder β Unit := fun input =>
  if c then some ((), input) else none

/-- Fails on `none`. -/
def ofOption (x : Option α) : Decoder β α := fun input => x.map fun a => (a, input)

/-- `n` values, one after the other. -/
def times (d : Decoder β α) : ℕ → Decoder β (List α)
  | 0 => return []
  | n + 1 => do
      let a ← d
      let as ← times d n
      return a :: as

/-- The value of an input of which nothing is left over. -/
def whole (d : Decoder β α) (input : List β) : Option α :=
  (d.run input).bind fun r => if r.2.isEmpty then some r.1 else none

/-- The decoder reads `a` off the bytes, whatever lies behind them. -/
def Reads (d : Decoder β α) (bytes : List β) (a : α) : Prop :=
  ∀ rest, d.run (bytes ++ rest) = some (a, rest)

theorem reads_pure (a : α) : Reads (pure a : Decoder β α) [] a := fun _ => rfl

theorem Reads.bind {d : Decoder β α} {f : α → Decoder β γ} {bytes bytes' : List β} {a : α} {c : γ}
    (hd : Reads d bytes a) (hf : Reads (f a) bytes' c) : Reads (d >>= f) (bytes ++ bytes') c := by
  intro rest
  rw [StateT.run_bind, List.append_assoc, hd]
  exact hf rest

theorem reads_next (b : β) : Reads next [b] b := fun _ => rfl

theorem reads_take (bytes : List β) : Reads (take bytes.length) bytes bytes := by
  intro rest
  have hle : bytes.length ≤ (bytes ++ rest).length := by simp
  change (if bytes.length ≤ (bytes ++ rest).length then _ else _) = _
  rw [if_pos hle, List.take_left, List.drop_left]

theorem reads_require {c : Prop} [Decidable c] (h : c) :
    Reads (require c : Decoder β Unit) [] () := by
  intro rest
  exact if_pos h

theorem reads_ofOption {x : Option α} {a : α} (h : x = some a) :
    Reads (ofOption x : Decoder β α) [] a := by
  intro rest
  subst h
  rfl

theorem reads_times {d : Decoder β α} {enc : γ → List β} {val : γ → α} {xs : List γ}
    (h : ∀ x ∈ xs, Reads d (enc x) (val x)) :
    Reads (times d xs.length) (xs.flatMap enc) (xs.map val) := by
  induction xs with
  | nil => exact reads_pure []
  | cons x xs ih =>
      have htail := ih fun y hy => h y (List.mem_cons_of_mem x hy)
      have hlast : Reads (times d xs.length >>= fun as => pure (val x :: as))
          (xs.flatMap enc ++ []) (val x :: xs.map val) := htail.bind (reads_pure _)
      rw [List.append_nil] at hlast
      rw [List.flatMap_cons]
      exact (h x List.mem_cons_self).bind hlast

theorem length_flatMap_le {enc : γ → List β} {xs : List γ} {c : ℕ}
    (h : ∀ x ∈ xs, (enc x).length ≤ c) : (xs.flatMap enc).length ≤ xs.length * c := by
  have hlengths : ∀ n ∈ xs.map fun x => (enc x).length, n ≤ c := by
    intro n hn
    obtain ⟨x, hx, rfl⟩ := List.mem_map.1 hn
    exact h x hx
  have hsum := List.sum_le_card_nsmul _ c hlengths
  rwa [List.length_map, smul_eq_mul, ← List.length_flatMap] at hsum

theorem Reads.whole_eq {d : Decoder β α} {bytes : List β} {a : α} (h : Reads d bytes a) :
    whole d bytes = some a := by
  have hrun := h []
  rw [List.append_nil] at hrun
  rw [whole, hrun]
  rfl

end Wire
