/-
**Overlaid pieces.**

A *piece* puts a run of values at consecutive positions.  When several pieces overlap, a reader
needs a rule which of them supplies a position; here the pieces are listed by precedence and the
first one that covers the position supplies it.  Reassembly of fragmented data is of this form, for
any precedence a receiver may choose.

Main definitions:

* `Overlay.Piece`, `Overlay.Piece.covers` — a piece and the positions that it covers;
* `Overlay.pick` — the value at a position;
* `Overlay.Reads` — a list of values that is read off the pieces from position zero on.

Main results:

* `Overlay.pick_eq_of_covers_iff` — two positions that are covered by the same pieces are supplied
  by one and the same piece.
-/

import Mathlib.Data.List.Basic

set_option autoImplicit false

namespace Overlay

/-- Values at the positions `start, start + 1, …`. -/
structure Piece (α : Type*) where
  start : ℕ
  values : List α

variable {α : Type*}

def Piece.covers (p : Piece α) (i : ℕ) : Bool := p.start ≤ i ∧ i < p.start + p.values.length

/-- The value at position `i`: that of the first piece in the list that covers it. -/
def pick (pieces : List (Piece α)) (i : ℕ) : Option α :=
  (pieces.find? fun p => p.covers i).bind fun p => p.values[i - p.start]?

/-- The values at the positions `0, 1, …`, for as many as `data` has. -/
def Reads (pieces : List (Piece α)) (data : List α) : Prop :=
  ∀ i (h : i < data.length), pick pieces i = some data[i]

variable {pieces : List (Piece α)}

theorem covers_of_find? {i : ℕ} {p : Piece α} (h : (pieces.find? fun p => p.covers i) = some p) :
    p ∈ pieces ∧ p.covers i = true := by
  refine ⟨List.mem_of_find?_eq_some h, ?_⟩
  have := List.find?_some h
  exact this

theorem find?_covers_congr {i j : ℕ} (h : ∀ p ∈ pieces, p.covers i = p.covers j) :
    (pieces.find? fun p => p.covers i) = pieces.find? fun p => p.covers j := by
  induction pieces with
  | nil => rfl
  | cons p pieces ih =>
      rw [List.find?_cons, List.find?_cons, h p List.mem_cons_self,
        ih fun q hq => h q (List.mem_cons_of_mem _ hq)]

/-- Two positions covered by the same pieces are supplied by one and the same piece. -/
theorem pick_eq_of_covers_iff {i j : ℕ} {a b : α} (hcovers : ∀ p ∈ pieces, p.covers i = p.covers j)
    (ha : pick pieces i = some a) (hb : pick pieces j = some b) :
    ∃ p ∈ pieces, p.covers i = true ∧ p.values[i - p.start]? = some a ∧
      p.values[j - p.start]? = some b := by
  obtain ⟨p, hp, hpa⟩ := Option.bind_eq_some_iff.1 ha
  obtain ⟨q, hq, hqb⟩ := Option.bind_eq_some_iff.1 hb
  obtain ⟨hmem, hpi⟩ := covers_of_find? hp
  rw [find?_covers_congr hcovers, hq] at hp
  cases hp
  exact ⟨p, hmem, hpi, hpa, hqb⟩

end Overlay
