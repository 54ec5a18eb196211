/-
**Check, then act, with one counter for each party.**

Several parties keep a counter each.  A party that wants to raise its own reads all counters, one
after another, and goes on if their sum is below a cap.  The others do not wait while it reads, and
all counters may fall at any time.  So the sum can pass the cap, but only by as many parties as have
acted since a check began: one of them that acts a second time has begun a new check in between, and
that check has noticed all that happened before it.

Main definitions:

* `CheckThenAct.Acts` — one party raises its counter;
* `CheckThenAct.Covers` — what has been read covers the counters, up to the parties that have acted.

Main results:

* `CheckThenAct.Covers.read`, `CheckThenAct.Covers.fall`, `CheckThenAct.Covers.act_first`,
  `CheckThenAct.Covers.act_again` — what happens during a check;
* `CheckThenAct.Covers.room` — a check that succeeds.
-/

import Mathlib.Algebra.BigOperators.Fin
import Mathlib.Algebra.Order.BigOperators.Group.Finset

set_option autoImplicit false

namespace CheckThenAct

variable {ι : Type} {cap seen : ℕ} {n n' : ι → ℕ} {done acted : Finset ι} {b : ι}

/-! ### One party acts -/

section Acts

variable [DecidableEq ι]

/-- One party raises its counter by one, the others do not raise theirs. -/
def Acts (b : ι) (n n' : ι → ℕ) : Prop := ∀ i, n' i ≤ n i + if i = b then 1 else 0

theorem Acts.sum_le (h : Acts b n n') (s : Finset ι) : ∑ i ∈ s, n' i ≤ ∑ i ∈ s, n i + 1 := by
  calc ∑ i ∈ s, n' i ≤ ∑ i ∈ s, (n i + if i = b then 1 else 0) := Finset.sum_le_sum fun i _ => h i
    _ = ∑ i ∈ s, n i + if b ∈ s then 1 else 0 := by
        rw [Finset.sum_add_distrib, Finset.sum_ite_eq']
    _ ≤ ∑ i ∈ s, n i + 1 := by
        split
        · exact Nat.le_refl _
        · exact Nat.le_succ _

end Acts

/-! ### A check -/

variable [Fintype ι]

/-- Of a check that has read the counters of `done`, with the sum `seen`, while the parties of
`acted` have acted: the counters that were read have grown by one for each of these parties at most,
or else the sum of all counters is below the cap, up to one for each of these parties. -/
def Covers (cap seen : ℕ) (n : ι → ℕ) (done acted : Finset ι) : Prop :=
  ∑ i, n i < cap + acted.card ∨ ∑ i ∈ done, n i ≤ seen + acted.card

theorem Covers.start : Covers cap 0 n ∅ acted := .inr (by simp)

theorem Covers.fall (h : Covers cap seen n done acted) (hn : ∀ i, n' i ≤ n i) :
    Covers cap seen n' done acted :=
  h.imp (Nat.lt_of_le_of_lt (Finset.sum_le_sum fun i _ => hn i))
    (Nat.le_trans (Finset.sum_le_sum fun i _ => hn i))

/-- A check that has read all counters and found a sum below the cap. -/
theorem Covers.room (h : Covers cap seen n Finset.univ acted) (hseen : seen < cap) :
    ∑ i, n i < cap + acted.card := by
  obtain hlt | hle := h
  · exact hlt
  · omega

variable [DecidableEq ι]

theorem Covers.read (h : Covers cap seen n done acted) {v : ℕ} (hv : n b ≤ v) :
    Covers cap (seen + v) n (insert b done) acted := by
  refine h.imp_right fun hle => ?_
  calc ∑ i ∈ insert b done, n i ≤ n b + ∑ i ∈ done, n i := by
        by_cases hb : b ∈ done
        · rw [Finset.insert_eq_of_mem hb]
          exact Nat.le_add_left _ _
        · rw [Finset.sum_insert hb]
    _ ≤ seen + v + acted.card := by omega

/-- A party acts for the first time since the check began. -/
theorem Covers.act_first (h : Covers cap seen n done acted) (hn : Acts b n n') (hb : b ∉ acted) :
    Covers cap seen n' done (insert b acted) := by
  rw [Covers, Finset.card_insert_of_notMem hb]
  refine h.imp (fun hlt => ?_) fun hle => ?_
  · have := hn.sum_le Finset.univ
    omega
  · have := hn.sum_le done
    omega

/-- A party acts again: its own check found room, up to the parties that had acted since it began,
and these are others that have acted since our check began. -/
theorem Covers.act_again {others : Finset ι} (hn : Acts b n n') (hb : b ∈ acted)
    (hroom : ∑ i, n i < cap + others.card) (hothers : others ⊆ acted.erase b) :
    Covers cap seen n' done acted := by
  have hcard : others.card + 1 ≤ acted.card := by
    rw [← Finset.card_erase_add_one hb]
    exact Nat.succ_le_succ (Finset.card_le_card hothers)
  have := hn.sum_le Finset.univ
  exact .inl (by omega)

end CheckThenAct
