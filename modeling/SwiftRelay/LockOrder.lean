/-
**Code that takes its locks in order does not deadlock.**

A skeleton keeps of a piece of code its locks, its waits for anything else, and the choices that are
left to the data.  A thread has a stack: skeletons to run, a lock it has asked for, locks it holds.
The locks of a kind are numbered, and a request names one.

In a skeleton that keeps a rank, every lock ranks above those around it, and nothing else is waited
for under a lock.  Then no threads wait for each other in a circle, and whoever waits for a lock
waits, over others, for a thread that can go on.  This holds under any policy of the locks: a thread
counts as behind every holder, a reader also behind readers, as it is when a writer is queued.

Main definitions:

* `LockOrder.Skel`, `LockOrder.Skel.within` — skeletons, and that one keeps a rank;
* `LockOrder.run`, `LockOrder.Behind` — the threads after a schedule, and who waits for whom.

Main results:

* `LockOrder.ordered_run` — in every run each thread holds its locks in order;
* `LockOrder.not_behind_itself`, `LockOrder.exists_moves` — no circle, and how a chain ends.
-/

import Mathlib.Data.Fintype.EquivFin
import Mathlib.Logic.Function.Basic
import Mathlib.Logic.Relation
import Mathlib.Order.WellFounded

set_option autoImplicit false

namespace LockOrder

open Relation

inductive Mode
  | shared
  | exclusive
  deriving DecidableEq

/-- How code uses locks: `alt` and `many` leave the choice to the data, `lock a m s` is `s` under a
lock of the kind `a`. -/
inductive Skel (κ : Type)
  | skip
  | wait
  | seq (s t : Skel κ)
  | alt (s t : Skel κ)
  | many (s : Skel κ)
  | lock (a : κ) (m : Mode) (s : Skel κ)
  deriving DecidableEq

/-- What is on a thread's stack. -/
inductive Item (κ : Type)
  | run (s : Skel κ)
  | want (l : κ × ℕ) (m : Mode) (s : Skel κ)
  | held (l : κ × ℕ) (m : Mode)
  deriving DecidableEq

variable {κ : Type}

namespace Skel

def opt (s : Skel κ) : Skel κ := alt skip s

/-- One after the other. -/
def block (l : List (Skel κ)) : Skel κ := l.foldr seq skip

/-- One after the other, where each may be the last. -/
def upTo : List (Skel κ) → Skel κ
  | [] => skip
  | s :: l => seq s (opt (upTo l))

def read (a : κ) : Skel κ := lock a .shared skip

def write (a : κ) : Skel κ := lock a .exclusive skip

/-- Lock after lock of a kind, with any number of `s` under each. -/
def visit (a : κ) (m : Mode) (s : Skel κ) : Skel κ := many (lock a m (many s))

/-- The rank is kept under locks that rank below `n`. -/
def within (rank : κ → ℕ) : ℕ → Skel κ → Bool
  | _, skip => true
  | n, wait => n == 0
  | n, seq s t | n, alt s t => within rank n s && within rank n t
  | n, many s => within rank n s
  | n, lock a _ s => n ≤ rank a && within rank (rank a + 1) s

end Skel

/-- What a lock on top of the stack has to rank at least. -/
def floor (rank : κ → ℕ) : List (Item κ) → ℕ
  | [] => 0
  | .held l _ :: _ => rank l.1 + 1
  | _ :: k => floor rank k

/-- The stack keeps the rank. -/
def Ordered (rank : κ → ℕ) : List (Item κ) → Prop
  | [] => True
  | .run s :: k => s.within rank (floor rank k) ∧ Ordered rank k
  | .want l _ s :: k => floor rank k ≤ rank l.1 ∧ s.within rank (rank l.1 + 1) ∧ Ordered rank k
  | .held l _ :: k => floor rank k ≤ rank l.1 ∧ Ordered rank k

section Order

variable {rank : κ → ℕ} {k : List (Item κ)} {l l' : κ × ℕ} {m m' : Mode} {s : Skel κ}

theorem Ordered.rank_lt_floor (h : Ordered rank k) (hl : .held l m ∈ k) :
    rank l.1 < floor rank k := by
  induction k with
  | nil => simp at hl
  | cons x k ih =>
      cases x <;> simp only [List.mem_cons, reduceCtorEq, false_or, Item.held.injEq] at hl
      case run => exact ih h.2 hl
      case want => exact ih h.2.2 hl
      case held =>
          obtain ⟨rfl, -⟩ | hl := hl
          · exact Nat.lt_succ_self _
          · exact (ih h.2 hl).trans_le (h.1.trans (Nat.le_succ _))

/-- A lock that is asked for ranks above all that are held. -/
theorem Ordered.rank_lt (h : Ordered rank (.want l m s :: k)) (hl : .held l' m' ∈ k) :
    rank l'.1 < rank l.1 :=
  (h.2.2.rank_lt_floor hl).trans_le h.1

theorem Ordered.not_held (h : Ordered rank (.run .wait :: k)) : .held l m ∉ k := by
  intro hl
  have hfloor := h.2.rank_lt_floor hl
  simp only [Ordered, Skel.within, beq_iff_eq] at h
  omega

end Order

/-! ### Runs -/

section Run

variable {ι : Type} [Fintype ι] [DecidableEq κ] {c : ι → List (Item κ)}

/-- Nobody holds the lock in a way that excludes the mode. -/
def Free (c : ι → List (Item κ)) (l : κ × ℕ) (m : Mode) : Prop :=
  ∀ u, .held l .exclusive ∉ c u ∧ (m = .exclusive → .held l .shared ∉ c u)

instance (c : ι → List (Item κ)) (l : κ × ℕ) (m : Mode) : Decidable (Free c l m) :=
  inferInstanceAs (Decidable (∀ _, _))

/-- One move of a thread.  The number stands for what the data decide: the branch, whether there is
another round, and which lock of its kind is asked for. -/
def move (c : ι → List (Item κ)) (i : ℕ) : List (Item κ) → Option (List (Item κ))
  | [] => none
  | .run .skip :: k | .run .wait :: k | .held _ _ :: k => some k
  | .run (.seq s t) :: k => some (.run s :: .run t :: k)
  | .run (.alt s t) :: k => some (.run (if i = 0 then s else t) :: k)
  | .run (.many s) :: k => some (if i = 0 then k else .run s :: .run (.many s) :: k)
  | .run (.lock a m s) :: k => some (.want (a, i) m s :: k)
  | .want l m s :: k => if Free c l m then some (.run s :: .held l m :: k) else none

theorem ordered_of_move {rank : κ → ℕ} {k k' : List (Item κ)} {i : ℕ} (h : Ordered rank k)
    (hk : move c i k = some k') : Ordered rank k' := by
  revert hk
  -- a case for each equation of `move`
  fun_cases move c i k <;> rintro ⟨⟩ <;> grind [Ordered, Skel.within, floor]

variable [DecidableEq ι]

/-- The threads after a schedule, whose last entry comes first.  A thread that cannot move stays
where it is. -/
def run (body : ι → Skel κ) : List (ι × ℕ) → ι → List (Item κ)
  | [] => fun t => [.run (body t)]
  | (t, i) :: sched =>
      let c := run body sched
      Function.update c t ((move c i (c t)).getD (c t))

theorem ordered_run {rank : κ → ℕ} {body : ι → Skel κ} (h : ∀ t, (body t).within rank 0)
    (sched : List (ι × ℕ)) : ∀ t, Ordered rank (run body sched t) := by
  induction sched with
  | nil => exact fun t => ⟨h t, trivial⟩
  | cons x sched ih =>
      intro t
      simp only [run, Function.update_apply]
      split
      next =>
        cases hm : move (run body sched) x.2 (run body sched x.1) with
        | none => exact ih x.1
        | some k => exact ordered_of_move (ih x.1) hm
      next => exact ih t

end Run

/-! ### Waiting -/

section Waiting

variable {ι : Type} {rank : κ → ℕ} {c : ι → List (Item κ)} {t u v : ι}

/-- The lock that `t` asks for is held by `u`. -/
def Behind (c : ι → List (Item κ)) (t u : ι) : Prop :=
  ∃ l m s k m', c t = .want l m s :: k ∧ .held l m' ∈ c u

def asks (rank : κ → ℕ) : List (Item κ) → ℕ
  | .want l _ _ :: _ => rank l.1
  | _ => 0

variable (ho : ∀ t, Ordered rank (c t))

include ho

/-- Along a chain of waits the locks asked for rank higher and higher. -/
theorem asks_lt (h : TransGen (Behind c) t u) (hv : Behind c u v) :
    asks rank (c t) < asks rank (c u) := by
  have hstep : ∀ {t u v}, Behind c t u → Behind c u v → asks rank (c t) < asks rank (c u) := by
    rintro t u v ⟨l, m, s, k, m', ht, hu⟩ ⟨l', m₂, s', k', -, hu', -⟩
    have := ho u
    rw [hu'] at hu this
    simpa [ht, hu', asks] using this.rank_lt (by simpa using hu)
  induction h generalizing v with
  | single h => exact hstep h hv
  | tail _ h ih => exact (ih h).trans (hstep h hv)

theorem not_behind_itself : ¬ TransGen (Behind c) t t := by
  intro h
  obtain ⟨u, hu, -⟩ := TransGen.head'_iff.mp h
  exact (asks_lt ho h hu).false

variable [Fintype ι] [DecidableEq κ]

/-- A thread with a lock or a request that is behind nobody goes on by itself. -/
theorem moves_of_not_behind (h : ∀ u, ¬ Behind c t u)
    (ht : ∃ l m, .held l m ∈ c t ∨ ∃ s k, c t = .want l m s :: k) :
    (∀ k, c t ≠ .run .wait :: k) ∧ (move c 0 (c t)).isSome := by
  obtain ⟨l, m, ht⟩ := ht
  constructor
  · intro k hk
    have := ho t
    rw [hk] at this ht
    exact this.not_held (l := l) (m := m) (by simpa using ht)
  · cases hc : c t with
    | nil => simp [hc] at ht
    | cons x k =>
        cases x with
        | run s => cases s <;> simp [move]
        | held l m => simp [move]
        | want l m s =>
            have hfree : Free c l m := fun u =>
              ⟨fun hu => h u ⟨l, m, s, k, _, hc, hu⟩, fun _ hu => h u ⟨l, m, s, k, _, hc, hu⟩⟩
            simp [move, hfree]

/-- **Every chain of waits ends** at a thread that can go on by itself. -/
theorem exists_moves (ht : ∃ l m, .held l m ∈ c t ∨ ∃ s k, c t = .want l m s :: k) :
    ∃ v, ReflTransGen (Behind c) t v ∧ (∀ k, c v ≠ .run .wait :: k) ∧
      (move c 0 (c v)).isSome := by
  let r u t := TransGen (Behind c) t u
  have : IsTrans ι r := ⟨fun _ _ _ h h' => h'.trans h⟩
  have : Std.Irrefl r := ⟨fun _ => not_behind_itself ho⟩
  induction t using (Finite.wellFounded_of_trans_of_irrefl r).induction with
  | _ t ih =>
      by_cases h : ∃ u, Behind c t u
      · obtain ⟨u, hu⟩ := h
        have ⟨l, _, _, _, m', _, hheld⟩ := hu
        obtain ⟨v, hv, hmoves⟩ := ih u (.single hu) ⟨l, m', .inl hheld⟩
        exact ⟨v, .head hu hv, hmoves⟩
      · exact ⟨t, .refl, moves_of_not_behind ho (not_exists.mp h) ht⟩

end Waiting

end LockOrder
