/-
**A queue, seen from the history.**

A history lists what happened, the most recent event first.  Some events put a letter into a queue,
others take one out.  Which letters were put in, and how many were taken, can be read off the
history alone; that the queue is first in, first out then means that the letters taken so far are
the first of those put in.  A letter may say more than what lies in the queue, such as what was the
case when it was put in.

Main definitions:

* `Conc.Mailbox` — which events put a letter in, and which take one out;
* `Conc.Mailbox.letters`, `Conc.Mailbox.opened`, `Conc.Mailbox.waiting` — the letters of a history,
  in the order in which they were put in: all of them, those taken and those left;
* `Conc.Mailbox.Holds` — a queue holds the letters that are left.

Main results:

* `Conc.Mailbox.Holds.put`, `Conc.Mailbox.Holds.take`, `Conc.Mailbox.Holds.other` — the queue after
  each kind of event;
* `Conc.Mailbox.opened_of_not_takes` — what was taken stays the same when nothing is taken.
-/

import Mathlib.Data.List.Basic

set_option autoImplicit false

namespace Conc

/-- The letter that an event puts in, in view of what happened before, and whether it takes one
out. -/
structure Mailbox (E L : Type) where
  puts : E → List E → Option L
  takes : E → Bool

namespace Mailbox

variable {E L B : Type} (q : Mailbox E L)

/-- The letters put in, the first one first. -/
def letters : List E → List L
  | [] => []
  | e :: hist => letters hist ++ (q.puts e hist).toList

/-- How many letters were taken. -/
def taken (hist : List E) : ℕ := hist.countP q.takes

/-- The letters taken. -/
def opened (hist : List E) : List L := (q.letters hist).take (q.taken hist)

/-- The letters left. -/
def waiting (hist : List E) : List L := (q.letters hist).drop (q.taken hist)

/-- A queue holds the letters that are left, of which it shows the label. -/
structure Holds (label : L → B) (queue : List B) (hist : List E) : Prop where
  taken_le : q.taken hist ≤ (q.letters hist).length
  waiting_eq : (q.waiting hist).map label = queue

variable {q} {label : L → B} {queue : List B} {hist : List E} {e : E}

theorem letters_of_puts {l : L} (h : q.puts e hist = some l) :
    q.letters (e :: hist) = q.letters hist ++ [l] := by
  rw [letters, h, Option.toList_some]

theorem letters_of_not_puts (h : q.puts e hist = none) :
    q.letters (e :: hist) = q.letters hist := by
  rw [letters, h, Option.toList_none, List.append_nil]

theorem taken_of_not_takes (h : q.takes e = false) : q.taken (e :: hist) = q.taken hist := by
  rw [taken, List.countP_cons_of_neg (by simp [h]), taken]

theorem taken_of_takes (h : q.takes e = true) : q.taken (e :: hist) = q.taken hist + 1 := by
  rw [taken, List.countP_cons_of_pos h, taken]

theorem mem_letters_of_mem_opened {l : L} (h : l ∈ q.opened hist) : l ∈ q.letters hist :=
  List.mem_of_mem_take h

theorem opened_of_not_takes (hle : q.taken hist ≤ (q.letters hist).length)
    (h : q.takes e = false) : q.opened (e :: hist) = q.opened hist := by
  rw [opened, taken_of_not_takes h, letters, List.take_append_of_le_length hle, opened]

theorem mem_opened_cons (hle : q.taken hist ≤ (q.letters hist).length) {l : L}
    (h : l ∈ q.opened hist) : l ∈ q.opened (e :: hist) := by
  cases htakes : q.takes e with
  | false => rwa [opened_of_not_takes hle htakes]
  | true =>
      rw [opened, taken_of_takes htakes, letters]
      rw [opened, ← List.take_append_of_le_length hle] at h
      exact (List.take_sublist_take_left (Nat.le_succ _)).subset h

theorem Holds.nil : q.Holds label [] [] := ⟨Nat.zero_le _, rfl⟩

theorem Holds.other (h : q.Holds label queue hist) (hputs : q.puts e hist = none)
    (htakes : q.takes e = false) : q.Holds label queue (e :: hist) := by
  refine ⟨?_, ?_⟩
  · rw [taken_of_not_takes htakes, letters_of_not_puts hputs]
    exact h.taken_le
  · rw [waiting, taken_of_not_takes htakes, letters_of_not_puts hputs]
    exact h.waiting_eq

theorem Holds.put (h : q.Holds label queue hist) {l : L} (hputs : q.puts e hist = some l)
    (htakes : q.takes e = false) : q.Holds label (queue ++ [label l]) (e :: hist) := by
  refine ⟨?_, ?_⟩
  · rw [taken_of_not_takes htakes, letters_of_puts hputs, List.length_append]
    exact Nat.le_add_right_of_le h.taken_le
  · rw [waiting, taken_of_not_takes htakes, letters_of_puts hputs,
      List.drop_append_of_le_length h.taken_le, List.map_append]
    exact congrArg (· ++ [label l]) h.waiting_eq

theorem Holds.take {b : B} (h : q.Holds label (b :: queue) hist) (hputs : q.puts e hist = none)
    (htakes : q.takes e = true) :
    q.Holds label queue (e :: hist) ∧
      ∃ l, label l = b ∧ q.opened (e :: hist) = q.opened hist ++ [l] := by
  obtain ⟨l, rest, hdrop, hl, hrest⟩ := List.map_eq_cons_iff.1 h.waiting_eq
  have hget : (q.letters hist)[q.taken hist]? = some l := by
    rw [← List.head?_drop]
    exact congrArg List.head? hdrop
  have hlt : q.taken hist < (q.letters hist).length := (List.getElem?_eq_some_iff.1 hget).1
  refine ⟨⟨?_, ?_⟩, l, hl, ?_⟩
  · rw [taken_of_takes htakes, letters_of_not_puts hputs]
    exact hlt
  · have htail : (q.letters hist).drop (q.taken hist + 1) = rest := by
      rw [← List.tail_drop]
      exact congrArg List.tail hdrop
    rw [waiting, taken_of_takes htakes, letters_of_not_puts hputs, htail, hrest]
  · rw [opened, taken_of_takes htakes, letters_of_not_puts hputs, List.take_add_one, hget, opened]
    rfl

end Mailbox

end Conc
