/-
**Items in custody.**

Items are kept at finitely many places, at each of them as a list.  They are *partitioned* among the
places if every item of the stock is at one place, once, and no other item is anywhere.  Moving
items from one place to another keeps that.

Main definitions:

* `Custody.copies` — how often an item occurs at all places together;
* `Custody.Partition` — the places hold the stock, each item once.

Main results:

* `Custody.Partition.of_single`, `Custody.Partition.move` — the stock at one place; moving items
  from one place to another;
* `Custody.Partition.existsUnique`, `Custody.Partition.nodup` — each item of the stock has one
  place, and is there once;
* `Custody.Partition.length_lt` — a place has room for the items that are elsewhere.
-/

import Mathlib.Algebra.Order.BigOperators.Group.Finset

set_option autoImplicit false

namespace Custody

variable {P α : Type} [Fintype P] [DecidableEq α]

/-- The number of copies of an item at all places. -/
def copies (items : P → List α) (a : α) : ℕ := ∑ p, (items p).count a

/-- The items of the stock are at one place each, and nothing else is anywhere. -/
def Partition (items : P → List α) (stock : Finset α) : Prop :=
  ∀ a, copies items a = if a ∈ stock then 1 else 0

variable {items items' : P → List α} {stock : Finset α} {p q : P} {a : α}

theorem count_le_copies (items : P → List α) (p : P) (a : α) :
    (items p).count a ≤ copies items a :=
  Finset.single_le_sum (f := fun p => (items p).count a) (fun _ _ => Nat.zero_le _)
    (Finset.mem_univ p)

namespace Partition

theorem of_single (hothers : ∀ x, x ≠ p → items x = []) (hnodup : (items p).Nodup)
    (hstock : ∀ a, a ∈ items p ↔ a ∈ stock) : Partition items stock := by
  intro a
  have hcopies : copies items a = (items p).count a := by
    refine Finset.sum_eq_single p (fun x _ hx => ?_) fun hp => absurd (Finset.mem_univ p) hp
    rw [hothers x hx, List.count_nil]
  rw [hcopies]
  split
  · next ha => exact List.count_eq_one_of_mem hnodup ((hstock a).2 ha)
  · next ha => exact List.count_eq_zero.2 fun hp => ha ((hstock a).1 hp)

theorem nodup (h : Partition items stock) (p : P) : (items p).Nodup := by
  refine List.nodup_iff_count_le_one.2 fun a => (count_le_copies items p a).trans ?_
  rw [h a]
  split
  · exact Nat.le_refl 1
  · exact Nat.zero_le 1

theorem mem_stock (h : Partition items stock) (ha : a ∈ items p) : a ∈ stock := by
  by_contra hstock
  have hle := count_le_copies items p a
  rw [h a, if_neg hstock] at hle
  exact List.count_eq_zero.1 (Nat.le_zero.1 hle) ha

end Partition

variable [DecidableEq P]

theorem copies_eq (items : P → List α) (hpq : p ≠ q) (a : α) :
    copies items a = (items p).count a + ((items q).count a +
      ∑ x ∈ (Finset.univ.erase p).erase q, (items x).count a) := by
  have hq : q ∈ Finset.univ.erase p := Finset.mem_erase.2 ⟨hpq.symm, Finset.mem_univ q⟩
  rw [copies, ← Finset.add_sum_erase _ _ (Finset.mem_univ p), ← Finset.add_sum_erase _ _ hq]

namespace Partition

theorem move (h : Partition items stock) (hpq : p ≠ q)
    (hothers : ∀ x, x ≠ p → x ≠ q → items' x = items x)
    (hmoved : ∀ a, (items' p).count a + (items' q).count a =
      (items p).count a + (items q).count a) : Partition items' stock := by
  intro a
  have hrest : ∑ x ∈ (Finset.univ.erase p).erase q, (items' x).count a =
      ∑ x ∈ (Finset.univ.erase p).erase q, (items x).count a := by
    refine Finset.sum_congr rfl fun x hx => ?_
    obtain ⟨hq, hp⟩ := Finset.mem_erase.1 hx
    rw [hothers x (Finset.ne_of_mem_erase hp) hq]
  have hitems := h a
  rw [copies_eq items hpq] at hitems
  rw [copies_eq items' hpq, hrest, ← hitems]
  have := hmoved a
  omega

theorem place_unique (h : Partition items stock) (hp : a ∈ items p) (hq : a ∈ items q) : p = q := by
  by_contra hpq
  have hcopies := h a
  rw [copies_eq items hpq, if_pos (h.mem_stock hp)] at hcopies
  have := List.count_pos_iff.2 hp
  have := List.count_pos_iff.2 hq
  omega

theorem existsUnique (h : Partition items stock) (ha : a ∈ stock) : ∃! p, a ∈ items p := by
  obtain ⟨p, -, hp⟩ : ∃ p ∈ Finset.univ, (items p).count a ≠ 0 := by
    refine Finset.exists_ne_zero_of_sum_ne_zero ?_
    change copies items a ≠ 0
    rw [h a, if_pos ha]
    exact Nat.one_ne_zero
  have hp := List.count_pos_iff.1 (Nat.pos_of_ne_zero hp)
  exact ⟨p, hp, fun q hq => h.place_unique hq hp⟩

theorem length_lt (h : Partition items stock) (hpq : p ≠ q) (ha : a ∈ items q) :
    (items p).length < stock.card := by
  have hnodup : (a :: items p).Nodup :=
    List.nodup_cons.2 ⟨fun hp => hpq (h.place_unique hp ha), h.nodup p⟩
  have hsub : (a :: items p).toFinset ⊆ stock := by
    intro b hb
    rcases List.mem_cons.1 (List.mem_toFinset.1 hb) with rfl | hb
    · exact h.mem_stock ha
    · exact h.mem_stock hb
  have hcard := Finset.card_le_card hsub
  rw [List.toFinset_card_of_nodup hnodup] at hcard
  exact hcard

end Partition

end Custody
