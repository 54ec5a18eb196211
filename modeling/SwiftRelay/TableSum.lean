/-
**Sums over the entries of a table.**

Main definitions:

* `Table.sumBy` — the sum of a quantity over the values of a table.

Main results:

* `Table.sumBy_insert_of_none`, `Table.sumBy_insert_of_some`, `Table.sumBy_erase` — how the updates
  change a sum;
* `Table.sum_size_le` — counting the entries of several tables by labels.
-/

import Mathlib.Algebra.BigOperators.Group.Finset.Sigma
import SwiftRelay.Table

set_option autoImplicit false

namespace Table

variable {K V G : Type} [AddCommMonoid G]

/-- The sum of `f` over the values. -/
def sumBy (f : V → G) (m : Table K V) : G := (m.entries.map fun e => f e.2).sum

@[simp] theorem sumBy_empty (f : V → G) : (∅ : Table K V).sumBy f = 0 := rfl

variable [DecidableEq K] (f : V → G) {m : Table K V} {k : K} {v : V}

theorem sumBy_erase (h : m.lookup k = some v) : f v + (m.erase k).sumBy f = m.sumBy f := by
  rw [sumBy, sumBy, ((perm_cons_erase h).map _).sum_eq, List.map_cons, List.sum_cons]

theorem sumBy_insert (m : Table K V) (k : K) (v : V) :
    (m.insert k v).sumBy f = f v + (m.erase k).sumBy f := by
  rw [sumBy, insert, AList.entries_insert, List.map_cons, List.sum_cons]
  rfl

theorem sumBy_insert_of_none (v : V) (h : m.lookup k = none) :
    (m.insert k v).sumBy f = f v + m.sumBy f := by
  rw [sumBy_insert, erase_of_none h]

theorem sumBy_insert_of_some (v' : V) (h : m.lookup k = some v) :
    f v + (m.insert k v').sumBy f = f v' + m.sumBy f := by
  rw [sumBy_insert, ← sumBy_erase f h]
  exact add_left_comm _ _ _

/-- If the entries of several tables have labels of their own, there are not more entries than
labels. -/
theorem sum_size_le {ι : Type} [Fintype ι] (m : ι → Table K V)
    (label : ι → V → ℕ) (labels : Finset ℕ)
    (hmem : ∀ i k v, (m i).lookup k = some v → label i v ∈ labels)
    (hunique : ∀ i j k k' v v', (m i).lookup k = some v → (m j).lookup k' = some v' →
      label i v = label j v' → i = j ∧ k = k') :
    ∑ i, (m i).size ≤ labels.card := by
  let keyed : Finset (Σ _ : ι, K) := Finset.univ.sigma fun i => (m i).keys.toFinset
  have hkeyed {x : Σ _ : ι, K} (hx : x ∈ keyed) : ∃ v, (m x.1).lookup x.2 = some v := by
    rw [Finset.mem_sigma, List.mem_toFinset, ← AList.mem_keys, ← AList.lookup_isSome] at hx
    exact Option.isSome_iff_exists.1 hx.2
  have hcard : keyed.card = ∑ i, (m i).size := by
    simp only [keyed, Finset.card_sigma, List.toFinset_card_of_nodup (m _).keys_nodup]
    simp [size, AList.keys, List.keys]
  rw [← hcard]
  refine Finset.card_le_card_of_injOn (fun x => ((m x.1).lookup x.2).elim 0 (label x.1)) ?_ ?_
  · intro x hx
    obtain ⟨v, hv⟩ := hkeyed hx
    simpa [hv] using hmem _ _ v hv
  · intro x hx y hy heq
    obtain ⟨v, hv⟩ := hkeyed hx
    obtain ⟨v', hv'⟩ := hkeyed hy
    simp only [hv, hv', Option.elim_some] at heq
    obtain ⟨hi, hk⟩ := hunique _ _ _ _ v v' hv hv' heq
    exact Sigma.ext hi (heq_of_eq hk)

end Table
