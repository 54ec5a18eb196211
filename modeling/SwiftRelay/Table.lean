/-
**Finite tables.**

A table is a finite map with at most one entry per key: Mathlib's `AList` with values of a fixed
type.  Everything that looks entries up, adds them and removes them is Mathlib's; what is added
here is what a store needs that *counts* its entries and that *retains* those that satisfy a test.

Main definitions:

* `Table` — finite maps from `K` to `V`, with `Table.lookup`, `Table.insert`, `Table.erase`;
* `Table.size`, `Table.count` — the number of entries, and of entries whose value satisfies a test;
* `Table.retain`, `Table.revise` — the entries that satisfy a test, or that a function replaces or
  drops.

Main results:

* `Table.count_insert_of_none`, `Table.count_insert_of_some`, `Table.count_erase` — how the three
  updates change a count;
* `Table.lookup_retain`, `Table.lookup_revise` — looking up afterwards.
-/

import Mathlib.Data.List.AList

set_option autoImplicit false

/-- Finite maps from `K` to `V`: lists of entries whose keys are distinct. -/
abbrev Table (K V : Type) := AList (fun _ : K => V)

namespace Table

variable {K V : Type}

/-- The number of entries. -/
def size (m : Table K V) : ℕ := m.entries.length

/-- The number of entries whose value satisfies `p`. -/
def count (p : V → Bool) (m : Table K V) : ℕ := m.entries.countP fun x => p x.2

/-- The entries that satisfy `p`. -/
def retain (p : K → V → Bool) (m : Table K V) : Table K V :=
  ⟨m.entries.filter fun x => p x.1 x.2, m.nodupKeys.sublist List.filter_sublist⟩

/-- What becomes of an entry under `f`, which may drop it. -/
def reviseEntry (f : K → V → Option V) (x : Σ _ : K, V) : Option (Σ _ : K, V) :=
  (f x.1 x.2).map fun v => ⟨x.1, v⟩

theorem keys_filterMap_sublist (f : K → V → Option V) (l : List (Σ _ : K, V)) :
    (l.filterMap (reviseEntry f)).keys.Sublist l.keys := by
  induction l with
  | nil => exact List.Sublist.refl _
  | cons x l ih =>
      cases h : f x.1 x.2 with
      | none =>
          rw [List.filterMap_cons_none (by simp [reviseEntry, h])]
          exact ih.cons _
      | some v =>
          rw [List.filterMap_cons_some (b := ⟨x.1, v⟩) (by simp [reviseEntry, h])]
          exact ih.cons_cons _

/-- The table in which each entry is replaced by what `f` says, or dropped. -/
def revise (f : K → V → Option V) (m : Table K V) : Table K V :=
  ⟨m.entries.filterMap (reviseEntry f), List.Nodup.sublist (keys_filterMap_sublist f _) m.nodupKeys⟩

@[simp] theorem size_empty : (∅ : Table K V).size = 0 := rfl

@[simp] theorem count_empty (p : V → Bool) : (∅ : Table K V).count p = 0 := rfl

theorem count_true (m : Table K V) : m.count (fun _ => true) = m.size := by
  simp [count, size]

variable [DecidableEq K]

/-- The value stored under `k`. -/
def lookup (m : Table K V) (k : K) : Option V := AList.lookup k m

/-- The table with `v` stored under `k`, in place of what was there. -/
def insert (m : Table K V) (k : K) (v : V) : Table K V := AList.insert k v m

/-- The table without the entry of `k`. -/
def erase (m : Table K V) (k : K) : Table K V := AList.erase k m

@[simp] theorem lookup_empty (k : K) : (∅ : Table K V).lookup k = none := AList.lookup_empty k

variable {m : Table K V} {k : K}

theorem lookup_eq_some_iff {v : V} : m.lookup k = some v ↔ (⟨k, v⟩ : Σ _ : K, V) ∈ m.entries :=
  AList.mem_lookup_iff

theorem lookup_eq_none_iff : m.lookup k = none ↔ k ∉ m.entries.keys :=
  AList.lookup_eq_none

/-- Up to order, the entries are the entry of `k` and those that remain when `k` is erased. -/
theorem perm_cons_erase {v : V} (h : m.lookup k = some v) :
    m.entries.Perm (⟨k, v⟩ :: (m.erase k).entries) := by
  have hmem : k ∈ m.entries.keys := by
    by_contra hk
    rw [lookup_eq_none_iff.2 hk] at h
    cases h
  obtain ⟨v', l₁, l₂, hk, hl, herase⟩ := List.exists_of_kerase hmem
  have hv : v' = v := by
    have hmem' : (⟨k, v'⟩ : Σ _ : K, V) ∈ m.entries := by simp [hl]
    have hlook : m.lookup k = some v' := lookup_eq_some_iff.2 hmem'
    rw [h] at hlook
    exact (Option.some_inj.1 hlook).symm
  subst hv
  have hentries : (m.erase k).entries = l₁ ++ l₂ := herase
  rw [hentries, hl]
  exact List.perm_middle

theorem count_erase (p : V → Bool) {v : V} (h : m.lookup k = some v) :
    (m.erase k).count p + (if p v then 1 else 0) = m.count p := by
  unfold count
  rw [(perm_cons_erase h).countP_eq, List.countP_cons]

theorem size_erase {v : V} (h : m.lookup k = some v) : (m.erase k).size + 1 = m.size := by
  have := count_erase (fun _ => true) h
  simpa [count_true] using this

theorem erase_of_none (h : m.lookup k = none) : m.erase k = m := by
  refine AList.ext ?_
  exact List.kerase_of_notMem_keys (lookup_eq_none_iff.1 h)

theorem size_erase_le (m : Table K V) (k : K) : (m.erase k).size ≤ m.size := by
  cases h : m.lookup k with
  | none => rw [erase_of_none h]
  | some v => exact Nat.le_of_lt (Nat.lt_of_succ_le (Nat.le_of_eq (size_erase h)))

theorem count_insert (p : V → Bool) (m : Table K V) (k : K) (v : V) :
    (m.insert k v).count p = (m.erase k).count p + (if p v then 1 else 0) := by
  unfold count insert
  rw [AList.entries_insert, List.countP_cons]
  rfl

theorem count_insert_of_none (p : V → Bool) (v : V) (h : m.lookup k = none) :
    (m.insert k v).count p = m.count p + (if p v then 1 else 0) := by
  rw [count_insert, erase_of_none h]

theorem count_insert_of_some (p : V → Bool) {v : V} (v' : V) (h : m.lookup k = some v) :
    (m.insert k v').count p + (if p v then 1 else 0) = m.count p + (if p v' then 1 else 0) := by
  have := count_erase p h
  rw [count_insert]
  omega

theorem size_insert_of_none (v : V) (h : m.lookup k = none) : (m.insert k v).size = m.size + 1 := by
  have := count_insert_of_none (fun _ => true) v h
  simpa [count_true] using this

theorem size_insert_of_some {v : V} (v' : V) (h : m.lookup k = some v) :
    (m.insert k v').size = m.size := by
  have := count_insert_of_some (fun _ => true) v' h
  simpa [count_true] using this

theorem size_insert_le (m : Table K V) (k : K) (v : V) : (m.insert k v).size ≤ m.size + 1 := by
  cases h : m.lookup k with
  | none => rw [size_insert_of_none v h]
  | some v' =>
      rw [size_insert_of_some v h]
      exact Nat.le_succ _

theorem size_le_of_lookup {m' : Table K V}
    (h : ∀ k v', m'.lookup k = some v' → ∃ v, m.lookup k = some v) : m'.size ≤ m.size := by
  have hsub : m'.entries.keys ⊆ m.entries.keys := by
    intro k hk
    by_contra hnone
    obtain ⟨x, hx, rfl⟩ := List.mem_map.1 hk
    obtain ⟨v, hv⟩ := h x.1 x.2 (lookup_eq_some_iff.2 hx)
    rw [lookup_eq_none_iff.2 hnone] at hv
    cases hv
  have hle := (List.subperm_of_subset m'.nodupKeys hsub).length_le
  simpa [size, List.keys] using hle

theorem count_pos (p : V → Bool) {v : V} (h : m.lookup k = some v) (hp : p v = true) :
    0 < m.count p := by
  have := count_erase p h
  rw [if_pos hp] at this
  omega

theorem lookup_insert_eq (m : Table K V) (k k' : K) (v : V) :
    (m.insert k v).lookup k' = if k' = k then some v else m.lookup k' := by
  split
  · next h => subst h; exact AList.lookup_insert m
  · next h => exact AList.lookup_insert_ne h

theorem lookup_erase_eq (m : Table K V) (k k' : K) :
    (m.erase k).lookup k' = if k' = k then none else m.lookup k' := by
  split
  · next h => subst h; exact AList.lookup_erase k' m
  · next h => exact AList.lookup_erase_ne h

/-- Looking a key up after a retain: the entry is there if it was and passes the test. -/
theorem lookup_retain (p : K → V → Bool) (m : Table K V) (k : K) :
    (m.retain p).lookup k = (m.lookup k).filter (p k) := by
  cases h : m.lookup k with
  | none =>
      rw [Option.filter_none, lookup_eq_none_iff]
      intro hk
      obtain ⟨x, hx, rfl⟩ := List.mem_map.1 hk
      have hx' : x ∈ m.entries := (List.mem_filter.1 hx).1
      rw [lookup_eq_some_iff.2 hx'] at h
      cases h
  | some v =>
      have hmem : (⟨k, v⟩ : Σ _ : K, V) ∈ m.entries := lookup_eq_some_iff.1 h
      by_cases hp : p k v = true
      · rw [Option.filter_some_pos hp]
        exact lookup_eq_some_iff.2 (List.mem_filter.2 ⟨hmem, hp⟩)
      · rw [Option.filter_some_neg (by simpa using hp), lookup_eq_none_iff]
        intro hk
        obtain ⟨x, hx, rfl⟩ := List.mem_map.1 hk
        obtain ⟨hx', hpx⟩ := List.mem_filter.1 hx
        have : m.lookup x.1 = some x.2 := lookup_eq_some_iff.2 hx'
        rw [h] at this
        exact hp (Option.some_inj.1 this ▸ hpx)

theorem lookup_revise (f : K → V → Option V) (m : Table K V) (k : K) :
    (m.revise f).lookup k = (m.lookup k).bind (f k) := by
  cases h : m.lookup k with
  | none =>
      refine lookup_eq_none_iff.2 fun hk => ?_
      exact lookup_eq_none_iff.1 h ((keys_filterMap_sublist f _).subset hk)
  | some v =>
      have hmem := lookup_eq_some_iff.1 h
      cases hf : f k v with
      | some v' =>
          rw [Option.bind_some, hf]
          refine lookup_eq_some_iff.2 (List.mem_filterMap.2 ⟨_, hmem, ?_⟩)
          simp [reviseEntry, hf]
      | none =>
          simp only [Option.bind_some, hf]
          refine Option.eq_none_iff_forall_ne_some.2 fun v' hv' => ?_
          obtain ⟨⟨k', v''⟩, hx, hrev⟩ := List.mem_filterMap.1 (lookup_eq_some_iff.1 hv')
          obtain ⟨u, hu, heq⟩ := Option.map_eq_some_iff.1 hrev
          cases heq
          have := lookup_eq_some_iff.2 hx
          rw [h] at this
          cases this
          rw [hf] at hu
          cases hu

end Table
