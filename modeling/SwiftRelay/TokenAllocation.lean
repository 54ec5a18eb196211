/-
**The allocation of flow tokens.**

A shard names its sockets by machine words.  The word zero is the waker's; the others are handed out
in turn, from a counter that wraps around, skips zero, and passes over the words in use.  The
allocation gives up only when it is back at the word it began with.

The allocation is written here for words of any width.  The non-zero words are one cycle of the
counter, so the search ends, and it fails only when all of them are in use.  The tables of a shard
hold the words of sixty-four bits as numbers; their allocation is this one.

Main definitions:

* `advance` — the counter;
* `allocateLoop`, `allocateFlowToken` — the allocation.

Main results:

* `exists_iterate_advance` — every non-zero word comes after every other;
* `allocation_terminates_and_is_exhaustive` — the allocation, for any width;
* `allocateFlowToken_eq_none_iff` — when a shard is out of tokens.
-/

import SwiftRelay.CyclicSearch
import SwiftRelay.FlowTables

set_option autoImplicit false

namespace SwiftRelay

namespace Token

open Function

variable {w : ℕ}

/-! ### The allocation -/

/-- The counter, advanced for the next attempt; the reserved zero is skipped. -/
def advance (nextToken : BitVec w) : BitVec w :=
  let nextToken := nextToken + 1#w
  if nextToken = 0#w then 1#w else nextToken

/-- The loop of `allocate_flow_token`, for some number of rounds: the token, and the counter that is
left.  The outer `none` says that the loop has not returned yet. -/
def allocateLoop (containsKey : BitVec w → Bool) (start : BitVec w) :
    ℕ → BitVec w → Option (Option (BitVec w) × BitVec w)
  | 0, _ => none
  | rounds + 1, nextToken =>
      let token := nextToken
      let nextToken := advance nextToken
      if token = 0#w ∨ containsKey token then
        if nextToken = start then some (none, nextToken)
        else allocateLoop containsKey start rounds nextToken
      else some (some token, nextToken)

/-- `allocate_flow_token`. -/
def allocateFlowToken (tokenToFlow : Table (BitVec w) FlowKey) (rounds : ℕ)
    (nextToken : BitVec w) : Option (Option (BitVec w) × BitVec w) :=
  let nextToken := if nextToken = 0#w then 1#w else nextToken
  let start := nextToken
  allocateLoop (fun token => (tokenToFlow.lookup token).isSome) start rounds nextToken

/-! ### The cycle of the counter -/

theorem one_ne_zero (hw : 0 < w) : 1#w ≠ 0#w := by
  intro h
  have hone := congrArg BitVec.toNat h
  rw [BitVec.toNat_one hw] at hone
  simp at hone

variable {x : BitVec w}

theorem toNat_pos (hx : x ≠ 0#w) : 0 < x.toNat :=
  Nat.pos_of_ne_zero fun h => hx (BitVec.eq_of_toNat_eq (by simpa using h))

theorem advance_ne_zero (hw : 0 < w) (x : BitVec w) : advance x ≠ 0#w := by
  simp only [advance]
  split
  · exact one_ne_zero hw
  · assumption

/-- Without zero, the counter counts modulo one word less. -/
theorem toNat_advance (hw : 0 < w) (hx : x ≠ 0#w) :
    (advance x).toNat = x.toNat % (2 ^ w - 1) + 1 := by
  have hlt : x.toNat < 2 ^ w := x.isLt
  have hpos := toNat_pos hx
  have hzero : x + 1#w = 0#w ↔ x.toNat + 1 = 2 ^ w := by
    rw [← BitVec.toNat_inj, BitVec.toNat_add, BitVec.toNat_one hw, BitVec.toNat_zero]
    rcases Nat.lt_or_ge (x.toNat + 1) (2 ^ w) with h | h
    · rw [Nat.mod_eq_of_lt h]
      omega
    · rw [show x.toNat + 1 = 2 ^ w by omega, Nat.mod_self]
      simp
  simp only [advance]
  split
  · next h =>
      have := hzero.1 h
      rw [BitVec.toNat_one hw, show x.toNat = 2 ^ w - 1 by omega, Nat.mod_self]
  · next h =>
      have : x.toNat + 1 ≠ 2 ^ w := fun heq => h (hzero.2 heq)
      rw [BitVec.toNat_add, BitVec.toNat_one hw, Nat.mod_eq_of_lt (by omega),
        Nat.mod_eq_of_lt (by omega)]

theorem iterate_advance_ne_zero (hw : 0 < w) (hx : x ≠ 0#w) (n : ℕ) : advance^[n] x ≠ 0#w := by
  cases n with
  | zero => exact hx
  | succ n =>
      rw [iterate_succ_apply']
      exact advance_ne_zero hw _

theorem toNat_iterate_advance (hw : 0 < w) (hx : x ≠ 0#w) (n : ℕ) :
    (advance^[n] x).toNat = (x.toNat - 1 + n) % (2 ^ w - 1) + 1 := by
  have hlt : x.toNat < 2 ^ w := x.isLt
  have hpos := toNat_pos hx
  induction n with
  | zero =>
      rw [iterate_zero_apply, Nat.add_zero, Nat.mod_eq_of_lt (by omega)]
      omega
  | succ n ih =>
      rw [iterate_succ_apply', toNat_advance hw (iterate_advance_ne_zero hw hx n), ih,
        Nat.mod_add_mod, Nat.add_assoc]

theorem exists_iterate_advance (hw : 0 < w) {y : BitVec w} (hx : x ≠ 0#w) (hy : y ≠ 0#w) :
    ∃ n, 0 < n ∧ advance^[n] x = y := by
  have hxlt : x.toNat < 2 ^ w := x.isLt
  have hylt : y.toNat < 2 ^ w := y.isLt
  have hxpos := toNat_pos hx
  have hypos := toNat_pos hy
  refine ⟨2 ^ w - 1 - (x.toNat - 1) + (y.toNat - 1), by omega, BitVec.eq_of_toNat_eq ?_⟩
  rw [toNat_iterate_advance hw hx,
    show x.toNat - 1 + (2 ^ w - 1 - (x.toNat - 1) + (y.toNat - 1)) = y.toNat - 1 + (2 ^ w - 1) by
      omega,
    Nat.add_mod_right, Nat.mod_eq_of_lt (by omega)]
  omega

theorem mem_periodicPts_advance (hw : 0 < w) (hx : x ≠ 0#w) : x ∈ periodicPts advance := by
  obtain ⟨n, hn, hback⟩ := exists_iterate_advance hw hx hx
  exact ⟨n, hn, hback⟩

/-! ### The search -/

/-- The tokens that the loop passes over. -/
def refused (containsKey : BitVec w → Bool) (token : BitVec w) : Bool :=
  token = 0#w || containsKey token

theorem refused_eq (containsKey : BitVec w → Bool) {token : BitVec w} (h : token ≠ 0#w) :
    refused containsKey token = containsKey token := by
  simp [refused, h]

theorem allocateLoop_eq_search (containsKey : BitVec w → Bool) (start : BitVec w) (rounds : ℕ)
    (x : BitVec w) :
    allocateLoop containsKey start rounds x =
      CyclicSearch.search advance (refused containsKey) start rounds x := by
  induction rounds generalizing x with
  | zero => rfl
  | succ rounds ih => simp [allocateLoop, CyclicSearch.search, refused, ih]

/-- What the loop comes to, when the tokens in use are among those of a finite set. -/
theorem exists_allocateLoop (hw : 0 < w) {containsKey : BitVec w → Bool} {s : Finset (BitVec w)}
    (hs : ∀ token, containsKey token = true → token ∈ s) {start : BitVec w}
    (hstart : start ≠ 0#w) :
    ∃ token next, (∀ rounds, s.card < rounds →
        allocateLoop containsKey start rounds start = some (token, next)) ∧
      next ≠ 0#w ∧ (∀ x, token = some x → x ≠ 0#w ∧ containsKey x = false) ∧
      (token = none → ∀ x, x ≠ 0#w → containsKey x = true) := by
  have hne := iterate_advance_ne_zero hw hstart
  have hmem : ∀ i, refused containsKey (advance^[i] start) = true → advance^[i] start ∈ s := by
    intro i hi
    rw [refused_eq _ (hne i)] at hi
    exact hs _ hi
  rcases CyclicSearch.exists_search (mem_periodicPts_advance hw hstart) hmem with
    ⟨n, hfree, hsearch⟩ | ⟨htaken, hsearch⟩
  · refine ⟨some (advance^[n] start), advance^[n + 1] start, fun rounds hrounds => ?_,
      hne (n + 1), ?_, by simp⟩
    · rw [allocateLoop_eq_search, hsearch rounds hrounds]
    · rintro x ⟨⟩
      rw [refused_eq _ (hne n)] at hfree
      exact ⟨hne n, hfree⟩
  · refine ⟨none, start, fun rounds hrounds => ?_, hstart, by simp, fun _ x hx => ?_⟩
    · rw [allocateLoop_eq_search, hsearch rounds hrounds]
    · obtain ⟨n, -, rfl⟩ := exists_iterate_advance hw hstart hx
      rw [← refused_eq containsKey (hne n)]
      exact htaken n

/-- The tokens of a table, whose keys stand for words, as a set. -/
theorem exists_finset_of_lookup {K : Type} [DecidableEq K] (tokenToFlow : Table K FlowKey)
    {word : K → BitVec w} {key : BitVec w → K} (hword : ∀ token, word (key token) = token) :
    ∃ s : Finset (BitVec w), s.card ≤ tokenToFlow.size ∧
      ∀ token, (tokenToFlow.lookup (key token)).isSome = true → token ∈ s := by
  refine ⟨(tokenToFlow.entries.keys.map word).toFinset, ?_, fun token htoken => ?_⟩
  · refine le_trans (List.toFinset_card_le _) ?_
    simp [Table.size, List.keys]
  · have hkey : key token ∈ tokenToFlow.entries.keys := by
      by_contra hnone
      rw [Table.lookup_eq_none_iff.2 hnone] at htoken
      cases htoken
    exact List.mem_toFinset.2 (List.mem_map.2 ⟨key token, hkey, hword token⟩)

theorem start_ne_zero (hw : 0 < w) (nextToken : BitVec w) :
    (if nextToken = 0#w then 1#w else nextToken) ≠ 0#w := by
  split
  · exact one_ne_zero hw
  · assumption

/-- The allocation returns, whatever the width of a word, the counter and the tokens in use.  What
it returns is a token that is neither zero nor in use, if there is one, and the counter that it
leaves is not zero. -/
theorem allocation_terminates_and_is_exhaustive (hw : 0 < w)
    (tokenToFlow : Table (BitVec w) FlowKey) (nextToken : BitVec w) :
    ∃ token next,
      (∀ rounds, tokenToFlow.size < rounds →
        allocateFlowToken tokenToFlow rounds nextToken = some (token, next)) ∧
      (∀ x, token = some x → x ≠ 0#w ∧ tokenToFlow.lookup x = none) ∧
      ((∃ x, x ≠ 0#w ∧ tokenToFlow.lookup x = none) → token.isSome) ∧
      (token = none → ∀ x, x ≠ 0#w → (tokenToFlow.lookup x).isSome) ∧
      next ≠ 0#w := by
  obtain ⟨s, hcard, hs⟩ := exists_finset_of_lookup tokenToFlow fun token => Eq.refl (id token)
  obtain ⟨token, next, hreturns, hnext, hsome, hnone⟩ :=
    exists_allocateLoop hw hs (start_ne_zero hw nextToken)
  refine ⟨token, next, fun rounds hrounds => hreturns rounds (by omega), fun x hx => ?_, ?_, hnone,
    hnext⟩
  · obtain ⟨hzero, hfree⟩ := hsome x hx
    exact ⟨hzero, by simpa using hfree⟩
  · rintro ⟨x, hzero, hfree⟩
    cases htoken : token with
    | none => simpa [hfree] using hnone htoken x hzero
    | some y => rfl

/-- A counter at the last word, which is in use. -/
theorem allocation_wraps_around :
    0 < 2 ∧ ∃ token next,
      allocateFlowToken
        ((∅ : Table (BitVec 2) FlowKey).insert 3#2 ⟨7, ⟨⟨203, 0, 113, 1⟩, 443⟩⟩) 2 3#2 =
          some (some token, next) ∧ token ≠ 0#2 ∧ next ≠ 0#2 := by
  refine ⟨by decide, ?_⟩
  obtain ⟨found, next, hreturns, hsome, hfree, -, hnext⟩ :=
    allocation_terminates_and_is_exhaustive (w := 2) (by decide)
      ((∅ : Table (BitVec 2) FlowKey).insert 3#2 ⟨7, ⟨⟨203, 0, 113, 1⟩, 443⟩⟩) 3#2
  obtain ⟨token, rfl⟩ := Option.isSome_iff_exists.1 (hfree ⟨1#2, by decide, by decide⟩)
  exact ⟨token, next, hreturns 2 (by decide), (hsome token rfl).1, hnext⟩

end Token

/-! ### The tables of a shard -/

namespace FlowTables

open Token

theorem toNat_advance_eq_advanceToken (x : BitVec 64) :
    (advance x).toNat = advanceToken x.toNat := by
  simp only [advance, advanceToken, usizeModulus, ← BitVec.toNat_inj, BitVec.toNat_add,
    BitVec.toNat_ofNat]
  split <;> simp_all

/-- When the loop over words returns, the search over numbers has the same result. -/
theorem searchToken_of_allocateLoop {m : Table ℕ FlowKey} {start x next : BitVec 64}
    {token : Option (BitVec 64)} {rounds : ℕ}
    (h : allocateLoop (fun token => (m.lookup token.toNat).isSome) start rounds x =
      some (token, next)) :
    searchToken m start.toNat rounds x.toNat = (token.map BitVec.toNat, next.toNat) := by
  induction rounds generalizing x with
  | zero => cases h
  | succ rounds ih =>
      have hzero : x = 0#64 ↔ x.toNat = 0 := by simp [← BitVec.toNat_inj]
      have hstart : advance x = start ↔ advanceToken x.toNat = start.toNat := by
        rw [← toNat_advance_eq_advanceToken, BitVec.toNat_inj]
      simp only [allocateLoop, hzero, hstart] at h
      simp only [searchToken]
      split at h
      · next hrefused =>
          rw [if_pos hrefused]
          split at h
          · next hback =>
              cases h
              rw [if_pos hback, ← toNat_advance_eq_advanceToken]
              rfl
          · next haway =>
              rw [if_neg haway, ← toNat_advance_eq_advanceToken]
              exact ih h
      · next hfree =>
          cases h
          rw [if_neg hfree, ← toNat_advance_eq_advanceToken]
          rfl

/-- A shard is out of tokens exactly when every token but the waker's is in use. -/
theorem allocateFlowToken_eq_none_iff (t : FlowTables) (hnext : t.nextToken < usizeModulus) :
    t.allocateFlowToken.1 = none ↔
      ∀ token, 0 < token → token < usizeModulus → (t.tokenToFlow.lookup token).isSome := by
  have hword : ∀ token : BitVec 64, BitVec.ofNat 64 token.toNat = token := by simp
  obtain ⟨s, hcard, hs⟩ := exists_finset_of_lookup t.tokenToFlow hword
  obtain ⟨token, next, hreturns, -, hsome, hnone⟩ :=
    exists_allocateLoop (by decide) hs (start_ne_zero (by decide) (BitVec.ofNat 64 t.nextToken))
  have hstart : (if BitVec.ofNat 64 t.nextToken = 0#64 then 1#64
      else BitVec.ofNat 64 t.nextToken).toNat = if t.nextToken = 0 then 1 else t.nextToken := by
    have hmod : t.nextToken % 2 ^ 64 = t.nextToken := Nat.mod_eq_of_lt hnext
    simp only [← BitVec.toNat_inj, apply_ite BitVec.toNat, BitVec.toNat_ofNat, hmod]
  have hfound : t.allocateFlowToken.1 = token.map BitVec.toNat := by
    have hsearch := searchToken_of_allocateLoop (hreturns (t.tokenToFlow.size + 1) (by omega))
    rw [hstart] at hsearch
    exact congrArg Prod.fst hsearch
  rw [hfound, Option.map_eq_none_iff]
  constructor
  · intro htoken n hpos hlt
    have hn : (BitVec.ofNat 64 n).toNat = n := Nat.mod_eq_of_lt hlt
    have hne : BitVec.ofNat 64 n ≠ 0#64 := by
      intro heq
      rw [heq] at hn
      exact absurd hn (by simpa using hpos.ne)
    simpa only [hn] using hnone htoken _ hne
  · intro hused
    by_contra hne
    obtain ⟨x, rfl⟩ := Option.ne_none_iff_exists'.1 hne
    obtain ⟨hzero, hfree⟩ := hsome x rfl
    rw [hused x.toNat (toNat_pos hzero) x.isLt] at hfree
    cases hfree

end FlowTables

end SwiftRelay
