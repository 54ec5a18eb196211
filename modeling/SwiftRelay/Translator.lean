/-
**Address translation.**

A translator sends what comes in under a key out through a handle of its own, a socket, and returns
what comes back on the handle to an endpoint that it keeps with the key.  The far side sees the
handle only, so whoever has sent through it has to be whom the answers go to.

Handles are numbered in the order in which they are taken, and none is taken twice.  That is enough
if the endpoint is a function of the key: then all that a handle has carried came from one endpoint,
and while the key is bound to the handle this is the endpoint that is kept with the key.

Main definitions:

* `Translator` — the bindings, how many handles were taken, and what each of them has carried;
* `Translator.Faithful` — a handle serves one key, and carries for the endpoint of the key only;
* `Translator.Moves` — what may happen in a step;
* `Translator.Serves` — the bound handles have carried something.

Main results:

* `Translator.Faithful.moves` — a step is one of these if a single key is bound anew;
* `Translator.Faithful.step`, `Translator.Serves.step` — the steps keep these properties;
* `Translator.Faithful.carried_eq` — what a handle has carried came from one endpoint;
* `Translator.Faithful.mem_carried` — answers go there.
-/

import Mathlib.Data.List.Basic

set_option autoImplicit false

/-- The handle and the endpoint of each key, how many handles were taken, and the endpoints for
which each handle has carried something. -/
structure Translator (κ ε : Type) where
  bound : κ → Option (ℕ × ε)
  taken : ℕ
  carried : ℕ → List ε

namespace Translator

variable {κ ε : Type} {inner : κ → ε} {T T' : Translator κ ε}

/-! ### One endpoint for each handle -/

/-- The endpoint of a key is the one that `inner` gives it, and no handle has two keys or has
carried anything for another endpoint than that of its key. -/
structure Faithful (inner : κ → ε) (T : Translator κ ε) : Prop where
  bound : ∀ key n e, T.bound key = some (n, e) → n < T.taken ∧ e = inner key
  unshared : ∀ key key' n e e', T.bound key = some (n, e) → T.bound key' = some (n, e') → key = key'
  carried : ∀ n, ∀ e ∈ T.carried n, n < T.taken ∧
    (∀ key e', T.bound key = some (n, e') → e = inner key) ∧ ∀ e' ∈ T.carried n, e = e'

/-- What may happen in a step: a key is bound to a handle that was not taken before, a binding goes
or gets an endpoint anew, a bound handle carries something. -/
structure Moves (inner : κ → ε) (T T' : Translator κ ε) : Prop where
  taken : T.taken ≤ T'.taken
  bound : ∀ key n e, T'.bound key = some (n, e) → n < T'.taken ∧ e = inner key ∧
    ((∃ e', T.bound key = some (n, e')) ∨ T.taken ≤ n)
  fresh : ∀ key key' n e e', T.taken ≤ n → T'.bound key = some (n, e) →
    T'.bound key' = some (n, e') → key = key'
  carried : ∀ n, ∀ e ∈ T'.carried n, e ∈ T.carried n ∨
    ∃ key e', T'.bound key = some (n, e') ∧ e = inner key

theorem Faithful.of_empty (hbound : ∀ key, T.bound key = none) (hcarried : ∀ n, T.carried n = []) :
    T.Faithful inner := by
  refine ⟨fun key n e hkey => ?_, fun key key' n e e' hkey => ?_, fun n e he => ?_⟩
  · cases (hbound key).symm.trans hkey
  · cases (hbound key).symm.trans hkey
  · rw [hcarried] at he
    cases he

/-- A step in which only one key, that with `c`, is bound to a new handle. -/
theorem Faithful.moves (hT : T.Faithful inner) (htaken : T.taken ≤ T'.taken) {c : κ → Prop}
    (hopens : ∀ key key', c key → c key' → key = key')
    (hbound : ∀ key n e, T'.bound key = some (n, e) →
      (c key ∧ n < T'.taken ∧ T.taken ≤ n ∧ e = inner key) ∨
        ∃ e', T.bound key = some (n, e') ∧ (e = e' ∨ e = inner key))
    (hcarried : ∀ n, ∀ e ∈ T'.carried n, e ∈ T.carried n ∨
      ∃ key e', T'.bound key = some (n, e') ∧ e = inner key) : T.Moves inner T' := by
  have hopened {key : κ} {n : ℕ} {e : ε} (hn : T.taken ≤ n) (hkey : T'.bound key = some (n, e)) :
      c key := by
    rcases hbound key n e hkey with ⟨hkey, -⟩ | ⟨e', hkey', -⟩
    · exact hkey
    · exact absurd (hT.bound key n e' hkey').1 (Nat.not_lt.2 hn)
  refine ⟨htaken, fun key n e hkey => ?_, fun key key' n e e' hn hkey hkey' =>
    hopens key key' (hopened hn hkey) (hopened hn hkey'), hcarried⟩
  rcases hbound key n e hkey with ⟨-, hlt, hn, he⟩ | ⟨e', hkey', he⟩
  · exact ⟨hlt, he, .inr hn⟩
  · obtain ⟨hn, he'⟩ := hT.bound key n e' hkey'
    exact ⟨Nat.lt_of_lt_of_le hn htaken, he.elim (fun he => he.trans he') id, .inl ⟨e', hkey'⟩⟩

/-- A handle that was taken before is bound as it was. -/
theorem Moves.bound_of_lt (h : T.Moves inner T') {key : κ} {n : ℕ} {e : ε} (hn : n < T.taken)
    (hkey : T'.bound key = some (n, e)) : ∃ e', T.bound key = some (n, e') :=
  (h.bound key n e hkey).2.2.resolve_right (Nat.not_le.2 hn)

/-- **A step keeps the translation faithful.** -/
theorem Faithful.step (hT : T.Faithful inner) (h : T.Moves inner T') : T'.Faithful inner := by
  have hunshared (key key' : κ) (n : ℕ) (e e' : ε) (hkey : T'.bound key = some (n, e))
      (hkey' : T'.bound key' = some (n, e')) : key = key' := by
    by_cases hn : n < T.taken
    · obtain ⟨e₀, hkey⟩ := h.bound_of_lt hn hkey
      obtain ⟨e₀', hkey'⟩ := h.bound_of_lt hn hkey'
      exact hT.unshared key key' n e₀ e₀' hkey hkey'
    · exact h.fresh key key' n e e' (Nat.not_lt.1 hn) hkey hkey'
  -- what was carried before belongs to the key that has the handle now
  have hbefore (n : ℕ) (e : ε) (he : e ∈ T.carried n) (key : κ) (e' : ε)
      (hkey : T'.bound key = some (n, e')) : e = inner key := by
    obtain ⟨hn, hbound, -⟩ := hT.carried n e he
    obtain ⟨e₀, hkey⟩ := h.bound_of_lt hn hkey
    exact hbound key e₀ hkey
  refine ⟨fun key n e hkey => ?_, hunshared, fun n e he => ?_⟩
  · obtain ⟨hn, hinner, -⟩ := h.bound key n e hkey
    exact ⟨hn, hinner⟩
  · rcases h.carried n e he with hold | ⟨key₀, e₀, hkey₀, rfl⟩
    · obtain ⟨hn, -, hone⟩ := hT.carried n e hold
      refine ⟨Nat.lt_of_lt_of_le hn h.taken, hbefore n e hold, fun e' he' => ?_⟩
      rcases h.carried n e' he' with hold' | ⟨key, e₁, hkey, rfl⟩
      · exact hone e' hold'
      · exact hbefore n e hold key e₁ hkey
    · refine ⟨(h.bound key₀ n e₀ hkey₀).1, fun key e' hkey => ?_, fun e' he' => ?_⟩
      · rw [hunshared key₀ key n e₀ e' hkey₀ hkey]
      · rcases h.carried n e' he' with hold' | ⟨key, e₁, hkey, rfl⟩
        · exact (hbefore n e' hold' key₀ e₀ hkey₀).symm
        · rw [hunshared key₀ key n e₀ e₁ hkey₀ hkey]

/-- **What a handle has carried came from one endpoint.** -/
theorem Faithful.carried_eq (hT : T.Faithful inner) {n : ℕ} {e e' : ε} (he : e ∈ T.carried n)
    (he' : e' ∈ T.carried n) : e = e' :=
  (hT.carried n e he).2.2 e' he'

/-! ### Handles that have carried something -/

/-- The handles of the keys in question have carried something. -/
def Serves (φ : κ → Prop) (T : Translator κ ε) : Prop :=
  ∀ key n e, φ key → T.bound key = some (n, e) → T.carried n ≠ []

theorem Serves.of_empty {φ : κ → Prop} (hbound : ∀ key, T.bound key = none) : T.Serves φ := by
  intro key n e _ hkey
  cases (hbound key).symm.trans hkey

theorem Serves.step {φ φ' : κ → Prop} (hT : T.Serves φ)
    (hbound : ∀ key n e, φ' key → T'.bound key = some (n, e) →
      (φ key ∧ ∃ e', T.bound key = some (n, e')) ∨ T'.carried n ≠ [])
    (hcarried : ∀ n, T.carried n ≠ [] → T'.carried n ≠ []) : T'.Serves φ' := by
  intro key n e hφ hkey
  rcases hbound key n e hφ hkey with ⟨hφ, e', hkey⟩ | hn
  · exact hcarried n (hT key n e' hφ hkey)
  · exact hn

/-- **Answers go to the endpoint for which the handle has carried something.** -/
theorem Faithful.mem_carried (hT : T.Faithful inner) {φ : κ → Prop} (hserves : T.Serves φ) {key : κ}
    {n : ℕ} {e : ε} (hφ : φ key) (hkey : T.bound key = some (n, e)) : e ∈ T.carried n := by
  obtain ⟨e', he'⟩ := List.exists_mem_of_ne_nil _ (hserves key n e hφ hkey)
  rw [(hT.bound key n e hkey).2, ← (hT.carried n e' he').2.1 key e hkey]
  exact he'

end Translator
