/-
**Which TUN address a session gets.**

The address of a session in the network of the TUN device is made from its identifier: each of its
four pairs of bytes stands for an address, and the session gets the first one that is usable.  The
first and the last address of the network are left out, and so are addresses that belong to another
session.  But the address of the device itself, 10.200.0.1, is not left out: a session whose
identifier has the pair 0, 1 can get it.

Main definitions:

* `pairIp`, `usable` — the candidates, and which of them are taken;
* `AddressSound` — a choice of an address that is sound and complete;
* `OwnAddressAvoided` — the address of the device is not the first usable one.

Main results:

* `run_assignSessionIp` — the first usable candidate is taken;
* `address_sound_iff` — the choice is sound if and only if the address of the device is avoided;
* `own_address_assigned` — a session that gets the address of the device.
-/

import SwiftRelay.TunSessions

set_option autoImplicit false

namespace SwiftRelay

open Conc

/-- The address of the TUN device, `TUN_INTERFACE_CIDR`. -/
def tunInterfaceIp : Ipv4Addr := ⟨10, 200, 0, 1⟩

/-- The first and the last address of the network 10.200.0.0/16. -/
def tunNetworkIp : Ipv4Addr := ⟨10, 200, 0, 0⟩

@[inherit_doc tunNetworkIp]
def tunBroadcastIp : Ipv4Addr := ⟨10, 200, 255, 255⟩

section Choice

variable (map : Table Ipv4Addr SessionMapping) (sid : SessionId)

/-- The address that a pair of bytes of the session identifier stands for. -/
def pairIp (pairIdx : ℕ) : Ipv4Addr :=
  ⟨10, 200, byteAt (sessionIdBytes sid) (pairIdx * 2),
    byteAt (sessionIdBytes sid) (pairIdx * 2 + 1)⟩

/-- The address belongs to another session. -/
def heldByOther (ip : Ipv4Addr) : Bool := (map.lookup ip).any fun m => m.sessionId ≠ sid

/-- The candidate is neither the first nor the last address and belongs to no other session. -/
def usable (pairIdx : ℕ) : Bool :=
  pairIp sid pairIdx ≠ tunNetworkIp && pairIp sid pairIdx ≠ tunBroadcastIp &&
    !heldByOther map sid (pairIp sid pairIdx)

/-- What a choice of an address for the session has to satisfy. -/
structure AddressSound (choice : Option Ipv4Addr) : Prop where
  sound : ∀ ip, choice = some ip → ip.a = 10 ∧ ip.b = 200 ∧ ip ≠ tunNetworkIp ∧
    ip ≠ tunBroadcastIp ∧ ip ≠ tunInterfaceIp ∧ heldByOther map sid ip = false
  complete : choice = none → ∀ i < 4, pairIp sid i = tunNetworkIp ∨ pairIp sid i = tunBroadcastIp ∨
    pairIp sid i = tunInterfaceIp ∨ heldByOther map sid (pairIp sid i) = true

/-- Where a pair stands for the address of the device, that address belongs to another session or an
earlier pair is usable. -/
def OwnAddressAvoided : Prop :=
  ∀ i < 4, pairIp sid i = tunInterfaceIp →
    heldByOther map sid tunInterfaceIp = true ∨ ∃ j < i, usable map sid j = true

variable {map sid}

theorem candidateIp_eq (pairIdx : ℕ) : candidateIp sid pairIdx =
    if pairIp sid pairIdx = tunNetworkIp ∨ pairIp sid pairIdx = tunBroadcastIp then none
    else some (pairIp sid pairIdx) := by
  simp [candidateIp, pairIp, tunNetworkIp, tunBroadcastIp]

/-- The first usable candidate is taken, and nothing is changed. -/
theorem run_firstFree (env : TunEnv) (t : TunTid) (s : TunState) (pairs : List ℕ) :
    (firstFree sid pairs).run (tunSystem env) t s =
      some ((pairs.find? (usable s.ipToSession sid)).map (pairIp sid), s) := by
  induction pairs with
  | nil => rfl
  | cons pairIdx rest ih =>
      rw [firstFree, candidateIp_eq, List.find?_cons]
      split_ifs with hreserved
      · have hskip : usable s.ipToSession sid pairIdx = false := by
          rcases hreserved with h | h <;> simp [usable, h]
        rw [hskip]
        exact ih
      · push Not at hreserved
        have hfree : usable s.ipToSession sid pairIdx =
            !heldByOther s.ipToSession sid (pairIp sid pairIdx) := by
          simp [usable, hreserved]
        rw [hfree]
        -- the collision check reads the reverse map once
        simp only [tun_eq, Prog.op_bind, Prog.run_op]
        change Prog.run (tunSystem env) t (if (!heldByOther s.ipToSession sid
          (pairIp sid pairIdx)) = true then _ else _) s = _
        cases heldByOther s.ipToSession sid (pairIp sid pairIdx) with
        | false => rfl
        | true => exact ih

theorem run_assignSessionIp (env : TunEnv) (t : TunTid) (s : TunState) :
    (assignSessionIp sid).run (tunSystem env) t s =
      some (((List.range 4).find? (usable s.ipToSession sid)).map (pairIp sid), s) :=
  run_firstFree env t s (List.range 4)

/-! ### Soundness -/

theorem usable_iff (i : ℕ) : usable map sid i = true ↔ pairIp sid i ≠ tunNetworkIp ∧
    pairIp sid i ≠ tunBroadcastIp ∧ heldByOther map sid (pairIp sid i) = false := by
  simp [usable, and_assoc]

/-- The address of the device is usable unless it belongs to another session. -/
theorem usable_of_own {i : ℕ} (hown : pairIp sid i = tunInterfaceIp)
    (hheld : heldByOther map sid tunInterfaceIp = false) : usable map sid i = true := by
  refine (usable_iff i).2 ?_
  rw [hown]
  exact ⟨by decide, by decide, hheld⟩

/-- Whatever is chosen, everything but the address of the device is as it should be. -/
theorem addressSound_of_ne
    (hne : ∀ i, (List.range 4).find? (usable map sid) = some i → pairIp sid i ≠ tunInterfaceIp) :
    AddressSound map sid (((List.range 4).find? (usable map sid)).map (pairIp sid)) where
  sound := by
    intro ip hchoice
    obtain ⟨i, hi, rfl⟩ := Option.map_eq_some_iff.1 hchoice
    obtain ⟨hnet, hbroad, hheld⟩ := (usable_iff i).1 (List.find?_some hi)
    exact ⟨rfl, rfl, hnet, hbroad, hne i hi, hheld⟩
  complete := by
    intro hchoice i hi
    have hnone : (List.range 4).find? (usable map sid) = none := Option.map_eq_none_iff.1 hchoice
    have hunusable := List.find?_eq_none.1 hnone i (List.mem_range.2 hi)
    rw [usable_iff] at hunusable
    by_contra hcon
    push Not at hcon
    obtain ⟨hnet, hbroad, -, hheld⟩ := hcon
    exact hunusable ⟨hnet, hbroad, by simpa using hheld⟩

end Choice

/-- The address chosen for a session is sound and complete if and only if, where a pair of bytes
stands for the address of the device, that address belongs to another session or an earlier pair is
usable. -/
theorem address_sound_iff (env : TunEnv) (t : TunTid) (s : TunState) (sid : SessionId) :
    (∃ choice, (assignSessionIp sid).run (tunSystem env) t s = some (choice, s) ∧
      AddressSound s.ipToSession sid choice) ↔ OwnAddressAvoided s.ipToSession sid := by
  rw [run_assignSessionIp]
  constructor
  · rintro ⟨choice, hrun, hsound⟩ i hi hown
    obtain ⟨rfl, -⟩ := Prod.mk.inj (Option.some.inj hrun)
    by_contra hcon
    push Not at hcon
    obtain ⟨hheld, hearlier⟩ := hcon
    -- nothing before it is usable, so the address of the device is the one that is found
    have hfind : (List.range 4).find? (usable s.ipToSession sid) = some i :=
      List.find?_range_eq_some.2 ⟨usable_of_own hown (by simpa using hheld), List.mem_range.2 hi,
        fun j hj => by simpa using hearlier j hj⟩
    refine (hsound.sound tunInterfaceIp ?_).2.2.2.2.1 rfl
    rw [hfind, Option.map_some, hown]
  · intro havoided
    refine ⟨_, rfl, addressSound_of_ne fun i hfind hown => ?_⟩
    obtain ⟨husable, hi, hearlier⟩ := List.find?_range_eq_some.1 hfind
    rcases havoided i (List.mem_range.1 hi) hown with hheld | ⟨j, hj, hfree⟩
    · rw [← hown, ((usable_iff i).1 husable).2.2] at hheld
      exact Bool.false_ne_true hheld
    · have hskipped := hearlier j hj
      rw [hfree] at hskipped
      exact Bool.false_ne_true hskipped

/-- The identifier that begins with the bytes 0, 1. -/
def ownAddressSid : SessionId := 0x0001000000000000

/-- With no other session, this identifier gets the address of the device. -/
theorem own_address_assigned :
    (assignSessionIp ownAddressSid).run (tunSystem sampleTunEnv) .writer .new =
        some (some tunInterfaceIp, .new) ∧
      ¬ AddressSound TunState.new.ipToSession ownAddressSid (some tunInterfaceIp) := by
  refine ⟨?_, fun hsound => (hsound.sound _ rfl).2.2.2.2.1 rfl⟩
  have hfind : (List.range 4).find? (usable TunState.new.ipToSession ownAddressSid) = some 0 := by
    decide
  have hpair : pairIp ownAddressSid 0 = tunInterfaceIp := by decide
  rw [run_assignSessionIp, hfind, Option.map_some, hpair]

end SwiftRelay
