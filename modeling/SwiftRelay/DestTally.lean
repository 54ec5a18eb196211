/-
**Observing predicts enforcing.**

Before a list is enforced, it is observed: the policy forwards everything and counts what it would
have dropped.  The numbers can be relied on, because the two modes count alike.  Two policies built
from the same usable file, one observing and one enforcing, are given the same calls here; their
statistics then differ in nothing but the number of dropped packets.

The counters wrap around at `2 ^ 64`, and so do the sums of them below.

Main definitions:

* `DestCall`, `runCalls` — a call, and a sequence of them;
* `DestStats.unlisted`, `DestStats.samples` — all unlisted packets; all samples.

Main results:

* `Tallied.step` — the statistics after a number of unlisted packets;
* `Twins.permits`, `Twins.runCalls` — the two modes stay alike;
* `observe_predicts_enforce` — the comparison of the two modes.
-/

import Mathlib.Data.UInt
import Mathlib.Tactic.Abel
import SwiftRelay.Allowlist
import SwiftRelay.TableSum

set_option autoImplicit false

namespace SwiftRelay

open scoped UInt64.CommRing

/-- The arguments of a call of `permits`. -/
structure DestCall where
  protocol : UInt8
  dst : Ipv4Addr
  port : Option UInt16

namespace DestPolicy

/-- The answers to a sequence of calls, and the statistics after it. -/
def runCalls (policy : DestPolicy) : List DestCall → DestStats → List Bool × DestStats
  | [], stats => ([], stats)
  | call :: calls, stats =>
      let (answer, stats) := policy.permits call.protocol call.dst call.port stats
      let (answers, stats) := policy.runCalls calls stats
      (answer :: answers, stats)

end DestPolicy

namespace DestStats

/-- The three counters of unlisted packets. -/
def counters (stats : DestStats) : UInt64 × UInt64 × UInt64 :=
  (stats.udpUnlisted, stats.tcpUnlistedNetwork, stats.tcpUnlistedPort)

/-- All packets counted as unlisted. -/
def unlisted (stats : DestStats) : UInt64 :=
  stats.udpUnlisted + stats.tcpUnlistedNetwork + stats.tcpUnlistedPort

theorem unlisted_congr {stats stats' : DestStats} (h : stats.counters = stats'.counters) :
    stats.unlisted = stats'.unlisted :=
  congrArg (fun counters => counters.1 + counters.2.1 + counters.2.2) h

/-- All samples taken. -/
noncomputable def samples (stats : DestStats) : UInt64 :=
  stats.networks.sumBy id + stats.tcpPorts.sumBy id + stats.overflow

end DestStats

namespace DestPolicy

/-! ### One unlisted packet -/

theorem sumBy_bump {K : Type} [DecidableEq K] (map : Table K UInt64) (key : K) (overflow : UInt64) :
    (bump map key overflow).1.sumBy id + (bump map key overflow).2 =
      map.sumBy id + overflow + 1 := by
  unfold bump
  split
  · next count hcount =>
      rw [Table.sumBy_insert, ← Table.sumBy_erase id hcount]
      simp only [id_eq]
      abel
  · next hnone =>
      split
      · rw [Table.sumBy_insert_of_none id 1 hnone]
        simp only [id_eq]
        abel
      · exact (add_assoc _ _ _).symm

theorem size_bump {K : Type} [DecidableEq K] {map : Table K UInt64} (key : K) (overflow : UInt64)
    (h : map.size ≤ sampleCap) : (bump map key overflow).1.size ≤ sampleCap := by
  unfold bump
  split
  · next count hcount =>
      rw [Table.size_insert_of_some _ hcount]
      exact h
  · next hnone =>
      split
      · next hroom =>
          rw [Table.size_insert_of_none _ hnone]
          exact hroom
      · exact h

variable (policy : DestPolicy) (protocol : UInt8) (dst : Ipv4Addr) (port : Option UInt16)

theorem unlisted_countUnlisted (reason : Unlisted) (stats : DestStats) :
    (countUnlisted protocol reason stats).unlisted = stats.unlisted + 1 := by
  unfold countUnlisted DestStats.unlisted
  split
  · exact (add_assoc _ _ _).symm
  · split
    · simp only
      abel
    · simp only
      abel

/-- Counting and sampling do not look at the number of dropped packets. -/
theorem tally_countUnlisted_dropped (reason : Unlisted) (stats : DestStats) (dropped : UInt64) :
    policy.tally protocol dst port reason
        (countUnlisted protocol reason { stats with dropped }) =
      { policy.tally protocol dst port reason (countUnlisted protocol reason stats) with
        dropped } := by
  cases reason with
  | network =>
      unfold countUnlisted tally
      simp only
      split <;> simp only <;> split <;> rfl
  | port =>
      unfold countUnlisted tally
      cases port <;> simp only <;> split <;> rfl

/-- Sampling moves the tick, leaves the counters alone, and takes a sample when it is its turn. -/
theorem tally_eq (reason : Unlisted) (hport : reason = .port → port.isSome = true)
    (stats : DestStats) :
    (policy.tally protocol dst port reason stats).tick = stats.tick + 1 ∧
    (policy.tally protocol dst port reason stats).unlisted = stats.unlisted ∧
    (policy.tally protocol dst port reason stats).samples =
      stats.samples + if stats.tick % policy.sampleEvery = 0 then 1 else 0 := by
  unfold tally
  by_cases hsampled : stats.tick % policy.sampleEvery = 0
  · simp only [hsampled, if_true]
    split
    · refine ⟨rfl, rfl, ?_⟩
      have hsum := sumBy_bump stats.networks (protocol, dst.toBits &&& 0xFFFFFF00#32) stats.overflow
      simp only [DestStats.samples]
      rw [add_right_comm, hsum]
      abel
    · next port =>
        refine ⟨rfl, rfl, ?_⟩
        have hsum := sumBy_bump stats.tcpPorts port stats.overflow
        simp only [DestStats.samples]
        rw [add_assoc, hsum]
        abel
    · simp at hport
  · simp only [hsampled, if_false, add_zero]
    exact ⟨trivial, rfl, rfl⟩

theorem size_tally (reason : Unlisted) {stats : DestStats}
    (hnetworks : stats.networks.size ≤ sampleCap) (hports : stats.tcpPorts.size ≤ sampleCap) :
    (policy.tally protocol dst port reason stats).networks.size ≤ sampleCap ∧
    (policy.tally protocol dst port reason stats).tcpPorts.size ≤ sampleCap := by
  unfold tally
  simp only
  split
  · split
    · exact ⟨size_bump _ _ hnetworks, hports⟩
    · exact ⟨hnetworks, size_bump _ _ hports⟩
    · exact ⟨hnetworks, hports⟩
  · exact ⟨hnetworks, hports⟩

theorem countUnlisted_eq (reason : Unlisted) (stats : DestStats) :
    (countUnlisted protocol reason stats).tick = stats.tick ∧
    (countUnlisted protocol reason stats).samples = stats.samples ∧
    (countUnlisted protocol reason stats).networks = stats.networks ∧
    (countUnlisted protocol reason stats).tcpPorts = stats.tcpPorts := by
  unfold countUnlisted
  split
  · exact ⟨rfl, rfl, rfl, rfl⟩
  · split <;> exact ⟨rfl, rfl, rfl, rfl⟩

/-- A destination is unlisted for its port only if it has one. -/
theorem port_of_unlisted (h : policy.unlisted protocol dst port = some .port) :
    port.isSome = true := by
  unfold unlisted at h
  split at h
  · split at h
    · cases h
    · split at h
      · next hany => cases port <;> simp_all
      · cases h
  · split at h <;> cases h

end DestPolicy

/-! ### A number of unlisted packets -/

/-- The statistics after `n` unlisted packets. -/
structure Tallied (n : ℕ) (stats : DestStats) : Prop where
  tick : stats.tick = UInt64.ofNat n
  unlisted : stats.unlisted = UInt64.ofNat n
  samples : stats.samples = UInt64.ofNat ((n + 15) / 16)
  networks : stats.networks.size ≤ DestPolicy.sampleCap
  tcpPorts : stats.tcpPorts.size ≤ DestPolicy.sampleCap

theorem tallied_new : Tallied 0 .new :=
  ⟨rfl, rfl, rfl, Nat.zero_le _, Nat.zero_le _⟩

/-- Every sixteenth of the ticks that wrap around takes a sample. -/
theorem ofNat_mod_sixteen (n : ℕ) : UInt64.ofNat n % 16 = 0 ↔ n % 16 = 0 := by
  rw [← UInt64.toNat_inj]
  simp only [UInt64.toNat_mod, UInt64.toNat_ofNat', UInt64.reduceToNat]
  omega

theorem Tallied.step {n : ℕ} {stats : DestStats} (h : Tallied n stats) {policy : DestPolicy}
    (hsample : policy.sampleEvery = sampleEvery) {protocol : UInt8} {dst : Ipv4Addr}
    {port : Option UInt16} {reason : DestPolicy.Unlisted}
    (hreason : policy.unlisted protocol dst port = some reason) :
    Tallied (n + 1) (policy.tally protocol dst port reason
      (DestPolicy.countUnlisted protocol reason stats)) := by
  obtain ⟨htick, hsamples, hnetworks, hports⟩ := DestPolicy.countUnlisted_eq protocol reason stats
  obtain ⟨htick', hunlisted', hsamples'⟩ := policy.tally_eq protocol dst port reason
    (fun heq => policy.port_of_unlisted protocol dst port (heq ▸ hreason))
    (DestPolicy.countUnlisted protocol reason stats)
  obtain ⟨hsize, hsize'⟩ := policy.size_tally protocol dst port reason
    (hnetworks.symm ▸ h.networks) (hports.symm ▸ h.tcpPorts)
  refine ⟨?_, ?_, ?_, hsize, hsize'⟩
  · rw [htick', htick, h.tick, UInt64.ofNat_add]
    rfl
  · rw [hunlisted', DestPolicy.unlisted_countUnlisted, h.unlisted, UInt64.ofNat_add]
    rfl
  · rw [hsamples', hsamples, htick, h.samples, h.tick, hsample, sampleEvery]
    by_cases hn : n % 16 = 0
    · rw [if_pos ((ofNat_mod_sixteen n).2 hn),
        show (n + 1 + 15) / 16 = (n + 15) / 16 + 1 by omega, UInt64.ofNat_add]
      rfl
    · rw [if_neg fun h => hn ((ofNat_mod_sixteen n).1 h), add_zero,
        show (n + 1 + 15) / 16 = (n + 15) / 16 by omega]

/-! ### Two modes -/

/-- The statistics of an observing and of an enforcing policy after the same calls, `n` of them
unlisted. -/
structure Twins (n : ℕ) (observed enforced : DestStats) : Prop where
  tallied : Tallied n observed
  forwarded : observed.dropped = 0
  same : enforced = { observed with dropped := observed.unlisted }

section Twins

variable (udp tcp : NetSet) (tcpPorts : List UInt16) {n : ℕ} {observed enforced : DestStats}

/-- A policy with the given lists in the given mode. -/
abbrev policyIn (mode : DestPolicy.Mode) : DestPolicy :=
  ⟨mode, udp, tcp, tcpPorts, sampleEvery⟩

/-- A listed call changes nothing; an unlisted one is forwarded and dropped, and counted by both. -/
theorem Twins.permits (h : Twins n observed enforced) (call : DestCall) :
    ((policyIn udp tcp tcpPorts .observe).permits call.protocol call.dst call.port observed =
        (true, observed) ∧
      (policyIn udp tcp tcpPorts .enforce).permits call.protocol call.dst call.port enforced =
        (true, enforced)) ∨
    ∃ observed' enforced',
      (policyIn udp tcp tcpPorts .observe).permits call.protocol call.dst call.port observed =
        (true, observed') ∧
      (policyIn udp tcp tcpPorts .enforce).permits call.protocol call.dst call.port enforced =
        (false, enforced') ∧
      Twins (n + 1) observed' enforced' ∧ observed'.unlisted = observed.unlisted + 1 := by
  obtain ⟨htallied, hforwarded, rfl⟩ := h
  have hreason : (policyIn udp tcp tcpPorts .observe).unlisted call.protocol call.dst call.port =
    (policyIn udp tcp tcpPorts .enforce).unlisted call.protocol call.dst call.port := rfl
  unfold DestPolicy.permits
  simp only [reduceCtorEq, if_false, if_true, ← hreason]
  cases hcase : (policyIn udp tcp tcpPorts .observe).unlisted call.protocol call.dst call.port with
  | none => exact Or.inl ⟨rfl, rfl⟩
  | some reason =>
      refine Or.inr ⟨_, _, rfl, rfl, ?_⟩
      have hstep := htallied.step rfl hcase
      have hunlisted := (DestPolicy.tally_eq (policyIn udp tcp tcpPorts .observe) call.protocol
        call.dst call.port reason (fun heq => DestPolicy.port_of_unlisted _ _ _ _ (heq ▸ hcase))
        (DestPolicy.countUnlisted call.protocol reason observed)).2.1
      rw [DestPolicy.unlisted_countUnlisted] at hunlisted
      have hdropped := fun dropped => DestPolicy.tally_countUnlisted_dropped
        (policyIn udp tcp tcpPorts .observe) call.protocol call.dst call.port reason observed
        dropped
      refine ⟨⟨hstep, ?_, ?_⟩, hunlisted⟩
      · exact (congrArg DestStats.dropped (hdropped observed.dropped)).trans hforwarded
      · -- the mode plays no role in counting and sampling
        have hsame := hdropped observed.unlisted
        rw [hunlisted]
        exact congrArg (fun stats : DestStats => { stats with dropped := stats.dropped + 1 }) hsame

theorem Twins.runCalls (h : Twins n observed enforced) (calls : List DestCall) :
    Twins (n + ((policyIn udp tcp tcpPorts .enforce).runCalls calls enforced).1.count false)
      ((policyIn udp tcp tcpPorts .observe).runCalls calls observed).2
      ((policyIn udp tcp tcpPorts .enforce).runCalls calls enforced).2 := by
  induction calls generalizing n observed enforced with
  | nil => exact h
  | cons call calls ih =>
      rcases h.permits udp tcp tcpPorts call with
        ⟨ho, he⟩ | ⟨observed', enforced', ho, he, htwins, -⟩
      · simpa [DestPolicy.runCalls, ho, he] using ih h
      · simpa [DestPolicy.runCalls, ho, he, Nat.add_right_comm n 1, Nat.add_assoc] using ih htwins

end Twins

/-- **Observing predicts enforcing.**  After any calls that both policies were given, the next call
is refused by the enforcing one exactly if it raises a counter of unlisted packets in the observing
one; the counters and the tally agree; nothing was dropped while observing, and all unlisted packets
while enforcing; and of `n` unlisted calls every sixteenth, beginning with the first, has left one
sample, in maps that stay within their limit. -/
theorem observe_predicts_enforce {std : StdParsers} {file : Option (String × Except String String)}
    (h : Usable std file) (tcpPorts : List UInt16) (calls : List DestCall) :
    let observe := (DestPolicy.build std .observe file tcpPorts).toDestPolicy
    let enforce := (DestPolicy.build std .enforce file tcpPorts).toDestPolicy
    let observed := (observe.runCalls calls .new).2
    let enforced := (enforce.runCalls calls .new).2
    let refused := (enforce.runCalls calls .new).1.count false
    (∀ call : DestCall,
      (enforce.permits call.protocol call.dst call.port enforced).1 = false ↔
        (observe.permits call.protocol call.dst call.port observed).2.counters ≠
          observed.counters) ∧
    enforced.counters = observed.counters ∧
    (enforced.networks = observed.networks ∧ enforced.tcpPorts = observed.tcpPorts ∧
      enforced.overflow = observed.overflow) ∧
    observed.dropped = 0 ∧ enforced.dropped = enforced.unlisted ∧
    enforced.samples = UInt64.ofNat ((refused + 15) / 16) ∧
    enforced.networks.size ≤ DestPolicy.sampleCap ∧
    enforced.tcpPorts.size ≤ DestPolicy.sampleCap := by
  obtain ⟨path, text, rfl, hudp, htcp⟩ := h
  simp only [build_of_usable _ tcpPorts hudp htcp]
  have hnew : Twins 0 .new .new := ⟨tallied_new, rfl, rfl⟩
  have htwins := hnew.runCalls (.new (parseAllowlist std text).udp)
    (.new (parseAllowlist std text).tcp) tcpPorts calls
  rw [Nat.zero_add] at htwins
  refine ⟨fun call => ?_, ?_⟩
  · rcases htwins.permits (.new (parseAllowlist std text).udp)
      (.new (parseAllowlist std text).tcp) tcpPorts call with
      ⟨ho, he⟩ | ⟨observed', enforced', ho, he, -, hraised⟩
    · simp [ho, he]
    · simp only [ho, he, true_iff]
      intro hsame
      have hunlisted := DestStats.unlisted_congr hsame
      rw [hraised, add_eq_left] at hunlisted
      exact absurd hunlisted (by decide)
  · obtain ⟨htallied, hforwarded, hsame⟩ := htwins
    rw [hsame]
    exact ⟨rfl, ⟨rfl, rfl, rfl⟩, hforwarded, rfl, htallied.samples, htallied.networks,
      htallied.tcpPorts⟩

theorem runCalls_fst (policy : DestPolicy) (calls : List DestCall) (stats : DestStats) :
    (policy.runCalls calls stats).1 =
      calls.map fun call => (policy.permits call.protocol call.dst call.port .new).1 := by
  induction calls generalizing stats with
  | nil => rfl
  | cons call calls ih =>
      simp only [DestPolicy.runCalls, ih, DestPolicy.permits_fst, List.map_cons]

/-- Seventeen packets with UDP to a network that is listed for TCP, and one with TCP. -/
def sampleDestCalls : List DestCall :=
  List.replicate 17 ⟨17, ⟨8, 1, 2, 3⟩, none⟩ ++ [⟨6, ⟨8, 1, 2, 3⟩, some 443⟩]

/-- Those with UDP are dropped and leave two samples, and the counters are those of observing, where
nothing is dropped. -/
theorem observe_predicts_enforce_sample :
    Usable sampleStd (some ("list", .ok sampleAllowlist)) ∧
    let file := some ("list", .ok sampleAllowlist)
    let observed := (DestPolicy.build sampleStd .observe file [443]).runCalls sampleDestCalls .new
    let enforced := (DestPolicy.build sampleStd .enforce file [443]).runCalls sampleDestCalls .new
    enforced.1 = List.replicate 17 false ++ [true] ∧ enforced.2.counters = observed.2.counters ∧
      enforced.2.networks = observed.2.networks ∧ observed.2.dropped = 0 ∧
      enforced.2.dropped = enforced.2.unlisted ∧ enforced.2.samples = 2 := by
  have hudp : ∃ e ∈ validEntries sampleStd sampleAllowlist, e.udp = true := by
    simp [validEntries_sampleAllowlist]
  have htcp : ∃ e ∈ validEntries sampleStd sampleAllowlist, e.tcp = true := by
    simp [validEntries_sampleAllowlist]
  have hrefused : ((DestPolicy.build sampleStd .enforce (some ("list", .ok sampleAllowlist))
      [443]).permits 17 ⟨8, 1, 2, 3⟩ none .new).1 = false := by
    rw [Bool.eq_false_iff, Ne, permits_enforced_iff [443] 17 _ none .new hudp htcp,
      validEntries_sampleAllowlist]
    decide
  have hpermitted : ((DestPolicy.build sampleStd .enforce (some ("list", .ok sampleAllowlist))
      [443]).permits 6 ⟨8, 1, 2, 3⟩ (some 443) .new).1 = true := by
    rw [permits_enforced_iff [443] 6 _ (some 443) .new hudp htcp, validEntries_sampleAllowlist]
    exact Or.inr ⟨rfl, ⟨_, List.mem_cons_self, rfl, by decide⟩, by simp⟩
  have hanswers : ((DestPolicy.build sampleStd .enforce (some ("list", .ok sampleAllowlist))
      [443]).runCalls sampleDestCalls .new).1 = List.replicate 17 false ++ [true] := by
    simp [runCalls_fst, sampleDestCalls, hrefused, hpermitted]
  obtain ⟨-, hcounters, ⟨hnetworks, -⟩, hobserved, hdropped, hsamples, -⟩ :=
    observe_predicts_enforce ⟨"list", _, rfl, hudp, htcp⟩ [443] sampleDestCalls
  rw [hanswers] at hsamples
  exact ⟨⟨_, _, rfl, hudp, htcp⟩, hanswers, hcounters, hnetworks, hobserved, hdropped, hsamples⟩

end SwiftRelay
