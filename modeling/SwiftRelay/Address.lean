/-
**Addresses, session identifiers and clocks.**

The names that every part of the relay passes around.  The relay binds IPv4 sockets only, so an
address is an IPv4 address; a session identifier is the eight bytes in front of every frame, which
the code reads as a big-endian word whenever it needs a number or a text.

Main definitions:

* `Ipv4Addr`, `SocketAddr` — addresses and endpoints;
* `SessionId`, `formatHex016` — session identifiers and their printed form;
* `fromBeBytes`, `toBeBytes` — numbers in network order;
* `Instant`, `secs`, `millis` — the monotonic clock.

Main results:

* `fromBeBytes_toBeBytes`, `toBeBytes_fromBeBytes` — a number that was written is read back, and one
  that was read is written back as it was.
-/

import Mathlib.Algebra.Ring.Nat
import Mathlib.Data.List.Induction
import Mathlib.Data.Nat.Basic
import Mathlib.Tactic.Common

set_option autoImplicit false

namespace SwiftRelay

/-! ### Addresses -/

/-- An IPv4 address, by its four octets. -/
structure Ipv4Addr where
  a : UInt8
  b : UInt8
  c : UInt8
  d : UInt8
  deriving DecidableEq, Repr

namespace Ipv4Addr

/-- The octets in network order. -/
def octets (ip : Ipv4Addr) : List UInt8 := [ip.a, ip.b, ip.c, ip.d]

/-- The address as a 32-bit number, first octet most significant. -/
def toBits (ip : Ipv4Addr) : BitVec 32 :=
  ip.a.toBitVec ++ ip.b.toBitVec ++ ip.c.toBitVec ++ ip.d.toBitVec

/-- The printed form: four decimal numbers separated by dots. -/
def toText (ip : Ipv4Addr) : String :=
  ".".intercalate (ip.octets.map fun o => toString o.toNat)

end Ipv4Addr

/-- An endpoint: address and port. -/
structure SocketAddr where
  ip : Ipv4Addr
  port : UInt16
  deriving DecidableEq, Repr

/-! ### Session identifiers -/

/-- The number of bytes of a session identifier. -/
def sessionIdLen : ℕ := 8

/-- A session identifier, as the big-endian number of its eight bytes. -/
abbrev SessionId := UInt64

/-- The number written by a list of bytes, first byte most significant. -/
def fromBeBytes (bytes : List UInt8) : ℕ := bytes.foldl (fun n x => n * 256 + x.toNat) 0

/-- A number in `w` bytes, first byte most significant. -/
def toBeBytes (n w : ℕ) : List UInt8 :=
  (List.range w).map fun i => UInt8.ofNat (n / 256 ^ (w - 1 - i))

theorem toBeBytes_succ (n w : ℕ) :
    toBeBytes n (w + 1) = toBeBytes (n / 256) w ++ [UInt8.ofNat n] := by
  have hfront (i : ℕ) (hi : i ∈ List.range w) :
      UInt8.ofNat (n / 256 ^ (w + 1 - 1 - i)) = UInt8.ofNat (n / 256 / 256 ^ (w - 1 - i)) := by
    have hw : w + 1 - 1 - i = w - 1 - i + 1 := by
      have := List.mem_range.1 hi
      omega
    rw [Nat.div_div_eq_div_mul, hw, Nat.pow_succ']
  rw [toBeBytes, List.range_succ, List.map_append, List.map_congr_left hfront]
  simp [toBeBytes]

theorem fromBeBytes_concat (bytes : List UInt8) (x : UInt8) :
    fromBeBytes (bytes ++ [x]) = fromBeBytes bytes * 256 + x.toNat := by
  simp [fromBeBytes]

theorem fromBeBytes_lt (bytes : List UInt8) : fromBeBytes bytes < 256 ^ bytes.length := by
  induction bytes using List.reverseRecOn with
  | nil => exact Nat.one_pos
  | append_singleton bytes x ih =>
      have hx := x.toNat_lt
      rw [fromBeBytes_concat, List.length_append, List.length_singleton, Nat.pow_succ]
      omega

theorem fromBeBytes_toBeBytes {n w : ℕ} (h : n < 256 ^ w) : fromBeBytes (toBeBytes n w) = n := by
  induction w generalizing n with
  | zero =>
      rw [Nat.pow_zero] at h
      exact (Nat.lt_one_iff.1 h).symm
  | succ w ih =>
      have hn : n / 256 < 256 ^ w := Nat.div_lt_of_lt_mul (by rwa [Nat.pow_succ'] at h)
      rw [toBeBytes_succ, fromBeBytes_concat, ih hn, UInt8.toNat_ofNat']
      omega

theorem toBeBytes_fromBeBytes (bytes : List UInt8) :
    toBeBytes (fromBeBytes bytes) bytes.length = bytes := by
  induction bytes using List.reverseRecOn with
  | nil => rfl
  | append_singleton bytes x ih =>
      have hx := x.toNat_lt
      have hlast : UInt8.ofNat (fromBeBytes bytes * 256 + x.toNat) = x := by
        refine UInt8.toNat_inj.1 ?_
        rw [UInt8.toNat_ofNat']
        omega
      rw [List.length_append, List.length_singleton, fromBeBytes_concat, toBeBytes_succ, hlast,
        show (fromBeBytes bytes * 256 + x.toNat) / 256 = fromBeBytes bytes by omega, ih]

/-- The session identifier in front of a frame. -/
def sessionIdOf (frame : List UInt8) : SessionId :=
  UInt64.ofNat (fromBeBytes (frame.take sessionIdLen))

/-- The eight bytes of a session identifier. -/
def sessionIdBytes (sid : SessionId) : List UInt8 :=
  (List.range sessionIdLen).map fun i => UInt8.ofNat (sid.toNat / 256 ^ (7 - i))

/-- A lower-case hexadecimal digit. -/
def hexDigit (n : ℕ) : Char :=
  if n < 10 then Char.ofNat (48 + n) else Char.ofNat (87 + n)

/-- The sixteen hexadecimal digits of a word, as `{:016x}` prints them. -/
def formatHex016 (sid : SessionId) : String :=
  String.ofList ((List.range 16).map fun i => hexDigit (sid.toNat / 16 ^ (15 - i) % 16))

example : formatHex016 0x0123456789abcdef = "0123456789abcdef" := by decide

/-! ### Clocks -/

/-- A reading of the monotonic clock, in nanoseconds. -/
abbrev Instant := ℕ

/-- A number of seconds as a duration. -/
def secs (n : ℕ) : ℕ := n * 1000000000

/-- A number of milliseconds as a duration. -/
def millis (n : ℕ) : ℕ := n * 1000000

/-- How long after `earlier` the reading `now` was taken, and zero if it was taken before it. -/
def durationSince (now earlier : Instant) : ℕ := now - earlier

end SwiftRelay
