/-
**Lossy decoding of UTF-8.**

Bytes that are not UTF-8 can still be read as text: every maximal part that could have been the
beginning of a character, but is not continued as one, is read as the replacement character.  No
such part swallows an ASCII byte, and no character of several bytes is an ASCII character.  So ASCII
characters of the text stand for the same bytes, and cut the bytes where they cut the text.

Main definitions:

* `Utf8.next` — the first character, and how many bytes it takes behind the first one;
* `Utf8.lossy` — the text.

Main results:

* `Utf8.next_ascii` — an ASCII character is its own byte;
* `Utf8.lossy_eq_append` — cutting the text at an ASCII character cuts the bytes.
-/

import Mathlib.Tactic.Common

set_option autoImplicit false

namespace Utf8

/-! ### Decoding -/

/-- A byte that continues a character. -/
def isContinuation (b : UInt8) : Bool := 0x80 ≤ b && b ≤ 0xBF

/-- The second bytes that a character of three bytes may have. -/
def secondOfThree (b x : UInt8) : Bool :=
  (b = 0xE0 && 0xA0 ≤ x && x ≤ 0xBF) || (0xE1 ≤ b && b ≤ 0xEC && 0x80 ≤ x && x ≤ 0xBF)
    || (b = 0xED && 0x80 ≤ x && x ≤ 0x9F) || (0xEE ≤ b && b ≤ 0xEF && 0x80 ≤ x && x ≤ 0xBF)

/-- The second bytes that a character of four bytes may have. -/
def secondOfFour (b x : UInt8) : Bool :=
  (b = 0xF0 && 0x90 ≤ x && x ≤ 0xBF) || (0xF1 ≤ b && b ≤ 0xF3 && 0x80 ≤ x && x ≤ 0xBF)
    || (b = 0xF4 && 0x80 ≤ x && x ≤ 0x8F)

def replacement : Char := Char.ofNat 0xFFFD

/-- The low six bits of a continuation byte. -/
def payload (b : UInt8) : ℕ := b.toNat % 64

/-- The first character of a text that begins with `b`, and the number of bytes behind `b` that
belong to it.  Where the text ends early, a byte that continues nothing is read. -/
def next (b : UInt8) (rest : List UInt8) : Char × ℕ :=
  let x := rest.getD 0 0
  let y := rest.getD 1 0
  let z := rest.getD 2 0
  if b < 0x80 then (Char.ofNat b.toNat, 0)
  else if 0xC2 ≤ b && b ≤ 0xDF then
    if !isContinuation x then (replacement, 0)
    else (Char.ofNat (b.toNat % 32 * 64 + payload x), 1)
  else if 0xE0 ≤ b && b ≤ 0xEF then
    if !secondOfThree b x then (replacement, 0)
    else if !isContinuation y then (replacement, 1)
    else (Char.ofNat (b.toNat % 16 * 4096 + payload x * 64 + payload y), 2)
  else if 0xF0 ≤ b && b ≤ 0xF4 then
    if !secondOfFour b x then (replacement, 0)
    else if !isContinuation y then (replacement, 1)
    else if !isContinuation z then (replacement, 2)
    else
      (Char.ofNat (b.toNat % 8 * 262144 + payload x * 4096 + payload y * 64 + payload z), 3)
  else (replacement, 0)

/-- The text of the bytes behind the next `skip` ones. -/
def lossyFrom : ℕ → List UInt8 → List Char
  | _, [] => []
  | skip + 1, _ :: rest => lossyFrom skip rest
  | 0, b :: rest => (next b rest).1 :: lossyFrom (next b rest).2 rest

def lossy (bytes : List UInt8) : List Char := lossyFrom 0 bytes

example : lossy [0x47, 0xC3, 0xA9, 0xE2, 0x82, 0x0D, 0xF0, 0x9F, 0x98, 0x80] =
    ['G', 'é', replacement, '\r', '😀'] := by decide

/-! ### ASCII characters -/

section Ascii

variable {b x y z : UInt8} {rest : List UInt8} {c : Char}

theorem toNat_ofNat {n : ℕ} (h : n.isValidChar) : (Char.ofNat n).toNat = n := by
  rw [Char.ofNat, dif_pos h]
  rfl

theorem le_toNat_replacement : 0x80 ≤ replacement.toNat := by decide

theorem le_toNat_two (h : (0xC2 ≤ b && b ≤ 0xDF) = true) :
    0x80 ≤ (Char.ofNat (b.toNat % 32 * 64 + payload x)).toNat := by
  have hpayload : payload x < 64 := Nat.mod_lt _ (by decide)
  simp only [Bool.and_eq_true, decide_eq_true_eq, UInt8.le_iff_toNat_le, UInt8.reduceToNat] at h
  rw [toNat_ofNat (.inl (by omega))]
  omega

theorem le_toNat_three (h : secondOfThree b x = true) :
    0x80 ≤ (Char.ofNat (b.toNat % 16 * 4096 + payload x * 64 + payload y)).toNat := by
  have hpayload : payload y < 64 := Nat.mod_lt _ (by decide)
  simp only [secondOfThree, Bool.or_eq_true, Bool.and_eq_true, decide_eq_true_eq,
    UInt8.le_iff_toNat_le, ← UInt8.toNat_inj, UInt8.reduceToNat] at h
  have hbounds : 0x800 ≤ b.toNat % 16 * 4096 + payload x * 64 ∧
      (b.toNat % 16 * 4096 + payload x * 64 + 63 < 0xD800 ∨
        0xDFFF < b.toNat % 16 * 4096 + payload x * 64) ∧
      b.toNat % 16 * 4096 + payload x * 64 + 63 < 0x10000 := by
    rw [payload]
    omega
  have hvalid : (b.toNat % 16 * 4096 + payload x * 64 + payload y).isValidChar := by
    unfold Nat.isValidChar
    omega
  rw [toNat_ofNat hvalid]
  omega

theorem le_toNat_four (h : secondOfFour b x = true) :
    0x80 ≤ (Char.ofNat (b.toNat % 8 * 262144 + payload x * 4096 + payload y * 64 +
      payload z)).toNat := by
  have hy : payload y < 64 := Nat.mod_lt _ (by decide)
  have hz : payload z < 64 := Nat.mod_lt _ (by decide)
  simp only [secondOfFour, Bool.or_eq_true, Bool.and_eq_true, decide_eq_true_eq,
    UInt8.le_iff_toNat_le, ← UInt8.toNat_inj, UInt8.reduceToNat] at h
  have hbounds : 0x10000 ≤ b.toNat % 8 * 262144 + payload x * 4096 ∧
      b.toNat % 8 * 262144 + payload x * 4096 + 4095 < 0x110000 := by
    rw [payload]
    omega
  have hvalid : (b.toNat % 8 * 262144 + payload x * 4096 + payload y * 64 +
      payload z).isValidChar := by
    unfold Nat.isValidChar
    omega
  rw [toNat_ofNat hvalid]
  omega

/-- **An ASCII character is its own byte.** -/
theorem next_ascii (h : (next b rest).1.toNat < 0x80) :
    b.toNat = (next b rest).1.toNat ∧ (next b rest).2 = 0 := by
  have hrep : ¬ replacement.toNat < 0x80 := Nat.not_lt.2 le_toNat_replacement
  simp only [next] at h ⊢
  split at h
  · next hb =>
      rw [if_pos hb]
      have hlt : b.toNat < 0x80 := UInt8.lt_iff_toNat_lt.1 hb
      rw [toNat_ofNat (.inl (by omega))]
      exact ⟨rfl, rfl⟩
  · exfalso
    split at h
    · next hb =>
        split at h
        · exact hrep h
        · exact absurd h (Nat.not_lt.2 (le_toNat_two hb))
    · split at h
      · split at h
        · exact hrep h
        · next hsecond =>
            split at h
            · exact hrep h
            · exact absurd h (Nat.not_lt.2 (le_toNat_three (by simpa using hsecond)))
      · split at h
        · split at h
          · exact hrep h
          · next hsecond =>
              split at h
              · exact hrep h
              · split at h
                · exact hrep h
                · exact absurd h (Nat.not_lt.2 (le_toNat_four (by simpa using hsecond)))
        · exact hrep h

theorem lossyFrom_eq (skip : ℕ) (bytes : List UInt8) :
    lossyFrom skip bytes = lossy (bytes.drop skip) := by
  induction bytes generalizing skip with
  | nil =>
      rw [List.drop_nil]
      cases skip <;> rfl
  | cons b rest ih =>
      cases skip with
      | zero => rfl
      | succ skip => exact ih skip

theorem lossy_cons : lossy (b :: rest) =
    (next b rest).1 :: lossy (rest.drop (next b rest).2) := by
  rw [← lossyFrom_eq]
  rfl

theorem lossy_eq_cons {bytes : List UInt8} {text : List Char} (hc : c.toNat < 0x80)
    (h : lossy bytes = c :: text) :
    ∃ rest, bytes = UInt8.ofNat c.toNat :: rest ∧ lossy rest = text := by
  cases bytes with
  | nil => cases h
  | cons b rest =>
      rw [lossy_cons] at h
      obtain ⟨rfl, htext⟩ := List.cons.inj h
      obtain ⟨hb, hskip⟩ := next_ascii hc
      rw [hskip, List.drop_zero] at htext
      refine ⟨rest, ?_, htext⟩
      rw [← hb, UInt8.ofNat_toNat]

/-- **Cutting the text at an ASCII character cuts the bytes.** -/
theorem lossy_eq_append {bytes : List UInt8} {front text : List Char} (hc : c.toNat < 0x80)
    (h : lossy bytes = front ++ c :: text) :
    ∃ before rest, bytes = before ++ UInt8.ofNat c.toNat :: rest ∧ lossy rest = text := by
  induction front generalizing bytes with
  | nil =>
      obtain ⟨rest, hbytes, htext⟩ := lossy_eq_cons hc h
      exact ⟨[], rest, hbytes, htext⟩
  | cons first front ih =>
      cases bytes with
      | nil => cases h
      | cons b bytes =>
          rw [lossy_cons] at h
          obtain ⟨-, htail⟩ := List.cons.inj h
          obtain ⟨before, rest, hdrop, htext⟩ := ih htail
          refine ⟨b :: (bytes.take (next b bytes).2 ++ before), rest, ?_, htext⟩
          rw [List.cons_append, List.append_assoc, ← hdrop, List.take_append_drop]

end Ascii

end Utf8
