/-
**JSON strings.**

A JSON string (RFC 8259, section 7) is a sequence of characters between quotation marks.  A
character stands for itself, unless it is a quotation mark, a backslash or a control character; the
others are written as an escape of two characters, or as `\u` and four hexadecimal digits.  The
digits are a code unit of UTF-16, so a character beyond the Basic Multilingual Plane takes two of
these escapes, and not every well-formed string stands for a text.

Reading a string is therefore done in two steps: from the characters to code points and code units,
which succeeds exactly on the well-formed strings, and from these to characters, which fails on a
surrogate that has no partner.

Main definitions:

* `JsonString.Item`, `JsonString.Items`, `JsonString.IsString` — the grammar;
* `JsonString.units`, `JsonString.scalars`, `JsonString.decode` — reading a string;
* `JsonString.Writes` — a text that is read as one given character, whatever follows.

Main results:

* `JsonString.items_iff_units_isSome` — what is read is what the grammar derives;
* `JsonString.Items.space_le` — no control character stands in a string;
* `JsonString.isString_flatMap`, `JsonString.decode_flatMap` — a text that is written character by
  character is well formed, and read as it was.
-/

import Mathlib.Tactic.Common

set_option autoImplicit false

namespace JsonString

/-! ### The grammar -/

/-- `unescaped = %x20-21 / %x23-5B / %x5D-10FFFF`. -/
def unescaped (c : Char) : Bool :=
  (0x20 ≤ c.toNat && c.toNat ≤ 0x21) || (0x23 ≤ c.toNat && c.toNat ≤ 0x5B)
    || (0x5D ≤ c.toNat && c.toNat ≤ 0x10FFFF)

/-- The code point that a backslash and one more character stand for. -/
def escaped (c : Char) : Option ℕ :=
  if c = '"' then some 0x22
  else if c = '\\' then some 0x5C
  else if c = '/' then some 0x2F
  else if c = 'b' then some 0x08
  else if c = 'f' then some 0x0C
  else if c = 'n' then some 0x0A
  else if c = 'r' then some 0x0D
  else if c = 't' then some 0x09
  else none

/-- The value of a hexadecimal digit. -/
def hexDigit (c : Char) : Option ℕ :=
  if '0' ≤ c && c ≤ '9' then some (c.toNat - '0'.toNat)
  else if 'a' ≤ c && c ≤ 'f' then some (c.toNat - 'a'.toNat + 10)
  else if 'A' ≤ c && c ≤ 'F' then some (c.toNat - 'A'.toNat + 10)
  else none

/-- The code unit that four hexadecimal digits write. -/
def hexUnit (a b c d : Char) : Option ℕ := do
  pure ((((← hexDigit a) * 16 + (← hexDigit b)) * 16 + (← hexDigit c)) * 16 + (← hexDigit d))

/-- `char`: a character that stands for itself, or an escape. -/
inductive Item : List Char → Prop
  | unescaped {c : Char} : JsonString.unescaped c = true → Item [c]
  | escaped {c : Char} {n : ℕ} : JsonString.escaped c = some n → Item ['\\', c]
  | hex {a b c d : Char} {n : ℕ} : hexUnit a b c d = some n → Item ['\\', 'u', a, b, c, d]

/-- `*char`. -/
inductive Items : List Char → Prop
  | nil : Items []
  | cons {item rest : List Char} : Item item → Items rest → Items (item ++ rest)

/-- `string = quotation-mark *char quotation-mark`. -/
def IsString (text : String) : Prop :=
  ∃ body, Items body ∧ text.toList = '"' :: (body ++ ['"'])

/-! ### Reading -/

/-- The code points of the characters that stand for themselves or are escaped by one character, and
the code units of the others. -/
def units : List Char → Option (List ℕ)
  | [] => some []
  | c :: rest =>
      if c = '\\' then
        match rest with
        | [] => none
        | e :: rest =>
            if e = 'u' then
              match rest with
              | a :: b :: c :: d :: rest => do pure ((← hexUnit a b c d) :: (← units rest))
              | _ => none
            else do pure ((← escaped e) :: (← units rest))
      else if unescaped c then (units rest).map (c.toNat :: ·)
      else none

def isHighSurrogate (n : ℕ) : Bool := 0xD800 ≤ n && n ≤ 0xDBFF

def isLowSurrogate (n : ℕ) : Bool := 0xDC00 ≤ n && n ≤ 0xDFFF

/-- The characters of code points and code units: a high surrogate and the low one behind it are one
character, and neither is one without the other. -/
def scalars : List ℕ → Option (List Char)
  | [] => some []
  | n :: rest =>
      if isHighSurrogate n then
        match rest with
        | [] => none
        | low :: rest =>
            if isLowSurrogate low then
              (scalars rest).map
                (Char.ofNat (0x10000 + (n - 0xD800) * 0x400 + (low - 0xDC00)) :: ·)
            else none
      else if isLowSurrogate n then none
      else (scalars rest).map (Char.ofNat n :: ·)

/-- The text that a string stands for. -/
def decode (text : String) : Option String :=
  match text.toList with
  | '"' :: rest =>
      if rest.getLast? = some '"' then
        ((units rest.dropLast).bind scalars).map String.ofList
      else none
  | _ => none

variable {c : Char}

theorem units_unescaped (hc : unescaped c = true) (rest : List Char) :
    units (c :: rest) = (units rest).map (c.toNat :: ·) := by
  have hne : c ≠ '\\' := by
    rintro rfl
    cases hc
  rw [units.eq_def]
  simp only [if_neg hne, if_pos hc]

variable {n : ℕ} {text : List Char}

theorem units_escaped (hc : escaped c = some n) (rest : List Char) :
    units ('\\' :: c :: rest) = (units rest).map (n :: ·) := by
  have hne : c ≠ 'u' := by
    rintro rfl
    cases hc
  rw [units.eq_def]
  simp only [if_pos, if_neg hne, hc]
  cases units rest <;> rfl

theorem units_hex {a b d : Char} (hn : hexUnit a b c d = some n) (rest : List Char) :
    units ('\\' :: 'u' :: a :: b :: c :: d :: rest) = (units rest).map (n :: ·) := by
  rw [units, if_pos rfl, if_pos rfl, hn]
  cases units rest <;> rfl

theorem Item.units {item : List Char} (h : Item item) :
    ∃ n, ∀ rest, units (item ++ rest) = (units rest).map (n :: ·) := by
  cases h with
  | unescaped hc => exact ⟨_, units_unescaped hc⟩
  | escaped hc => exact ⟨_, units_escaped hc⟩
  | hex hn => exact ⟨_, units_hex hn⟩

theorem Items.units_isSome (h : Items text) : (units text).isSome := by
  induction h with
  | nil => rfl
  | cons hitem _ ih =>
      obtain ⟨n, hn⟩ := hitem.units
      simpa [hn] using ih

theorem Items.of_units (h : (units text).isSome) : Items text := by
  fun_induction units text with
  | case1 => exact .nil
  | case2 => simp at h
  | case3 a b c d rest ih =>
      obtain ⟨n, hn⟩ : ∃ n, hexUnit a b c d = some n := by
        cases hn : hexUnit a b c d with
        | none => simp [hn] at h
        | some n => exact ⟨n, rfl⟩
      exact .cons (.hex hn) (ih (by cases hu : units rest <;> simp_all))
  | case4 => simp at h
  | case5 e rest hne ih =>
      obtain ⟨n, hn⟩ : ∃ n, escaped e = some n := by
        cases hn : escaped e with
        | none => simp [hn] at h
        | some n => exact ⟨n, rfl⟩
      exact .cons (.escaped hn) (ih (by cases hu : units rest <;> simp_all))
  | case6 c rest hne hc ih => exact .cons (.unescaped hc) (ih (by simpa using h))
  | case7 => simp at h

theorem items_iff_units_isSome (text : List Char) : Items text ↔ (units text).isSome :=
  ⟨Items.units_isSome, Items.of_units⟩

/-! ### Control characters -/

theorem space_le_of_hexDigit (h : hexDigit c = some n) : 0x20 ≤ c.toNat := by
  by_contra hlt
  have hnot : ∀ d : Char, 0x20 ≤ d.toNat → ¬ d ≤ c := by
    intro d hd hle
    exact hlt (Nat.le_trans hd (UInt32.le_iff_toNat_le.1 hle))
  simp [hexDigit, hnot '0' (by decide), hnot 'a' (by decide), hnot 'A' (by decide)] at h

theorem hexDigit_of_hexUnit {a b d : Char} (h : hexUnit a b c d = some n) :
    ∀ x ∈ [a, b, c, d], ∃ m, hexDigit x = some m := by
  simp only [hexUnit, Option.pure_def, Option.bind_eq_bind, Option.bind_eq_some_iff] at h
  obtain ⟨na, ha, nb, hb, nc, hc, nd, hd, -⟩ := h
  simp [ha, hb, hc, hd]

theorem Item.space_le {item : List Char} (h : Item item) : ∀ c ∈ item, 0x20 ≤ c.toNat := by
  cases h with
  | unescaped hc =>
      simp only [List.mem_singleton, forall_eq]
      simp only [JsonString.unescaped, Bool.or_eq_true, Bool.and_eq_true, decide_eq_true_eq] at hc
      omega
  | escaped hc =>
      rename_i c n
      have hspace : 0x20 ≤ c.toNat := by
        unfold JsonString.escaped at hc
        split_ifs at hc with h1 h2 h3 h4 h5 h6 h7 h8
        all_goals subst_vars; decide
      simpa using hspace
  | hex hn =>
      intro x hx
      rcases List.mem_cons.1 hx with rfl | hx
      · decide
      rcases List.mem_cons.1 hx with rfl | hx
      · decide
      obtain ⟨m, hm⟩ := hexDigit_of_hexUnit hn x hx
      exact space_le_of_hexDigit hm

theorem Items.space_le (h : Items text) : ∀ c ∈ text, 0x20 ≤ c.toNat := by
  induction h with
  | nil => simp
  | cons hitem _ ih =>
      intro c hc
      rcases List.mem_append.1 hc with hc | hc
      · exact hitem.space_le c hc
      · exact ih c hc

/-! ### Writing -/

/-- The text that is read as one given character, whatever follows. -/
structure Writes (text : List Char) (c : Char) : Prop where
  item : Item text
  read (rest : List Char) : units (text ++ rest) = (units rest).map (c.toNat :: ·)

theorem Writes.itself (hc : unescaped c = true) : Writes [c] c :=
  ⟨.unescaped hc, units_unescaped hc⟩

theorem Writes.escape {e : Char} (he : escaped e = some c.toNat) : Writes ['\\', e] c :=
  ⟨.escaped he, units_escaped he⟩

/-- The string with a given body. -/
def quote (body : String) : String := "\"" ++ body ++ "\""

@[simp] theorem toList_quote (body : String) :
    (quote body).toList = '"' :: (body.toList ++ ['"']) := by
  simp [quote]

theorem isString_quote_iff (body : String) : IsString (quote body) ↔ Items body.toList := by
  constructor
  · rintro ⟨text, htext, heq⟩
    rw [toList_quote, List.cons.injEq, List.append_cancel_right_eq] at heq
    exact heq.2 ▸ htext
  · intro hbody
    exact ⟨body.toList, hbody, toList_quote body⟩

theorem decode_quote (body : String) :
    decode (quote body) = ((units body.toList).bind scalars).map String.ofList := by
  simp [decode]

theorem scalars_map_toNat (value : List Char) : scalars (value.map Char.toNat) = some value := by
  induction value with
  | nil => rfl
  | cons c value ih =>
      have hvalid : c.toNat < 0xD800 ∨ 0xDFFF < c.toNat ∧ c.toNat < 0x110000 := c.valid
      have hhigh : isHighSurrogate c.toNat = false := by
        simp only [isHighSurrogate, Bool.and_eq_false_iff, decide_eq_false_iff_not]
        omega
      have hlow : isLowSurrogate c.toNat = false := by
        simp only [isLowSurrogate, Bool.and_eq_false_iff, decide_eq_false_iff_not]
        omega
      rw [List.map_cons, scalars.eq_def]
      simp [hhigh, hlow, ih, Char.ofNat_toNat]

section FlatMap

variable {write : Char → List Char} {value : List Char}

theorem items_flatMap (h : ∀ c ∈ value, Writes (write c) c) : Items (value.flatMap write) := by
  induction value with
  | nil => exact .nil
  | cons c value ih =>
      rw [List.flatMap_cons]
      exact .cons (h c (by simp)).item (ih fun x hx => h x (by simp [hx]))

theorem units_flatMap (h : ∀ c ∈ value, Writes (write c) c) :
    units (value.flatMap write) = some (value.map Char.toNat) := by
  induction value with
  | nil => rfl
  | cons c value ih =>
      rw [List.flatMap_cons, (h c (by simp)).read, ih fun x hx => h x (by simp [hx])]
      rfl

/-- A text that is written character by character is well formed. -/
theorem isString_flatMap (h : ∀ c ∈ value, Writes (write c) c) :
    IsString (quote (String.ofList (value.flatMap write))) := by
  rw [isString_quote_iff, String.toList_ofList]
  exact items_flatMap h

theorem decode_flatMap (h : ∀ c ∈ value, Writes (write c) c) :
    decode (quote (String.ofList (value.flatMap write))) = some (String.ofList value) := by
  rw [decode_quote, String.toList_ofList, units_flatMap h, Option.bind_some, scalars_map_toNat]
  rfl

end FlatMap

end JsonString
