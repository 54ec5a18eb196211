/-
**Text, as the standard library cuts it.**

The functions on strings that the relay uses to read tokens and configuration files: splitting at a
character, trimming, lines and words.

Main definitions:

* `isWhitespace` — the white space of Unicode;
* `splitOnce`, `trim`, `lines`, `splitWhitespace`.
-/

import Mathlib.Tactic.Common

set_option autoImplicit false

namespace SwiftRelay

/-- The text before and after the first occurrence of `c`. -/
def splitOnce (s : String) (c : Char) : Option (String × String) :=
  if c ∈ s.toList then
    some (String.ofList (s.toList.takeWhile (· ≠ c)),
      String.ofList ((s.toList.dropWhile (· ≠ c)).drop 1))
  else none

/-- The characters with the property `White_Space`. -/
def isWhitespace (c : Char) : Bool :=
  (9 ≤ c.toNat && c.toNat ≤ 13) || c.toNat = 0x20 || c.toNat = 0x85 || c.toNat = 0xA0
    || c.toNat = 0x1680 || (0x2000 ≤ c.toNat && c.toNat ≤ 0x200A) || c.toNat = 0x2028
    || c.toNat = 0x2029 || c.toNat = 0x202F || c.toNat = 0x205F || c.toNat = 0x3000

/-- Without the white space at both ends. -/
def trim (s : String) : String :=
  String.ofList
    (((s.toList.dropWhile isWhitespace).reverse.dropWhile isWhitespace).reverse)

/-- A line without the carriage return that precedes its line feed. -/
def stripCarriageReturn (line : List Char) : List Char :=
  if line.getLast? = some '\r' then line.dropLast else line

/-- The lines of a text of which `line` is already read.  The last line needs no line feed. -/
def linesFrom (line : List Char) : List Char → List String
  | [] => if line.isEmpty then [] else [String.ofList line]
  | c :: rest =>
      if c = '\n' then String.ofList (stripCarriageReturn line) :: linesFrom [] rest
      else linesFrom (line ++ [c]) rest

def lines (text : String) : List String := linesFrom [] text.toList

/-- The words of a text, with `word` being what is already read of the next one. -/
def wordsFrom (word : List Char) : List Char → List String
  | [] => if word.isEmpty then [] else [String.ofList word]
  | c :: rest =>
      if isWhitespace c then
        if word.isEmpty then wordsFrom [] rest else String.ofList word :: wordsFrom [] rest
      else wordsFrom (word ++ [c]) rest

def splitWhitespace (text : String) : List String := wordsFrom [] text.toList

example : lines "a b\r\n\nc" = ["a b", "", "c"] := by decide +kernel

example : splitWhitespace " udp\t1.2.3.0/24 " = ["udp", "1.2.3.0/24"] := by decide +kernel

end SwiftRelay
