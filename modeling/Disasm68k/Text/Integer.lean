import Disasm68k.Numeral
import Disasm68k.Text.Blank
import Disasm68k.Text.Digit

/-!
# Integers read from text

An integer is written with an optional sign and decimal digits, or with a radix mark
(`0x`, `0o`, `0b` in either case) and digits of that radix. One underscore may stand
between two digits and after the radix mark. White space around the number does not
count, and a decimal digit of any script stands for its value.

- `Text.parseDecimal?`: decimal text only, leading zeros allowed;
- `Text.parseInteger?`: decimal text or a radix mark; a decimal number that starts with
  zero is zero.

Reference: specification §8.2, numbers as values (`_env_int`, `_int`).
-/

namespace Disasm68k

namespace Text

/-- White space that may surround a number, once other spaces are written as blanks. -/
def isNumberBlank (c : Char) : Bool :=
  c == ' ' || (0x09 ≤ c.toNat && c.toNat ≤ 0x0D)

/-- Writes a space or a decimal digit of another script as the ASCII one. -/
def plainChar (c : Char) : Char :=
  if c.toNat < 0x80 then c
  else if isBlank c then ' '
  else match digitValue? c with
    | some d => Nat.digitChar d
    | none => c

/-- The value of an ASCII digit or letter as a digit. -/
def alphanumericValue? (c : Char) : Option Nat :=
  if c.isDigit then some (c.toNat - 0x30)
  else if 'a' ≤ c ∧ c ≤ 'z' then some (c.toNat - 0x61 + 10)
  else if 'A' ≤ c ∧ c ≤ 'Z' then some (c.toNat - 0x41 + 10)
  else none

/-- Reads digits with single underscores between them, after the value `acc` has been
read; the flag says that the last character was a digit. -/
def digitRun? (base : Nat) : Bool → Nat → List Char → Option Nat
  | afterDigit, acc, [] => if afterDigit then some acc else none
  | afterDigit, acc, c :: rest =>
    if c = '_' then
      if afterDigit then digitRun? base false acc rest else none
    else match alphanumericValue? c with
      | some d => if d < base then digitRun? base true (base * acc + d) rest else none
      | none => none

/-- Reads decimal digits, of which there may not be too many. -/
def decimalRun? (digits : List Char) : Option Nat :=
  if (digits.filter (· ≠ '_')).length ≤ Numeral.maxDecimalDigits then digitRun? 10 false 0 digits
  else none

/-- Reads the digits after a radix mark. -/
def markedRun? (base : Nat) : List Char → Option Nat
  | '_' :: rest => digitRun? base false 0 rest
  | digits => digitRun? base false 0 digits

/-- Reads a number without sign that may have a radix mark. -/
def magnitude? : List Char → Option Nat
  | '0' :: mark :: rest =>
    if mark = 'x' ∨ mark = 'X' then markedRun? 16 rest
    else if mark = 'o' ∨ mark = 'O' then markedRun? 8 rest
    else if mark = 'b' ∨ mark = 'B' then markedRun? 2 rest
    else (decimalRun? ('0' :: mark :: rest)).filter (· = 0)
  | digits => decimalRun? digits

/-- Reads an optional sign and the number after it. -/
def signed? (magnitude : List Char → Option Nat) : List Char → Option Int
  | '-' :: rest => (magnitude rest).map fun n => -(n : Int)
  | '+' :: rest => (magnitude rest).map fun n => (n : Int)
  | digits => (magnitude digits).map fun n => (n : Int)

/-- The characters of a number without the white space around it. -/
def numberChars (text : String) : List Char :=
  stripWhile isNumberBlank (text.toList.map plainChar)

/-- Reads a decimal integer. -/
def parseDecimal? (text : String) : Option Int :=
  signed? decimalRun? (numberChars text)

/-- Reads an integer that may have a radix mark. -/
def parseInteger? (text : String) : Option Int :=
  signed? magnitude? (numberChars text)

end Text

end Disasm68k
