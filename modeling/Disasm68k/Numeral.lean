/-!
# Numbers as text

Every number that the disassembler writes is an integer of any sign, in decimal or in
hexadecimal. Hexadecimal digits may be as many as the number needs; a number of too many
decimal digits cannot be written in decimal.

- `Numeral.decimal`, `Numeral.signedDecimal`: decimal digits, the second with a sign
  also for numbers that are not negative;
- `Numeral.isWritable`, `Numeral.writing`: whether a number has few enough decimal digits, and
  what is written with such numbers;
- `Numeral.decimalText?`, `Numeral.signedDecimalText?`: decimal text, unless the number has
  too many digits;
- `HexStyle`: the choices of a hexadecimal format (what stands before the digits,
  letter case, least width) and `HexStyle.write`, which applies them;
- the four styles in use: `HexStyle.bare`, `HexStyle.opcode`, `HexStyle.address`
  and `HexStyle.word`.

Reference: specification §8.3, messages with the offending numbers; §4.3, the output of
operands.
-/

namespace Disasm68k

namespace Numeral

/-- The digits of a natural number in the given base, most significant first. -/
def digits (base n : Nat) : String :=
  String.ofList (Nat.toDigits base n)

/-- The minus sign of a negative number. -/
def sign (n : Int) : String :=
  if n < 0 then "-" else ""

/-- Decimal digits with a minus sign for negative numbers. -/
def decimal (n : Int) : String :=
  sign n ++ digits 10 n.natAbs

/-- Decimal digits that always have a sign; zero counts as positive. -/
def signedDecimal (n : Int) : String :=
  if n < 0 then decimal n else "+" ++ decimal n

/-- The most decimal digits that a number may have when it is read or written. -/
def maxDecimalDigits : Nat := 4300

/-- Whether a number has few enough decimal digits; its sign does not count. -/
def isWritable (n : Int) : Bool :=
  (Nat.toDigits 10 n.natAbs).length ≤ maxDecimalDigits

/-- What is written with the given numbers in decimal, unless one of them has too many digits. -/
def writing {α : Type} (numbers : List Int) (written : α) : Option α :=
  if numbers.all isWritable then some written else none

/-- Decimal text, unless the number has too many digits. -/
def decimalText? (n : Int) : Option String :=
  writing [n] (decimal n)

/-- Decimal text with a sign, unless the number has too many digits. -/
def signedDecimalText? (n : Int) : Option String :=
  writing [n] (signedDecimal n)

end Numeral

/-- The choices of a hexadecimal format. Padding zeros stand between the lead and
the digits, and `width` counts sign, lead, zeros and digits together. -/
structure HexStyle where
  lead : String
  upperCase : Bool
  width : Nat
deriving DecidableEq, Repr

namespace HexStyle

/-- `0x10`, `-0x10`: as many digits as the number needs. -/
def bare : HexStyle := ⟨"0x", false, 0⟩

/-- `0x003c`: at least six characters. -/
def opcode : HexStyle := ⟨"0x", false, 6⟩

/-- `000402`: at least six upper-case digits. -/
def address : HexStyle := ⟨"", true, 6⟩

/-- `4E71`: at least four upper-case digits. -/
def word : HexStyle := ⟨"", true, 4⟩

/-- The hexadecimal digits of a natural number in the letter case of the style. -/
def digits (style : HexStyle) (n : Nat) : List Char :=
  if style.upperCase then (Nat.toDigits 16 n).map Char.toUpper else Nat.toDigits 16 n

/-- Writes an integer: sign, lead, padding zeros, digits. -/
def write (style : HexStyle) (n : Int) : String :=
  let ds := style.digits n.natAbs
  let taken := (Numeral.sign n).length + style.lead.length + ds.length
  Numeral.sign n ++ style.lead ++ String.ofList (List.replicate (style.width - taken) '0' ++ ds)

end HexStyle

end Disasm68k
