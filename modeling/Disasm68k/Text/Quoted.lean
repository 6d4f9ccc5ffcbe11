import Disasm68k.Text.Printable

/-!
# Quoted text

A text is shown between quotes so that its ends and its invisible characters can be
seen. Single quotes are used, unless the text holds a single quote and no double
quote. The enclosing quote, the backslash and the characters that do not print are
written as escapes.

Reference: specification §6.4, the values quoted in parser errors of `build_parser`, and
the suffix shown by `TEndMem`.
-/

namespace Disasm68k

namespace Text

/-- The single quote. -/
def singleQuote : Char := '\x27'

/-- The double quote. -/
def doubleQuote : Char := '\x22'

/-- The low `count` hexadecimal digits of a number. -/
def hexDigits : Nat → Nat → List Char
  | 0, _ => []
  | count + 1, n => hexDigits count (n / 16) ++ [Nat.digitChar (n % 16)]

/-- The escape of a character by its code point, in two, four or eight digits. -/
def codeEscape (c : Char) : List Char :=
  let point := c.toNat
  if point < 0x100 then '\\' :: 'x' :: hexDigits 2 point
  else if point < 0x10000 then '\\' :: 'u' :: hexDigits 4 point
  else '\\' :: 'U' :: hexDigits 8 point

/-- How a character is written between the given quotes. -/
def escape (quote c : Char) : List Char :=
  if c = quote ∨ c = '\\' then ['\\', c]
  else if c = '\n' then ['\\', 'n']
  else if c = '\r' then ['\\', 'r']
  else if c = '\t' then ['\\', 't']
  else if isPrintable c then [c]
  else codeEscape c

/-- The quote that encloses a text. -/
def enclosingQuote (text : List Char) : Char :=
  if text.contains singleQuote && !text.contains doubleQuote then doubleQuote else singleQuote

/-- A text between quotes. -/
def quoted (text : String) : String :=
  let chars := text.toList
  let quote := enclosingQuote chars
  String.ofList (quote :: chars.flatMap (escape quote) ++ [quote])

end Text

end Disasm68k
