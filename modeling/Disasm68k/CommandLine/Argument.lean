import Disasm68k.CommandLine.Misuse
import Disasm68k.CommandLine.Option
import Disasm68k.Text.Digit

/-!
# Kinds of arguments

Before options take their values, every argument is sorted into one of four kinds. An
argument that begins with a dash is an option, unless it is a lone dash, a negative
number, or unknown with a blank in it. A double dash ends the options. A long option may
be shortened as long as only one option begins so, and may carry its value after an
equals sign; short options may be joined.

- `CommandLine.Argument`: the four kinds;
- `CommandLine.sort`: the kinds of all arguments, or the first that is ambiguous.

Reference: specification §6.4, the arguments that `build_parser` sets up.
-/

namespace Disasm68k

namespace CommandLine

/-- An argument by kind. -/
inductive Argument where
  /-- A value or the image. -/
  | plain (text : String)
  /-- The double dash that ends the options. -/
  | terminator
  /-- An option, with the value or the further options written in the same argument. -/
  | option (name : OptionName) (attached : Option (List Char))
  /-- An argument that looks like an option but is none. -/
  | unknown (text : String)
deriving DecidableEq, Repr

/-- Splits at the first equals sign. -/
def splitEquals (chars : List Char) : List Char × Option (List Char) :=
  match chars.dropWhile (· ≠ '=') with
  | [] => (chars, none)
  | _ :: value => (chars.takeWhile (· ≠ '='), some value)

/-- The options that an abbreviated or joined argument could stand for. -/
def candidates (chars : List Char) : List (OptionName × Option (List Char)) :=
  if chars.take 2 = ['-', '-'] then
    let (stem, value) := splitEquals chars
    (optionNames.filter fun name => stem.isPrefixOf name.chars).map fun name => (name, value)
  else
    optionNames.filterMap fun name =>
      if name.chars = chars.take 2 then some (name, some (chars.drop 2))
      else if chars.isPrefixOf name.chars then some (name, none)
      else none

/-- Whether the characters are decimal digits, at least one. -/
def isNumeral (chars : List Char) : Bool :=
  !chars.isEmpty && chars.all Text.isDigit

/-- Whether the characters after a dash are a number, with or without a point. -/
def isUnsignedNumber (chars : List Char) : Bool :=
  isNumeral chars ||
    (match chars.dropWhile Text.isDigit with
      | '.' :: fraction => isNumeral fraction
      | _ => false)

/-- Whether an argument is a negative number; a line end after it does not count. -/
def isNegativeNumber (chars : List Char) : Bool :=
  match chars with
  | '-' :: rest =>
    isUnsignedNumber rest || (rest.getLast? == some '\n' && isUnsignedNumber rest.dropLast)
  | _ => false

/-- An argument that begins with a dash and is not the spelling of an option. -/
def sortDashed (text : String) : Except Misuse Argument :=
  let chars := text.toList
  let (stem, value) := splitEquals chars
  match value, findOption? stem with
  | some value, some name => .ok (.option name (some value))
  | _, _ =>
    match candidates chars with
    | [(name, attached)] => .ok (.option name attached)
    | [] =>
      if isNegativeNumber chars || chars.contains ' ' then .ok (.plain text)
      else .ok (.unknown text)
    | several =>
      .error (.ambiguousOption text (several.map fun candidate => String.ofList candidate.1.chars))

/-- The kind of an argument before the double dash. -/
def sortOne (text : String) : Except Misuse Argument :=
  let chars := text.toList
  if chars.head? ≠ some '-' then .ok (.plain text)
  else match findOption? chars with
    | some name => .ok (.option name none)
    | none => if chars = ['-'] then .ok (.plain text) else sortDashed text

/-- The kinds of all arguments; what follows a double dash is plain. -/
def sort : List String → Except Misuse (List Argument)
  | [] => .ok []
  | text :: rest =>
    if text = "--" then .ok (.terminator :: rest.map Argument.plain)
    else
      match sortOne text with
      | .error misuse => .error misuse
      | .ok argument =>
        match sort rest with
        | .error misuse => .error misuse
        | .ok arguments => .ok (argument :: arguments)

end CommandLine

end Disasm68k
