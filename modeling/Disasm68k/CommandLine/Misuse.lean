import Disasm68k.Text.Quoted

/-!
# Misuse of the command line

A `Misuse` names what is wrong with a command line; `Misuse.message` words it.

Reference: specification §6.4, the parser errors of `build_parser` and of a missing
image in `main`.
-/

namespace Disasm68k

namespace CommandLine

/-- What can be wrong with a command line. -/
inductive Misuse where
  /-- An abbreviated option could be more than one. -/
  | ambiguousOption (argument : String) (candidates : List String)
  /-- An option that takes a value has none. -/
  | missingValue (label : String)
  /-- The value of an option is no number. -/
  | invalidValue (label valueName value : String)
  /-- An option that takes no value has one. -/
  | surplusValue (label value : String)
  /-- The image is not named. -/
  | missingImage
  /-- Arguments are left over. -/
  | unrecognized (arguments : List String)
  /-- The image is not a file. -/
  | imageNotFound (path : String)
deriving DecidableEq, Repr

/-- The text of a misuse. -/
def Misuse.message : Misuse → String
  | ambiguousOption argument candidates =>
    "ambiguous option: " ++ argument ++ " could match " ++ ", ".intercalate candidates
  | missingValue label => "argument " ++ label ++ ": expected one argument"
  | invalidValue label valueName value =>
    "argument " ++ label ++ ": invalid " ++ valueName ++ " value: " ++ Text.quoted value
  | surplusValue label value =>
    "argument " ++ label ++ ": ignored explicit argument " ++ Text.quoted value
  | missingImage => "the following arguments are required: image"
  | unrecognized arguments => "unrecognized arguments: " ++ " ".intercalate arguments
  | imageNotFound path => "image not found: " ++ path

end CommandLine

end Disasm68k
