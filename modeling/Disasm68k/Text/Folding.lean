/-!
# Case folding to ASCII

Words are compared without regard to case. The words that matter are written in
ASCII, so only the characters that fold to ASCII letters need to be folded: the
capital letters, the long s, the Kelvin sign, sharp s and the Latin ligatures. Any
other character folds to something outside ASCII and stays as it is.

Reference: specification §8.2, flags without regard to case (`_env_flag`).
-/

namespace Disasm68k

namespace Text

/-- The ASCII letters that a character folds to, or the character itself. -/
def foldChar (c : Char) : List Char :=
  match c.toNat with
  | 0xDF => ['s', 's']
  | 0x17F => ['s']
  | 0x1E9E => ['s', 's']
  | 0x212A => ['k']
  | 0xFB00 => ['f', 'f']
  | 0xFB01 => ['f', 'i']
  | 0xFB02 => ['f', 'l']
  | 0xFB03 => ['f', 'f', 'i']
  | 0xFB04 => ['f', 'f', 'l']
  | 0xFB05 => ['s', 't']
  | 0xFB06 => ['s', 't']
  | _ => [c.toLower]

/-- Folds every character of a text. -/
def fold (text : List Char) : List Char :=
  text.flatMap foldChar

end Text

end Disasm68k
