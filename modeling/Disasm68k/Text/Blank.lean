/-!
# White space

- `Text.isBlank`: the characters that count as white space;
- `Text.strip`: a text without the white space at its ends.

Reference: specification §8.2, values without the white space around them (`_env_flag`,
`_env_int`).
-/

namespace Disasm68k

namespace Text

/-- Whether a character is white space: tabs, line ends, the four information
separators, and every kind of space or line separator that takes up room. -/
def isBlank (c : Char) : Bool :=
  let point := c.toNat
  (0x09 ≤ point && point ≤ 0x0D) || (0x1C ≤ point && point ≤ 0x20) || point == 0x85 ||
    point == 0xA0 || point == 0x1680 || (0x2000 ≤ point && point ≤ 0x200A) || point == 0x2028 ||
    point == 0x2029 || point == 0x202F || point == 0x205F || point == 0x3000

/-- Drops the characters at both ends that satisfy the test. -/
def stripWhile (test : Char → Bool) (text : List Char) : List Char :=
  ((text.dropWhile test).reverse.dropWhile test).reverse

/-- Drops the white space at both ends. -/
def strip (text : List Char) : List Char :=
  stripWhile isBlank text

end Text

end Disasm68k
