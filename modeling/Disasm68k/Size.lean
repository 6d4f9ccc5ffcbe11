/-!
# Operand sizes

An instruction works on a byte, a word or a long word. The size field of an
instruction word is two bits wide, so one of its four values names no size.

- `Size.ofCode?`: the size that a size field names;
- `Size.suffix`: how a mnemonic shows the size (byte size shows nothing);
- `Size.byteCount`, `Size.immediateBytes`: bytes of a value of the size, and bytes
  that an immediate of the size takes in the instruction stream.

Reference: specification §4.3, the size suffix table (`Size`, `SIZES`).
-/

namespace Disasm68k

/-- The size of an operand. -/
inductive Size where
  | byte
  | word
  | long
deriving DecidableEq, Repr

namespace Size

/-- The value of the two-bit size field. -/
def code : Size → Int
  | byte => 0
  | word => 1
  | long => 2

/-- The size that a size code names. -/
def ofCode? (code : Int) : Option Size :=
  if code = 0 then some byte
  else if code = 1 then some word
  else if code = 2 then some long
  else none

/-- The name of the size. -/
def name : Size → String
  | byte => "BYTE"
  | word => "WORD"
  | long => "LONG"

/-- What a mnemonic shows of the size. -/
def suffix : Size → String
  | byte => ""
  | word => ".W"
  | long => ".L"

/-- The number of bytes of a value of this size. -/
def byteCount : Size → Nat
  | byte => 1
  | word => 2
  | long => 4

/-- The number of bytes that an immediate operand of this size takes after the
instruction word: the stream is made of words, so a byte takes two. -/
def immediateBytes : Size → Nat
  | byte => 2
  | word => 2
  | long => 4

@[simp] theorem ofCode?_code (size : Size) : ofCode? size.code = some size := by
  cases size <;> rfl

/-- Only the three codes name a size. -/
theorem ofCode?_eq_some_iff {n : Int} {size : Size} : ofCode? n = some size ↔ n = size.code := by
  cases size <;> grind [ofCode?, code]

end Size

end Disasm68k
