import Disasm68k.EffectiveAddress

/-!
# Operands

- `Operand`: effective addresses and the operands that have an encoding of their own;
- `Operand.tokens`, `Operand.text`: how an operand is written;
- `Operand.tokens?`: its tokens, unless a register cannot be named.

Reference: specification §3, typed operands (`Operand`, `Quick`, `SpecialReg`,
`RegList`, `BranchDisp`).
-/

namespace Disasm68k

/-- An operand of an instruction. -/
inductive Operand where
  /-- An operand described by a mode and a register number. -/
  | ea (address : EffectiveAddress)
  /-- A number packed into the instruction word. -/
  | quick (value : Int)
  /-- The condition codes, the status register or the user stack pointer. -/
  | specialReg (name : String)
  /-- The registers of a mask. -/
  | regList (mask : Int) (names : List String)
  /-- A displacement from the program counter. -/
  | branchDisp (disp : Int)
deriving DecidableEq, Repr

namespace Operand

/-- The text of an operand; a list of no registers is written as the number zero. -/
def tokens : Operand → List Token
  | ea address => address.tokens
  | quick value => [.text "#", .integer value]
  | specialReg name => [.register name]
  | regList _ [] => [.text "#", .integer 0]
  | regList _ (name :: names) => (name :: names).map Token.register |>.intersperse (.separator "/")
  | branchDisp disp => [.relative disp]

/-- The tokens of an operand, unless a register cannot be named. -/
def tokens? : Operand → Option (List Token)
  | ea address => address.tokens?
  | operand => some operand.tokens

/-- The characters of an operand. -/
def text (operand : Operand) : String :=
  Token.render operand.tokens

end Operand

end Disasm68k
