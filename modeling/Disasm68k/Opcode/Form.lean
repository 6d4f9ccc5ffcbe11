import Disasm68k.Condition
import Disasm68k.Opcode.Rule
import Disasm68k.Slot

/-!
# Forms of instructions

The form of an instruction is all that its instruction word tells: mnemonic, size and
operand slots. Where a slot reads extension words is a matter of order alone, because
slots are read from first to last.

- `Form`: mnemonic, size and slots;
- `Rule.form?`: the form that a rule gives a word. It is absent only where a field of the
  word has no meaning for the rule, which the rule's own test excludes.

Reference: specification §4.3, the handlers of the groups, from `_dec_imm_to_ccr` to
`_dec_shift_register`.
-/

namespace Disasm68k

/-- What an instruction word tells of its instruction. -/
structure Form where
  mnemonic : String
  size : Option Size
  /-- The slots in the order in which they are read. -/
  slots : List Slot
  /-- Whether the operands are written in the opposite order. -/
  reversed : Bool
deriving DecidableEq, Repr

namespace Form

/-- A form whose operands are written in the order in which they are read. -/
def ofSlots (mnemonic : String) (size : Option Size) (slots : List Slot) : Form :=
  ⟨mnemonic, size, slots, false⟩

/-- Puts operands that were read in slot order into the order in which they are
written. -/
def arrange (form : Form) (operands : List Operand) : List Operand :=
  if form.reversed then operands.reverse else operands

end Form

namespace Opcode

/-! ## Names of operations -/

/-- The operation of an immediate instruction. -/
def immediateName? (n : Int) : Option String :=
  match n with
  | 0 => some "ORI"
  | 1 => some "ANDI"
  | 2 => some "SUBI"
  | 3 => some "ADDI"
  | 5 => some "EORI"
  | 6 => some "CMPI"
  | _ => none

/-- The operation of a bit instruction. -/
def bitName? (n : Int) : Option String :=
  match n with
  | 0 => some "BTST"
  | 1 => some "BCHG"
  | 2 => some "BCLR"
  | 3 => some "BSET"
  | _ => none

/-- The operation of a one-operand instruction. -/
def unaryName? (n : Int) : Option String :=
  match n with
  | 0 => some "NEGX"
  | 1 => some "CLR"
  | 2 => some "NEG"
  | 3 => some "NOT"
  | 5 => some "TST"
  | _ => none

/-- The operation of a shift or rotation without its direction. -/
def shiftName? (n : Int) : Option String :=
  match n with
  | 0 => some "AS"
  | 1 => some "LS"
  | 2 => some "ROX"
  | 3 => some "RO"
  | _ => none

/-- The size of a move, which has a numbering of its own and stands in the group. -/
def moveSize? (group : Int) : Option Size :=
  match group with
  | 1 => some .byte
  | 2 => some .long
  | 3 => some .word
  | _ => none

/-- The size that the size field names. -/
def size? (word : Int) : Option Size :=
  Size.ofCode? (sizeCode word)

/-- The mnemonic of a branch on a condition; two conditions name other branches. -/
def branchName (condition : Condition) : String :=
  match condition with
  | .always => "BRA"
  | .never => "BSR"
  | other => "B" ++ other.name

/-! ## Common slots -/

/-- The effective address of the word. -/
def ea (word : Int) (size : Size) (key : String) : Slot :=
  Slot.ofMode (mode word) (reg word) (some size.code) key

/-- A number from one to eight; eight is encoded as zero. -/
def quickValue (n : Int) : Int :=
  if n = 0 then 8 else n

/-- Word or long size, chosen by whether a test holds. -/
def longIf (test : Bool) : Size :=
  if test then .long else .word

/-- The low byte of the word with a sign. -/
def lowByte (word : Int) : Int :=
  signExtend (bits word 0 8) 8

/-! ## Common forms -/

/-- An immediate and a special register. -/
def immediateToSpecial (mnemonic : String) (size : Size) (register : String) : Form :=
  .ofSlots mnemonic none [.extension "imm" (.immediate size), .fixed (.specialReg register)]

/-- An instruction without operands. -/
def simple (mnemonic : String) : Form :=
  .ofSlots mnemonic none []

/-- An unsized instruction with one effective address. -/
def onAddress (mnemonic : String) (word : Int) (size : Size) : Form :=
  .ofSlots mnemonic none [ea word size "ea"]

/-- An effective address and a data register. -/
def addressToData (mnemonic : String) (word : Int) (size : Size) : Form :=
  .ofSlots mnemonic (some size) [ea word size "src", .dataReg (rx word)]

/-- A data register and an effective address. -/
def dataToAddress (mnemonic : String) (word : Int) (size : Size) : Form :=
  .ofSlots mnemonic (some size) [.dataReg (rx word), ea word size "dst"]

/-- An effective address and a data register, in the order that bit 8 chooses. -/
def general (mnemonic : String) (word : Int) : Option Form :=
  (size? word).map fun size =>
    if bit8 word = 1 then dataToAddress mnemonic word size else addressToData mnemonic word size

/-- An effective address and an address register. -/
def addressToAddressReg (mnemonic : String) (word : Int) : Form :=
  let size := longIf (bit8 word = 1)
  .ofSlots mnemonic (some size) [ea word size "src", .addrReg (rx word)]

/-- Two data registers, or two predecremented addresses. -/
def registerPair (mnemonic : String) (word : Int) (size : Option Size) : Form :=
  if mode word = 0 then .ofSlots mnemonic size [.dataReg (reg word), .dataReg (rx word)]
  else .ofSlots mnemonic size
    [.fixed (.ea (.preDecrement (reg word))), .fixed (.ea (.preDecrement (rx word)))]

/-- Extended arithmetic with a size field. -/
def sizedPair (mnemonic : String) (word : Int) : Option Form :=
  (size? word).map fun size => registerPair mnemonic word (some size)

/-- The name of a shift with its direction. -/
def shiftName (word : Int) (n : Int) : Option String :=
  (shiftName? n).map (· ++ if bit8 word = 1 then "L" else "R")

/-! ## Single instructions -/

/-- An immediate operation on an effective address. -/
def immediateForm? (word : Int) : Option Form := do
  let name ← immediateName? (rx word)
  let size ← size? word
  pure (.ofSlots name (some size) [.extension "src" (.immediate size), ea word size "dst"])

/-- A bit instruction with the bit number in an extension word. -/
def bitStaticForm? (word : Int) : Option Form :=
  (bitName? (sizeCode word)).map fun name =>
    .ofSlots name none [.extension "bit" .bitNumber, ea word .byte "dst"]

/-- A bit instruction with the bit number in a data register. -/
def bitDynamicForm? (word : Int) : Option Form :=
  (bitName? (sizeCode word)).map fun name =>
    .ofSlots name none [.dataReg (rx word), ea word .byte "dst"]

/-- A move between a data register and alternate bytes of memory. -/
def movepForm (word : Int) : Form :=
  let size := longIf (bits word 6 1 = 1)
  let memory := Slot.extension "ea" (.addrDisp (reg word))
  if bits word 7 1 = 1 then .ofSlots "MOVEP" (some size) [.dataReg (rx word), memory]
  else .ofSlots "MOVEP" (some size) [memory, .dataReg (rx word)]

/-- A move. The source is read before a byte move to an address register is refused. -/
def moveForm? (word : Int) : Option Form :=
  (moveSize? (group word)).map fun size =>
    let source := ea word size "src"
    if opmode word = 1 then
      if size = .byte then .ofSlots "MOVEA" (some size) [source, .invalid (.byteAddressMove word)]
      else .ofSlots "MOVEA" (some size) [source, .addrReg (rx word)]
    else
      .ofSlots "MOVE" (some size)
        [source, Slot.ofMode (opmode word) (rx word) (some size.code) "dst"]

/-- A move to or from the user stack pointer. -/
def moveUspForm (word : Int) : Form :=
  if bits word 3 1 = 1 then
    .ofSlots "MOVE" none [.fixed (.specialReg "USP"), .addrReg (reg word)]
  else .ofSlots "MOVE" none [.addrReg (reg word), .fixed (.specialReg "USP")]

/-- A one-operand instruction. -/
def unaryForm? (word : Int) : Option Form := do
  let name ← unaryName? (rx word)
  let size ← size? word
  pure (.ofSlots name (some size) [ea word size "ea"])

/-- A move of several registers. The mask is read first in both directions. -/
def movemForm (word : Int) : Form :=
  let size := longIf (opmode word ≠ 2)
  let memoryToRegister : Bool := rx word = 6
  ⟨"MOVEM", some size, [.extension "mask" (.regList memoryToRegister), ea word size "ea"],
    memoryToRegister⟩

/-- A decrement-and-branch loop. -/
def dbccForm (word : Int) : Form :=
  .ofSlots ("DB" ++ (Condition.ofCode (cond word)).name) none
    [.dataReg (reg word), .extension "disp" .branchDisp]

/-- Adding or subtracting a small number. -/
def addSubQuickForm? (word : Int) : Option Form :=
  (size? word).map fun size =>
    .ofSlots (if bit8 word = 1 then "SUBQ" else "ADDQ") (some size)
      [.fixed (.quick (quickValue (rx word))), ea word size "ea"]

/-- A branch. A low byte of zero says that the displacement is in an extension word. -/
def branchForm (word : Int) : Form :=
  .ofSlots (branchName (Condition.ofCode (cond word))) none
    [if bits word 0 8 = 0 then .extension "disp" .branchDisp
      else .fixed (.branchDisp (lowByte word))]

/-- A shift of a word in memory by one bit. -/
def shiftMemoryForm? (word : Int) : Option Form :=
  (shiftName word (bits (rx word) 0 2)).map fun name => onAddress name word .word

/-- A shift of a data register by a small number or by another data register. -/
def shiftRegisterForm? (word : Int) : Option Form := do
  let name ← shiftName word (bits word 3 2)
  let size ← size? word
  let count : Slot :=
    if bits word 5 1 = 1 then .dataReg (rx word) else .fixed (.quick (quickValue (rx word)))
  pure (.ofSlots name (some size) [count, .dataReg (reg word)])

end Opcode

open Opcode in
/-- The form that a rule gives a word. -/
def Rule.form? (rule : Rule) (word : Int) : Option Form :=
  match rule with
  | .orToCcr => some (immediateToSpecial "ORI" .byte "CCR")
  | .andToCcr => some (immediateToSpecial "ANDI" .byte "CCR")
  | .eorToCcr => some (immediateToSpecial "EORI" .byte "CCR")
  | .orToSr => some (immediateToSpecial "ORI" .word "SR")
  | .andToSr => some (immediateToSpecial "ANDI" .word "SR")
  | .eorToSr => some (immediateToSpecial "EORI" .word "SR")
  | .immediateOp => immediateForm? word
  | .bitStatic => bitStaticForm? word
  | .movep => some (movepForm word)
  | .bitDynamic => bitDynamicForm? word
  | .move => moveForm? word
  | .illegal => some (simple "ILLEGAL")
  | .reset => some (simple "RESET")
  | .nop => some (simple "NOP")
  | .stop => some (.ofSlots "STOP" none [.extension "imm" (.immediate .word)])
  | .rte => some (simple "RTE")
  | .rts => some (simple "RTS")
  | .trapv => some (simple "TRAPV")
  | .rtr => some (simple "RTR")
  | .trap => some (.ofSlots "TRAP" none [.fixed (.quick (bits word 0 4))])
  | .link =>
    some (.ofSlots "LINK" none [.addrReg (reg word), .extension "disp" (.immediate .word)])
  | .unlk => some (.ofSlots "UNLK" none [.addrReg (reg word)])
  | .moveUsp => some (moveUspForm word)
  | .jsr => some (onAddress "JSR" word .long)
  | .jmp => some (onAddress "JMP" word .long)
  | .lea => some (.ofSlots "LEA" none [ea word .long "src", .addrReg (rx word)])
  | .chk => some (addressToData "CHK" word .word)
  | .unary => unaryForm? word
  | .moveFromSr => some (.ofSlots "MOVE" none [.fixed (.specialReg "SR"), ea word .word "dst"])
  | .moveFromCcr => some (.ofSlots "MOVE" none [.fixed (.specialReg "CCR"), ea word .word "dst"])
  | .moveToCcr => some (.ofSlots "MOVE" none [ea word .word "src", .fixed (.specialReg "CCR")])
  | .moveToSr => some (.ofSlots "MOVE" none [ea word .word "src", .fixed (.specialReg "SR")])
  | .nbcd => some (onAddress "NBCD" word .byte)
  | .swap => some (.ofSlots "SWAP" none [.dataReg (reg word)])
  | .pea => some (onAddress "PEA" word .long)
  | .ext => some (.ofSlots "EXT" (some (longIf (opmode word ≠ 2))) [.dataReg (reg word)])
  | .tas => some (onAddress "TAS" word .byte)
  | .movem => some (movemForm word)
  | .dbcc => some (dbccForm word)
  | .scc => some (onAddress ("S" ++ (Condition.ofCode (cond word)).name) word .byte)
  | .addSubQuick => addSubQuickForm? word
  | .branch => some (branchForm word)
  | .moveq => some (.ofSlots "MOVEQ" none [.fixed (.quick (lowByte word)), .dataReg (rx word)])
  | .divu => some (addressToData "DIVU" word .word)
  | .divs => some (addressToData "DIVS" word .word)
  | .sbcd => some (registerPair "SBCD" word none)
  | .or => general "OR" word
  | .suba => some (addressToAddressReg "SUBA" word)
  | .subx => sizedPair "SUBX" word
  | .sub => general "SUB" word
  | .cmpa => some (addressToAddressReg "CMPA" word)
  | .cmp => (size? word).map (addressToData "CMP" word)
  | .cmpm =>
    (size? word).map fun size => .ofSlots "CMPM" (some size)
      [.fixed (.ea (.postIncrement (reg word))), .fixed (.ea (.postIncrement (rx word)))]
  | .eor => (size? word).map (dataToAddress "EOR" word)
  | .mulu => some (addressToData "MULU" word .word)
  | .muls => some (addressToData "MULS" word .word)
  | .abcd => some (registerPair "ABCD" word none)
  | .exgData => some (.ofSlots "EXG" none [.dataReg (rx word), .dataReg (reg word)])
  | .exgAddress => some (.ofSlots "EXG" none [.addrReg (rx word), .addrReg (reg word)])
  | .exgMixed => some (.ofSlots "EXG" none [.dataReg (rx word), .addrReg (reg word)])
  | .and => general "AND" word
  | .adda => some (addressToAddressReg "ADDA" word)
  | .addx => sizedPair "ADDX" word
  | .add => general "ADD" word
  | .shiftMemory => shiftMemoryForm? word
  | .shiftRegister => shiftRegisterForm? word

end Disasm68k
