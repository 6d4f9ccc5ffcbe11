import Disasm68k.Opcode.Fields

/-!
# Rules for instruction words

The sixteen groups of instruction words each have an ordered table of rules. A word is
decoded by the first rule of its group's table that accepts it. Some encodings overlap,
so the order matters: a special form stands before the general form that would accept
it too.

- `Rule`: the rules, one per instruction or family of instructions;
- `Rule.accepts`: whether a rule applies to a word of its group;
- `Rule.table`: the rules of a group in order;
- `Rule.first?`: the rule that decodes a word.

Reference: specification §4.3, the ordered rules of the groups (`GROUPS`).
-/

namespace Disasm68k

/-- A rule for instruction words. -/
inductive Rule where
  -- bit manipulation, peripheral moves and immediate operations
  | orToCcr
  | andToCcr
  | eorToCcr
  | orToSr
  | andToSr
  | eorToSr
  | immediateOp
  | bitStatic
  | movep
  | bitDynamic
  -- moves
  | move
  -- miscellaneous
  | illegal
  | reset
  | nop
  | stop
  | rte
  | rts
  | trapv
  | rtr
  | trap
  | link
  | unlk
  | moveUsp
  | jsr
  | jmp
  | lea
  | chk
  | unary
  | moveFromSr
  | moveFromCcr
  | moveToCcr
  | moveToSr
  | nbcd
  | swap
  | pea
  | ext
  | tas
  | movem
  -- quick arithmetic and conditions
  | dbcc
  | scc
  | addSubQuick
  -- branches and quick moves
  | branch
  | moveq
  -- logical or, division
  | divu
  | divs
  | sbcd
  | or
  -- subtraction
  | suba
  | subx
  | sub
  -- comparison, exclusive or
  | cmpa
  | cmp
  | cmpm
  | eor
  -- logical and, multiplication, exchange
  | mulu
  | muls
  | abcd
  | exgData
  | exgAddress
  | exgMixed
  | and
  -- addition
  | adda
  | addx
  | add
  -- shifts
  | shiftMemory
  | shiftRegister
deriving DecidableEq, Repr

namespace Rule

open Opcode

/-- Whether the number in the operation field of an immediate instruction names an
operation. -/
def isImmediateOp (n : Int) : Bool :=
  n = 0 || n = 1 || n = 2 || n = 3 || n = 5 || n = 6

/-- Whether the number in the operation field of a one-operand instruction names an
operation. -/
def isUnaryOp (n : Int) : Bool :=
  n = 0 || n = 1 || n = 2 || n = 3 || n = 5

/-- Whether the mode field selects one of the two register forms of extended
arithmetic. -/
def isRegisterOrPredecrement (word : Int) : Bool :=
  mode word = 0 || mode word = 1

/-- Whether the rule applies to a word of its group. -/
def accepts : Rule → Int → Bool
  | orToCcr, w => w = 0x003C
  | andToCcr, w => w = 0x023C
  | eorToCcr, w => w = 0x0A3C
  | orToSr, w => w = 0x007C
  | andToSr, w => w = 0x027C
  | eorToSr, w => w = 0x0A7C
  | immediateOp, w => bit8 w = 0 && isImmediateOp (rx w) && sizeCode w < 3
  | bitStatic, w => bit8 w = 0 && rx w = 4
  | movep, w => bit8 w = 1 && mode w = 1
  | bitDynamic, w => bit8 w = 1
  | move, _ => true
  | illegal, w => w = 0x4AFC
  | reset, w => w = 0x4E70
  | nop, w => w = 0x4E71
  | stop, w => w = 0x4E72
  | rte, w => w = 0x4E73
  | rts, w => w = 0x4E75
  | trapv, w => w = 0x4E76
  | rtr, w => w = 0x4E77
  | trap, w => bits w 4 12 = 0x4E4
  | link, w => bits w 3 13 = 0x9CA
  | unlk, w => bits w 3 13 = 0x9CB
  | moveUsp, w => bits w 4 12 = 0x4E6
  | jsr, w => bits w 6 10 = 0x13A
  | jmp, w => bits w 6 10 = 0x13B
  | lea, w => opmode w = 7
  | chk, w => opmode w = 6
  | unary, w => bit8 w = 0 && isUnaryOp (rx w) && sizeCode w < 3
  | moveFromSr, w => rx w = 0 && sizeCode w = 3
  | moveFromCcr, w => rx w = 1 && sizeCode w = 3
  | moveToCcr, w => rx w = 2 && sizeCode w = 3
  | moveToSr, w => rx w = 3 && sizeCode w = 3
  | nbcd, w => rx w = 4 && opmode w = 0
  | swap, w => rx w = 4 && opmode w = 1 && mode w = 0
  | pea, w => rx w = 4 && opmode w = 1
  | ext, w => rx w = 4 && (opmode w = 2 || opmode w = 3) && mode w = 0
  | tas, w => rx w = 5 && sizeCode w = 3
  | movem, w => (rx w = 4 || rx w = 6) && (opmode w = 2 || opmode w = 3)
  | dbcc, w => sizeCode w = 3 && mode w = 1
  | scc, w => sizeCode w = 3
  | addSubQuick, _ => true
  | branch, _ => true
  | moveq, w => bit8 w = 0
  | divu, w => opmode w = 3
  | divs, w => opmode w = 7
  | sbcd, w => opmode w = 4 && isRegisterOrPredecrement w
  | or, _ => true
  | suba, w => sizeCode w = 3
  | subx, w => 4 ≤ opmode w && isRegisterOrPredecrement w
  | sub, _ => true
  | cmpa, w => sizeCode w = 3
  | cmp, w => opmode w < 3
  | cmpm, w => mode w = 1
  | eor, _ => true
  | mulu, w => opmode w = 3
  | muls, w => opmode w = 7
  | abcd, w => opmode w = 4 && isRegisterOrPredecrement w
  | exgData, w => opmode w = 5 && mode w = 0
  | exgAddress, w => opmode w = 5 && mode w = 1
  | exgMixed, w => opmode w = 6 && mode w = 1
  | and, _ => true
  | adda, w => sizeCode w = 3
  | addx, w => 4 ≤ opmode w && isRegisterOrPredecrement w
  | add, _ => true
  | shiftMemory, w => sizeCode w = 3 && rx w < 4
  | shiftRegister, w => sizeCode w < 3

/-- The rules of a group in the order in which they are tried. Groups 10 and 15 are
unassigned. -/
def table (group : Int) : List Rule :=
  match group with
  | 0 => [orToCcr, andToCcr, eorToCcr, orToSr, andToSr, eorToSr, immediateOp, bitStatic, movep,
      bitDynamic]
  | 1 => [move]
  | 2 => [move]
  | 3 => [move]
  | 4 => [illegal, reset, nop, stop, rte, rts, trapv, rtr, trap, link, unlk, moveUsp, jsr, jmp, lea,
      chk, unary, moveFromSr, moveFromCcr, moveToCcr, moveToSr, nbcd, swap, pea, ext, tas, movem]
  | 5 => [dbcc, scc, addSubQuick]
  | 6 => [branch]
  | 7 => [moveq]
  | 8 => [divu, divs, sbcd, or]
  | 9 => [suba, subx, sub]
  | 11 => [cmpa, cmp, cmpm, eor]
  | 12 => [mulu, muls, abcd, exgData, exgAddress, exgMixed, and]
  | 13 => [adda, addx, add]
  | 14 => [shiftMemory, shiftRegister]
  | _ => []

/-- The first rule of a table that accepts a word. -/
def firstIn? (rules : List Rule) (word : Int) : Option Rule :=
  rules.find? fun rule => rule.accepts word

/-- The rule that decodes a word. -/
def first? (word : Int) : Option Rule :=
  firstIn? (table (group word)) word

end Rule

end Disasm68k
