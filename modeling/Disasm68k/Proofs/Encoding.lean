import Disasm68k.Opcode.Fields
import Disasm68k.Size

/-!
# The encoding of instructions

This module describes the instruction set by the fields of the instruction word: which words
belong to no instruction, and what stands in the extension words of the others. Rules, forms
and slots play no part in it.

- `Encoding.Unassigned`: the words of no instruction;
- `Encoding.Supported`: the addressing modes in a word exist;
- `Encoding.Item`: a part of the extension words;
- `Encoding.items`: the parts that follow an instruction word, in order;
- `Encoding.items?`: the same, with nothing for a word that cannot be decoded.
-/

namespace Disasm68k

namespace Encoding

open Opcode

/-! ## Words without an instruction -/

/-- No instruction has this word. -/
def Unassigned (word : Int) : Prop :=
  group word = 10 ∨ group word = 15 ∨
  (group word = 7 ∧ bit8 word = 1) ∨
  (group word = 0 ∧ bit8 word = 0 ∧
    (rx word = 7 ∨ rx word ∈ [0, 1, 2, 3, 5, 6] ∧ sizeCode word = 3)) ∨
  -- a byte cannot be moved to an address register
  (group word = 1 ∧ opmode word = 1) ∨
  (group word = 4 ∧
    (opmode word = 4 ∨ opmode word = 5 ∨ (rx word = 6 ∧ (opmode word = 0 ∨ opmode word = 1)) ∨
      (rx word = 7 ∧ opmode word = 0) ∨ word = 0x4E74 ∨ (0x4E78 ≤ word ∧ word ≤ 0x4E7F))) ∨
  (group word = 14 ∧ sizeCode word = 3 ∧ 4 ≤ rx word)

/-- The mode and the register number name no addressing mode. -/
def Reserved (mode reg : Int) : Prop :=
  mode = 7 ∧ 5 ≤ reg

/-- The word is a move, which has a second effective address in bits 6 to 11. -/
def IsMove (word : Int) : Prop :=
  group word = 1 ∨ group word = 2 ∨ group word = 3

/-- The addressing modes that the word asks for exist. Branches, quick moves and shifts of
registers use the low six bits for something else. -/
def Supported (word : Int) : Prop :=
  (¬ (group word = 6 ∨ group word = 7 ∨ (group word = 14 ∧ sizeCode word < 3)) →
    ¬ Reserved (mode word) (reg word)) ∧
  (IsMove word → ¬ Reserved (opmode word) (rx word))

instance (word : Int) : Decidable (Unassigned word) :=
  inferInstanceAs (Decidable (_ ∨ _))

instance (mode reg : Int) : Decidable (Reserved mode reg) :=
  inferInstanceAs (Decidable (_ ∧ _))

instance (word : Int) : Decidable (IsMove word) :=
  inferInstanceAs (Decidable (_ ∨ _))

instance (word : Int) : Decidable (Supported word) :=
  inferInstanceAs (Decidable (_ ∧ _))

/-! ## Extension words -/

/-- A part of the extension words. -/
inductive Item where
  /-- A byte of data: a word with nothing in its high half. -/
  | byte
  | word
  | long
deriving DecidableEq, Repr

namespace Item

/-- Data of a size. -/
def ofSize : Size → Item
  | .byte => byte
  | .word => word
  | .long => long

/-- The number of bytes that the item takes. -/
def extent : Item → Nat
  | byte => 2
  | word => 2
  | long => 4

/-- The number of bytes that items take. -/
def total : List Item → Nat
  | [] => 0
  | item :: items => item.extent + total items

/-- Where the bytes of data stand among items that begin at an address. -/
def bytePlaces : Int → List Item → List Int
  | _, [] => []
  | address, byte :: items => address :: bytePlaces (address + 2) items
  | address, word :: items => bytePlaces (address + 2) items
  | address, long :: items => bytePlaces (address + 4) items

end Item

/-- What an addressing mode needs, for an operand of a size. -/
def addressItems (mode reg : Int) (size : Size) : List Item :=
  if mode = 5 ∨ mode = 6 then [.word]
  else if mode = 7 then
    if reg = 1 then [.long]
    else if reg = 4 then [.ofSize size]
    else [.word]
  else []

/-- The size that bits 6 and 7 name. -/
def fieldSize (word : Int) : Size :=
  if sizeCode word = 0 then .byte
  else if sizeCode word = 1 then .word
  else .long

/-- The size of the operand of a word of group 4. -/
def controlSize (word : Int) : Size :=
  if opmode word = 6 then .word
  else if opmode word = 7 then .long
  else if rx word = 4 then
    -- NBCD, PEA and MOVEM
    if opmode word = 0 then .byte
    else if opmode word = 2 then .word
    else .long
  else if rx word = 6 then if opmode word = 2 then .word else .long
  else if rx word = 7 then .long
  else if opmode word = 3 then
    -- TAS, or a move of the status register
    if rx word = 5 then .byte else .word
  else fieldSize word

/-- The size of the operand of a word of group 5 or above. -/
def arithmeticSize (word : Int) : Size :=
  if group word = 5 then
    -- Scc sets a byte
    if sizeCode word = 3 then .byte else fieldSize word
  else if group word = 8 ∨ group word = 12 ∨ group word = 14 then
    -- multiplication, division and shifts work on words
    if sizeCode word = 3 then .word else fieldSize word
  else if opmode word = 3 then .word
  else if opmode word = 7 then .long
  else fieldSize word

/-- The size of the operand that the low six bits address. -/
def addressSize (word : Int) : Size :=
  if group word = 0 then
    -- bit instructions work on bytes
    if bit8 word = 1 ∨ rx word = 4 then .byte else fieldSize word
  else if group word = 1 then .byte
  else if group word = 2 then .long
  else if group word = 3 then .word
  else if group word = 4 then controlSize word
  else arithmeticSize word

/-- What stands before the items of the effective address: data, a bit number, a mask of
registers or a displacement. -/
def leading (word : Int) : List Item :=
  if group word = 0 then
    if bit8 word = 1 then if mode word = 1 then [.word] else []
    else if rx word = 4 then [.word]
    else [.ofSize (fieldSize word)]
  else if group word = 4 then
    if rx word = 7 ∧ opmode word = 1 then
      -- LINK and STOP
      if mode word = 2 ∨ word = 0x4E72 then [.word] else []
    else if ((rx word = 4 ∧ mode word ≠ 0) ∨ rx word = 6) ∧
        (opmode word = 2 ∨ opmode word = 3) then [.word]
    else []
  else if group word = 5 then if sizeCode word = 3 ∧ mode word = 1 then [.word] else []
  else if group word = 6 then if bits word 0 8 = 0 then [.word] else []
  else []

/-- The low six bits are an effective address, or name registers by a mode that needs no
extension words. -/
def HasAddress (word : Int) : Prop :=
  word ∉ [0x003C, 0x023C, 0x0A3C, 0x007C, 0x027C, 0x0A7C, 0x4AFC] ∧
  ¬ (group word = 4 ∧ rx word = 7 ∧ opmode word = 1) ∧
  ¬ (group word = 6 ∨ group word = 7 ∨ (group word = 14 ∧ sizeCode word < 3))

instance (word : Int) : Decidable (HasAddress word) :=
  inferInstanceAs (Decidable (_ ∧ _))

/-- The items that follow an instruction word. -/
def items (word : Int) : List Item :=
  leading word ++
    (if HasAddress word then addressItems (mode word) (reg word) (addressSize word) else []) ++
    (if IsMove word then addressItems (opmode word) (rx word) (addressSize word) else [])

/-- The items that follow an instruction word, if the word can be decoded at all. -/
def items? (word : Int) : Option (List Item) :=
  if ¬ Unassigned word ∧ Supported word then some (items word) else none

theorem items?_eq_some_iff {word : Int} {found : List Item} :
    items? word = some found ↔ ¬ Unassigned word ∧ Supported word ∧ items word = found := by
  unfold items?
  by_cases hvalid : ¬ Unassigned word ∧ Supported word
  · rw [if_pos hvalid, Option.some_inj]
    exact ⟨fun h => ⟨hvalid.1, hvalid.2, h⟩, fun h => h.2.2⟩
  · rw [if_neg hvalid]
    constructor
    · intro hnone
      cases hnone
    · rintro ⟨hassigned, hsupported, -⟩
      exact absurd ⟨hassigned, hsupported⟩ hvalid

/-- A mode below five needs no extension words. -/
theorem addressItems_of_lt {mode : Int} (h : mode < 5) (reg : Int) (size : Size) :
    addressItems mode reg size = [] := by
  unfold addressItems
  rw [if_neg (by omega), if_neg (by omega)]

end Encoding

end Disasm68k
