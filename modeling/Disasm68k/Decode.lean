import Disasm68k.Instruction
import Disasm68k.Opcode.Form

/-!
# Decoding an instruction

The instruction word picks a rule, the rule gives the form, and the form says which
operands to read. The rules are those of the word's table, but nothing here depends on
that: they may be any list.

- `Opcode.formBy`, `Opcode.form`: the form of a word by a list of rules and by its table,
  or why it has none;
- `Fetch.decodeWordBy`, `Fetch.decodeWord`: read the operands of an instruction whose word
  is known;
- `Fetch.decodeNext`: reads the instruction word at the cursor, then its operands;
- `decodeAt`: the instruction at an address.

Reference: specification §4.3, the dispatcher (`decode_opcode`, `decode_at`).
-/

namespace Disasm68k

/-- The form that a list of rules gives to the instruction word `word` found at `address`. -/
def Opcode.formBy (rules : List Rule) (word address : Int) : Except Fault Form :=
  match Rule.firstIn? rules word with
  | none => .error (.unknownInstruction word address)
  | some rule =>
    match rule.form? word with
    | none => .error (.undefinedForm word)
    | some form => .ok form

/-- The form of the instruction word `word` found at `address`. -/
def Opcode.form (word address : Int) : Except Fault Form :=
  formBy (Rule.table (group word)) word address

theorem Opcode.form_eq (word address : Int) :
    form word address =
      match Rule.first? word with
      | none => .error (.unknownInstruction word address)
      | some rule =>
        match rule.form? word with
        | none => .error (.undefinedForm word)
        | some form => .ok form :=
  rfl

namespace Fetch

/-- The instruction of the given form that ends at the cursor. -/
def finish (word : Int) (form : Form) (operands : List Operand) (cursor : Cursor) :
    Instruction where
  address := cursor.pc
  opcode := word
  mnemonic := form.mnemonic
  size := form.size
  operands := form.arrange operands
  length := cursor.idx
  layout := cursor.layout

/-- Reads the operands of an instruction whose word has been read, in the form that a list
of rules gives to it. -/
def decodeWordBy (rules : List Rule) (word : Int) : Fetch Instruction := do
  let before ← here
  let form ← ofExcept (Opcode.formBy rules word before.pc)
  let operands ← Slot.fetchAll form.slots
  let after ← here
  pure (finish word form operands after)

/-- Reads the operands of the instruction whose word has been read. -/
def decodeWord (word : Int) : Fetch Instruction :=
  decodeWordBy (Rule.table (Opcode.group word)) word

theorem decodeWord_eq (word : Int) :
    decodeWord word = (do
      let before ← here
      let form ← ofExcept (Opcode.form word before.pc)
      let operands ← Slot.fetchAll form.slots
      let after ← here
      pure (finish word form operands after)) :=
  rfl

/-- Reads the instruction at the cursor. -/
def decodeNext : Fetch Instruction := do
  let word ← read .uint16
  decodeWord word

/-! ## Decoding makes progress -/

theorem advances_decodeWord (word : Int) : (decodeWord word).Advances :=
  advances_bind advances_here fun _ =>
    advances_bind (advances_ofExcept _) fun form =>
      advances_bind (Slot.advances_fetchAll form.slots) fun _ =>
        advances_bind advances_here fun _ => advances_pure _

/-- The length of an instruction is what the cursor has read in the end. -/
theorem decodeWord_length {word : Int} {cursor cursor' : Cursor} {instruction : Instruction}
    (h : decodeWord word cursor = (.ok instruction, cursor')) :
    instruction.length = cursor'.idx := by
  simp only [decodeWord_eq, bind, Fetch.bind, here, ofExcept] at h
  split at h
  · split at h
    · cases h
      rfl
    · cases h
  · cases h

/-- An instruction read at the cursor is at least as long as its word. -/
theorem decodeNext_length {cursor cursor' : Cursor} {instruction : Instruction}
    (h : decodeNext cursor = (.ok instruction, cursor')) :
    cursor.idx + 2 ≤ instruction.length := by
  change Fetch.bind (read .uint16) decodeWord cursor = _ at h
  unfold Fetch.bind at h
  split at h
  · next word middle heq =>
    rw [decodeWord_length h]
    have hm : middle.idx = cursor.idx + 2 := by
      unfold read at heq
      split at heq
      · cases heq
      · cases heq
        rfl
    have := advances_decodeWord word middle
    rw [h, hm] at this
    exact this
  · cases h

end Fetch

/-- The instruction at an address. -/
def decodeAt (memory : Memory) (address : Int) : Except Fault Instruction :=
  (Fetch.decodeNext (Cursor.start memory address)).1

/-- A decoded instruction takes up at least a word. -/
theorem two_le_length_of_decodeAt {memory : Memory} {address : Int} {instruction : Instruction}
    (h : decodeAt memory address = .ok instruction) : 2 ≤ instruction.length := by
  have hrun : Fetch.decodeNext (Cursor.start memory address) =
      (.ok instruction, (Fetch.decodeNext (Cursor.start memory address)).2) := Prod.ext h rfl
  simpa [Cursor.start] using Fetch.decodeNext_length hrun

end Disasm68k
