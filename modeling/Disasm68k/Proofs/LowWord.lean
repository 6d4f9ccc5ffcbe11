import Mathlib.Data.List.Forall2
import Disasm68k.Proofs.Failure

/-!
# Words of more than sixteen bits

A client may ask a cursor to decode any integer as an instruction word. Rules and forms look at the
low sixteen bits of it, field by field, except for the rules that name a word as a whole, which take
no other integer for it. So, these words apart, an integer is decoded as its low sixteen bits are:
to the same instruction, or to a fault of the same kind, with the same cursor behind it.

- `Opcode.lowWord`, `Rule.exactWords`: the low sixteen bits, and the words that rules name;
- `Rule.accepts_lowWord`, `Rule.first?_lowWord`: the same rule is chosen;
- `Form.Alike`, `Rule.alike_form?`: the forms differ at most in the word that a fault names;
- `Fetch.Alike`: two steps that do the same up to the numbers in faults, a relation that passes from
  steps to their sequence;
- `Fetch.decodeWord_of_lowWord`: the results together.
-/

namespace Disasm68k

/-! ## Fields of the low word -/

namespace Opcode

/-- The low sixteen bits of an integer. -/
def lowWord (word : Int) : Int :=
  word % 0x10000

theorem bits_lowWord (word : Int) {low count : Nat} (h : low + count ≤ 16) :
    bits (lowWord word) low count = bits word low count :=
  bits_emod word h

@[simp] theorem group_lowWord (word : Int) : group (lowWord word) = group word :=
  bits_lowWord word (by decide)

@[simp] theorem rx_lowWord (word : Int) : rx (lowWord word) = rx word :=
  bits_lowWord word (by decide)

@[simp] theorem opmode_lowWord (word : Int) : opmode (lowWord word) = opmode word :=
  bits_lowWord word (by decide)

@[simp] theorem sizeCode_lowWord (word : Int) : sizeCode (lowWord word) = sizeCode word :=
  bits_lowWord word (by decide)

@[simp] theorem mode_lowWord (word : Int) : mode (lowWord word) = mode word :=
  bits_lowWord word (by decide)

@[simp] theorem reg_lowWord (word : Int) : reg (lowWord word) = reg word :=
  bits_lowWord word (by decide)

@[simp] theorem bit8_lowWord (word : Int) : bit8 (lowWord word) = bit8 word :=
  bits_lowWord word (by decide)

@[simp] theorem cond_lowWord (word : Int) : cond (lowWord word) = cond word :=
  bits_lowWord word (by decide)

end Opcode

/-! ## The rule of the low word -/

namespace Rule

open Opcode

variable {word : Int}

/-- The words that rules name as a whole. -/
def exactWords : List Int :=
  [0x003C, 0x023C, 0x0A3C, 0x007C, 0x027C, 0x0A7C, 0x4AFC, 0x4E70, 0x4E71, 0x4E72, 0x4E73, 0x4E75,
    0x4E76, 0x4E77]

/-- A word that a rule names is neither the integer nor its low bits. -/
theorem ne_of_mem_exactWords (h : lowWord word ∉ exactWords) {exact : Int}
    (hmem : exact ∈ exactWords) : word ≠ exact ∧ lowWord word ≠ exact := by
  have hsame : lowWord exact = exact := by
    revert exact
    decide
  refine ⟨?_, ?_⟩
  · intro hword
    rw [hword, hsame] at h
    exact h hmem
  · intro hlow
    rw [hlow] at h
    exact h hmem

/-- A rule accepts an integer if it accepts its low bits. -/
theorem accepts_lowWord (rule : Rule) (h : lowWord word ∉ exactWords) :
    rule.accepts (lowWord word) = rule.accepts word := by
  have hexact {exact : Int} (hmem : exact ∈ exactWords) :
      decide (lowWord word = exact) = decide (word = exact) := by
    obtain ⟨hword, hlow⟩ := ne_of_mem_exactWords h hmem
    rw [decide_eq_false hword, decide_eq_false hlow]
  cases rule with
  | orToCcr | andToCcr | eorToCcr | orToSr | andToSr | eorToSr => exact hexact (by decide)
  | illegal | reset | nop | stop | rte | rts | trapv | rtr => exact hexact (by decide)
  | _ => simp [accepts, isRegisterOrPredecrement, bits_lowWord]

theorem first?_lowWord (h : lowWord word ∉ exactWords) : first? (lowWord word) = first? word := by
  have haccepts : (fun rule : Rule => rule.accepts (lowWord word)) =
      fun rule => rule.accepts word := by
    funext rule
    exact accepts_lowWord rule h
  rw [first?, first?, firstIn?, firstIn?, group_lowWord, haccepts]

end Rule

/-! ## The form of the low word -/

/-- The slots are equal, or they refuse the operand with faults of the same kind. -/
inductive Slot.Alike : Slot → Slot → Prop where
  | refl (slot : Slot) : Alike slot slot
  | refused {fault fault' : Fault} (h : fault.kind = fault'.kind) :
      Alike (.invalid fault) (.invalid fault')

/-- The forms differ at most in the faults of operands that they refuse. -/
structure Form.Alike (form form' : Form) : Prop where
  mnemonic_eq : form.mnemonic = form'.mnemonic
  size_eq : form.size = form'.size
  reversed_eq : form.reversed = form'.reversed
  slots : List.Forall₂ Slot.Alike form.slots form'.slots

theorem Form.Alike.refl (form : Form) : form.Alike form where
  mnemonic_eq := rfl
  size_eq := rfl
  reversed_eq := rfl
  slots := List.forall₂_same.mpr fun slot _ => .refl slot

namespace Opcode

variable (word : Int) (mnemonic : String) (size : Size)

@[simp] theorem size?_lowWord : size? (lowWord word) = size? word := by
  simp [size?]

@[simp] theorem ea_lowWord (key : String) : ea (lowWord word) size key = ea word size key := by
  simp [ea]

@[simp] theorem lowByte_lowWord : lowByte (lowWord word) = lowByte word := by
  simp [lowByte, bits_lowWord]

@[simp] theorem shiftName_lowWord (n : Int) : shiftName (lowWord word) n = shiftName word n := by
  simp [shiftName]

@[simp] theorem onAddress_lowWord :
    onAddress mnemonic (lowWord word) size = onAddress mnemonic word size := by
  simp [onAddress]

@[simp] theorem addressToData_lowWord :
    addressToData mnemonic (lowWord word) = addressToData mnemonic word := by
  funext size
  simp [addressToData]

@[simp] theorem dataToAddress_lowWord :
    dataToAddress mnemonic (lowWord word) = dataToAddress mnemonic word := by
  funext size
  simp [dataToAddress]

@[simp] theorem addressToAddressReg_lowWord :
    addressToAddressReg mnemonic (lowWord word) = addressToAddressReg mnemonic word := by
  simp [addressToAddressReg]

@[simp] theorem registerPair_lowWord (size? : Option Size) :
    registerPair mnemonic (lowWord word) size? = registerPair mnemonic word size? := by
  simp [registerPair]

/-- Two moves that differ above the low word only may name different words in their faults. -/
theorem alike_moveForm? :
    Option.Rel Form.Alike (moveForm? word) (moveForm? (lowWord word)) := by
  simp only [moveForm?, group_lowWord, opmode_lowWord, rx_lowWord, ea_lowWord]
  cases moveSize? (group word) with
  | none => exact .none
  | some size =>
    refine .some ?_
    by_cases haddress : opmode word = 1
    · by_cases hbyte : size = .byte
      · simp only [haddress, hbyte, if_true]
        exact ⟨rfl, rfl, rfl, .cons (.refl _) (.cons (.refused rfl) .nil)⟩
      · simp only [haddress, hbyte, if_true, if_false]
        exact .refl _
    · simp only [haddress, if_false]
      exact .refl _

end Opcode

namespace Rule

open Opcode

/-- The form of an integer is that of its low bits, up to the word that a fault names. -/
theorem alike_form? (rule : Rule) (word : Int) :
    Option.Rel Form.Alike (rule.form? word) (rule.form? (lowWord word)) := by
  have hsame {form? : Option Form} : Option.Rel Form.Alike form? form? := by
    cases form? with
    | none => exact .none
    | some form => exact .some (.refl form)
  cases rule with
  | move => exact alike_moveForm? word
  | _ =>
    simp [form?, immediateForm?, bitStaticForm?, movepForm, bitDynamicForm?, moveUspForm,
      unaryForm?, movemForm, dbccForm, addSubQuickForm?, branchForm, general, sizedPair,
      shiftMemoryForm?, shiftRegisterForm?, bits_lowWord, hsame]

end Rule

/-! ## Steps that do the same up to faults -/

namespace Fetch

variable {α α' β β' : Type} {R : α → α' → Prop} {S : β → β' → Prop}

/-- Both outcomes are values, with the relation between them, or both are faults of one kind. -/
inductive OutcomeAlike (R : α → α' → Prop) : Except Fault α → Except Fault α' → Prop where
  | ok {a : α} {a' : α'} (h : R a a') : OutcomeAlike R (.ok a) (.ok a')
  | error {fault fault' : Fault} (h : fault.kind = fault'.kind) :
      OutcomeAlike R (.error fault) (.error fault')

/-- Wherever the two steps are taken, their outcomes are alike and they leave the same cursor. -/
def Alike (R : α → α' → Prop) (step : Fetch α) (step' : Fetch α') : Prop :=
  ∀ cursor, OutcomeAlike R (step cursor).1 (step' cursor).1 ∧ (step cursor).2 = (step' cursor).2

theorem alike_refl (step : Fetch α) : Alike Eq step step := by
  intro cursor
  refine ⟨?_, rfl⟩
  cases (step cursor).1 with
  | ok a => exact .ok rfl
  | error fault => exact .error rfl

theorem alike_pure {a : α} {a' : α'} (h : R a a') : Alike R (pure a) (pure a') := by
  intro cursor
  exact ⟨.ok h, rfl⟩

theorem alike_fail {fault fault' : Fault} (h : fault.kind = fault'.kind) :
    Alike R (fail fault) (fail fault') := by
  intro cursor
  exact ⟨.error h, rfl⟩

theorem alike_ofExcept {outcome : Except Fault α} {outcome' : Except Fault α'}
    (h : OutcomeAlike R outcome outcome') : Alike R (ofExcept outcome) (ofExcept outcome') := by
  intro cursor
  exact ⟨h, rfl⟩

/-- Steps that are alike and go on with steps that are alike are alike in sequence. -/
theorem alike_bind {first : Fetch α} {first' : Fetch α'} {next : α → Fetch β}
    {next' : α' → Fetch β'} (hfirst : Alike R first first')
    (hnext : ∀ a a', R a a' → Alike S (next a) (next' a')) :
    Alike S (first >>= next) (first' >>= next') := by
  intro cursor
  obtain ⟨houtcome, hcursor⟩ := hfirst cursor
  show OutcomeAlike S (Fetch.bind first next cursor).1 (Fetch.bind first' next' cursor).1 ∧
    (Fetch.bind first next cursor).2 = (Fetch.bind first' next' cursor).2
  unfold Fetch.bind
  generalize first cursor = ran, first' cursor = ran' at houtcome hcursor ⊢
  obtain ⟨outcome, after⟩ := ran
  obtain ⟨outcome', after'⟩ := ran'
  -- the second steps are taken at one cursor, where both of the first have left it
  obtain rfl : after = after' := hcursor
  cases houtcome with
  | ok h => exact hnext _ _ h after
  | error h => exact ⟨.error h, rfl⟩

end Fetch

/-! ## Decoding the low word -/

theorem Slot.alike_fetch {slot slot' : Slot} (h : slot.Alike slot') :
    Fetch.Alike Eq slot.fetch slot'.fetch := by
  cases h with
  | refl => exact Fetch.alike_refl slot.fetch
  | refused hkind => exact Fetch.alike_fail hkind

theorem Slot.alike_fetchAll {slots slots' : List Slot} (h : List.Forall₂ Slot.Alike slots slots') :
    Fetch.Alike Eq (fetchAll slots) (fetchAll slots') := by
  induction h with
  | nil => exact Fetch.alike_refl (pure [])
  | cons hslot _ ih =>
    refine Fetch.alike_bind (alike_fetch hslot) ?_
    rintro operand _ rfl
    refine Fetch.alike_bind ih ?_
    rintro operands _ rfl
    exact Fetch.alike_pure rfl

/-- An integer has a form if its low bits have one, and then they are alike. -/
theorem Opcode.alike_form {word : Int} (address : Int) (h : lowWord word ∉ Rule.exactWords) :
    Fetch.OutcomeAlike Form.Alike (form word address) (form (lowWord word) address) := by
  rw [form_eq, form_eq]
  rw [Rule.first?_lowWord h]
  cases Rule.first? word with
  | none => exact .error rfl
  | some rule =>
    have hforms := rule.alike_form? word
    simp only
    generalize rule.form? word = form?, rule.form? (lowWord word) = form'? at hforms ⊢
    cases hforms with
    | some hform => exact .ok hform
    | none => exact .error rfl

namespace Fetch

open Opcode

variable {word : Int}

theorem finish_eq_of_alike {form form' : Form} (h : form.Alike form') (operands : List Operand)
    (cursor : Cursor) :
    finish word form operands cursor =
      { finish (lowWord word) form' operands cursor with opcode := word } := by
  simp only [finish, Form.arrange, h.mnemonic_eq, h.size_eq, h.reversed_eq]

/-- **Only the low word is decoded.** Unless its low sixteen bits are a word that a rule names, an
integer and its low bits decode at every cursor to instructions that differ in the opcode alone, or
to faults of one kind. The cursor is left at the same place with the same layout in both cases. -/
theorem decodeWord_of_lowWord (h : lowWord word ∉ Rule.exactWords) :
    Alike (fun instruction instruction' => instruction = { instruction' with opcode := word })
      (decodeWord word) (decodeWord (lowWord word)) := by
  refine alike_bind (alike_refl here) ?_
  rintro before _ rfl
  refine alike_bind (alike_ofExcept (alike_form before.pc h)) ?_
  intro form form' hform
  refine alike_bind (Slot.alike_fetchAll hform.slots) ?_
  rintro operands _ rfl
  refine alike_bind (alike_refl here) ?_
  rintro after _ rfl
  exact alike_pure (finish_eq_of_alike hform operands after)

-- the words that rules name are those words only
example : (Rule.first? 0x4E71).isSome ∧ Rule.first? 0x14E71 = none := by
  decide

/-- A move by a negative word reads as far as the move by its low bits, a byte move to an address
register by too large a word fails as that by its low bits does. -/
theorem decodeWord_of_lowWord_on_outside_words :
    let memory : Memory := ⟨#[0x30, 0x39, 0x00, 0x01, 0x00, 0x02], 0, .big⟩
    let cursor : Cursor := ⟨memory, 0, 2, []⟩
    lowWord (-0xCFC7) = 0x3039 ∧ lowWord 0x11040 = 0x1040 ∧
      (decodeWord 0x3039 cursor).2.idx = 6 ∧
      (decodeWord (-0xCFC7) cursor).2 = (decodeWord 0x3039 cursor).2 ∧
      (decodeWord 0x1040 cursor).1 = .error (.byteAddressMove 0x1040) ∧
      OutcomeAlike (fun instruction instruction' =>
          instruction = { instruction' with opcode := 0x11040 })
        (decodeWord 0x11040 cursor).1 (decodeWord 0x1040 cursor).1 := by
  have hnegative := @decodeWord_of_lowWord (-0xCFC7) (by decide)
  have hlarge := @decodeWord_of_lowWord 0x11040 (by decide)
  exact ⟨rfl, rfl, by rfl, (hnegative _).2, by rfl, (hlarge _).1⟩

end Fetch

end Disasm68k
