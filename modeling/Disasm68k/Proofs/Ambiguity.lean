import Mathlib.Data.List.Forall2
import Disasm68k.Proofs.Grammar
import Disasm68k.Proofs.Ranges
import Disasm68k.Proofs.RegisterNames

/-!
# What the text of an instruction tells

Some operands share their text. A number after `#` may be in the instruction word or behind it, and
a list of no registers is written as zero; a register may be an operand by itself or the only one of
a list. All else can be told from the text of a decoded instruction: the mnemonic with its size, the
number of operands, and each operand.

- `Operand.Alias`: operands that are written alike;
- `Operand.alias_of_reading`: operands in range that say the same are aliases;
- `isRegisterLoad_iff_of_decodeAt`: the place of a list of registers tells the direction of the
  move, and with it the mask;
- `spelled_of_decodeAt`: the mnemonics and the names in a decoded instruction are words;
- `Disassembler.decode_text_eq_iff`: decoded instructions with the same text.
-/

namespace Disasm68k

open Opcode Lexeme

namespace Operand

/-! ## Aliases -/

/-- The operand is written as the number after `#`. -/
inductive IsNumber (value : Int) : Operand → Prop where
  | immediate (size : Size) : IsNumber value (.ea (.immediate value size))
  | quick : IsNumber value (.quick value)
  /-- A list of no registers counts as zero. -/
  | empty (mask : Int) (hzero : value = 0) : IsNumber value (.regList mask [])

/-- The operand is the data or address register of the name. -/
inductive IsRegister : String → Operand → Prop where
  | data (reg : Int) : IsRegister ("D" ++ Numeral.decimal reg) (.ea (.dataReg reg))
  | address (reg : Int) : IsRegister ("A" ++ Numeral.decimal reg) (.ea (.addrReg reg))

/-- Operands that are written alike. -/
inductive Alias : Operand → Operand → Prop where
  | same (operand : Operand) : Alias operand operand
  | number {value : Int} {first second : Operand} (hfirst : first.IsNumber value)
      (hsecond : second.IsNumber value) : Alias first second
  /-- A register, and the list of that register. -/
  | register {name : String} {operand : Operand} (mask : Int) (h : operand.IsRegister name) :
      Alias operand (.regList mask [name])
  /-- The list of a register, and that register. -/
  | list {name : String} {operand : Operand} (mask : Int) (h : operand.IsRegister name) :
      Alias (.regList mask [name]) operand

/-- The operand is a list of registers. -/
def IsList : Operand → Prop
  | .regList _ _ => True
  | _ => False

variable {first second : Operand} {word word' : Int} {mnemonic mnemonic' : String}

theorem IsNumber.tokens_eq {value : Int} (h : first.IsNumber value) :
    first.tokens = [.text "#", .integer value] := by
  cases h with
  | immediate size => rfl
  | quick => rfl
  | empty mask hzero =>
    subst hzero
    rfl

theorem IsRegister.tokens_eq {name : String} (h : first.IsRegister name) :
    first.tokens = [.register name] := by
  cases h <;> rfl

/-- Aliases are written alike. -/
theorem Alias.tokens_eq (h : first.Alias second) : first.tokens = second.tokens := by
  cases h with
  | same => rfl
  | number hfirst hsecond => rw [hfirst.tokens_eq, hsecond.tokens_eq]
  | register mask h => exact h.tokens_eq
  | list mask h => exact h.tokens_eq.symm

/-! ## Operands that say the same -/

/-- The operand is written as the names with slashes between them. -/
inductive Names : List String → Operand → Prop where
  | register {name : String} {operand : Operand} (h : operand.IsRegister name) :
      Names [name] operand
  | special (name : String) : Names [name] (.specialReg name)
  | list (mask : Int) (names : List String) : Names names (.regList mask names)

theorem isNumber_of_reading {value : Int} (h : first.reading = .number value) :
    first.IsNumber value := by
  cases first with
  | ea address =>
    cases address with
    | immediate own size =>
      cases h
      exact .immediate size
    | _ => cases h
  | quick own =>
    cases h
    exact .quick
  | regList mask names =>
    cases names with
    | nil =>
      cases h
      exact .empty mask rfl
    | cons => cases h
  | _ => cases h

theorem names_of_reading {names : List String} (h : first.reading = .registers names) :
    first.Names names := by
  cases first with
  | ea address =>
    cases address with
    | dataReg reg =>
      cases h
      exact .register (.data reg)
    | addrReg reg =>
      cases h
      exact .register (.address reg)
    | _ => cases h
  | specialReg name =>
    cases h
    exact .special name
  | regList mask names =>
    cases names with
    | nil => cases h
    | cons name names =>
      cases h
      exact .list mask (name :: names)
  | _ => cases h

theorem eq_of_reading_memory {address : EffectiveAddress} (h : first.reading = .memory address) :
    first = .ea address := by
  cases first with
  | ea own =>
    cases own with
    | dataReg | addrReg | immediate => cases h
    | _ =>
      cases h
      rfl
  | regList mask names => cases names <;> cases h
  | _ => cases h

theorem eq_of_reading_branch {disp : Int} (h : first.reading = .branch disp) :
    first = .branchDisp disp := by
  cases first with
  | ea own => cases own <;> cases h
  | regList mask names => cases names <;> cases h
  | branchDisp own =>
    cases h
    rfl
  | _ => cases h

/-- The data or address register of a name. -/
def ofName? (name : String) : Option Operand :=
  ((Text.register? 'D' name.toList).map fun reg => .ea (.dataReg reg)) <|>
    (Text.register? 'A' name.toList).map fun reg => .ea (.addrReg reg)

/-- A register can be told from its name. -/
theorem IsRegister.ofName?_eq {name : String} (h : first.IsRegister name) :
    ofName? name = some first := by
  cases h with
  | data reg =>
    rw [ofName?, String.toList_append]
    show ((Text.register? 'D' ('D' :: (Numeral.decimal reg).toList)).map _ <|> _) = _
    rw [Text.register?_cons]
    rfl
  | address reg =>
    rw [ofName?, String.toList_append]
    show (Text.register? 'A' ('A' :: (Numeral.decimal reg).toList)).map _ = _
    rw [Text.register?_cons]
    rfl

theorem ofName?_special : ∀ name ∈ ["CCR", "SR", "USP"], ofName? name = none := by
  decide

theorem IsRegister.notMem_special {name : String} (h : first.IsRegister name) :
    name ∉ ["CCR", "SR", "USP"] := by
  intro hname
  have hnone := ofName?_special name hname
  rw [h.ofName?_eq] at hnone
  cases hnone

theorem notMem_special : ∀ name ∈ RegisterMask.registers, name ∉ ["CCR", "SR", "USP"] := by
  decide

theorem mem_registers_of_inRange {mask : Int} {names : List String} {name : String}
    (h : (Operand.regList mask names).InRange word mnemonic) (hname : name ∈ names) :
    name ∈ RegisterMask.registers := by
  rw [h.2] at hname
  exact RegisterMask.mem_registers_of_mem_names hname

/-- Lists of the same registers in the same direction have the same mask. -/
theorem mask_eq_of_inRange {mask mask' : Int} {names : List String}
    (h : (Operand.regList mask names).InRange word mnemonic)
    (h' : (Operand.regList mask' names).InRange word' mnemonic')
    (hdirection : IsRegisterLoad word ↔ IsRegisterLoad word') : mask = mask' := by
  have hnames : RegisterMask.names mask (IsRegisterLoad word) =
      RegisterMask.names mask' (IsRegisterLoad word) := by
    rw [← h.2, h'.2, decide_eq_decide.mpr hdirection]
  exact RegisterMask.names_injective h.1 h'.1 hnames

/-- Operands in range that are written as the same names are aliases. -/
theorem alias_of_names {names : List String} (hfirst : first.InRange word mnemonic)
    (hsecond : second.InRange word' mnemonic')
    (hdirection : first.IsList → second.IsList → (IsRegisterLoad word ↔ IsRegisterLoad word'))
    (h : first.Names names) (h' : second.Names names) : first.Alias second := by
  cases h with
  | register hreg =>
    cases h' with
    | register hreg' =>
      obtain rfl := Option.some.inj (hreg.ofName?_eq.symm.trans hreg'.ofName?_eq)
      exact .same _
    | special => exact absurd hsecond hreg.notMem_special
    | list mask => exact .register mask hreg
  | special name =>
    cases h' with
    | register hreg => exact absurd hfirst hreg.notMem_special
    | special => exact .same _
    | list mask =>
      have hmem := mem_registers_of_inRange hsecond List.mem_cons_self
      exact absurd hfirst (notMem_special name hmem)
  | list mask =>
    cases h' with
    | register hreg => exact .list mask hreg
    | special name =>
      have hmem := mem_registers_of_inRange hfirst List.mem_cons_self
      exact absurd hsecond (notMem_special name hmem)
    | list mask' =>
      obtain rfl := mask_eq_of_inRange hfirst hsecond (hdirection trivial trivial)
      exact .same _

/-- Operands in range that say the same are aliases. -/
theorem alias_of_reading (hfirst : first.InRange word mnemonic)
    (hsecond : second.InRange word' mnemonic')
    (hdirection : first.IsList → second.IsList → (IsRegisterLoad word ↔ IsRegisterLoad word'))
    (h : first.reading = second.reading) : first.Alias second := by
  cases hread : second.reading with
  | number value =>
    exact .number (isNumber_of_reading (h.trans hread)) (isNumber_of_reading hread)
  | registers names =>
    exact alias_of_names hfirst hsecond hdirection (names_of_reading (h.trans hread))
      (names_of_reading hread)
  | memory address =>
    rw [eq_of_reading_memory (h.trans hread), eq_of_reading_memory hread]
    exact .same _
  | branch disp =>
    rw [eq_of_reading_branch (h.trans hread), eq_of_reading_branch hread]
    exact .same _

theorem isWord_special : ∀ name ∈ ["CCR", "SR", "USP"], IsWord name.toList := by
  decide

theorem isWord_registers : ∀ name ∈ RegisterMask.registers, IsWord name.toList := by
  decide

/-- The registers of an operand in range have words for names. -/
theorem named_of_inRange (h : first.InRange word mnemonic) : first.Named := by
  cases first with
  | specialReg name => exact isWord_special name h
  | regList mask names =>
    intro name hname
    exact isWord_registers name (mem_registers_of_inRange h hname)
  | _ => trivial

end Operand

/-! ## The direction of a list -/

/-- The slot never has a list of registers for its operand. -/
def Slot.IsUnlisted (memory : Memory) (slot : Slot) : Prop :=
  ∀ operand : Operand, slot.Gives memory operand → ¬ operand.IsList

theorem Slot.isUnlisted_of_suits {memory : Memory} {word : Int} {mnemonic : String}
    {size : Option Size} {slot : Slot} (h : slot.Suits word mnemonic size) :
    slot.IsUnlisted memory := by
  intro operand hgives
  cases h with
  | address own key =>
    obtain ⟨address, rfl, -⟩ := address_of_gives hgives
    exact id
  | destination own =>
    obtain ⟨address, rfl, -⟩ := address_of_gives hgives
    exact id
  | register | quick | special | shortBranch =>
    cases hgives
    exact id
  | data key own =>
    obtain ⟨place, raw, -, hraw⟩ := hgives
    simp only [Field.operand] at hraw
    split at hraw
    · cases hraw
      exact id
    · cases hraw
  | longBranch | peripheral =>
    obtain ⟨place, raw, -, hraw⟩ := hgives
    cases hraw
    exact id
  | refused => exact absurd hgives id

/-- Only the form of a move of several registers has a slot for a list. -/
theorem Form.Signed.unlisted_or_registers {word : Int} {form : Form} (h : form.Signed word)
    (memory : Memory) :
    (∀ slot ∈ form.slots, slot.IsUnlisted memory) ∨
      ∃ size, form = ⟨"MOVEM", some size,
        [.extension "mask" (.regList (IsRegisterLoad word)), ea word size "ea"],
        IsRegisterLoad word⟩ := by
  cases h with
  | none hname => exact .inl (by rintro slot ⟨⟩)
  | one hname hslot =>
    exact .inl (List.forall_mem_singleton.mpr (Slot.isUnlisted_of_suits hslot))
  | two hname hfirst hsecond =>
    exact .inl (List.forall_mem_cons.mpr ⟨Slot.isUnlisted_of_suits hfirst,
      List.forall_mem_singleton.mpr (Slot.isUnlisted_of_suits hsecond)⟩)
  | @bitTest mnemonic hname =>
    have hbit : Slot.IsUnlisted memory (.extension "bit" .bitNumber) := by
      rintro operand ⟨place, raw, -, hraw⟩
      cases hraw
      exact id
    have haddress : (ea word .byte "dst").Suits word mnemonic .none := .address _ _ (.inl rfl)
    exact .inl (List.forall_mem_cons.mpr ⟨hbit,
      List.forall_mem_singleton.mpr (Slot.isUnlisted_of_suits haddress)⟩)
  | registers size => exact .inr ⟨size, rfl⟩

/-- A list of registers is the second operand in a load and the first one in a store. -/
theorem isRegisterLoad_iff_of_decodeAt {memory : Memory} {address : Int} {instruction : Instruction}
    (h : decodeAt memory address = .ok instruction) {index : Nat} {operand : Operand}
    (hindex : instruction.operands[index]? = some operand) (hlist : operand.IsList) :
    IsRegisterLoad instruction.opcode ↔ index = 1 := by
  obtain ⟨word, form, operands, -, hform, hreads, rfl⟩ := decodeAt_eq_ok_iff.mp h
  show IsRegisterLoad word ↔ index = 1
  rcases (Opcode.signed_of_form hform).unlisted_or_registers memory with hslots | ⟨size, rfl⟩
  · have hmem : operand ∈ operands := Form.mem_arrange.mp (List.mem_of_getElem? hindex)
    obtain ⟨slot, hslot, hgives⟩ := Slot.exists_gives hreads hmem
    exact absurd hlist (hslots slot hslot operand hgives)
  · cases hreads with
    | @extension _ _ _ list _ others head rest =>
      obtain ⟨other, rfl⟩ := List.length_eq_one_iff.mp (Slot.length_of_reads rest)
      have hother : ¬ other.IsList := by
        obtain ⟨slot, hslot, hgives⟩ := Slot.exists_gives rest List.mem_cons_self
        obtain rfl := List.mem_singleton.mp hslot
        have haddress : (ea word size "ea").Suits word "MOVEM" (some size) :=
          .address _ _ (.inr rfl)
        exact Slot.isUnlisted_of_suits haddress other hgives
      replace hindex : (if decide (IsRegisterLoad word) = true then [other, list]
        else [list, other])[index]? = some operand := hindex
      by_cases hload : IsRegisterLoad word
      · rw [decide_eq_true hload, if_pos rfl] at hindex
        match index, hindex with
        | 0, hindex =>
          obtain rfl := Option.some.inj hindex
          exact absurd hlist hother
        | 1, _ => exact iff_of_true hload rfl
      · rw [decide_eq_false hload, if_neg (by decide)] at hindex
        match index, hindex with
        | 0, _ => exact iff_of_false hload (by decide)
        | 1, hindex =>
          obtain rfl := Option.some.inj hindex
          exact absurd hlist hother

/-! ## Texts of aliases -/

namespace Instruction

open Operand

variable {instruction instruction' : Instruction}

theorem flatMap_tokens_of_alias {operands operands' : List Operand}
    (h : List.Forall₂ Alias operands operands') :
    (operands.flatMap fun operand => Token.separator "," :: operand.tokens) =
      operands'.flatMap fun operand => .separator "," :: operand.tokens := by
  induction h with
  | nil => rfl
  | cons head rest ih => rw [List.flatMap_cons, List.flatMap_cons, head.tokens_eq, ih]

/-- Aliases place by place have the same tokens. -/
theorem operandTokens_of_alias {operands operands' : List Operand}
    (h : List.Forall₂ Alias operands operands') :
    operandTokens operands = operandTokens operands' := by
  cases h with
  | nil => rfl
  | cons head rest =>
    rw [operandTokens, operandTokens, head.tokens_eq, flatMap_tokens_of_alias rest]

theorem text_of_alias (hmnemonic : instruction.fullMnemonic = instruction'.fullMnemonic)
    (h : List.Forall₂ Alias instruction.operands instruction'.operands) :
    instruction.text = instruction'.text := by
  rw [text, text, tokens, tokens, hmnemonic, operandTokens_of_alias h]

end Instruction

/-! ## Decoded instructions -/

theorem Lexeme.notMem_marks_of_isAlphanum {c : Char} (h : c.isAlphanum = true) : c ∉ marks := by
  have hall : marks.all (fun c => !c.isAlphanum) = true := by
    decide
  intro hmem
  have hnot := List.all_eq_true.mp hall c hmem
  rw [h] at hnot
  cases hnot

theorem isWord_of_isName {name : String} (h : IsName name) : IsWord name.toList := by
  refine ⟨h.1, ?_⟩
  intro c hc
  exact notMem_marks_of_isAlphanum (h.2 c hc)

theorem Size.notMem_marks (size : Size) : ∀ c ∈ size.suffix.toList, c ∉ marks := by
  cases size <;> exact notMem_marks_of_all (by decide)

theorem Form.Signed.isName {word : Int} {form : Form} (h : form.Signed word) :
    IsName form.mnemonic := by
  cases h with
  | registers size => exact (by decide : IsName "MOVEM")
  | _ => assumption

/-- Mnemonics and registers of a decoded instruction are words. -/
theorem spelled_of_decodeAt {memory : Memory} {address : Int} {instruction : Instruction}
    (h : decodeAt memory address = .ok instruction) : instruction.Spelled := by
  have hnamed : ∀ operand ∈ instruction.operands, operand.Named := by
    intro operand hmem
    exact Operand.named_of_inRange ((inRange_of_decodeAt h).operands operand hmem)
  refine ⟨?_, hnamed⟩
  obtain ⟨word, form, operands, -, hform, -, rfl⟩ := decodeAt_eq_ok_iff.mp h
  have hname := isWord_of_isName (Opcode.signed_of_form hform).isName
  unfold Instruction.fullMnemonic
  split
  · exact hname
  · next size hsize =>
    rw [String.toList_append]
    refine ⟨List.append_ne_nil_of_left_ne_nil hname.1 _, ?_⟩
    intro c hc
    rcases List.mem_append.mp hc with hmnemonic | hsuffix
    · exact hname.2 c hmnemonic
    · exact size.notMem_marks c hsuffix

/-- Operands of decoded instructions that say the same at the same place are aliases. -/
theorem alias_of_decodeAt {memory memory' : Memory} {address address' : Int}
    {instruction instruction' : Instruction} (h : decodeAt memory address = .ok instruction)
    (h' : decodeAt memory' address' = .ok instruction') {index : Nat} {first second : Operand}
    (hfirst : instruction.operands[index]? = some first)
    (hsecond : instruction'.operands[index]? = some second)
    (hreading : first.reading = second.reading) : first.Alias second := by
  have hrange := (inRange_of_decodeAt h).operands first (List.mem_of_getElem? hfirst)
  have hrange' := (inRange_of_decodeAt h').operands second (List.mem_of_getElem? hsecond)
  refine Operand.alias_of_reading hrange hrange' ?_ hreading
  -- two lists at one place are both loads or both stores
  intro hlist hlist'
  rw [isRegisterLoad_iff_of_decodeAt h hfirst hlist,
    isRegisterLoad_iff_of_decodeAt h' hsecond hlist']

namespace Disassembler

/-- **The text of an instruction tells what it is.** Whatever memory holds, two decoded instructions
have the same text if and only if they have the same mnemonic with its size, and as many operands,
which are aliases place by place. -/
theorem decode_text_eq_iff (d d' : Disassembler) (address address' : Option Int)
    (instruction instruction' : Instruction) (h : (d.decode address).1 = .ok instruction)
    (h' : (d'.decode address').1 = .ok instruction') :
    instruction.text = instruction'.text ↔
      instruction.fullMnemonic = instruction'.fullMnemonic ∧
        List.Forall₂ Operand.Alias instruction.operands instruction'.operands := by
  rw [d.decode_fst] at h
  rw [d'.decode_fst] at h'
  constructor
  · intro htext
    obtain ⟨hmnemonic, hreadings⟩ :=
      Instruction.readings_of_text (spelled_of_decodeAt h) (spelled_of_decodeAt h') htext
    refine ⟨hmnemonic, List.forall₂_iff_get.mpr ⟨?_, ?_⟩⟩
    · have hlength := congrArg List.length hreadings
      rw [List.length_map, List.length_map] at hlength
      exact hlength
    · intro index hlt hlt'
      have hreading := List.getElem_of_eq hreadings (by rw [List.length_map]; exact hlt)
      rw [List.getElem_map, List.getElem_map] at hreading
      exact alias_of_decodeAt h h' (List.getElem?_eq_getElem hlt) (List.getElem?_eq_getElem hlt')
        hreading
  · rintro ⟨hmnemonic, halias⟩
    exact Instruction.text_of_alias hmnemonic halias

/-- The bytes `48 89 00 01` store a list of one register, and `4C 80 00 40` load one; each of the
two operands is a register in one of them and a list in the other. -/
theorem decode_text_of_store_and_load :
    ∃ store load : Instruction,
      ((ofMemory ⟨#[0x48, 0x89, 0x00, 0x01], 0, .big⟩).decode none).1 = .ok store ∧
      ((ofMemory ⟨#[0x4C, 0x80, 0x00, 0x40], 0, .big⟩).decode none).1 = .ok load ∧
      store.operands = [.regList 1 ["D0"], .ea (.addrReg 1)] ∧
      load.operands = [.ea (.dataReg 0), .regList 64 ["A1"]] ∧
      store.text = "MOVEM.W D0,A1" ∧ load.text = "MOVEM.W D0,A1" ∧
      List.Forall₂ Operand.Alias store.operands load.operands := by
  refine ⟨_, _, rfl, rfl, by decide, by decide, by decide, by decide, ?_⟩
  exact ((decode_text_eq_iff (ofMemory ⟨#[0x48, 0x89, 0x00, 0x01], 0, .big⟩)
    (ofMemory ⟨#[0x4C, 0x80, 0x00, 0x40], 0, .big⟩) none none _ _ rfl rfl).mp (by decide)).2

end Disassembler

end Disasm68k
