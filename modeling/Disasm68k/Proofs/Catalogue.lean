import Disasm68k.Proofs.Dispatch

/-!
# What forms are made of

Some sixty rules give their forms one by one, but the slots in them are of few kinds. This
module goes through the rules once and keeps a list of the kinds; a property of all operands
is then a property of each kind.

- `Slot.OfAddress`: the slots that a mode and a register number may have;
- `Slot.Suits`: the slots that the form of a word may have, given its mnemonic and its size;
- `Form.Signed`: the forms that are made of such slots;
- `Rule.signed_form`: every form that a word gets is one of these;
- `Slot.Occurs`, `Slot.Planned`: the same slots without mnemonic and size, none, one or two of
  them, with `Rule.planned_slots`.
-/

namespace Disasm68k

open Opcode

/-- The word is a branch that holds its own displacement. -/
def Opcode.IsShortBranch (word : Int) : Prop :=
  group word = 6 ∧ bits word 0 8 ≠ 0

instance (word : Int) : Decidable (IsShortBranch word) :=
  inferInstanceAs (Decidable (_ ∧ _))

/-- The word is a move of several registers that loads them from memory. -/
def Opcode.IsRegisterLoad (word : Int) : Prop :=
  group word = 4 ∧ rx word = 6 ∧ (opmode word = 2 ∨ opmode word = 3)

instance (word : Int) : Decidable (IsRegisterLoad word) :=
  inferInstanceAs (Decidable (_ ∧ _))

/-- The word is a loop or a branch with its displacement in an extension word. -/
def Opcode.IsLongBranch (word : Int) : Prop :=
  group word = 5 ∨ group word = 6 ∧ bits word 0 8 = 0

instance (word : Int) : Decidable (IsLongBranch word) :=
  inferInstanceAs (Decidable (_ ∨ _))

/-- The word asks for a byte to be moved to an address register. -/
def Opcode.IsByteAddressMove (word : Int) : Prop :=
  group word = 1 ∧ opmode word = 1

instance (word : Int) : Decidable (IsByteAddressMove word) :=
  inferInstanceAs (Decidable (_ ∧ _))

/-- The field belongs to an effective address. -/
def Field.IsAddress : Field → Prop
  | bitNumber => False
  | regList _ => False
  | branchDisp => False
  | _ => True

namespace Slot

/-! ## Slots of effective addresses -/

/-- The slots that a mode and a register number may have when a size is given. -/
inductive OfAddress (mode reg : Int) (key : String) : Slot → Prop where
  | direct (address : EffectiveAddress) (hext : address.extBytes = 0) :
      OfAddress mode reg key (.fixed (.ea address))
  | extended (field : Field) (hfield : field.IsAddress) :
      OfAddress mode reg key (.extension key field)
  | unsupported : OfAddress mode reg key (.invalid (.unsupportedMode mode reg))

theorem ofAddress_ofMode (mode reg : Int) (size : Size) (key : String) :
    OfAddress mode reg key (ofMode mode reg (some size.code) key) := by
  unfold ofMode
  -- five modes that name a register, then six that take extension words
  iterate 5 refine iteInduction (fun _ => .direct _ rfl) fun _ => ?_
  iterate 6 refine iteInduction (fun _ => .extended _ trivial) fun _ => ?_
  refine iteInduction (fun _ => ?_) fun _ => .unsupported
  rw [ofImmediate, Size.ofCode?_code]
  exact .extended _ trivial

end Slot

/-! ## Mnemonics -/

namespace Opcode

/-- A mnemonic is a word of letters and digits. -/
def IsName (mnemonic : String) : Prop :=
  mnemonic.toList ≠ [] ∧ ∀ c ∈ mnemonic.toList, c.isAlphanum = true

-- goes through the characters of the mnemonic, not through all characters that there are
instance (mnemonic : String) : Decidable (IsName mnemonic) :=
  @instDecidableAnd _ _ inferInstance (List.decidableBAll _ _)

/-- The mnemonics of shifts and rotations. -/
def shiftMnemonics : List String :=
  ["ASL", "ASR", "LSL", "LSR", "ROXL", "ROXR", "ROL", "ROR"]

/-- The mnemonics of instructions that may hold a number from one to eight. -/
def smallMnemonics : List String :=
  ["ADDQ", "SUBQ"] ++ shiftMnemonics

/-- The number that an instruction holds in its word is one that its mnemonic allows. -/
def QuickRange (mnemonic : String) (value : Int) : Prop :=
  (mnemonic = "MOVEQ" ∧ -128 ≤ value ∧ value ≤ 127) ∨
  (mnemonic = "TRAP" ∧ 0 ≤ value ∧ value ≤ 15) ∨
  (mnemonic ∈ smallMnemonics ∧ 1 ≤ value ∧ value ≤ 8)

variable {word n : Int} {name : String}

theorem isName_of_mem_small (h : name ∈ smallMnemonics) : IsName name := by
  revert name
  decide

theorem isName_of_immediateName? (h : immediateName? n = some name) : IsName name := by
  unfold immediateName? at h
  split at h
  case h_7 => cases h
  all_goals
    cases h
    decide

theorem isName_of_bitName? (h : bitName? n = some name) : IsName name := by
  unfold bitName? at h
  split at h
  case h_5 => cases h
  all_goals
    cases h
    decide

theorem isName_of_unaryName? (h : unaryName? n = some name) : IsName name := by
  unfold unaryName? at h
  split at h
  case h_6 => cases h
  all_goals
    cases h
    decide

theorem mem_of_shiftName (h : shiftName word n = some name) : name ∈ shiftMnemonics := by
  obtain ⟨stem, hstem, rfl⟩ := Option.map_eq_some_iff.mp h
  unfold shiftName? at hstem
  split at hstem
  case h_5 => cases hstem
  all_goals
    cases hstem
    split <;> decide

theorem isName_scc (word : Int) : IsName ("S" ++ (Condition.ofCode (cond word)).name) := by
  cases Condition.ofCode (cond word) <;> decide

theorem isName_dbcc (word : Int) : IsName ("DB" ++ (Condition.ofCode (cond word)).name) := by
  cases Condition.ofCode (cond word) <;> decide

theorem isName_branch (word : Int) : IsName (branchName (Condition.ofCode (cond word))) := by
  cases Condition.ofCode (cond word) <;> decide

/-- The low byte of a word with a sign is a byte with a sign. -/
theorem lowByte_range (word : Int) : -128 ≤ lowByte word ∧ lowByte word ≤ 127 := by
  show -128 ≤ word / 1 % 256 % 128 - word / 1 % 256 / 128 % 2 * 128 ∧
    word / 1 % 256 % 128 - word / 1 % 256 / 128 % 2 * 128 ≤ 127
  omega

theorem quickRange_moveq (word : Int) : QuickRange "MOVEQ" (lowByte word) :=
  .inl ⟨rfl, lowByte_range word⟩

theorem quickRange_trap (word : Int) : QuickRange "TRAP" (bits word 0 4) := by
  have hlt : bits word 0 4 < 16 := bits_lt ..
  exact .inr (.inl ⟨rfl, bits_nonneg .., by omega⟩)

theorem quickRange_small (hname : name ∈ smallMnemonics) (h : 0 ≤ n ∧ n < 8) :
    QuickRange name (quickValue n) := by
  refine .inr (.inr ⟨hname, ?_⟩)
  unfold quickValue
  split <;> omega

end Opcode

namespace Slot

/-! ## Slots of forms -/

/-- The slots that may occur in the form of a word with the mnemonic and the size. An operand of
a sized instruction has the size of the instruction. -/
inductive Suits (word : Int) (mnemonic : String) (size : Option Size) : Slot → Prop where
  /-- The effective address in the low six bits. -/
  | address (own : Size) (key : String) (hsize : size = none ∨ size = some own) :
      Suits word mnemonic size (ea word own key)
  /-- The destination of a move, in bits 6 to 11. -/
  | destination (own : Size) (hsize : size = some own) :
      Suits word mnemonic size (ofMode (opmode word) (rx word) (some own.code) "dst")
  /-- A register, or an address that a register holds. -/
  | register (address : EffectiveAddress) (hext : address.extBytes = 0)
      (hrange : 0 ≤ address.register ∧ address.register < 8) :
      Suits word mnemonic size (.fixed (.ea address))
  | quick (value : Int) (hquick : QuickRange mnemonic value) :
      Suits word mnemonic size (.fixed (.quick value))
  | special (name : String) (hname : name ∈ ["CCR", "SR", "USP"]) :
      Suits word mnemonic size (.fixed (.specialReg name))
  | shortBranch (hshort : IsShortBranch word) :
      Suits word mnemonic size (.fixed (.branchDisp (lowByte word)))
  | data (key : String) (own : Size) (hsize : size = none ∨ size = some own) :
      Suits word mnemonic size (.extension key (.immediate own))
  | longBranch (hlong : IsLongBranch word) :
      Suits word mnemonic size (.extension "disp" .branchDisp)
  /-- The memory operand of a peripheral move. -/
  | peripheral : Suits word mnemonic size (.extension "ea" (.addrDisp (reg word)))
  /-- What a byte move to an address register has for a destination. -/
  | refused (hmove : IsByteAddressMove word) :
      Suits word mnemonic size (.invalid (.byteAddressMove word))

end Slot

/-- The forms of a word: at most two slots that suit the mnemonic and the size. A bit number in an
extension word and a mask of registers come first, and the mask is written last in a load. -/
inductive Form.Signed (word : Int) : Form → Prop where
  | none {mnemonic : String} (hname : IsName mnemonic) : Signed word (ofSlots mnemonic none [])
  | one {mnemonic : String} {size : Option Size} {slot : Slot} (hname : IsName mnemonic)
      (h : slot.Suits word mnemonic size) : Signed word (ofSlots mnemonic size [slot])
  | two {mnemonic : String} {size : Option Size} {first second : Slot} (hname : IsName mnemonic)
      (h : first.Suits word mnemonic size) (h' : second.Suits word mnemonic size) :
      Signed word (ofSlots mnemonic size [first, second])
  | bitTest {mnemonic : String} (hname : IsName mnemonic) :
      Signed word (ofSlots mnemonic none [.extension "bit" .bitNumber, ea word .byte "dst"])
  | registers (size : Size) :
      Signed word ⟨"MOVEM", some size,
        [.extension "mask" (.regList (IsRegisterLoad word)), ea word size "ea"],
        IsRegisterLoad word⟩

namespace Slot

/-- The slots that may occur in the form of a word. -/
inductive Occurs (word : Int) : Slot → Prop where
  /-- The effective address in the low six bits. -/
  | address (size : Size) (key : String) : Occurs word (ea word size key)
  /-- The destination of a move, in bits 6 to 11. -/
  | destination (size : Size) :
      Occurs word (ofMode (opmode word) (rx word) (some size.code) "dst")
  /-- An address that needs no extension word. -/
  | register (address : EffectiveAddress) (hext : address.extBytes = 0) :
      Occurs word (.fixed (.ea address))
  | quick (value : Int) : Occurs word (.fixed (.quick value))
  | special (name : String) : Occurs word (.fixed (.specialReg name))
  | shortBranch (hshort : IsShortBranch word) :
      Occurs word (.fixed (.branchDisp (lowByte word)))
  | data (key : String) (size : Size) : Occurs word (.extension key (.immediate size))
  | bitNumber : Occurs word (.extension "bit" .bitNumber)
  /-- The mask of a move of several registers. -/
  | mask : Occurs word (.extension "mask" (.regList (IsRegisterLoad word)))
  | longBranch (hlong : ¬ IsShortBranch word) : Occurs word (.extension "disp" .branchDisp)
  /-- The memory operand of a peripheral move. -/
  | peripheral : Occurs word (.extension "ea" (.addrDisp (reg word)))
  /-- What a byte move to an address register has for a destination. -/
  | refused (hmove : IsByteAddressMove word) : Occurs word (.invalid (.byteAddressMove word))

/-- At most two slots, each of which may occur. -/
inductive Planned (word : Int) : List Slot → Prop where
  | none : Planned word []
  | one {slot : Slot} (h : Occurs word slot) : Planned word [slot]
  | two {first second : Slot} (h : Occurs word first) (h' : Occurs word second) :
      Planned word [first, second]

theorem length_le_two_of_planned {word : Int} {slots : List Slot} (h : Planned word slots) :
    slots.length ≤ 2 := by
  cases h <;> simp

theorem occurs_of_planned {word : Int} {slots : List Slot} (h : Planned word slots) :
    ∀ slot ∈ slots, Occurs word slot := by
  cases h <;> simp_all

theorem occurs_of_suits {word : Int} {mnemonic : String} {size : Option Size} {slot : Slot}
    (h : slot.Suits word mnemonic size) : Occurs word slot := by
  cases h with
  | address own key => exact .address own key
  | destination own => exact .destination own
  | register address hext => exact .register address hext
  | quick value => exact .quick value
  | special name => exact .special name
  | shortBranch hshort => exact .shortBranch hshort
  | data key own => exact .data key own
  | longBranch hlong =>
    refine .longBranch fun hshort => ?_
    unfold IsLongBranch at hlong
    unfold IsShortBranch at hshort
    omega
  | peripheral => exact .peripheral
  | refused hmove => exact .refused hmove

end Slot

namespace Rule

open Slot

variable {rule : Rule} {word : Int} {form : Form}

/-- Only the moves of one group move bytes. -/
theorem group_of_moveSize? {n : Int} (h : moveSize? n = some .byte) : n = 1 := by
  unfold moveSize? at h
  split at h
  · rfl
  all_goals cases h

/-- Every form that a word gets is made of the slots of the catalogue. -/
theorem signed_form (hfirst : first? word = some rule) (h : rule.form? word = some form) :
    form.Signed word := by
  have hgroup := group_mem_of_first? hfirst
  have hreg := reg_range word
  have hrx := rx_range word
  cases rule with
  | illegal | reset | nop | rte | rts | trapv | rtr =>
    obtain rfl := Option.some.inj h
    exact .none (by decide)
  | orToCcr | andToCcr | eorToCcr | orToSr | andToSr | eorToSr =>
    obtain rfl := Option.some.inj h
    exact .two (by decide) (.data _ _ (.inl rfl)) (.special _ (by decide))
  | stop =>
    obtain rfl := Option.some.inj h
    exact .one (by decide) (.data _ _ (.inl rfl))
  | trap =>
    obtain rfl := Option.some.inj h
    exact .one (by decide) (.quick _ (quickRange_trap word))
  | link =>
    obtain rfl := Option.some.inj h
    exact .two (by decide) (.register _ rfl hreg) (.data _ _ (.inl rfl))
  | unlk | swap | ext =>
    obtain rfl := Option.some.inj h
    exact .one (by decide) (.register _ rfl hreg)
  | moveq =>
    obtain rfl := Option.some.inj h
    exact .two (by decide) (.quick _ (quickRange_moveq word)) (.register _ rfl hrx)
  | exgData | exgAddress | exgMixed =>
    obtain rfl := Option.some.inj h
    exact .two (by decide) (.register _ rfl hrx) (.register _ rfl hreg)
  | jsr | jmp | nbcd | pea | tas =>
    obtain rfl := Option.some.inj h
    exact .one (by decide) (.address _ _ (.inl rfl))
  | scc =>
    obtain rfl := Option.some.inj h
    exact .one (isName_scc word) (.address _ _ (.inl rfl))
  | lea =>
    obtain rfl := Option.some.inj h
    exact .two (by decide) (.address _ _ (.inl rfl)) (.register _ rfl hrx)
  | chk | divu | divs | mulu | muls | suba | cmpa | adda =>
    obtain rfl := Option.some.inj h
    exact .two (by decide) (.address _ _ (.inr rfl)) (.register _ rfl hrx)
  | moveFromSr | moveFromCcr =>
    obtain rfl := Option.some.inj h
    exact .two (by decide) (.special _ (by decide)) (.address _ _ (.inl rfl))
  | moveToCcr | moveToSr =>
    obtain rfl := Option.some.inj h
    exact .two (by decide) (.address _ _ (.inl rfl)) (.special _ (by decide))
  | movem =>
    obtain rfl := Option.some.inj h
    have haccepts := accepts_of_first? hfirst
    simp only [accepts, Bool.and_eq_true, Bool.or_eq_true, decide_eq_true_eq] at haccepts
    have hload : IsRegisterLoad word ↔ rx word = 6 :=
      ⟨fun h => h.2.1, fun h => ⟨List.mem_singleton.mp hgroup, h, haccepts.2⟩⟩
    unfold movemForm
    simp only [← hload]
    exact .registers _
  | movep =>
    obtain rfl := Option.some.inj h
    unfold movepForm
    split
    · exact .two (by decide) (.register _ rfl hrx) .peripheral
    · exact .two (by decide) .peripheral (.register _ rfl hrx)
  | moveUsp =>
    obtain rfl := Option.some.inj h
    unfold moveUspForm
    split
    · exact .two (by decide) (.special _ (by decide)) (.register _ rfl hreg)
    · exact .two (by decide) (.register _ rfl hreg) (.special _ (by decide))
  | sbcd | abcd =>
    obtain rfl := Option.some.inj h
    unfold registerPair
    split <;> exact .two (by decide) (.register _ rfl hreg) (.register _ rfl hrx)
  | subx | addx =>
    obtain ⟨size, -, rfl⟩ := Option.map_eq_some_iff.mp h
    unfold registerPair
    split <;> exact .two (by decide) (.register _ rfl hreg) (.register _ rfl hrx)
  | cmpm =>
    obtain ⟨size, -, rfl⟩ := Option.map_eq_some_iff.mp h
    exact .two (by decide) (.register _ rfl hreg) (.register _ rfl hrx)
  | or | sub | and | add =>
    obtain ⟨size, -, rfl⟩ := Option.map_eq_some_iff.mp h
    split
    · exact .two (by decide) (.register _ rfl hrx) (.address _ _ (.inr rfl))
    · exact .two (by decide) (.address _ _ (.inr rfl)) (.register _ rfl hrx)
  | cmp =>
    obtain ⟨size, -, rfl⟩ := Option.map_eq_some_iff.mp h
    exact .two (by decide) (.address _ _ (.inr rfl)) (.register _ rfl hrx)
  | eor =>
    obtain ⟨size, -, rfl⟩ := Option.map_eq_some_iff.mp h
    exact .two (by decide) (.register _ rfl hrx) (.address _ _ (.inr rfl))
  | bitDynamic =>
    obtain ⟨name, hname, rfl⟩ := Option.map_eq_some_iff.mp h
    exact .two (isName_of_bitName? hname) (.register _ rfl hrx) (.address _ _ (.inl rfl))
  | addSubQuick =>
    obtain ⟨size, -, rfl⟩ := Option.map_eq_some_iff.mp h
    have hname : (if bit8 word = 1 then "SUBQ" else "ADDQ") ∈ ["ADDQ", "SUBQ"] := by
      split <;> decide
    exact .two (isName_of_mem_small (List.mem_append_left _ hname))
      (.quick _ (quickRange_small (List.mem_append_left _ hname) hrx)) (.address _ _ (.inr rfl))
  | bitStatic =>
    obtain ⟨name, hname, rfl⟩ := Option.map_eq_some_iff.mp h
    exact .bitTest (isName_of_bitName? hname)
  | shiftMemory =>
    obtain ⟨name, hname, rfl⟩ := Option.map_eq_some_iff.mp h
    exact .one (isName_of_mem_small (List.mem_append_right _ (mem_of_shiftName hname)))
      (.address _ _ (.inl rfl))
  | immediateOp =>
    obtain ⟨name, hname, hsized⟩ := Option.bind_eq_some_iff.mp h
    obtain ⟨size, -, hform⟩ := Option.bind_eq_some_iff.mp hsized
    obtain rfl := Option.some.inj hform
    exact .two (isName_of_immediateName? hname) (.data _ _ (.inr rfl)) (.address _ _ (.inr rfl))
  | unary =>
    obtain ⟨name, hname, hsized⟩ := Option.bind_eq_some_iff.mp h
    obtain ⟨size, -, hform⟩ := Option.bind_eq_some_iff.mp hsized
    obtain rfl := Option.some.inj hform
    exact .one (isName_of_unaryName? hname) (.address _ _ (.inr rfl))
  | shiftRegister =>
    obtain ⟨name, hname, hsized⟩ := Option.bind_eq_some_iff.mp h
    obtain ⟨size, -, hform⟩ := Option.bind_eq_some_iff.mp hsized
    obtain rfl := Option.some.inj hform
    have hmem := List.mem_append_right ["ADDQ", "SUBQ"] (mem_of_shiftName hname)
    refine .two (isName_of_mem_small hmem) ?_ (.register _ rfl hreg)
    split
    · exact .register _ rfl hrx
    · exact .quick _ (quickRange_small hmem hrx)
  | move =>
    obtain ⟨size, hsize, rfl⟩ := Option.map_eq_some_iff.mp h
    dsimp only
    split
    · next hopmode =>
      split
      · next hbyte =>
        rw [hbyte] at hsize
        exact .two (by decide) (.address _ _ (.inr rfl))
          (.refused ⟨group_of_moveSize? hsize, hopmode⟩)
      · exact .two (by decide) (.address _ _ (.inr rfl)) (.register _ rfl hrx)
    · exact .two (by decide) (.address _ _ (.inr rfl)) (.destination _ rfl)
  | dbcc =>
    obtain rfl := Option.some.inj h
    exact .two (isName_dbcc word) (.register _ rfl hreg)
      (.longBranch (.inl (List.mem_singleton.mp hgroup)))
  | branch =>
    obtain rfl := Option.some.inj h
    have hsix := List.mem_singleton.mp hgroup
    refine .one (isName_branch word) ?_
    split
    · next hlow => exact .longBranch (.inr ⟨hsix, hlow⟩)
    · next hlow => exact .shortBranch ⟨hsix, hlow⟩

/-- The slots of every form that a word gets are planned. -/
theorem planned_slots (hfirst : first? word = some rule) (h : rule.form? word = some form) :
    Planned word form.slots := by
  cases signed_form hfirst h with
  | none hname => exact .none
  | one hname hslot => exact .one (occurs_of_suits hslot)
  | two hname hslot hslot' => exact .two (occurs_of_suits hslot) (occurs_of_suits hslot')
  | bitTest hname => exact .two .bitNumber (.address ..)
  | registers size => exact .two .mask (.address ..)

end Rule

/-- The form of a word is one of the catalogue. -/
theorem Opcode.signed_of_form {word address : Int} {form : Form}
    (h : Opcode.form word address = .ok form) : form.Signed word := by
  obtain ⟨rule, hfirst, hform⟩ := Rule.form_eq_ok_iff.mp h
  exact Rule.signed_form hfirst hform

/-- The slots of the form of a word are planned. -/
theorem Opcode.planned_slots_of_form {word address : Int} {form : Form}
    (h : Opcode.form word address = .ok form) : Slot.Planned word form.slots := by
  obtain ⟨rule, hfirst, hform⟩ := Rule.form_eq_ok_iff.mp h
  exact Rule.planned_slots hfirst hform

end Disasm68k
