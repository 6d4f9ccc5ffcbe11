import Disasm68k.Proofs.Ranges
import Disasm68k.Proofs.TokenIdentity

/-!
# Decoded instructions can be written

Clients may build operands of integers of any size, some of which have too many digits to be
written. The operands of decoded instructions hold what the fields of the hardware can hold, which
is far below that, so listings and logs write them without a further check.

- `Token.render?_eq_some`: tokens that are not too long have a text, which is their characters;
- `Numeral.FitsLong`: numbers of four bytes, which are never too long;
- `EffectiveAddress.fitsLong_of_mem`, `Operand.fitsLong_of_mem`: the numbers that operands in range
  show are such numbers;
- `Instruction.text?_of_decodeAt`: every decoded instruction has a text.
-/

namespace Disasm68k

/-! ## Tokens -/

namespace Token

variable {token : Token} {tokens : List Token}

theorem text?_eq_some (h : ¬ token.IsTooLong) : token.text? = some token.toText := by
  obtain ⟨text, htext⟩ := Option.ne_none_iff_exists'.mp (mt text?_eq_none_iff.mp h)
  rw [htext, eq_toText_of_text? htext]

theorem render?_eq_some (h : ∀ token ∈ tokens, ¬ token.IsTooLong) :
    render? tokens = some (render tokens) := by
  induction tokens with
  | nil => rfl
  | cons token tokens ih =>
    rw [List.forall_mem_cons] at h
    rw [render?, text?_eq_some h.1, ih h.2]
    rfl

end Token

/-! ## Operands -/

/-- The number fits into four bytes, with a sign or without. -/
def Numeral.FitsLong (n : Int) : Prop :=
  -0x80000000 ≤ n ∧ n ≤ 0xFFFFFFFF

theorem Numeral.not_tooLong_of_fitsLong {n : Int} (h : FitsLong n) : ¬ TooLong n := by
  obtain ⟨hlow, hhigh⟩ := h
  apply not_tooLong_of_natAbs_lt
  omega

open Numeral (FitsLong)

theorem IsRegisterNumber.fitsLong {n : Int} (h : IsRegisterNumber n) : FitsLong n := by
  unfold IsRegisterNumber at h
  unfold FitsLong
  omega

theorem IsSignedByte.fitsLong {n : Int} (h : IsSignedByte n) : FitsLong n := by
  unfold IsSignedByte at h
  unfold FitsLong
  omega

theorem IsSignedWord.fitsLong {n : Int} (h : IsSignedWord n) : FitsLong n := by
  unfold IsSignedWord at h
  unfold FitsLong
  omega

theorem Opcode.QuickRange.fitsLong {mnemonic : String} {n : Int} (h : QuickRange mnemonic n) :
    FitsLong n := by
  unfold FitsLong
  rcases h with ⟨-, h⟩ | ⟨-, h⟩ | ⟨-, h⟩
  all_goals omega

namespace EffectiveAddress

variable {address : EffectiveAddress} {n : Int}

/-- The registers that an address in range names exist. -/
theorem isRegisterNumber_of_mem (h : address.InRange) (hmem : n ∈ address.registerNumbers) :
    IsRegisterNumber n := by
  cases address with
  | dataReg | addrReg | addrIndirect | postIncrement | preDecrement =>
    obtain rfl := List.mem_singleton.mp hmem
    exact h
  | addrDisp reg disp =>
    obtain rfl := List.mem_singleton.mp hmem
    exact h.1
  | addrIndex reg disp index =>
    rcases List.mem_cons.mp hmem with rfl | hmem
    · exact h.1
    · obtain rfl := List.mem_singleton.mp hmem
      exact h.2.2
  | pcIndex disp index =>
    obtain rfl := List.mem_singleton.mp hmem
    exact h.2
  | _ => cases hmem

theorem tokens?_of_inRange (h : address.InRange) : address.tokens? = some address.tokens := by
  refine Numeral.writing_eq_some_iff.mpr ⟨?_, rfl⟩
  intro n hmem
  exact Numeral.not_tooLong_of_fitsLong (isRegisterNumber_of_mem h hmem).fitsLong

/-- The numbers that an address in range shows are those of its fields. -/
theorem fitsLong_of_mem (h : address.InRange)
    (hmem : .integer n ∈ address.tokens ∨ .relative n ∈ address.tokens) : FitsLong n := by
  cases address with
  | dataReg | addrReg | addrIndirect | postIncrement | preDecrement =>
    simp [tokens, registerToken] at hmem
  | addrDisp reg disp =>
    obtain rfl : n = disp := by simpa [tokens, registerToken] using hmem
    exact h.2.fitsLong
  | addrIndex reg disp index =>
    obtain rfl : n = disp := by simpa [tokens, registerToken] using hmem
    exact h.2.1.fitsLong
  | absShort addr =>
    obtain rfl : n = addr := by simpa [tokens] using hmem
    exact IsSignedWord.fitsLong h
  | absLong addr =>
    obtain rfl : n = addr := by simpa [tokens] using hmem
    exact ⟨Int.le_trans (by decide) h.1, h.2⟩
  | pcDisp disp =>
    obtain rfl : n = disp := by simpa [tokens] using hmem
    exact IsSignedWord.fitsLong h
  | pcIndex disp index =>
    obtain rfl : n = disp := by simpa [tokens, registerToken] using hmem
    exact h.1.fitsLong
  | immediate value size =>
    obtain rfl : n = value := by simpa [tokens] using hmem
    cases size with
    | byte => exact ⟨Int.le_trans (by decide) h.1, Int.le_trans h.2 (by decide)⟩
    | word => exact IsSignedWord.fitsLong h
    | long => exact ⟨h.1, Int.le_trans h.2 (by decide)⟩

end EffectiveAddress

namespace Operand

variable {operand : Operand} {word n : Int} {mnemonic : String}

theorem tokens?_of_inRange (h : operand.InRange word mnemonic) :
    operand.tokens? = some operand.tokens := by
  cases operand with
  | ea address => exact EffectiveAddress.tokens?_of_inRange h
  | _ => rfl

/-- A list of registers shows names and marks between them. -/
theorem mem_tokens_of_names {token : Token} (name : String) (names : List String)
    (hmem : token ∈ ((name :: names).map Token.register).intersperse (.separator "/")) :
    token = .separator "/" ∨ ∃ other, token = .register other := by
  induction names generalizing name with
  | nil => exact .inr ⟨name, List.mem_singleton.mp hmem⟩
  | cons next names ih =>
    rcases List.mem_cons.mp hmem with rfl | hmem
    · exact .inr ⟨name, rfl⟩
    · rcases List.mem_cons.mp hmem with rfl | hmem
      · exact .inl rfl
      · exact ih next hmem

/-- The names of registers are no numbers; a list without names is the number zero. -/
theorem eq_zero_of_mem_regList {mask : Int} {names : List String}
    (hmem : .integer n ∈ (regList mask names).tokens ∨ .relative n ∈ (regList mask names).tokens) :
    n = 0 := by
  cases names with
  | nil => simpa [tokens] using hmem
  | cons name names =>
    rcases hmem with hmem | hmem
    all_goals
      obtain hmark | ⟨other, hname⟩ := mem_tokens_of_names name names hmem
      · cases hmark
      · cases hname

theorem fitsLong_of_mem (h : operand.InRange word mnemonic)
    (hmem : .integer n ∈ operand.tokens ∨ .relative n ∈ operand.tokens) : FitsLong n := by
  cases operand with
  | ea address => exact EffectiveAddress.fitsLong_of_mem h hmem
  | quick value =>
    obtain rfl : n = value := by simpa [tokens] using hmem
    exact h.fitsLong
  | specialReg name => simp [tokens] at hmem
  | regList mask names =>
    rw [eq_zero_of_mem_regList hmem]
    exact ⟨by decide, by decide⟩
  | branchDisp disp =>
    obtain rfl : n = disp := by simpa [tokens] using hmem
    exact h.1.fitsLong

/-- The numbers that an operand in range shows can be written. -/
theorem not_isTooLong_of_inRange (h : operand.InRange word mnemonic) :
    ∀ token ∈ operand.tokens, ¬ token.IsTooLong := by
  rintro token hmem ⟨n, hn, hlong⟩
  refine Numeral.not_tooLong_of_fitsLong (fitsLong_of_mem h ?_) hlong
  rcases hn with rfl | rfl
  · exact .inl hmem
  · exact .inr hmem

end Operand

/-! ## Instructions -/

namespace Instruction

variable {instruction : Instruction}

theorem tokens?_of_inRange (h : instruction.InRange) :
    instruction.tokens? = some instruction.tokens := by
  have hall : instruction.operands.mapM Operand.tokens? =
      some (instruction.operands.map Operand.tokens) := by
    rw [mapM_eq_some_iff, List.map_map]
    exact List.map_congr_left fun operand hmem =>
      Operand.tokens?_of_inRange (h.operands operand hmem)
  rw [tokens?, hall]
  rfl

/-- Besides its operands an instruction shows its mnemonic and marks. -/
theorem mem_tokens {token : Token} (hmem : token ∈ instruction.tokens) :
    (∃ mnemonic, token = .instruction mnemonic) ∨ token = .text " " ∨ token = .separator "," ∨
      ∃ operand ∈ instruction.operands, token ∈ operand.tokens := by
  rcases List.mem_cons.mp hmem with rfl | hmem
  · exact .inl ⟨_, rfl⟩
  · cases hoperands : instruction.operands with
    | nil =>
      rw [hoperands] at hmem
      cases hmem
    | cons first rest =>
      rw [hoperands] at hmem
      rcases List.mem_cons.mp hmem with rfl | hmem
      · exact .inr (.inl rfl)
      · rcases List.mem_append.mp hmem with hmem | hmem
        · exact .inr (.inr (.inr ⟨first, List.mem_cons_self, hmem⟩))
        · obtain ⟨operand, hoperand, hmem⟩ := List.mem_flatMap.mp hmem
          rcases List.mem_cons.mp hmem with rfl | hmem
          · exact .inr (.inr (.inl rfl))
          · exact .inr (.inr (.inr ⟨operand, List.mem_cons_of_mem _ hoperand, hmem⟩))

theorem not_isTooLong_of_inRange (h : instruction.InRange) :
    ∀ token ∈ instruction.tokens, ¬ token.IsTooLong := by
  intro token hmem
  obtain ⟨mnemonic, rfl⟩ | rfl | rfl | ⟨operand, hoperand, hmem⟩ := mem_tokens hmem
  · simp [Token.IsTooLong]
  · simp [Token.IsTooLong]
  · simp [Token.IsTooLong]
  · exact Operand.not_isTooLong_of_inRange (h.operands operand hoperand) token hmem

/-- **Every decoded instruction can be written.** -/
theorem text?_of_decodeAt {memory : Memory} {address : Int}
    (h : decodeAt memory address = .ok instruction) : instruction.text? = some instruction.text := by
  have hrange := inRange_of_decodeAt h
  rw [text?, tokens?_of_inRange hrange]
  exact Token.render?_eq_some (not_isTooLong_of_inRange hrange)

end Instruction

end Disasm68k
