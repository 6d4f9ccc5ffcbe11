import Disasm68k.Proofs.Dispatch
import Disasm68k.Proofs.Outline

/-!
# Shapes of instruction words

A word that is not a move has at most one effective address, with at most one item before it.
This module works out, from the fields of a word alone, which of the two shapes the encoding
gives it: the groups of the instruction set are gone through one by one.

- `Encoding.Plain`: no items but the leading one;
- `Encoding.Addressed`: an effective address for an operand of a size;
- `Encoding.items?_of_plain`, `Encoding.items?_of_addressed`: the items of the two shapes, with
  `Encoding.items?_of_move` for moves;
- `Slot.outline_of_addressed`, `Slot.outline_of_led`: slots that need just these items.
-/

namespace Disasm68k

open Opcode

/-! ## Shapes of words -/

namespace Encoding

variable {word : Int} {leads : List Item} {size : Size}

/-- The word has no effective address that needs items. -/
structure Plain (word : Int) (leads : List Item) : Prop where
  assigned : ¬ Unassigned word
  not_move : ¬ IsMove word
  direct : mode word < 5 ∨ ¬ HasAddress word
  leading_eq : leading word = leads

/-- The word has one effective address, for an operand of the size. -/
structure Addressed (word : Int) (leads : List Item) (size : Size) : Prop where
  assigned : ¬ Unassigned word
  not_move : ¬ IsMove word
  has_address : HasAddress word
  leading_eq : leading word = leads
  size_eq : addressSize word = size

/-- Where the low six bits are something else they do not look like a mode that does not
exist, except in the groups where any value is allowed. -/
theorem supported_of_not_hasAddress (hrange : 0 ≤ word ∧ word < 0x10000)
    (hassigned : ¬ Unassigned word) (hmove : ¬ IsMove word) (h : ¬ HasAddress word) :
    Supported word := by
  refine ⟨fun hother hreserved => ?_, fun hmove' => absurd hmove' hmove⟩
  obtain ⟨hmode, hreg⟩ := hreserved
  have hword := word_eq hrange
  have hlast := reg_range word
  have hexact : word ∉ [0x003C, 0x023C, 0x0A3C, 0x007C, 0x027C, 0x0A7C, 0x4AFC] := by
    simp only [List.mem_cons, List.not_mem_nil, or_false]
    omega
  have hcontrol : ¬ (group word = 4 ∧ rx word = 7 ∧ opmode word = 1) := by
    rintro ⟨hgroup, hrx, hopmode⟩
    refine hassigned ?_
    unfold Unassigned
    omega
  exact h ⟨hexact, hcontrol, hother⟩

theorem items?_of_plain (hrange : 0 ≤ word ∧ word < 0x10000) (h : Plain word leads) :
    items? word = some leads := by
  obtain ⟨hassigned, hmove, hdirect, rfl⟩ := h
  have hsupported : Supported word := by
    by_cases haddress : HasAddress word
    · have hlow := hdirect.resolve_right (not_not_intro haddress)
      refine ⟨fun _ hreserved => ?_, fun hmove' => absurd hmove' hmove⟩
      have := hreserved.1
      omega
    · exact supported_of_not_hasAddress hrange hassigned hmove haddress
  have hnone : (if HasAddress word then addressItems (mode word) (reg word) (addressSize word)
      else []) = [] := by
    rcases hdirect with hlow | haddress
    · rw [addressItems_of_lt hlow, ite_self]
    · rw [if_neg haddress]
  unfold items? items
  rw [if_pos ⟨hassigned, hsupported⟩, hnone, if_neg hmove, List.append_nil, List.append_nil]

theorem items?_of_addressed (h : Addressed word leads size) :
    items? word =
      if Reserved (mode word) (reg word) then none
      else some (leads ++ addressItems (mode word) (reg word) size) := by
  obtain ⟨hassigned, hmove, haddress, rfl, rfl⟩ := h
  have hsupported : Supported word ↔ ¬ Reserved (mode word) (reg word) :=
    ⟨fun h => h.1 haddress.2.2, fun h => ⟨fun _ => h, fun hmove' => absurd hmove' hmove⟩⟩
  unfold items? items
  rw [if_pos haddress, if_neg hmove, List.append_nil]
  by_cases hreserved : Reserved (mode word) (reg word)
  · rw [if_neg (fun h => hsupported.mp h.2 hreserved), if_pos hreserved]
  · rw [if_pos ⟨hassigned, hsupported.mpr hreserved⟩, if_neg hreserved]

theorem sizeCode_of_size? (h : size? word = some size) : sizeCode word ≠ 3 := by
  intro hthree
  rw [size?_eq_none_iff.mpr hthree] at h
  cases h

theorem fieldSize_of_size? (h : size? word = some size) : fieldSize word = size := by
  have hcode : sizeCode word = size.code := Size.ofCode?_eq_some_iff.mp h
  unfold fieldSize
  rw [hcode]
  cases size <;> rfl

end Encoding

namespace Slot

variable {word : Int} {leads : List Encoding.Item} {size : Size}

theorem outline_ea (size : Size) (key : String) (slots : List Slot) :
    outline (ea word size key :: slots) =
      if Encoding.Reserved (mode word) (reg word) then none
      else (outline slots).map (Encoding.addressItems (mode word) (reg word) size ++ ·) :=
  outline_ofMode (mode_range word) (reg_range word) size key slots

/-- The slot of the effective address needs the items of the encoding. -/
theorem outline_of_addressed (h : Encoding.Addressed word [] size) (key : String)
    {slots : List Slot} (hrest : outline slots = some []) :
    outline (ea word size key :: slots) = Encoding.items? word := by
  rw [Encoding.items?_of_addressed h, outline_ea, hrest, Option.map_some, List.append_nil,
    List.nil_append]

/-- A field before the effective address takes the place of the leading item. -/
theorem outline_of_led (field : Field) (h : Encoding.Addressed word [field.item] size)
    (first key : String) :
    outline [.extension first field, ea word size key] = Encoding.items? word := by
  show (outline [ea word size key]).map (field.item :: ·) = _
  rw [Encoding.items?_of_addressed h, outline_ea]
  by_cases hreserved : Encoding.Reserved (mode word) (reg word)
  · rw [if_pos hreserved, if_pos hreserved]
    rfl
  · rw [if_neg hreserved, if_neg hreserved]
    show some (field.item :: (_ ++ [])) = _
    rw [List.append_nil]
    rfl

/-- Two effective addresses need the items of the one and then of the other. -/
theorem outline_pair (size : Size) (key key' : String) :
    outline [ea word size key, ofMode (opmode word) (rx word) (some size.code) key'] =
      if Encoding.Reserved (mode word) (reg word) ∨ Encoding.Reserved (opmode word) (rx word)
      then none
      else some (Encoding.addressItems (mode word) (reg word) size ++
        Encoding.addressItems (opmode word) (rx word) size) := by
  rw [outline_ea, outline_ofMode (opmode_range word) (rx_range word)]
  by_cases hsource : Encoding.Reserved (mode word) (reg word)
  · rw [if_pos hsource, if_pos (.inl hsource)]
  · rw [if_neg hsource]
    by_cases hdestination : Encoding.Reserved (opmode word) (rx word)
    · rw [if_pos hdestination, if_pos (.inr hdestination)]
      rfl
    · rw [if_neg hdestination, if_neg (fun h => h.elim hsource hdestination)]
      show some (Encoding.addressItems _ _ _ ++ (Encoding.addressItems _ _ _ ++ [])) = _
      rw [List.append_nil]

end Slot

/-! ## Words by group -/

namespace Encoding

variable {word : Int} {leads : List Item} {size : Size}

/-- The words without an effective address all belong to five groups. -/
theorem hasAddress_of_group (hrange : 0 ≤ word ∧ word < 0x10000)
    (hexact : group word ≠ 0 ∧ group word ≠ 4)
    (hfree : ¬ (group word = 6 ∨ group word = 7 ∨ (group word = 14 ∧ sizeCode word < 3))) :
    HasAddress word := by
  have hword := word_eq hrange
  have hrx := rx_range word
  have hopmode := opmode_range word
  have hmode := mode_range word
  have hreg := reg_range word
  refine ⟨?_, fun h => hexact.2 h.1, hfree⟩
  simp only [List.mem_cons, List.not_mem_nil, or_false]
  omega

theorem not_isMove (h : group word < 1 ∨ 3 < group word) : ¬ IsMove word := by
  unfold IsMove
  omega

theorem addressSize_of_five_le (h : 5 ≤ group word) : addressSize word = arithmeticSize word := by
  unfold addressSize
  rw [if_neg (by omega), if_neg (by omega), if_neg (by omega), if_neg (by omega),
    if_neg (by omega)]

/-! ### Arithmetic and logic -/

theorem not_unassigned_of_arithmetic (hgroup : group word ∈ [5, 8, 9, 11, 12, 13]) :
    ¬ Unassigned word ∧ ¬ IsMove word := by
  simp only [List.mem_cons, List.not_mem_nil, or_false] at hgroup
  unfold Unassigned IsMove
  omega

theorem leading_of_arithmetic (hgroup : group word ∈ [5, 8, 9, 11, 12, 13])
    (hloop : ¬ (group word = 5 ∧ sizeCode word = 3 ∧ mode word = 1)) : leading word = [] := by
  simp only [List.mem_cons, List.not_mem_nil, or_false] at hgroup
  unfold leading
  rw [if_neg (by omega), if_neg (by omega)]
  by_cases hquick : group word = 5
  · rw [if_pos hquick, if_neg (fun h => hloop ⟨hquick, h⟩)]
  · rw [if_neg hquick, if_neg (by omega)]

/-- All words of these groups but the loops have an effective address and nothing before it. -/
theorem addressed_of_arithmetic (hrange : 0 ≤ word ∧ word < 0x10000)
    (hgroup : group word ∈ [5, 8, 9, 11, 12, 13])
    (hloop : ¬ (group word = 5 ∧ sizeCode word = 3 ∧ mode word = 1))
    (hsize : arithmeticSize word = size) : Addressed word [] size := by
  obtain ⟨hassigned, hmove⟩ := not_unassigned_of_arithmetic hgroup
  have hlead := leading_of_arithmetic hgroup hloop
  simp only [List.mem_cons, List.not_mem_nil, or_false] at hgroup
  refine ⟨hassigned, hmove, hasAddress_of_group hrange (by omega) (by omega), hlead, ?_⟩
  rw [addressSize_of_five_le (by omega)]
  exact hsize

/-- Arithmetic on an operand of the size that the size field names. -/
theorem addressed_of_size? (hrange : 0 ≤ word ∧ word < 0x10000)
    (hgroup : group word ∈ [5, 8, 9, 11, 12, 13]) (h : size? word = some size) :
    Addressed word [] size := by
  have hcode := sizeCode_of_size? h
  refine addressed_of_arithmetic hrange hgroup (fun hloop => hcode hloop.2.1) ?_
  have hopmode := sizeCode_eq word
  have hthree : opmode word ≠ 3 := by omega
  have hseven : opmode word ≠ 7 := by omega
  rw [← fieldSize_of_size? h]
  unfold arithmeticSize
  rw [if_neg hcode, if_neg hcode, if_neg hthree, if_neg hseven, ite_self, ite_self]

/-- Multiplication and division take words. -/
theorem addressed_of_word (hrange : 0 ≤ word ∧ word < 0x10000)
    (hgroup : group word = 8 ∨ group word = 12) (hcode : sizeCode word = 3) :
    Addressed word [] .word := by
  have harithmetic : group word ∈ [5, 8, 9, 11, 12, 13] := by
    rcases hgroup with h | h <;> rw [h] <;> decide
  refine addressed_of_arithmetic hrange harithmetic (by omega) ?_
  unfold arithmeticSize
  rw [if_neg (by omega), if_pos (by omega), if_pos hcode]

/-- Arithmetic on address registers takes words or long words. -/
theorem addressed_of_addressReg (hrange : 0 ≤ word ∧ word < 0x10000)
    (hgroup : group word = 9 ∨ group word = 11 ∨ group word = 13) (hcode : sizeCode word = 3) :
    Addressed word [] (longIf (bit8 word = 1)) := by
  have harithmetic : group word ∈ [5, 8, 9, 11, 12, 13] := by
    rcases hgroup with h | h | h <;> rw [h] <;> decide
  refine addressed_of_arithmetic hrange harithmetic (by omega) ?_
  have hopmode := opmode_range word
  rw [sizeCode_eq] at hcode
  rw [bit8_eq]
  unfold arithmeticSize
  rw [if_neg (by omega), if_neg (by omega)]
  obtain h | h : opmode word = 3 ∨ opmode word = 7 := by omega
  · rw [h]
    rfl
  · rw [h]
    rfl

/-- A condition is stored into a byte. -/
theorem addressed_of_condition (hrange : 0 ≤ word ∧ word < 0x10000) (hgroup : group word = 5)
    (hcode : sizeCode word = 3) (hmode : mode word ≠ 1) : Addressed word [] .byte := by
  have harithmetic : group word ∈ [5, 8, 9, 11, 12, 13] := by
    rw [hgroup]
    decide
  refine addressed_of_arithmetic hrange harithmetic (by omega) ?_
  unfold arithmeticSize
  rw [if_pos hgroup, if_pos hcode]

/-- Arithmetic on two registers. -/
theorem plain_of_registers (hgroup : group word ∈ [8, 9, 11, 12, 13])
    (hmode : mode word = 0 ∨ mode word = 1) : Plain word [] := by
  have harithmetic : group word ∈ [5, 8, 9, 11, 12, 13] := List.mem_cons_of_mem 5 hgroup
  obtain ⟨hassigned, hmove⟩ := not_unassigned_of_arithmetic harithmetic
  simp only [List.mem_cons, List.not_mem_nil, or_false] at hgroup
  exact ⟨hassigned, hmove, .inl (by omega), leading_of_arithmetic harithmetic (by omega)⟩

/-- A loop has a displacement. -/
theorem plain_of_loop (hgroup : group word = 5) (hcode : sizeCode word = 3)
    (hmode : mode word = 1) : Plain word [.word] := by
  obtain ⟨hassigned, hmove⟩ : ¬ Unassigned word ∧ ¬ IsMove word :=
    not_unassigned_of_arithmetic (by rw [hgroup]; decide)
  refine ⟨hassigned, hmove, .inl (by omega), ?_⟩
  unfold leading
  rw [if_neg (by omega), if_neg (by omega), if_pos hgroup, if_pos ⟨hcode, hmode⟩]

/-! ### Branches, quick moves and shifts -/

/-- Branches, quick moves and shifts of registers have no effective address. -/
theorem plain_of_no_address (hassigned : ¬ Unassigned word)
    (h : group word = 6 ∨ group word = 7 ∨ (group word = 14 ∧ sizeCode word < 3)) :
    Plain word (if group word = 6 ∧ bits word 0 8 = 0 then [.word] else []) := by
  refine ⟨hassigned, not_isMove (by omega), .inr fun haddress => haddress.2.2 h, ?_⟩
  unfold leading
  rw [if_neg (by omega), if_neg (by omega), if_neg (by omega)]
  by_cases hbranch : group word = 6
  · simp only [hbranch, true_and, if_true]
  · rw [if_neg hbranch, if_neg (fun hlong => hbranch hlong.1)]

/-- A shift in memory works on a word. -/
theorem addressed_of_shift (hrange : 0 ≤ word ∧ word < 0x10000) (hgroup : group word = 14)
    (hcode : sizeCode word = 3) (hrx : rx word < 4) : Addressed word [] .word := by
  refine ⟨?_, not_isMove (by omega), hasAddress_of_group hrange (by omega) (by omega), ?_, ?_⟩
  · unfold Unassigned
    omega
  · unfold leading
    rw [if_neg (by omega), if_neg (by omega), if_neg (by omega), if_neg (by omega)]
  · rw [addressSize_of_five_le (by omega), arithmeticSize]
    rw [if_neg (by omega), if_pos (by omega), if_pos hcode]

/-! ### Immediate operations and bit instructions -/

/-- An immediate operation has data of the size of its operand. -/
theorem addressed_of_immediate (hgroup : group word = 0) (hbit8 : bit8 word = 0)
    (hrx : rx word ∈ [0, 1, 2, 3, 5, 6])
    (hexact : word ∉ [0x003C, 0x023C, 0x0A3C, 0x007C, 0x027C, 0x0A7C])
    (h : size? word = some size) : Addressed word [.ofSize size] size := by
  have hcode := sizeCode_of_size? h
  simp only [List.mem_cons, List.not_mem_nil, or_false] at hrx
  have hfour : rx word ≠ 4 := by omega
  rw [← fieldSize_of_size? h]
  refine ⟨?_, not_isMove (by omega), ⟨?_, by omega, by omega⟩, ?_, ?_⟩
  · unfold Unassigned
    omega
  · intro hmem
    rcases List.mem_append.mp (show word ∈ [0x003C, 0x023C, 0x0A3C, 0x007C, 0x027C, 0x0A7C] ++
      [0x4AFC] from hmem) with hdata | hillegal
    · exact hexact hdata
    · rw [List.mem_singleton.mp hillegal] at hgroup
      exact absurd hgroup (by decide)
  · unfold leading
    rw [if_pos hgroup, if_neg (by omega), if_neg hfour]
  · unfold addressSize
    rw [if_pos hgroup, if_neg (by omega)]

/-- A bit instruction works on a byte; the bit number may be in an extension word. -/
theorem addressed_of_bit (hrange : 0 ≤ word ∧ word < 0x10000) (hgroup : group word = 0)
    (hbit8 : bit8 word = 1 ∨ (bit8 word = 0 ∧ rx word = 4))
    (hmode : ¬ (bit8 word = 1 ∧ mode word = 1)) :
    Addressed word (if bit8 word = 1 then [] else [.word]) .byte := by
  have hword := word_eq hrange
  have hhigh := bit8_eq word
  have hmode' := mode_range word
  have hreg := reg_range word
  refine ⟨?_, not_isMove (by omega), ⟨?_, by omega, by omega⟩, ?_, ?_⟩
  · unfold Unassigned
    simp only [List.mem_cons, List.not_mem_nil, or_false]
    omega
  · have hrx := rx_range word
    have hopmode := opmode_range word
    simp only [List.mem_cons, List.not_mem_nil, or_false]
    omega
  · unfold leading
    rw [if_pos hgroup]
    by_cases hdynamic : bit8 word = 1
    · rw [if_pos hdynamic, if_pos hdynamic, if_neg (fun h => hmode ⟨hdynamic, h⟩)]
    · rw [if_neg hdynamic, if_neg hdynamic, if_pos (by omega)]
  · unfold addressSize
    rw [if_pos hgroup, if_pos (by omega)]

/-- A peripheral move has a displacement. -/
theorem plain_of_peripheral (hgroup : group word = 0) (hbit8 : bit8 word = 1)
    (hmode : mode word = 1) : Plain word [.word] := by
  refine ⟨?_, not_isMove (by omega), .inl (by omega), ?_⟩
  · unfold Unassigned
    omega
  · unfold leading
    rw [if_pos hgroup, if_pos hbit8, if_pos hmode]

/-! ### Moves -/

/-- The size of a move. -/
theorem addressSize_of_move (hmove : IsMove word) (h : moveSize? (group word) = some size) :
    addressSize word = size := by
  unfold addressSize
  rcases hmove with hg | hg | hg
  all_goals
    rw [hg] at h ⊢
    exact Option.some.inj h

/-- A move has two effective addresses. -/
theorem items?_of_move (hrange : 0 ≤ word ∧ word < 0x10000) (hmove : IsMove word)
    (hbyte : ¬ (group word = 1 ∧ opmode word = 1)) :
    items? word =
      if Reserved (mode word) (reg word) ∨ Reserved (opmode word) (rx word) then none
      else some (addressItems (mode word) (reg word) (addressSize word) ++
        addressItems (opmode word) (rx word) (addressSize word)) := by
  have hgroup : group word = 1 ∨ group word = 2 ∨ group word = 3 := hmove
  have hassigned : ¬ Unassigned word := by
    unfold Unassigned
    omega
  have haddress : HasAddress word := hasAddress_of_group hrange (by omega) (by omega)
  have hlead : leading word = [] := by
    unfold leading
    rw [if_neg (by omega), if_neg (by omega), if_neg (by omega), if_neg (by omega)]
  unfold items? items
  rw [if_pos haddress, if_pos hmove, hlead, List.nil_append]
  by_cases hfails : Reserved (mode word) (reg word) ∨ Reserved (opmode word) (rx word)
  · rw [if_pos hfails, if_neg]
    rintro ⟨-, hsource, hdestination⟩
    rcases hfails with h | h
    · exact hsource haddress.2.2 h
    · exact hdestination hmove h
  · rw [if_neg hfails, if_pos]
    exact ⟨hassigned, fun _ h => hfails (.inl h), fun _ h => hfails (.inr h)⟩

/-! ### Control instructions -/

/-- The words of group 4 that stand for themselves or name a register by their low bits. -/
theorem plain_of_trap (hrange : 0 ≤ word ∧ word < 0x10000) (h : 0x4E40 ≤ word ∧ word < 0x4E70) :
    Plain word (if mode word = 2 then [.word] else []) := by
  have hword := word_eq hrange
  have hrx := rx_range word
  have hopmode := opmode_range word
  have hmode := mode_range word
  have hreg := reg_range word
  have hgroup : group word = 4 := by omega
  have hseven : rx word = 7 := by omega
  have hone : opmode word = 1 := by omega
  refine ⟨?_, not_isMove (by omega), .inr fun haddress => haddress.2.1 ⟨hgroup, hseven, hone⟩, ?_⟩
  · unfold Unassigned
    omega
  · have hstop : word ≠ 0x4E72 := by omega
    unfold leading
    rw [if_neg (by omega), if_pos hgroup, if_pos ⟨hseven, hone⟩]
    simp only [hstop, or_false]

theorem items?_of_trap (hrange : 0 ≤ word ∧ word < 0x10000) (h : 0x4E40 ≤ word ∧ word < 0x4E70)
    (hmode : mode word ≠ 2) : items? word = some [] := by
  have hitems := items?_of_plain hrange (plain_of_trap hrange h)
  rw [if_neg hmode] at hitems
  exact hitems

theorem leading_of_control (hgroup : group word = 4) (htrap : ¬ (rx word = 7 ∧ opmode word = 1)) :
    leading word =
      if ((rx word = 4 ∧ mode word ≠ 0) ∨ rx word = 6) ∧ (opmode word = 2 ∨ opmode word = 3)
      then [.word] else [] := by
  unfold leading
  rw [if_neg (by omega), if_pos hgroup, if_neg htrap]

/-- The words of group 4 with an effective address. -/
theorem addressed_of_control (hrange : 0 ≤ word ∧ word < 0x10000) (hgroup : group word = 4)
    (hfields : opmode word ≠ 4 ∧ opmode word ≠ 5 ∧ ¬ (6 ≤ rx word ∧ opmode word < 2))
    (hillegal : word ≠ 0x4AFC) : Addressed word (leading word) (controlSize word) := by
  have hword := word_eq hrange
  have hrx := rx_range word
  have hopmode := opmode_range word
  have hmode := mode_range word
  have hreg := reg_range word
  refine ⟨?_, not_isMove (by omega), ⟨?_, by omega, by omega⟩, rfl, ?_⟩
  · unfold Unassigned
    omega
  · simp only [List.mem_cons, List.not_mem_nil, or_false]
    omega
  · unfold addressSize
    rw [if_neg (by omega), if_neg (by omega), if_neg (by omega), if_neg (by omega), if_pos hgroup]

/-- The words of group 4 with an effective address and nothing before it. -/
theorem addressed_of_operand (hrange : 0 ≤ word ∧ word < 0x10000) (hgroup : group word = 4)
    (hfields : opmode word ≠ 4 ∧ opmode word ≠ 5 ∧ ¬ (6 ≤ rx word ∧ opmode word < 2) ∧
      ¬ ((rx word = 4 ∨ rx word = 6) ∧ (opmode word = 2 ∨ opmode word = 3)))
    (hillegal : word ≠ 0x4AFC) : Addressed word [] (controlSize word) := by
  have h := addressed_of_control hrange hgroup (by omega) hillegal
  rw [leading_of_control hgroup (by omega), if_neg (by omega)] at h
  exact h

/-- Swaps and sign extensions work on a data register. -/
theorem plain_of_data_register (hgroup : group word = 4) (hrx : rx word = 4)
    (hopmode : 1 ≤ opmode word ∧ opmode word ≤ 3) (hmode : mode word = 0) : Plain word [] := by
  refine ⟨?_, not_isMove (by omega), .inl (by omega), ?_⟩
  · unfold Unassigned
    -- the unassigned words have another operation
    have hexact : word ≠ 0x4E74 ∧ ¬ (0x4E78 ≤ word ∧ word ≤ 0x4E7F) := by
      have : rx word = word / 512 % 8 := rfl
      omega
    omega
  · rw [leading_of_control hgroup (by omega), if_neg (by omega)]

end Encoding

end Disasm68k
