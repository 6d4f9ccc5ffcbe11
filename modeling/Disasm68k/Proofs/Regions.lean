import Disasm68k.Proofs.Dispatch

/-!
# The regions of the rules

Rules test words in many ways: some want one word, some a pattern of high bits, some a value of
this or that field. But each test amounts to the same thing, a list of values for each of the four
fields below the group. So whether two rules have a word in common is seen field by field, without
looking at a word at all.

- `Rule.Region`: the values that each field may have;
- `Rule.region`: the region of a rule;
- `Rule.Region.Contains`: the fields of a word lie in a region;
- `Rule.contains_of_accepts`: a rule accepts words of its region only;
- `Rule.Region.meets_of_contains`: regions that contain the same word meet in every field.
-/

namespace Disasm68k

namespace Rule

open Opcode

/-- The values that the fields of a word may have. -/
structure Region where
  rxs : List Int
  opmodes : List Int
  modes : List Int
  regs : List Int
deriving DecidableEq

namespace Region

/-- All values of a field of three bits. -/
def any : List Int := [0, 1, 2, 3, 4, 5, 6, 7]

/-- Whether the regions have a value in common in each field. -/
def meets (a b : Region) : Bool :=
  a.opmodes.any b.opmodes.contains && a.rxs.any b.rxs.contains &&
    a.modes.any b.modes.contains && a.regs.any b.regs.contains

/-- The fields of the word lie in the region. -/
structure Contains (region : Region) (word : Int) : Prop where
  rx_mem : rx word ∈ region.rxs
  opmode_mem : opmode word ∈ region.opmodes
  mode_mem : mode word ∈ region.modes
  reg_mem : reg word ∈ region.regs

theorem any_contains_of_mem {values values' : List Int} {n : Int} (h : n ∈ values)
    (h' : n ∈ values') : values.any values'.contains = true :=
  List.any_eq_true.mpr ⟨n, h, List.contains_iff_mem.mpr h'⟩

/-- Regions that contain the same word meet. -/
theorem meets_of_contains {a b : Region} {word : Int} (ha : a.Contains word)
    (hb : b.Contains word) : a.meets b = true := by
  simp only [meets, Bool.and_eq_true]
  exact ⟨⟨⟨any_contains_of_mem ha.opmode_mem hb.opmode_mem,
    any_contains_of_mem ha.rx_mem hb.rx_mem⟩, any_contains_of_mem ha.mode_mem hb.mode_mem⟩,
    any_contains_of_mem ha.reg_mem hb.reg_mem⟩

theorem mem_any {n : Int} (h : 0 ≤ n ∧ n < 8) : n ∈ any := by
  simp only [any, List.mem_cons, List.not_mem_nil, or_false]
  omega

/-- A number of three bits with a property is among those that have it. -/
theorem mem_of_range {values : List Int} {n : Int} (P : Int → Prop) (hrange : 0 ≤ n ∧ n < 8)
    (h : P n) (hvalues : ∀ m ∈ any, P m → m ∈ values) : n ∈ values :=
  hvalues n (mem_any hrange) h

/-- The region of a single word. -/
def single (rx opmode mode reg : Int) : Region :=
  ⟨[rx], [opmode], [mode], [reg]⟩

/-- The region of an operation and operation modes, with any effective address. -/
def operation (rxs opmodes : List Int) : Region :=
  ⟨rxs, opmodes, any, any⟩

end Region

/-- The region of a rule. -/
def region : Rule → Region
  | orToCcr => .single 0 0 7 4
  | andToCcr => .single 1 0 7 4
  | eorToCcr => .single 5 0 7 4
  | orToSr => .single 0 1 7 4
  | andToSr => .single 1 1 7 4
  | eorToSr => .single 5 1 7 4
  | immediateOp => .operation [0, 1, 2, 3, 5, 6] [0, 1, 2]
  | bitStatic => .operation [4] [0, 1, 2, 3]
  | movep => ⟨Region.any, [4, 5, 6, 7], [1], Region.any⟩
  | bitDynamic => .operation Region.any [4, 5, 6, 7]
  | illegal => .single 5 3 7 4
  | reset => .single 7 1 6 0
  | nop => .single 7 1 6 1
  | stop => .single 7 1 6 2
  | rte => .single 7 1 6 3
  | rts => .single 7 1 6 5
  | trapv => .single 7 1 6 6
  | rtr => .single 7 1 6 7
  | trap => ⟨[7], [1], [0, 1], Region.any⟩
  | link => ⟨[7], [1], [2], Region.any⟩
  | unlk => ⟨[7], [1], [3], Region.any⟩
  | moveUsp => ⟨[7], [1], [4, 5], Region.any⟩
  | jsr => .operation [7] [2]
  | jmp => .operation [7] [3]
  | lea => .operation Region.any [7]
  | chk => .operation Region.any [6]
  | unary => .operation [0, 1, 2, 3, 5] [0, 1, 2]
  | moveFromSr => .operation [0] [3, 7]
  | moveFromCcr => .operation [1] [3, 7]
  | moveToCcr => .operation [2] [3, 7]
  | moveToSr => .operation [3] [3, 7]
  | nbcd => .operation [4] [0]
  | swap => ⟨[4], [1], [0], Region.any⟩
  | pea => .operation [4] [1]
  | ext => ⟨[4], [2, 3], [0], Region.any⟩
  | tas => .operation [5] [3, 7]
  | movem => .operation [4, 6] [2, 3]
  | dbcc => ⟨Region.any, [3, 7], [1], Region.any⟩
  | scc | suba | cmpa | adda => .operation Region.any [3, 7]
  | moveq => .operation Region.any [0, 1, 2, 3]
  | divu | mulu => .operation Region.any [3]
  | divs | muls => .operation Region.any [7]
  | sbcd | abcd => ⟨Region.any, [4], [0, 1], Region.any⟩
  | subx | addx => ⟨Region.any, [4, 5, 6, 7], [0, 1], Region.any⟩
  | cmp => .operation Region.any [0, 1, 2]
  | cmpm => ⟨Region.any, Region.any, [1], Region.any⟩
  | exgData => ⟨Region.any, [5], [0], Region.any⟩
  | exgAddress => ⟨Region.any, [5], [1], Region.any⟩
  | exgMixed => ⟨Region.any, [6], [1], Region.any⟩
  | shiftMemory => .operation [0, 1, 2, 3] [3, 7]
  | shiftRegister => .operation Region.any [0, 1, 2, 4, 5, 6]
  | move | addSubQuick | branch | or | sub | eor | and | add => .operation Region.any Region.any

/-! ## Fields that tests speak of -/

variable {rule : Rule} {word : Int}

theorem opmode_of_sizeCode_eq_three (h : sizeCode word = 3) : opmode word ∈ [3, 7] := by
  rw [sizeCode_eq] at h
  exact Region.mem_of_range (· % 4 = 3) (opmode_range word) h (by decide)

theorem opmode_of_sizeCode_lt_three (h : sizeCode word < 3) : opmode word ∈ [0, 1, 2, 4, 5, 6] := by
  rw [sizeCode_eq] at h
  exact Region.mem_of_range (· % 4 < 3) (opmode_range word) h (by decide)

theorem opmode_of_bit8_eq_one (h : bit8 word = 1) : opmode word ∈ [4, 5, 6, 7] := by
  rw [bit8_eq] at h
  exact Region.mem_of_range (· / 4 = 1) (opmode_range word) h (by decide)

theorem opmode_of_bit8_eq_zero (h : bit8 word = 0) : opmode word ∈ [0, 1, 2, 3] := by
  rw [bit8_eq] at h
  exact Region.mem_of_range (· / 4 = 0) (opmode_range word) h (by decide)

/-- Operation modes of sized instructions that leave bit 8 clear. -/
theorem opmode_of_sized (hbit8 : bit8 word = 0) (hsize : sizeCode word < 3) :
    opmode word ∈ [0, 1, 2] := by
  rw [bit8_eq] at hbit8
  rw [sizeCode_eq] at hsize
  exact Region.mem_of_range (fun n => n / 4 = 0 ∧ n % 4 < 3) (opmode_range word) ⟨hbit8, hsize⟩
    (by decide)

theorem mode_of_isRegisterOrPredecrement (h : isRegisterOrPredecrement word = true) :
    mode word ∈ [0, 1] := by
  simpa [isRegisterOrPredecrement] using h

/-- Any effective address will do for an operation. -/
theorem Region.contains_operation {rxs opmodes : List Int} (hrx : rx word ∈ rxs)
    (hopmode : opmode word ∈ opmodes) : (operation rxs opmodes).Contains word :=
  ⟨hrx, hopmode, mem_any (mode_range word), mem_any (reg_range word)⟩

/-! ## A rule accepts words of its region -/

/-- **A rule accepts words of its region only.** -/
theorem contains_of_accepts (h : rule.accepts word = true) : rule.region.Contains word := by
  have hrx := Region.mem_any (rx_range word)
  have hopmode := Region.mem_any (opmode_range word)
  have hmode := Region.mem_any (mode_range word)
  have hreg := Region.mem_any (reg_range word)
  cases rule with
  | orToCcr | andToCcr | eorToCcr | orToSr | andToSr | eorToSr | illegal | reset | nop | stop
  | rte | rts | trapv | rtr =>
    obtain rfl := of_decide_eq_true h
    exact ⟨by decide, by decide, by decide, by decide⟩
  | move | addSubQuick | branch | or | sub | eor | and | add => exact ⟨hrx, hopmode, hmode, hreg⟩
  | lea | chk | divu | divs | mulu | muls =>
    exact Region.contains_operation hrx (List.mem_singleton.mpr (of_decide_eq_true h))
  | scc | suba | cmpa | adda =>
    exact Region.contains_operation hrx (opmode_of_sizeCode_eq_three (of_decide_eq_true h))
  | moveFromSr | moveFromCcr | moveToCcr | moveToSr | tas =>
    simp only [accepts, Bool.and_eq_true, decide_eq_true_eq] at h
    exact Region.contains_operation (List.mem_singleton.mpr h.1) (opmode_of_sizeCode_eq_three h.2)
  | nbcd | pea =>
    simp only [accepts, Bool.and_eq_true, decide_eq_true_eq] at h
    exact Region.contains_operation (List.mem_singleton.mpr h.1) (List.mem_singleton.mpr h.2)
  | swap =>
    simp only [accepts, Bool.and_eq_true, decide_eq_true_eq] at h
    exact ⟨List.mem_singleton.mpr h.1.1, List.mem_singleton.mpr h.1.2, List.mem_singleton.mpr h.2,
      hreg⟩
  | ext =>
    simp only [accepts, Bool.and_eq_true, Bool.or_eq_true, decide_eq_true_eq] at h
    have hopmodes : opmode word ∈ [2, 3] := by simpa using h.1.2
    exact ⟨List.mem_singleton.mpr h.1.1, hopmodes, List.mem_singleton.mpr h.2, hreg⟩
  | movem =>
    simp only [accepts, Bool.and_eq_true, Bool.or_eq_true, decide_eq_true_eq] at h
    exact Region.contains_operation (by simpa using h.1) (by simpa using h.2)
  | immediateOp =>
    simp only [accepts, isImmediateOp, Bool.and_eq_true, Bool.or_eq_true, decide_eq_true_eq] at h
    refine Region.contains_operation ?_ (opmode_of_sized h.1.1 h.2)
    simp only [List.mem_cons, List.not_mem_nil, or_false]
    omega
  | unary =>
    simp only [accepts, isUnaryOp, Bool.and_eq_true, Bool.or_eq_true, decide_eq_true_eq] at h
    refine Region.contains_operation ?_ (opmode_of_sized h.1.1 h.2)
    simp only [List.mem_cons, List.not_mem_nil, or_false]
    omega
  | bitStatic =>
    simp only [accepts, Bool.and_eq_true, decide_eq_true_eq] at h
    exact Region.contains_operation (List.mem_singleton.mpr h.2) (opmode_of_bit8_eq_zero h.1)
  | bitDynamic =>
    exact Region.contains_operation hrx (opmode_of_bit8_eq_one (of_decide_eq_true h))
  | moveq => exact Region.contains_operation hrx (opmode_of_bit8_eq_zero (of_decide_eq_true h))
  | movep =>
    simp only [accepts, Bool.and_eq_true, decide_eq_true_eq] at h
    exact ⟨hrx, opmode_of_bit8_eq_one h.1, List.mem_singleton.mpr h.2, hreg⟩
  | dbcc =>
    simp only [accepts, Bool.and_eq_true, decide_eq_true_eq] at h
    exact ⟨hrx, opmode_of_sizeCode_eq_three h.1, List.mem_singleton.mpr h.2, hreg⟩
  | sbcd | abcd =>
    simp only [accepts, Bool.and_eq_true, decide_eq_true_eq] at h
    exact ⟨hrx, List.mem_singleton.mpr h.1, mode_of_isRegisterOrPredecrement h.2, hreg⟩
  | subx | addx =>
    simp only [accepts, Bool.and_eq_true, decide_eq_true_eq] at h
    refine ⟨hrx, opmode_of_bit8_eq_one ?_, mode_of_isRegisterOrPredecrement h.2, hreg⟩
    have hrange := opmode_range word
    rw [bit8_eq]
    omega
  | cmp =>
    have hlow : opmode word < 3 := of_decide_eq_true h
    exact Region.contains_operation hrx
      (Region.mem_of_range (· < 3) (opmode_range word) hlow (by decide))
  | cmpm => exact ⟨hrx, hopmode, List.mem_singleton.mpr (of_decide_eq_true h), hreg⟩
  | exgData | exgAddress | exgMixed =>
    simp only [accepts, Bool.and_eq_true, decide_eq_true_eq] at h
    exact ⟨hrx, List.mem_singleton.mpr h.1, List.mem_singleton.mpr h.2, hreg⟩
  | shiftMemory =>
    simp only [accepts, Bool.and_eq_true, decide_eq_true_eq] at h
    exact Region.contains_operation (Region.mem_of_range (· < 4) (rx_range word) h.2 (by decide))
      (opmode_of_sizeCode_eq_three h.1)
  | shiftRegister =>
    exact Region.contains_operation hrx (opmode_of_sizeCode_lt_three (of_decide_eq_true h))
  | jsr | jmp =>
    obtain ⟨hrx, hopmode⟩ := rx_opmode_of_bits (of_decide_eq_true h)
    exact Region.contains_operation (List.mem_singleton.mpr hrx) (List.mem_singleton.mpr hopmode)
  | trap | moveUsp =>
    have hhigh : word / 16 % 4096 = _ := of_decide_eq_true h
    refine ⟨List.mem_singleton.mpr ?_, List.mem_singleton.mpr ?_, ?_, hreg⟩
    · show word / 512 % 8 = 7
      omega
    · show word / 64 % 8 = 1
      omega
    · show word / 8 % 8 ∈ [_, _]
      simp only [List.mem_cons, List.not_mem_nil, or_false]
      omega
  | link | unlk =>
    obtain ⟨hrx, hopmode, hmode⟩ := rx_opmode_mode_of_bits (of_decide_eq_true h)
    exact ⟨List.mem_singleton.mpr hrx, List.mem_singleton.mpr hopmode, List.mem_singleton.mpr hmode,
      hreg⟩

end Rule

end Disasm68k
