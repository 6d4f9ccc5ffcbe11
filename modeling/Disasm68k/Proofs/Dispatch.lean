import Disasm68k.Decode

/-!
# Which rule decodes a word

A word is decoded by the first rule of its group's table that accepts it. That choice tells
three things about the word: its group, that the rule accepts it, and that no rule before it
in the table does. They are all that later proofs need of the tables.

- `Opcode.word_eq`: a word of sixteen bits is made of its five fields;
- `Rule.groups`, `Rule.group_mem_of_first?`: the groups in whose tables a rule stands;
- `Rule.accepts_of_first?`, `Rule.rejects_of_first?`: the other two facts;
- `Rule.isSome_form?_of_first?`: a rule that is chosen for a word has a form for it;
- `Rule.form_eq_ok_iff`, `Rule.form_eq_error`: so a word has a form exactly if it has a rule.
-/

namespace Disasm68k

/-! ## Fields of a word -/

namespace Opcode

theorem group_range (word : Int) : 0 ≤ group word ∧ group word < 16 :=
  ⟨bits_nonneg .., bits_lt ..⟩

theorem rx_range (word : Int) : 0 ≤ rx word ∧ rx word < 8 :=
  ⟨bits_nonneg .., bits_lt ..⟩

theorem opmode_range (word : Int) : 0 ≤ opmode word ∧ opmode word < 8 :=
  ⟨bits_nonneg .., bits_lt ..⟩

theorem mode_range (word : Int) : 0 ≤ mode word ∧ mode word < 8 :=
  ⟨bits_nonneg .., bits_lt ..⟩

theorem reg_range (word : Int) : 0 ≤ reg word ∧ reg word < 8 :=
  ⟨bits_nonneg .., bits_lt ..⟩

/-- The size field is the low part of the operation mode. -/
theorem sizeCode_eq (word : Int) : sizeCode word = opmode word % 4 := by
  show word / 64 % 4 = word / 64 % 8 % 4
  omega

/-- Bit 8 is the high part of the operation mode. -/
theorem bit8_eq (word : Int) : bit8 word = opmode word / 4 := by
  show word / 256 % 2 = word / 64 % 8 / 4
  omega

/-- A word of sixteen bits is made of its five fields. -/
theorem word_eq {word : Int} (h : 0 ≤ word ∧ word < 0x10000) :
    word = 0x1000 * group word + 0x200 * rx word + 0x40 * opmode word + 8 * mode word +
      reg word := by
  show word = 0x1000 * (word / 0x1000 % 16) + 0x200 * (word / 0x200 % 8) +
    0x40 * (word / 0x40 % 8) + 8 * (word / 8 % 8) + word / 1 % 8
  omega

/-- The ten high bits of a word hold the operation and its mode. -/
theorem rx_opmode_of_bits {word n : Int} (h : bits word 6 10 = n) :
    rx word = n / 8 % 8 ∧ opmode word = n % 8 := by
  have hhigh : word / 64 % 1024 = n := h
  show word / 512 % 8 = n / 8 % 8 ∧ word / 64 % 8 = n % 8
  omega

/-- The three bits below them hold the mode of the effective address. -/
theorem rx_opmode_mode_of_bits {word n : Int} (h : bits word 3 13 = n) :
    rx word = n / 64 % 8 ∧ opmode word = n / 8 % 8 ∧ mode word = n % 8 := by
  have hhigh : word / 8 % 8192 = n := h
  show word / 512 % 8 = n / 64 % 8 ∧ word / 64 % 8 = n / 8 % 8 ∧ word / 8 % 8 = n % 8
  omega

/-- The size field names a size unless it is three. -/
theorem size?_eq_none_iff {word : Int} : size? word = none ↔ sizeCode word = 3 := by
  have hrange : 0 ≤ sizeCode word ∧ sizeCode word < 4 := ⟨bits_nonneg .., bits_lt ..⟩
  unfold size? Size.ofCode?
  grind

end Opcode

/-! ## The first rule that accepts -/

namespace Rule

open Opcode

variable {rule : Rule} {word : Int}

theorem accepts_of_first? (h : first? word = some rule) : rule.accepts word = true := by
  have := List.find?_some h
  simpa using this

theorem mem_table_of_first? (h : first? word = some rule) : rule ∈ table (group word) :=
  List.mem_of_find?_eq_some h

theorem firstIn?_cons (rules : List Rule) :
    firstIn? (rule :: rules) word =
      if rule.accepts word then some rule else firstIn? rules word := by
  unfold firstIn?
  rw [List.find?_cons]
  cases rule.accepts word <;> rfl

theorem rejects_of_firstIn? {earlier : Rule} {rules : List Rule} (h : firstIn? rules word = some rule)
    (hmem : earlier ∈ rules.takeWhile (· ≠ rule)) : earlier.accepts word = false := by
  induction rules with
  | nil => cases hmem
  | cons head rules ih =>
    rw [firstIn?_cons] at h
    cases haccepts : head.accepts word with
    | true =>
      obtain rfl : head = rule := by simpa [haccepts] using h
      simp at hmem
    | false =>
      rw [haccepts, if_neg (by decide)] at h
      by_cases hhead : head = rule
      · simp [hhead] at hmem
      · rw [List.takeWhile_cons_of_pos (by simpa using hhead)] at hmem
        rcases List.mem_cons.mp hmem with rfl | hrest
        · exact haccepts
        · exact ih h hrest

/-- Rules that stand before the chosen one do not accept the word. -/
theorem rejects_of_first? (earlier : Rule) (h : first? word = some rule)
    (hmem : earlier ∈ (table (group word)).takeWhile (· ≠ rule)) :
    earlier.accepts word = false :=
  rejects_of_firstIn? h hmem

/-- The groups in whose tables a rule stands. -/
def groups : Rule → List Int
  | orToCcr | andToCcr | eorToCcr | orToSr | andToSr | eorToSr => [0]
  | immediateOp | bitStatic | movep | bitDynamic => [0]
  | move => [1, 2, 3]
  | illegal | reset | nop | stop | rte | rts | trapv | rtr => [4]
  | trap | link | unlk | moveUsp | jsr | jmp | lea | chk | unary => [4]
  | moveFromSr | moveFromCcr | moveToCcr | moveToSr => [4]
  | nbcd | swap | pea | ext | tas | movem => [4]
  | dbcc | scc | addSubQuick => [5]
  | branch => [6]
  | moveq => [7]
  | divu | divs | sbcd | or => [8]
  | suba | subx | sub => [9]
  | cmpa | cmp | cmpm | eor => [11]
  | mulu | muls | abcd | exgData | exgAddress | exgMixed | and => [12]
  | adda | addx | add => [13]
  | shiftMemory | shiftRegister => [14]

theorem mem_groups_of_mem_table (group : Int) : ∀ rule ∈ table group, group ∈ rule.groups := by
  unfold table
  split
  case h_15 => simp
  all_goals decide

theorem group_mem_of_first? (h : first? word = some rule) : group word ∈ rule.groups :=
  mem_groups_of_mem_table _ rule (mem_table_of_first? h)

/-! ## Every chosen rule has a form -/

theorem isSome_immediateName? (n : Int) : (immediateName? n).isSome = isImmediateOp n := by
  unfold immediateName? isImmediateOp
  split <;> simp_all

theorem isSome_unaryName? (n : Int) : (unaryName? n).isSome = isUnaryOp n := by
  unfold unaryName? isUnaryOp
  split <;> simp_all

theorem isSome_bitName? {n : Int} (h : 0 ≤ n ∧ n < 4) : (bitName? n).isSome := by
  obtain rfl | rfl | rfl | rfl : n = 0 ∨ n = 1 ∨ n = 2 ∨ n = 3 := by omega
  all_goals rfl

theorem isSome_shiftName? {n : Int} (h : 0 ≤ n ∧ n < 4) : (shiftName? n).isSome := by
  obtain rfl | rfl | rfl | rfl : n = 0 ∨ n = 1 ∨ n = 2 ∨ n = 3 := by omega
  all_goals rfl

/-- In the groups where a size field of three means something else, the rules for that come
first, so a sized rule is chosen only if the field names a size. -/
theorem sizeCode_ne_three_of_first? (h : first? word = some rule)
    (hrule : rule ∈ [addSubQuick, or, subx, sub, cmp, cmpm, eor, and, addx, add]) :
    sizeCode word ≠ 3 := by
  have hgroup := group_mem_of_first? h
  -- `or` and `and` come after two rules, one for each operation mode with the size field three
  have hsize := sizeCode_eq word
  have hmode := opmode_range word
  simp only [List.mem_cons, List.not_mem_nil, or_false] at hrule
  rcases hrule with rfl | rfl | rfl | rfl | rfl | rfl | rfl | rfl | rfl | rfl <;>
    simp only [groups, List.mem_singleton] at hgroup
  · simpa [accepts] using rejects_of_first? scc h (by rw [hgroup]; decide)
  · have h3 := rejects_of_first? divu h (by rw [hgroup]; decide)
    have h7 := rejects_of_first? divs h (by rw [hgroup]; decide)
    simp only [accepts, decide_eq_false_iff_not] at h3 h7
    omega
  · simpa [accepts] using rejects_of_first? suba h (by rw [hgroup]; decide)
  · simpa [accepts] using rejects_of_first? suba h (by rw [hgroup]; decide)
  · simpa [accepts] using rejects_of_first? cmpa h (by rw [hgroup]; decide)
  · simpa [accepts] using rejects_of_first? cmpa h (by rw [hgroup]; decide)
  · simpa [accepts] using rejects_of_first? cmpa h (by rw [hgroup]; decide)
  · have h3 := rejects_of_first? mulu h (by rw [hgroup]; decide)
    have h7 := rejects_of_first? muls h (by rw [hgroup]; decide)
    simp only [accepts, decide_eq_false_iff_not] at h3 h7
    omega
  · simpa [accepts] using rejects_of_first? adda h (by rw [hgroup]; decide)
  · simpa [accepts] using rejects_of_first? adda h (by rw [hgroup]; decide)

/-- The fields of a word have a meaning for the rule that is chosen for it. -/
theorem isSome_form?_of_first? (h : first? word = some rule) : (rule.form? word).isSome := by
  have haccepts := accepts_of_first? h
  have hsize : sizeCode word ≠ 3 → (size? word).isSome := by
    rw [Option.isSome_iff_ne_none, Ne, Ne, size?_eq_none_iff]
    exact id
  have hsized := fun hrule => hsize (sizeCode_ne_three_of_first? h hrule)
  cases rule with
  | immediateOp =>
    simp only [accepts, Bool.and_eq_true, decide_eq_true_eq] at haccepts
    obtain ⟨name, hname⟩ := Option.isSome_iff_exists.mp
      ((isSome_immediateName? (rx word)).trans haccepts.1.2)
    obtain ⟨size, hs⟩ := Option.isSome_iff_exists.mp (hsize (by omega))
    simp [form?, immediateForm?, hname, hs]
  | unary =>
    simp only [accepts, Bool.and_eq_true, decide_eq_true_eq] at haccepts
    obtain ⟨name, hname⟩ := Option.isSome_iff_exists.mp
      ((isSome_unaryName? (rx word)).trans haccepts.1.2)
    obtain ⟨size, hs⟩ := Option.isSome_iff_exists.mp (hsize (by omega))
    simp [form?, unaryForm?, hname, hs]
  | shiftRegister =>
    simp only [accepts, decide_eq_true_eq] at haccepts
    obtain ⟨name, hname⟩ := Option.isSome_iff_exists.mp
      (isSome_shiftName? (n := bits word 3 2) ⟨bits_nonneg .., bits_lt ..⟩)
    obtain ⟨size, hs⟩ := Option.isSome_iff_exists.mp (hsize (by omega))
    simp [form?, shiftRegisterForm?, shiftName, hname, hs]
  | shiftMemory =>
    simpa [form?, shiftMemoryForm?, shiftName] using
      isSome_shiftName? (n := bits (rx word) 0 2) ⟨bits_nonneg .., bits_lt ..⟩
  | bitStatic =>
    simpa [form?, bitStaticForm?] using
      isSome_bitName? (n := sizeCode word) ⟨bits_nonneg .., bits_lt ..⟩
  | bitDynamic =>
    simpa [form?, bitDynamicForm?] using
      isSome_bitName? (n := sizeCode word) ⟨bits_nonneg .., bits_lt ..⟩
  | move =>
    have hgroup := group_mem_of_first? h
    simp only [groups, List.mem_cons, List.not_mem_nil, or_false] at hgroup
    rcases hgroup with hg | hg | hg <;> simp [form?, moveForm?, hg, moveSize?]
  | addSubQuick => simpa [form?, addSubQuickForm?] using hsized
  | or | sub | and | add => simpa [form?, general] using hsized
  | subx | addx => simpa [form?, sizedPair] using hsized
  | cmp | cmpm | eor => simpa [form?] using hsized
  | _ => rfl

/-- The only reason for a word to have no form is that no rule accepts it. -/
theorem form_eq_error {address : Int} {fault : Fault}
    (h : Opcode.form word address = .error fault) :
    first? word = none ∧ fault = .unknownInstruction word address := by
  rw [Opcode.form_eq] at h
  cases hfirst : first? word with
  | none =>
    rw [hfirst] at h
    cases h
    exact ⟨rfl, rfl⟩
  | some rule =>
    have hsome := isSome_form?_of_first? hfirst
    cases hform : rule.form? word with
    | none => simp [hform] at hsome
    | some form => simp [hfirst, hform] at h

/-- A word has a form exactly when it has a rule, and then the form is the rule's. -/
theorem form_eq_ok_iff {address : Int} {form : Form} :
    Opcode.form word address = .ok form ↔
      ∃ rule, first? word = some rule ∧ rule.form? word = some form := by
  rw [Opcode.form_eq]
  cases first? word with
  | none => simp
  | some rule => cases hform : rule.form? word <;> simp [hform]

end Rule

end Disasm68k
