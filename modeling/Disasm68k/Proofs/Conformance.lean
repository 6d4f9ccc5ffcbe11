import Disasm68k.Proofs.Shapes

/-!
# The rules conform to the encoding

The rules and the encoding describe the same instructions, one by an ordered list of tests and
the other by the fields of a word. For every word of sixteen bits the slots of the rule that is
chosen need exactly the items of the encoding, and the words without a rule are unassigned.

- `Rule.outline_slots`: the items of the form of a word, assembled from one lemma for each part
  of the instruction set;
- `Rule.unassigned_of_first?`: the words without a rule.
-/

namespace Disasm68k

open Opcode

/-! ## Words with a rule -/

namespace Rule

open Encoding

variable {rule : Rule} {word : Int} {form : Form}

/-- The rules after `lea` that ask for a size field of three have one operation mode left. -/
theorem opmode_of_sizeCode (hfirst : first? word = some rule) (hgroup : group word = 4)
    (hlater : lea ∈ (table 4).takeWhile (· ≠ rule)) (hcode : sizeCode word = 3) :
    opmode word = 3 := by
  have hlea := rejects_of_first? lea hfirst (by rw [hgroup]; exact hlater)
  have hopmode := opmode_range word
  simp only [accepts, decide_eq_false_iff_not] at hlea
  rw [sizeCode_eq] at hcode
  omega

/-- A control instruction whose only extension words belong to its effective address. -/
theorem outline_operand (hrange : 0 ≤ word ∧ word < 0x10000) (hfirst : first? word = some rule)
    (hgroup : group word = 4) (hlater : illegal ∈ (table 4).takeWhile (· ≠ rule))
    (hfields : opmode word ≠ 4 ∧ opmode word ≠ 5 ∧ ¬ (6 ≤ rx word ∧ opmode word < 2) ∧
      ¬ ((rx word = 4 ∨ rx word = 6) ∧ (opmode word = 2 ∨ opmode word = 3)))
    {size : Size} (hsize : controlSize word = size) (key : String) {slots : List Slot}
    (hrest : Slot.outline slots = some []) :
    Slot.outline (ea word size key :: slots) = items? word := by
  have hillegal := rejects_of_first? illegal hfirst (by rw [hgroup]; exact hlater)
  simp only [accepts, decide_eq_false_iff_not] at hillegal
  have haddressed := addressed_of_operand hrange hgroup hfields hillegal
  rw [hsize] at haddressed
  exact Slot.outline_of_addressed haddressed key hrest

section Conformance

variable (hrange : 0 ≤ word ∧ word < 0x10000) (hfirst : first? word = some rule)
  (hform : rule.form? word = some form)
include hrange hfirst hform

/-- Group 0: immediate operations, bit instructions and peripheral moves. -/
theorem outline_immediates (hzero : group word = 0) : Slot.outline form.slots = items? word := by
  have haccepts := accepts_of_first? hfirst
  have hgroup := group_mem_of_first? hfirst
  have hearlier : ∀ earlier ∈ (table 0).takeWhile (· ≠ rule), earlier.accepts word = false := by
    intro earlier hmem
    exact rejects_of_first? earlier hfirst (by rw [hzero]; exact hmem)
  cases rule with
  | orToCcr | andToCcr | eorToCcr | orToSr | andToSr | eorToSr =>
    obtain rfl := of_decide_eq_true haccepts
    obtain rfl := Option.some.inj hform
    decide
  | immediateOp =>
    obtain ⟨name, -, hsized⟩ := Option.bind_eq_some_iff.mp hform
    obtain ⟨size, hsize, hlast⟩ := Option.bind_eq_some_iff.mp hsized
    obtain rfl := Option.some.inj hlast
    simp only [accepts, isImmediateOp, Bool.and_eq_true, Bool.or_eq_true, decide_eq_true_eq]
      at haccepts
    have hexact : word ∉ [0x003C, 0x023C, 0x0A3C, 0x007C, 0x027C, 0x0A7C] := by
      have h₁ := hearlier orToCcr (by decide)
      have h₂ := hearlier andToCcr (by decide)
      have h₃ := hearlier eorToCcr (by decide)
      have h₄ := hearlier orToSr (by decide)
      have h₅ := hearlier andToSr (by decide)
      have h₆ := hearlier eorToSr (by decide)
      simp only [accepts, decide_eq_false_iff_not] at h₁ h₂ h₃ h₄ h₅ h₆
      simp only [List.mem_cons, List.not_mem_nil, or_false]
      omega
    have hrx : rx word ∈ [0, 1, 2, 3, 5, 6] := by
      simp only [List.mem_cons, List.not_mem_nil, or_false]
      omega
    have haddressed := addressed_of_immediate hzero haccepts.1.1 hrx hexact hsize
    exact Slot.outline_of_led (.immediate size) haddressed "src" "dst"
  | bitStatic =>
    obtain ⟨name, -, rfl⟩ := Option.map_eq_some_iff.mp hform
    simp only [accepts, Bool.and_eq_true, decide_eq_true_eq] at haccepts
    have haddressed := addressed_of_bit hrange hzero (.inr haccepts) (by omega)
    rw [if_neg (by omega)] at haddressed
    exact Slot.outline_of_led .bitNumber haddressed "bit" "dst"
  | bitDynamic =>
    obtain ⟨name, -, rfl⟩ := Option.map_eq_some_iff.mp hform
    have hbit8 := of_decide_eq_true haccepts
    have hmovep := hearlier movep (by decide)
    simp only [accepts, Bool.and_eq_false_iff, decide_eq_false_iff_not] at hmovep
    have haddressed := addressed_of_bit hrange hzero (.inl hbit8) (by omega)
    rw [if_pos hbit8] at haddressed
    exact Slot.outline_of_addressed haddressed _ rfl
  | movep =>
    obtain rfl := Option.some.inj hform
    simp only [accepts, Bool.and_eq_true, decide_eq_true_eq] at haccepts
    have hitems := items?_of_plain hrange (plain_of_peripheral hzero haccepts.1 haccepts.2)
    unfold movepForm
    split <;> exact hitems.symm
  | _ =>
    rw [hzero] at hgroup
    exact absurd hgroup (by decide)

/-- Group 4: control instructions and instructions with one operand. -/
theorem outline_control (hfour : group word = 4) : Slot.outline form.slots = items? word := by
  have haccepts := accepts_of_first? hfirst
  have hgroup := group_mem_of_first? hfirst
  have hopmode := opmode_range word
  have hcode := sizeCode_eq word
  cases rule with
  | illegal | reset | nop | stop | rte | rts | trapv | rtr =>
    obtain rfl := of_decide_eq_true haccepts
    obtain rfl := Option.some.inj hform
    decide
  | jsr | jmp =>
    obtain rfl := Option.some.inj hform
    obtain ⟨hrx, hmode⟩ := rx_opmode_of_bits (of_decide_eq_true haccepts)
    refine outline_operand hrange hfirst hfour (by decide) (by omega) ?_ _ rfl
    unfold controlSize
    rw [hrx, hmode]
    rfl
  | lea | chk =>
    obtain rfl := Option.some.inj hform
    have hmode := of_decide_eq_true haccepts
    refine outline_operand hrange hfirst hfour (by decide) (by omega) ?_ _ rfl
    unfold controlSize
    rw [hmode]
    rfl
  | moveFromSr | moveFromCcr | moveToCcr | moveToSr | tas =>
    obtain rfl := Option.some.inj hform
    simp only [accepts, Bool.and_eq_true, decide_eq_true_eq] at haccepts
    obtain ⟨hrx, hthree⟩ := haccepts
    have hmode := opmode_of_sizeCode hfirst hfour (by decide) hthree
    refine outline_operand hrange hfirst hfour (by decide) (by omega) ?_ _ rfl
    unfold controlSize
    rw [hrx, hmode]
    rfl
  | nbcd | pea =>
    obtain rfl := Option.some.inj hform
    simp only [accepts, Bool.and_eq_true, decide_eq_true_eq] at haccepts
    obtain ⟨hrx, hmode⟩ := haccepts
    refine outline_operand hrange hfirst hfour (by decide) (by omega) ?_ _ rfl
    unfold controlSize
    rw [hrx, hmode]
    rfl
  | unary =>
    obtain ⟨name, -, hsized⟩ := Option.bind_eq_some_iff.mp hform
    obtain ⟨size, hsize, hlast⟩ := Option.bind_eq_some_iff.mp hsized
    obtain rfl := Option.some.inj hlast
    simp only [accepts, isUnaryOp, Bool.and_eq_true, Bool.or_eq_true, decide_eq_true_eq]
      at haccepts
    rw [bit8_eq] at haccepts
    refine outline_operand hrange hfirst hfour (by decide) (by omega) ?_ _ rfl
    unfold controlSize
    rw [if_neg (by omega), if_neg (by omega), if_neg (by omega), if_neg (by omega),
      if_neg (by omega), if_neg (by omega)]
    exact fieldSize_of_size? hsize
  | trap =>
    obtain rfl := Option.some.inj hform
    have hhigh : word / 16 % 4096 = 0x4E4 := of_decide_eq_true haccepts
    refine (items?_of_trap hrange (by omega) ?_).symm
    show word / 8 % 8 ≠ 2
    omega
  | unlk =>
    obtain rfl := Option.some.inj hform
    have hhigh : word / 8 % 8192 = 0x9CB := of_decide_eq_true haccepts
    refine (items?_of_trap hrange (by omega) ?_).symm
    show word / 8 % 8 ≠ 2
    omega
  | moveUsp =>
    obtain rfl := Option.some.inj hform
    have hhigh : word / 16 % 4096 = 0x4E6 := of_decide_eq_true haccepts
    have hmode : mode word ≠ 2 := by
      show word / 8 % 8 ≠ 2
      omega
    unfold moveUspForm
    split <;> exact (items?_of_trap hrange (by omega) hmode).symm
  | link =>
    obtain rfl := Option.some.inj hform
    have hhigh : word / 8 % 8192 = 0x9CA := of_decide_eq_true haccepts
    have hmode : mode word = 2 := by
      show word / 8 % 8 = 2
      omega
    have hitems := items?_of_plain hrange (plain_of_trap hrange (by omega))
    rw [if_pos hmode] at hitems
    exact hitems.symm
  | swap | ext =>
    obtain rfl := Option.some.inj hform
    simp only [accepts, Bool.and_eq_true, Bool.or_eq_true, decide_eq_true_eq] at haccepts
    exact (items?_of_plain hrange
      (plain_of_data_register hfour (by omega) (by omega) (by omega))).symm
  | movem =>
    obtain rfl := Option.some.inj hform
    simp only [accepts, Bool.and_eq_true, Bool.or_eq_true, decide_eq_true_eq] at haccepts
    have hext := rejects_of_first? ext hfirst (by rw [hfour]; decide)
    have hillegal := rejects_of_first? illegal hfirst (by rw [hfour]; decide)
    simp only [accepts, Bool.and_eq_false_iff, Bool.or_eq_false_iff, decide_eq_false_iff_not]
      at hext hillegal
    have hsize : controlSize word = longIf (opmode word ≠ 2) := by
      unfold controlSize longIf
      obtain ⟨h | h, h' | h'⟩ := haccepts <;> rw [h, h'] <;> rfl
    have haddressed := addressed_of_control hrange hfour (by omega) hillegal
    rw [leading_of_control hfour (by omega), if_pos (by omega), hsize] at haddressed
    exact Slot.outline_of_led (.regList (rx word = 6)) haddressed "mask" "ea"
  | _ =>
    rw [hfour] at hgroup
    exact absurd hgroup (by decide)

/-- Groups 1 to 3: moves. The source comes first, then the destination. -/
theorem outline_moves (hmove : IsMove word) : Slot.outline form.slots = items? word := by
  have hgroup := group_mem_of_first? hfirst
  cases rule with
  | move =>
    obtain ⟨size, hsize, rfl⟩ := Option.map_eq_some_iff.mp hform
    have hone : size = .byte ↔ group word = 1 := by
      rcases hmove with hg | hg | hg
      all_goals
        rw [hg] at hsize ⊢
        cases hsize
        decide
    dsimp only
    by_cases hbyte : group word = 1 ∧ opmode word = 1
    · -- There is no such move: the slot of its destination is invalid.
      have hunassigned : Unassigned word := .inr (.inr (.inr (.inr (.inl hbyte))))
      rw [if_pos hbyte.2, if_pos (hone.mpr hbyte.1), items?, if_neg (fun h => h.1 hunassigned)]
      show Slot.outline (ea word size "src" :: [.invalid _]) = none
      rw [Slot.outline_ea]
      exact ite_self none
    · rw [items?_of_move hrange hmove hbyte, addressSize_of_move hmove hsize,
        ← Slot.outline_pair size "src" "dst"]
      by_cases hregister : opmode word = 1
      · -- An address register is the destination that mode one names.
        rw [if_pos hregister, if_neg (fun h => hbyte ⟨hone.mp h, hregister⟩), hregister]
        rfl
      · rw [if_neg hregister]
        rfl
  | _ =>
    unfold IsMove at hmove
    simp only [groups, List.mem_singleton] at hgroup
    omega

/-- Group 5: quick arithmetic, conditions and loops. -/
theorem outline_quick (hfive : group word = 5) : Slot.outline form.slots = items? word := by
  have haccepts := accepts_of_first? hfirst
  have hgroup := group_mem_of_first? hfirst
  cases rule with
  | dbcc =>
    obtain rfl := Option.some.inj hform
    simp only [accepts, Bool.and_eq_true, decide_eq_true_eq] at haccepts
    exact (items?_of_plain hrange (plain_of_loop hfive haccepts.1 haccepts.2)).symm
  | scc =>
    obtain rfl := Option.some.inj hform
    have hcode := of_decide_eq_true haccepts
    have hloop := rejects_of_first? dbcc hfirst (by rw [hfive]; decide)
    simp only [accepts, Bool.and_eq_false_iff, decide_eq_false_iff_not] at hloop
    exact Slot.outline_of_addressed (addressed_of_condition hrange hfive hcode (by omega)) _ rfl
  | addSubQuick =>
    obtain ⟨size, hsize, rfl⟩ := Option.map_eq_some_iff.mp hform
    exact Slot.outline_of_addressed
      (addressed_of_size? hrange (by rw [hfive]; decide) hsize) _ rfl
  | _ =>
    rw [hfive] at hgroup
    exact absurd hgroup (by decide)

/-- Groups 8, 9 and 11 to 13: arithmetic and logic. -/
theorem outline_arithmetic (harithmetic : group word ∈ [8, 9, 11, 12, 13]) :
    Slot.outline form.slots = items? word := by
  have haccepts := accepts_of_first? hfirst
  have hgroup := group_mem_of_first? hfirst
  have hopmode := sizeCode_eq word
  have hsized : ∀ {size : Size}, size? word = some size → Addressed word [] size := fun hsize =>
    addressed_of_size? hrange (List.mem_cons_of_mem 5 harithmetic) hsize
  have hpair : mode word = 0 ∨ mode word = 1 → items? word = some [] := fun hmode =>
    items?_of_plain hrange (plain_of_registers harithmetic hmode)
  cases rule with
  | divu | divs | mulu | muls =>
    obtain rfl := Option.some.inj hform
    have hmode := of_decide_eq_true haccepts
    have height := List.mem_singleton.mp hgroup
    exact Slot.outline_of_addressed (addressed_of_word hrange (by omega) (by omega)) _ rfl
  | suba | cmpa | adda =>
    obtain rfl := Option.some.inj hform
    have hcode := of_decide_eq_true haccepts
    have hnine := List.mem_singleton.mp hgroup
    exact Slot.outline_of_addressed (addressed_of_addressReg hrange (by omega) hcode) _ rfl
  | or | sub | and | add =>
    obtain ⟨size, hsize, rfl⟩ := Option.map_eq_some_iff.mp hform
    split <;> exact Slot.outline_of_addressed (hsized hsize) _ rfl
  | cmp | eor =>
    obtain ⟨size, hsize, rfl⟩ := Option.map_eq_some_iff.mp hform
    exact Slot.outline_of_addressed (hsized hsize) _ rfl
  | sbcd | abcd =>
    obtain rfl := Option.some.inj hform
    simp only [accepts, isRegisterOrPredecrement, Bool.and_eq_true, Bool.or_eq_true,
      decide_eq_true_eq] at haccepts
    unfold registerPair
    split <;> exact (hpair haccepts.2).symm
  | subx | addx =>
    obtain ⟨size, hsize, rfl⟩ := Option.map_eq_some_iff.mp hform
    simp only [accepts, isRegisterOrPredecrement, Bool.and_eq_true, Bool.or_eq_true,
      decide_eq_true_eq] at haccepts
    unfold registerPair
    split <;> exact (hpair haccepts.2).symm
  | cmpm =>
    obtain ⟨size, hsize, rfl⟩ := Option.map_eq_some_iff.mp hform
    exact (hpair (.inr (of_decide_eq_true haccepts))).symm
  | exgData | exgAddress | exgMixed =>
    obtain rfl := Option.some.inj hform
    simp only [accepts, Bool.and_eq_true, decide_eq_true_eq] at haccepts
    exact (hpair (by omega)).symm
  | _ =>
    simp only [groups, List.mem_cons, List.not_mem_nil, or_false] at hgroup harithmetic
    omega

/-- Groups 6, 7 and 14: branches, quick moves and shifts. -/
theorem outline_others (hother : group word ∈ [6, 7, 14]) :
    Slot.outline form.slots = items? word := by
  have haccepts := accepts_of_first? hfirst
  have hgroup := group_mem_of_first? hfirst
  cases rule with
  | branch =>
    obtain rfl := Option.some.inj hform
    have hsix := List.mem_singleton.mp hgroup
    have hassigned : ¬ Unassigned word := by
      unfold Unassigned
      omega
    rw [items?_of_plain hrange (plain_of_no_address hassigned (.inl hsix))]
    unfold branchForm
    by_cases hlow : bits word 0 8 = 0
    · rw [if_pos hlow, if_pos ⟨hsix, hlow⟩]
      rfl
    · rw [if_neg hlow, if_neg (fun h => hlow h.2)]
      rfl
  | moveq =>
    obtain rfl := Option.some.inj hform
    have hseven := List.mem_singleton.mp hgroup
    have hbit8 := of_decide_eq_true haccepts
    have hassigned : ¬ Unassigned word := by
      unfold Unassigned
      omega
    rw [items?_of_plain hrange (plain_of_no_address hassigned (by omega)), if_neg (by omega)]
    rfl
  | shiftMemory =>
    obtain ⟨name, -, rfl⟩ := Option.map_eq_some_iff.mp hform
    have hlast := List.mem_singleton.mp hgroup
    simp only [accepts, Bool.and_eq_true, decide_eq_true_eq] at haccepts
    exact Slot.outline_of_addressed (addressed_of_shift hrange hlast haccepts.1 haccepts.2) _ rfl
  | shiftRegister =>
    obtain ⟨name, -, hsized⟩ := Option.bind_eq_some_iff.mp hform
    obtain ⟨size, hsize, hlast⟩ := Option.bind_eq_some_iff.mp hsized
    obtain rfl := Option.some.inj hlast
    have hlast := List.mem_singleton.mp hgroup
    have hcode := of_decide_eq_true haccepts
    have hassigned : ¬ Unassigned word := by
      unfold Unassigned
      omega
    have hitems := items?_of_plain hrange (plain_of_no_address hassigned (by omega))
    rw [if_neg (by omega)] at hitems
    rw [hitems]
    show Slot.outline [if _ then _ else _, _] = _
    split <;> rfl
  | _ =>
    simp only [groups, List.mem_cons, List.not_mem_nil, or_false] at hgroup hother
    omega

/-- **The rules conform to the encoding.** The slots of the form of a word need the items that
follow the word in the encoding, and one of them is invalid if the encoding has none. -/
theorem outline_slots : Slot.outline form.slots = items? word := by
  have hmem := mem_table_of_first? hfirst
  have hgroup := group_range word
  by_cases hzero : group word = 0
  · exact outline_immediates hrange hfirst hform hzero
  by_cases hmove : IsMove word
  · exact outline_moves hrange hfirst hform hmove
  by_cases hfour : group word = 4
  · exact outline_control hrange hfirst hform hfour
  by_cases hfive : group word = 5
  · exact outline_quick hrange hfirst hform hfive
  by_cases harithmetic : group word ∈ [8, 9, 11, 12, 13]
  · exact outline_arithmetic hrange hfirst hform harithmetic
  by_cases hother : group word ∈ [6, 7, 14]
  · exact outline_others hrange hfirst hform hother
  -- The tables of the two other groups are empty.
  unfold IsMove at hmove
  simp only [List.mem_cons, List.not_mem_nil, or_false] at harithmetic hother
  obtain h | h : group word = 10 ∨ group word = 15 := by omega
  all_goals
    rw [h] at hmem
    cases hmem

end Conformance

/-! ## Words without a rule -/

/-- The words of group 0 that no rule takes. -/
theorem unassigned_of_immediates (hgroup : group word = 0)
    (hrejects : ∀ rule ∈ table 0, rule.accepts word = false) : Unassigned word := by
  have hrx := rx_range word
  have hbit8 : bit8 word = 0 := by
    have hdynamic := hrejects bitDynamic (by decide)
    have hopmode := opmode_range word
    simp only [accepts, decide_eq_false_iff_not, bit8_eq] at hdynamic
    rw [bit8_eq]
    omega
  have hfour : rx word ≠ 4 := by
    have hstatic := hrejects bitStatic (by decide)
    simpa [accepts, hbit8] using hstatic
  refine .inr (.inr (.inr (.inl ⟨hgroup, hbit8, ?_⟩)))
  by_cases hseven : rx word = 7
  · exact .inl hseven
  · have hop : isImmediateOp (rx word) = true := by
      simp only [isImmediateOp, Bool.or_eq_true, decide_eq_true_eq]
      omega
    have himmediate := hrejects immediateOp (by decide)
    simp only [accepts, hbit8, hop, decide_true, Bool.and_true, Bool.true_and,
      decide_eq_false_iff_not] at himmediate
    have hcode : sizeCode word < 4 := bits_lt ..
    refine .inr ⟨?_, by omega⟩
    simp only [List.mem_cons, List.not_mem_nil, or_false]
    omega

/-- The words `4E40` to `4E7F` that no rule takes. -/
theorem unassigned_of_trap (hrange : 0 ≤ word ∧ word < 0x10000) (hgroup : group word = 4)
    (hrejects : ∀ rule ∈ [reset, nop, stop, rte, rts, trapv, rtr, trap, link, unlk, moveUsp],
      rule.accepts word = false)
    (hrx : rx word = 7) (hopmode : opmode word = 1) :
    word = 0x4E74 ∨ (0x4E78 ≤ word ∧ word ≤ 0x4E7F) := by
  have hword := word_eq hrange
  have hmode := mode_range word
  have hreg := reg_range word
  simp only [List.forall_mem_cons, accepts, decide_eq_false_iff_not] at hrejects
  obtain ⟨hreset, hnop, hstop, hrte, hrts, htrapv, hrtr, htrap, hlink, hunlk, husp, -⟩ := hrejects
  change word / 16 % 4096 ≠ _ at htrap husp
  change word / 8 % 8192 ≠ _ at hlink hunlk
  omega

/-- What the rules with an effective address leave of group 4. -/
theorem rx_of_control (hrange : 0 ≤ word ∧ word < 0x10000) (hgroup : group word = 4)
    (hrejects : ∀ rule ∈ table 4, rule.accepts word = false) (hopmode : opmode word ≤ 3) :
    6 ≤ rx word ∧ opmode word < 2 := by
  have hlow := opmode_range word
  have hrx := rx_range word
  -- One-operand instructions, and what a size field of three means for their operations.
  have hunary : rx word = 4 ∨ 6 ≤ rx word ∨ opmode word = 3 := by
    have h := hrejects unary (by decide)
    simp only [accepts, isUnaryOp, Bool.and_eq_false_iff, Bool.or_eq_false_iff,
      decide_eq_false_iff_not, sizeCode_eq, bit8_eq] at h
    omega
  have hstatus : opmode word = 3 → rx word = 4 ∨ 6 ≤ rx word := by
    intro hthree
    have h₀ := hrejects moveFromSr (by decide)
    have h₁ := hrejects moveFromCcr (by decide)
    have h₂ := hrejects moveToCcr (by decide)
    have h₃ := hrejects moveToSr (by decide)
    have h₅ := hrejects tas (by decide)
    simp [accepts, sizeCode_eq, hthree] at h₀ h₁ h₂ h₃ h₅
    omega
  have hbytes : rx word ≠ 4 ∨ 2 ≤ opmode word := by
    have hnbcd := hrejects nbcd (by decide)
    have hpea := hrejects pea (by decide)
    simp only [accepts, Bool.and_eq_false_iff, decide_eq_false_iff_not] at hnbcd hpea
    omega
  have hmovem : (rx word ≠ 4 ∧ rx word ≠ 6) ∨ opmode word < 2 := by
    have h := hrejects movem (by decide)
    simp only [accepts, Bool.and_eq_false_iff, Bool.or_eq_false_iff, decide_eq_false_iff_not] at h
    omega
  have hsubroutine : rx word ≠ 7 ∨ opmode word < 2 := by
    have hjsr := hrejects jsr (by decide)
    have hjmp := hrejects jmp (by decide)
    simp only [accepts, decide_eq_false_iff_not] at hjsr hjmp
    change word / 64 % 1024 ≠ _ at hjsr hjmp
    have hword := word_eq hrange
    have hmode := mode_range word
    have hreg := reg_range word
    omega
  omega

/-- The words of group 4 that no rule takes. -/
theorem unassigned_of_control (hrange : 0 ≤ word ∧ word < 0x10000) (hgroup : group word = 4)
    (hrejects : ∀ rule ∈ table 4, rule.accepts word = false) : Unassigned word := by
  have hopmode := opmode_range word
  have hlea := hrejects lea (by decide)
  have hchk := hrejects chk (by decide)
  simp only [accepts, decide_eq_false_iff_not] at hlea hchk
  have htraps := unassigned_of_trap hrange hgroup fun rule hmem =>
    hrejects rule (by revert rule; decide)
  refine .inr (.inr (.inr (.inr (.inr (.inl ⟨hgroup, ?_⟩)))))
  by_cases hhigh : opmode word ≤ 3
  · have hrest := rx_of_control hrange hgroup hrejects hhigh
    have hrx := rx_range word
    omega
  · omega

/-- **A word that no rule takes is unassigned.** -/
theorem unassigned_of_first? (hrange : 0 ≤ word ∧ word < 0x10000) (hnone : first? word = none) :
    Unassigned word := by
  have hrejects : ∀ rule ∈ table (group word), rule.accepts word = false := by
    intro rule hmem
    simpa using List.find?_eq_none.mp hnone rule hmem
  -- Many tables end with a rule that takes any word.
  have hlast : ∀ rule ∈ [move, addSubQuick, branch, or, sub, eor, and, add],
      rule ∉ table (group word) := by
    intro rule hrule hmem
    have haccepts : rule.accepts word = true := by
      simp only [List.mem_cons, List.not_mem_nil, or_false] at hrule
      rcases hrule with rfl | rfl | rfl | rfl | rfl | rfl | rfl | rfl <;> rfl
    rw [hrejects rule hmem] at haccepts
    cases haccepts
  have hgroup := group_range word
  have hopmode := opmode_range word
  have hcode := sizeCode_eq word
  have hbit8 := bit8_eq word
  obtain h | h | h | h | h | h | h | h | h : group word = 0 ∨ group word = 4 ∨ group word = 7 ∨
      group word = 14 ∨ group word = 10 ∨ group word = 15 ∨
      group word ∈ [1, 2, 3] ∨ group word ∈ [5, 6, 8, 9] ∨ group word ∈ [11, 12, 13] := by
    simp only [List.mem_cons, List.not_mem_nil, or_false]
    omega
  · rw [h] at hrejects
    exact unassigned_of_immediates h hrejects
  · rw [h] at hrejects
    exact unassigned_of_control hrange h hrejects
  · rw [h] at hrejects
    have hmoveq := hrejects moveq (by decide)
    simp only [accepts, decide_eq_false_iff_not] at hmoveq
    exact .inr (.inr (.inl ⟨h, by omega⟩))
  · rw [h] at hrejects
    have hmemory := hrejects shiftMemory (by decide)
    have hregister := hrejects shiftRegister (by decide)
    simp only [accepts, Bool.and_eq_false_iff, decide_eq_false_iff_not] at hmemory hregister
    exact .inr (.inr (.inr (.inr (.inr (.inr ⟨h, by omega, by omega⟩)))))
  · exact .inl h
  · exact .inr (.inl h)
  all_goals
    simp only [List.mem_cons, List.not_mem_nil, or_false] at h
    exfalso
    revert hlast
  · rcases h with h | h | h <;> rw [h] <;> decide
  · rcases h with h | h | h | h <;> rw [h] <;> decide
  · rcases h with h | h | h <;> rw [h] <;> decide

end Rule

end Disasm68k
