import Disasm68k.Proofs.Catalogue
import Disasm68k.Proofs.Decimal
import Disasm68k.Proofs.Reading

/-!
# Why decoding fails

Decoding fails for five reasons only. The remaining faults belong to clients that ask a
cursor for operands directly, to listings, or to tables with holes, and none of them comes
up when an instruction is decoded. The numbers in the messages are fields of the word and sizes of
reads, so that the messages can be written.

- `Fault.OfDecoding`: the five reasons;
- `Fetch.FaultsIn`: a step fails with faults of a kind only, a property that passes from
  steps to their sequence;
- `Fetch.faultsIn_decodeNext`: the faults of decoding, at any cursor;
- `Fetch.worded_eq_self`: wording the faults of such steps changes nothing.
-/

namespace Disasm68k

/-- The fault is one of those that decoding an instruction can have. -/
def Fault.OfDecoding : Fault → Prop
  | unknownInstruction _ _ => True
  | byteAddressMove _ => True
  | unsupportedMode mode register => (0 ≤ mode ∧ mode < 8) ∧ 0 ≤ register ∧ register < 8
  | highByteSet _ => True
  | outsideMemory count _ _ _ => count ≤ 4
  | unsupportedImmediateSize _ => False
  | missingOperandSize => False
  | pastRange _ _ _ => False
  | undefinedForm _ => False
  | unwritable => False

theorem Fault.isRecoverable_of_ofDecoding {fault : Fault} (h : fault.OfDecoding) :
    fault.isRecoverable = true := by
  cases fault <;> first | rfl | cases h

/-- A message whose numbers have few enough digits is written. -/
theorem Fault.worded_eq_self {fault : Fault} (h : ∀ n ∈ fault.decimals, ¬ Numeral.TooLong n) :
    fault.worded = fault := by
  rw [worded, Numeral.writing_eq_some_iff.mpr ⟨h, rfl⟩]
  rfl

/-- One number of too many digits is enough to prevent the message. -/
theorem Fault.worded_eq_unwritable {fault : Fault} {n : Int} (hmem : n ∈ fault.decimals)
    (hlong : Numeral.TooLong n) : fault.worded = unwritable := by
  rw [worded, Numeral.writing_eq_none_iff.mpr ⟨n, hmem, hlong⟩]
  rfl

theorem Fault.worded_eq_self_or_unwritable (fault : Fault) :
    fault.worded = fault ∨ fault.worded = unwritable := by
  by_cases h : ∃ n ∈ fault.decimals, Numeral.TooLong n
  · obtain ⟨n, hmem, hlong⟩ := h
    exact .inr (worded_eq_unwritable hmem hlong)
  · exact .inl (worded_eq_self fun n hmem hlong => h ⟨n, hmem, hlong⟩)

/-- The messages of the faults of decoding can be written. -/
theorem Fault.worded_of_ofDecoding {fault : Fault} (h : fault.OfDecoding) :
    fault.worded = fault := by
  refine worded_eq_self ?_
  intro n hmem
  apply Numeral.not_tooLong_of_natAbs_lt
  cases fault with
  | unsupportedMode mode register =>
    obtain ⟨hmode, hregister⟩ := h
    rcases List.mem_cons.mp hmem with rfl | hmem
    · omega
    · obtain rfl := List.mem_singleton.mp hmem
      omega
  | outsideMemory count address base limit =>
    have hcount : count ≤ 4 := h
    obtain rfl := List.mem_singleton.mp hmem
    omega
  | unsupportedImmediateSize code => cases h
  | _ => cases hmem

/-! ## Steps and their faults -/

theorem Size.byteCount_le_four (size : Size) : size.byteCount ≤ 4 := by
  cases size <;> decide

namespace Fetch

variable {α β : Type} {P : Fault → Prop}

/-- The step fails only with faults that satisfy `P`. -/
def FaultsIn (P : Fault → Prop) (step : Fetch α) : Prop :=
  ∀ cursor fault, (step cursor).1 = .error fault → P fault

theorem faultsIn_pure (a : α) : FaultsIn P (pure a : Fetch α) := by
  rintro cursor fault ⟨⟩

theorem faultsIn_here : FaultsIn P here := by
  rintro cursor fault ⟨⟩

theorem faultsIn_record (key kind : String) (start : Option Int)
    (details : List (String × Layout.Detail)) : FaultsIn P (record key kind start details) := by
  rintro cursor fault ⟨⟩

theorem faultsIn_fail {fault : Fault} (h : P fault) : FaultsIn P (fail fault : Fetch α) := by
  rintro cursor other hfail
  cases hfail
  exact h

theorem faultsIn_ofExcept {outcome : Except Fault α}
    (h : ∀ fault, outcome = .error fault → P fault) : FaultsIn P (ofExcept outcome) :=
  fun _ => h

theorem faultsIn_bind {first : Fetch α} {next : α → Fetch β}
    (hfirst : FaultsIn P first) (hnext : ∀ a, FaultsIn P (next a)) :
    FaultsIn P (first >>= next) := by
  intro cursor fault h
  change (Fetch.bind first next cursor).1 = .error fault at h
  unfold Fetch.bind at h
  cases hrun : first cursor with
  | mk outcome middle =>
    cases outcome with
    | ok a =>
      rw [hrun] at h
      exact hnext a middle fault h
    | error other =>
      rw [hrun] at h
      cases h
      exact hfirst cursor fault (by rw [hrun])

theorem faultsIn_read (access : Access) : FaultsIn Fault.OfDecoding (read access) := by
  intro cursor fault h
  unfold read Memory.load at h
  cases hslice : cursor.memory.slice? cursor.position access.byteCount with
  | some bytes => simp [hslice] at h
  | none =>
    obtain rfl : cursor.memory.accessFault access cursor.position = fault := by
      simpa [hslice] using h
    exact access.size.byteCount_le_four

/-- Wording its faults does not change a step that has only faults of decoding. -/
theorem worded_eq_self {step : Fetch α} (h : FaultsIn Fault.OfDecoding step) :
    step.worded = step := by
  funext cursor
  unfold worded
  cases hrun : step cursor with
  | mk outcome after =>
    cases outcome with
    | ok a => rfl
    | error fault =>
      have hfault : fault.OfDecoding := h cursor fault (by rw [hrun])
      show (Except.error fault.worded, after) = _
      rw [Fault.worded_of_ofDecoding hfault]

end Fetch

/-! ## Fields and slots -/

/-- A number read from a field is refused only for the high byte of a byte. -/
theorem Field.eq_highByteSet_of_operand {field : Field} {raw : Int} {fault : Fault}
    (h : field.operand raw = .error fault) : fault = .highByteSet raw := by
  cases field with
  | immediate size =>
    cases size with
    | byte =>
      simp only [operand, immediateValue] at h
      split at h
      · cases h
      · next other hother =>
        cases h
        split at hother
        · cases hother
        · cases hother
          rfl
    | _ => cases h
  | _ => cases h

theorem Field.ofDecoding_of_operand {field : Field} {raw : Int} {fault : Fault}
    (h : field.operand raw = .error fault) : fault.OfDecoding := by
  rw [eq_highByteSet_of_operand h]
  trivial

theorem Field.faultsIn_fetch (field : Field) (key : String) :
    Fetch.FaultsIn Fault.OfDecoding (field.fetch key) :=
  Fetch.faultsIn_bind Fetch.faultsIn_here fun _ =>
    Fetch.faultsIn_bind (Fetch.faultsIn_read _) fun _ =>
      Fetch.faultsIn_bind (Fetch.faultsIn_ofExcept fun _ => ofDecoding_of_operand) fun _ =>
        Fetch.faultsIn_bind (Fetch.faultsIn_record _ _ _ _) fun _ => Fetch.faultsIn_pure _

namespace Slot

/-- An effective address is refused only for its mode. -/
theorem eq_unsupportedMode_of_ofMode {mode reg : Int} {size : Size} {key : String} {fault : Fault}
    (h : ofMode mode reg (some size.code) key = .invalid fault) :
    fault = .unsupportedMode mode reg := by
  have hslot := ofAddress_ofMode mode reg size key
  rw [h] at hslot
  cases hslot
  rfl

theorem ofDecoding_of_occurs {word : Int} {fault : Fault} (h : Occurs word (.invalid fault)) :
    fault.OfDecoding := by
  generalize hslot : Slot.invalid fault = slot at h
  cases h with
  | address size key =>
    rw [eq_unsupportedMode_of_ofMode hslot.symm]
    exact ⟨Opcode.mode_range word, Opcode.reg_range word⟩
  | destination size =>
    rw [eq_unsupportedMode_of_ofMode hslot.symm]
    exact ⟨Opcode.opmode_range word, Opcode.rx_range word⟩
  | refused =>
    cases hslot
    trivial
  | _ => cases hslot

theorem faultsIn_fetch {word : Int} {slot : Slot} (h : Occurs word slot) :
    Fetch.FaultsIn Fault.OfDecoding slot.fetch := by
  cases slot with
  | fixed operand => exact Fetch.faultsIn_pure _
  | invalid fault => exact Fetch.faultsIn_fail (ofDecoding_of_occurs h)
  | extension key field => exact field.faultsIn_fetch key

theorem faultsIn_fetchAll {word : Int} {slots : List Slot}
    (h : ∀ slot ∈ slots, Occurs word slot) : Fetch.FaultsIn Fault.OfDecoding (fetchAll slots) := by
  induction slots with
  | nil => exact Fetch.faultsIn_pure _
  | cons slot slots ih =>
    rw [List.forall_mem_cons] at h
    exact Fetch.faultsIn_bind (faultsIn_fetch h.1) fun _ =>
      Fetch.faultsIn_bind (ih h.2) fun _ => Fetch.faultsIn_pure _

end Slot

/-! ## Instructions -/

namespace Fetch

theorem faultsIn_decodeWord (word : Int) : FaultsIn Fault.OfDecoding (decodeWord word) := by
  intro cursor fault h
  change (Fetch.bind (ofExcept (Opcode.form word cursor.pc)) _ cursor).1 = _ at h
  cases hform : Opcode.form word cursor.pc with
  | error other =>
    obtain ⟨-, rfl⟩ := Rule.form_eq_error hform
    rw [hform] at h
    cases h
    trivial
  | ok form =>
    have hslots := Slot.occurs_of_planned (Opcode.planned_slots_of_form hform)
    rw [hform] at h
    exact faultsIn_bind (Slot.faultsIn_fetchAll hslots)
      (fun _ => faultsIn_bind faultsIn_here fun _ => faultsIn_pure _) cursor fault h

theorem faultsIn_decodeNext : FaultsIn Fault.OfDecoding decodeNext :=
  faultsIn_bind (faultsIn_read _) faultsIn_decodeWord

/-- **The messages of decoding can be written.** No number in them has too many digits, whatever
integer stands for the word. -/
theorem worded_decodeWord (word : Int) : (decodeWord word).worded = decodeWord word :=
  worded_eq_self (faultsIn_decodeWord word)

end Fetch

theorem ofDecoding_of_decodeAt {memory : Memory} {address : Int} {fault : Fault}
    (h : decodeAt memory address = .error fault) : fault.OfDecoding :=
  Fetch.faultsIn_decodeNext _ fault h

end Disasm68k
