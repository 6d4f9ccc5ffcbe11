import Disasm68k.Proofs.Coverage
import Disasm68k.Proofs.Failure
import Disasm68k.Proofs.Hexadecimal

/-!
# What each line of a listing stands for

What a line shows is decided by a decode at its address: an instruction that ends inside the range
is shown, and everything else is shown as one word of data with the reason. The three outcomes
differ in text, fault, log and in where they leave the pointer of the disassembler.

- `WalkStep.ShowsInstruction`: the step shows an instruction;
- `WalkStep.ShowsFailure`: the step shows a word because nothing was decoded;
- `WalkStep.ShowsOverrun`: the step shows a word because the instruction passes the range;
- `Walk.accounts_of_takes`: each step of a walk is accounted for by a decode;
- `listing_accounts_for_lines`: the same for whole listings.
-/

namespace Disasm68k

/-! ## The three kinds of steps -/

namespace WalkStep

/-- The step shows the instruction, logs it, and leaves the pointer behind the line. -/
structure ShowsInstruction (step : WalkStep) (instruction : Instruction) : Prop where
  instruction_eq : step.line.instruction = some instruction
  text_eq : step.line.text = instruction.text
  length_eq : (step.line.length : Int) = instruction.length
  fault_eq : step.line.fault = none
  log_eq : step.log = [.decoded instruction]
  levels_eq : step.log.map LogRecord.level = [.debug]
  pointer_eq : step.pointer = step.line.address + step.line.length

/-- The step shows the word at its address as data, in four digits, because of the fault. -/
structure ShowsData (memory : Memory) (step : WalkStep) (fault : Fault) : Prop where
  isData_eq : step.line.isData = true
  fault_eq : step.line.fault = some fault
  word : ∃ word digits, memory.load .uint16 step.line.address = .ok word ∧
    step.line.words = [word] ∧ HexStyle.FourDigits word digits ∧
    step.line.text = "DC.W $" ++ String.ofList digits

/-- The step shows a word because nothing can be decoded there. It carries the fault of the decode,
warns of it and leaves the pointer at the word. -/
structure ShowsFailure (memory : Memory) (step : WalkStep) (fault : Fault) : Prop extends
    step.ShowsData memory fault where
  log_eq : step.log = [.undecodable step.line.address fault]
  levels_eq : step.log.map LogRecord.level = [.warning]
  pointer_eq : step.pointer = step.line.address

/-- The fault of a line whose instruction passes the end of the range. -/
def overrunFault (step : WalkStep) (limit : Int) (instruction : Instruction) : Fault :=
  .pastRange instruction.text step.line.address limit

/-- The step shows a word because the instruction there ends behind the range. It logs the
instruction, then warns, and leaves the pointer at the end of the instruction. -/
structure ShowsOverrun (memory : Memory) (limit : Int) (step : WalkStep)
    (instruction : Instruction) : Prop extends
    step.ShowsData memory (step.overrunFault limit instruction) where
  kind_eq : step.line.fault.map Fault.kind = some .bufferTooShort
  log_eq : step.log = [.decoded instruction,
    .overrun step.line.address (step.overrunFault limit instruction)]
  levels_eq : step.log.map LogRecord.level = [.debug, .warning]
  pointer_eq : step.pointer = instruction.stop
  limit_lt : limit < step.pointer

/-- The step is what a decode at its address calls for in a listing up to `limit`. -/
def AccountsFor (d : Disassembler) (limit : Int) (step : WalkStep) : Prop :=
  match (d.decode (some step.line.address)).1 with
  | .ok instruction =>
    if instruction.stop ≤ limit then step.ShowsInstruction instruction
    else step.ShowsOverrun d.memory limit instruction
  | .error fault => step.ShowsFailure d.memory fault

namespace AccountsFor

variable {d : Disassembler} {limit : Int} {step : WalkStep} {instruction : Instruction}
  {fault : Fault}

theorem showsInstruction (h : step.AccountsFor d limit)
    (hdecode : (d.decode (some step.line.address)).1 = .ok instruction)
    (hfits : instruction.stop ≤ limit) : step.ShowsInstruction instruction := by
  rw [AccountsFor, hdecode] at h
  exact (if_pos hfits).mp h

theorem showsOverrun (h : step.AccountsFor d limit)
    (hdecode : (d.decode (some step.line.address)).1 = .ok instruction)
    (hpasses : limit < instruction.stop) : step.ShowsOverrun d.memory limit instruction := by
  rw [AccountsFor, hdecode] at h
  exact (if_neg (Int.not_le.mpr hpasses)).mp h

theorem showsFailure (h : step.AccountsFor d limit)
    (hdecode : (d.decode (some step.line.address)).1 = .error fault) :
    step.ShowsFailure d.memory fault := by
  rw [AccountsFor, hdecode] at h
  exact h

/-- The step shows an instruction exactly if it is decoded and fits. -/
theorem instruction_eq_iff (h : step.AccountsFor d limit) :
    step.line.instruction = some instruction ↔
      (d.decode (some step.line.address)).1 = .ok instruction ∧ instruction.stop ≤ limit := by
  constructor
  · intro hshown
    have hnotData : step.line.isData ≠ true := by
      rw [Line.isData, hshown]
      exact Bool.noConfusion
    cases hdecode : (d.decode (some step.line.address)).1 with
    | error fault => exact absurd (h.showsFailure hdecode).isData_eq hnotData
    | ok found =>
      by_cases hfits : found.stop ≤ limit
      · have hfound := (h.showsInstruction hdecode hfits).instruction_eq
        cases hfound.symm.trans hshown
        exact ⟨rfl, hfits⟩
      · exact absurd (h.showsOverrun hdecode (Int.not_le.mp hfits)).isData_eq hnotData
  · rintro ⟨hdecode, hfits⟩
    exact (h.showsInstruction hdecode hfits).instruction_eq

end AccountsFor

end WalkStep

/-! ## Steps of a walk -/

namespace Walk

variable {memory : Memory} {walk : Walk} {next : WalkStep}

theorem showsData_ofData {word : Int} {fault : Fault} {pointer : Int} {log : List LogRecord}
    (hload : memory.load .uint16 walk.address = .ok word) :
    (walk.showing (.ofData walk.address word fault) pointer log).ShowsData memory fault := by
  obtain ⟨hnonneg, hlt⟩ := Memory.range_of_load_uint16 hload
  refine ⟨rfl, rfl, word, (HexStyle.word.write word).toList, hload, rfl,
    HexStyle.fourDigits_write hnonneg hlt, ?_⟩
  rw [String.ofList_toList]
  rfl

/-- **Each step is what a decode at its address calls for**, by whichever disassembler of the
memory. -/
theorem accounts_of_takes (h : walk.Takes memory next) (d : Disassembler)
    (hmemory : d.memory = memory) : next.AccountsFor d walk.limit := by
  subst hmemory
  have hdecode := d.decode_fst (some walk.address)
  unfold WalkStep.AccountsFor
  rw [address_of_takes h, hdecode]
  show match decodeAt d.memory walk.address with | .ok instruction => _ | .error fault => _
  cases h with
  | @shown instruction words decoded fits read =>
    have hlength : ((2 * words.length : Nat) : Int) = instruction.length := by
      have hspans := spans_of_decodeAt decoded
      have heven := hspans.even
      have htwo := hspans.two_le
      have hwords := length_wordsAt read
      omega
    have hstop : instruction.stop ≤ walk.limit := by
      rw [Instruction.stop, (spans_of_decodeAt decoded).address_eq]
      exact fits
    rw [decoded]
    show if instruction.stop ≤ walk.limit then _ else _
    rw [if_pos hstop]
    exact ⟨rfl, rfl, hlength, rfl, rfl, rfl, (congrArg (walk.address + ·) hlength).symm⟩
  | @overrun instruction word decoded passes read =>
    have hstop : instruction.stop = walk.address + instruction.length := by
      rw [Instruction.stop, (spans_of_decodeAt decoded).address_eq]
    rw [decoded]
    show if instruction.stop ≤ walk.limit then _ else _
    rw [if_neg (by omega)]
    exact ⟨showsData_ofData read, rfl, rfl, rfl, hstop.symm, passes⟩
  | undecodable failed read =>
    rw [failed]
    exact ⟨showsData_ofData read, rfl, rfl, rfl⟩

end Walk

/-! ## Whole listings -/

/-- Only a range with an end inside the memory can cut an instruction off. -/
theorem Range.exists_stop_of_overrun {memory : Memory} {range : Range} {address : Int}
    {instruction : Instruction} (h : decodeAt memory address = .ok instruction)
    (hpasses : range.limit memory < instruction.stop) :
    ∃ stop, range.stop = some stop ∧ stop < memory.limit := by
  have hspans := spans_of_decodeAt h
  have hinside := hspans.inside.2
  rw [Instruction.stop, hspans.address_eq] at hpasses
  unfold Range.limit at hpasses
  cases hstop : range.stop with
  | none =>
    rw [hstop] at hpasses
    change memory.limit < _ at hpasses
    omega
  | some stop =>
    rw [hstop] at hpasses
    change min stop memory.limit < _ at hpasses
    exact ⟨stop, rfl, by omega⟩

/-- **Each line is what a decode at its address calls for.** A listing of any range comes to its
end, and every line of it stands for the outcome of a decode at its address. If an instruction is
decoded that ends inside the range, then, and only then, it is the instruction of the line: the line
has its text and its length and no fault, there is one record in the log, and the pointer is left at
the end. Otherwise the line shows the word at its address as data, in four digits. If the decode
failed, the line carries its fault, there is a warning, and the pointer is left at the address. If
the instruction passes the end of the range, the line carries a fault that names it, the instruction
is logged before a warning, and the pointer is left at its end; this takes a range that ends before
the memory does. -/
theorem listing_accounts_for_lines (d : Disassembler) (range : Range) :
    ∃ steps, listing d.memory range = .ok steps ∧ ∀ step ∈ steps,
      step.AccountsFor d (range.limit d.memory) ∧
        (∀ instruction, step.line.instruction = some instruction ↔
          (d.decode (some step.line.address)).1 = .ok instruction ∧
            instruction.stop ≤ range.limit d.memory) ∧
        (∀ instruction, (d.decode (some step.line.address)).1 = .ok instruction →
          range.limit d.memory < instruction.stop →
          ∃ stop, range.stop = some stop ∧ stop < d.memory.limit) := by
  obtain ⟨steps, hrun, hruns⟩ := Walk.exists_runs (Walk.inside_ofRange d.memory range)
  refine ⟨steps, hrun, ?_⟩
  intro step hstep
  obtain ⟨place, hlimit, htakes⟩ := Walk.exists_takes_of_mem hruns hstep
  have haccounts := Walk.accounts_of_takes htakes d rfl
  rw [hlimit, Range.limit_ofRange] at haccounts
  refine ⟨haccounts, fun _ => haccounts.instruction_eq_iff, ?_⟩
  intro instruction hdecode hpasses
  rw [d.decode_fst] at hdecode
  exact Range.exists_stop_of_overrun hdecode hpasses

/-- An instruction, an unknown word, and a branch that passes the end of the range. -/
theorem listing_accounts_for_lines_of_each_kind :
    let memory : Memory := ⟨#[0x4E, 0x71, 0xFF, 0xFF, 0x60, 0x00, 0x00, 0x02], 0x100, .big⟩
    let branch : Instruction :=
      ⟨0x104, 0x6000, "BRA", none, [.branchDisp 2], 4, [Field.branchDisp.entry "disp" 2]⟩
    ∃ steps, listing memory ⟨none, some 0x106, none⟩ = .ok steps ∧
      (∃ step ∈ steps, step.ShowsInstruction ⟨0x100, 0x4E71, "NOP", none, [], 2, []⟩) ∧
      (∃ step ∈ steps, step.ShowsFailure memory (.unknownInstruction 0xFFFF 0x102)) ∧
      ∃ step ∈ steps, step.ShowsOverrun memory 0x106 branch := by
  intro memory branch
  have hshown : (listing memory ⟨none, some 0x106, none⟩).map
      (List.map fun step => step.line.address) = .ok [0x100, 0x102, 0x104] :=
    listing_of_runWithin 3 (by decide +kernel)
  obtain ⟨steps, hlisting, hall⟩ :=
    listing_accounts_for_lines ⟨memory, 7⟩ ⟨none, some 0x106, none⟩
  rw [hlisting] at hshown
  have haddresses : steps.map (fun step => step.line.address) = _ := Except.ok.inj hshown
  have hmem : ∀ address ∈ [0x100, 0x102, 0x104], ∃ step ∈ steps, step.line.address = address := by
    intro address haddress
    rw [← haddresses] at haddress
    exact List.mem_map.mp haddress
  refine ⟨steps, hlisting, ?_, ?_, ?_⟩
  · obtain ⟨step, hstep, haddress⟩ := hmem 0x100 (by simp)
    refine ⟨step, hstep, (hall step hstep).1.showsInstruction ?_ (by decide)⟩
    rw [haddress]
    unfold memory
    decide +kernel
  · obtain ⟨step, hstep, haddress⟩ := hmem 0x102 (by simp)
    refine ⟨step, hstep, (hall step hstep).1.showsFailure ?_⟩
    rw [haddress]
    unfold memory
    decide +kernel
  · obtain ⟨step, hstep, haddress⟩ := hmem 0x104 (by simp)
    refine ⟨step, hstep, (hall step hstep).1.showsOverrun ?_ (by decide)⟩
    rw [haddress]
    unfold memory branch
    decide +kernel

end Disasm68k
