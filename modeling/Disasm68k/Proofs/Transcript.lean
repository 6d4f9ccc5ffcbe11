import Disasm68k.Proofs.Lines

/-!
# A listing and a loop over the pointer

A disassembler walks through its memory by itself: each decode leaves the pointer behind the
instruction, so that a client can decode again and again without an address. A listing of the whole
memory does the same, but keeps the address to itself and asks for every instruction by its
address. The two stay in step, whatever fails on the way, and a listing that goes on to the end of
the memory meets no instruction that passes its end.

- `Disassembler.turn`: one turn of the loop, with `Disassembler.turn_of_takes`: it finds what a
  step of the listing shows;
- `Disassembler.transcript`: the loop;
- `Walk.no_overrun_of_takes`: no instruction passes the end of the memory;
- `listing_eq_transcript`: the results together.
-/

namespace Disasm68k

/-! ## The loop -/

namespace Disassembler

variable {d after : Disassembler} {entry : Int × String}

/-- The text at the pointer, with its address, and the disassembler behind it. Where no instruction
is decoded, this is the word at the pointer, and the pointer is moved past it. -/
def turn (d : Disassembler) : Except Fault ((Int × String) × Disassembler) :=
  match d.decode none with
  | (.ok instruction, after) => .ok ((d.pointer, instruction.text), after)
  | (.error _, after) =>
    match after.memory.load .uint16 after.pointer with
    | .error fault => .error fault
    | .ok word =>
      .ok ((after.pointer, "DC.W $" ++ HexStyle.word.write word),
        { after with pointer := after.pointer + 2 })

theorem turn_of_ok {instruction : Instruction}
    (h : decodeAt d.memory d.pointer = .ok instruction) :
    d.turn = .ok ((d.pointer, instruction.text), ⟨d.memory, d.pointer + instruction.length⟩) := by
  have hdecode : d.decode none = (.ok instruction, ⟨d.memory, d.pointer + instruction.length⟩) :=
    decode_of_ok h
  rw [turn, hdecode]

theorem turn_of_error {fault : Fault} (h : decodeAt d.memory d.pointer = .error fault) :
    d.turn = (d.memory.load .uint16 d.pointer).map fun word =>
      ((d.pointer, "DC.W $" ++ HexStyle.word.write word), ⟨d.memory, d.pointer + 2⟩) := by
  have hdecode : d.decode none = (.error fault, ⟨d.memory, d.pointer⟩) := decode_of_error h
  rw [turn, hdecode]
  show (match d.memory.load .uint16 d.pointer with | .error fault => _ | .ok word => _) = _
  cases d.memory.load .uint16 d.pointer <;> rfl

/-- Every turn moves the pointer at least a word forward. -/
theorem turn_progress (h : d.turn = .ok (entry, after)) :
    after.memory = d.memory ∧ d.pointer + 2 ≤ after.pointer := by
  cases hat : decodeAt d.memory d.pointer with
  | ok instruction =>
    have htwo := two_le_length_of_decodeAt hat
    rw [turn_of_ok hat] at h
    cases h
    exact ⟨rfl, Int.add_le_add_left htwo d.pointer⟩
  | error fault =>
    rw [turn_of_error hat] at h
    cases hload : d.memory.load .uint16 d.pointer with
    | error other =>
      rw [hload] at h
      cases h
    | ok word =>
      rw [hload] at h
      cases h
      exact ⟨rfl, Int.le_refl _⟩

/-- The addresses and texts from the pointer to the end of the memory: turn by turn, as long as
two bytes are left at the pointer. -/
def transcript (d : Disassembler) : Except Fault (List (Int × String)) :=
  if d.memory.limit < d.pointer + 2 then .ok []
  else
    match h : d.turn with
    | .error fault => .error fault
    | .ok (entry, after) =>
      have := turn_progress h
      match after.transcript with
      | .error fault => .error fault
      | .ok entries => .ok (entry :: entries)
termination_by (d.memory.limit - d.pointer).toNat
decreasing_by
  rw [this.1]
  omega

theorem transcript_of_limit_lt (h : d.memory.limit < d.pointer + 2) : d.transcript = .ok [] := by
  unfold transcript
  rw [if_pos h]

theorem transcript_of_turn {entries : List (Int × String)} (hroom : d.pointer + 2 ≤ d.memory.limit)
    (hturn : d.turn = .ok (entry, after)) (hrest : after.transcript = .ok entries) :
    d.transcript = .ok (entry :: entries) := by
  unfold transcript
  rw [if_neg (Int.not_lt.mpr hroom)]
  split
  · next h => simp [hturn] at h
  · next found later h =>
    obtain ⟨rfl, rfl⟩ : entry = found ∧ after = later := by simpa [hturn] using h
    simp only [hrest]

end Disassembler

/-! ## Both in step -/

variable {memory : Memory} {walk : Walk}

/-- **No instruction passes the end of the memory.** In a listing that goes on to there, no line
is data because of an overrun, and none is logged. -/
theorem Walk.no_overrun_of_takes {next : WalkStep} (h : walk.Takes memory next)
    (hlimit : walk.limit = memory.limit) :
    (∀ text address limit, next.line.fault ≠ some (.pastRange text address limit)) ∧
      ∀ address fault, .overrun address fault ∉ next.log := by
  cases h with
  | shown decoded fits read => exact ⟨by rintro _ _ _ ⟨⟩, by simp [showing]⟩
  | overrun decoded passes read =>
    have hinside := (spans_of_decodeAt decoded).inside.2
    omega
  | undecodable failed read =>
    refine ⟨?_, by simp [showing]⟩
    rintro text address limit ⟨⟩
    exact ofDecoding_of_decodeAt failed

/-- A turn of the loop finds what a step of the listing shows, and goes to the same place. -/
theorem Disassembler.turn_of_takes {next : WalkStep} (h : walk.Takes memory next)
    (hlimit : walk.limit = memory.limit) :
    turn ⟨memory, walk.address⟩ =
      .ok ((next.line.address, next.line.text), ⟨memory, next.rest.address⟩) := by
  cases h with
  | @shown instruction words decoded fits read =>
    have hturn : turn ⟨memory, walk.address⟩ =
        .ok ((walk.address, instruction.text), ⟨memory, walk.address + instruction.length⟩) :=
      turn_of_ok decoded
    rw [hturn, ← Walk.length_ofInstruction decoded read]
    rfl
  | overrun decoded passes read =>
    have hinside := (spans_of_decodeAt decoded).inside.2
    omega
  | @undecodable fault word failed read =>
    have hturn : turn ⟨memory, walk.address⟩ = (memory.load .uint16 walk.address).map fun word =>
        ((walk.address, "DC.W $" ++ HexStyle.word.write word), ⟨memory, walk.address + 2⟩) :=
      turn_of_error failed
    rw [hturn, read]
    rfl

/-- The loop gives the addresses and texts of a listing that goes on to the end of the memory. -/
theorem Disassembler.transcript_of_runs {steps : List WalkStep} (h : walk.Runs memory steps)
    (hlimit : walk.limit = memory.limit) (hleft : walk.left = none) :
    transcript ⟨memory, walk.address⟩ =
      .ok (steps.map fun step => (step.line.address, step.line.text)) := by
  induction h with
  | @done walk finished =>
    refine transcript_of_limit_lt ?_
    show memory.limit < walk.address + 2
    rw [← hlimit]
    exact Walk.limit_lt_of_isDone finished hleft
  | @step walk next steps unfinished takes rest ih =>
    have hroom := (Walk.isDone_eq_false_iff_of_uncounted hleft).mp unfinished
    have hrest : next.rest.limit = memory.limit ∧ next.rest.left = none := by
      rw [Walk.rest_of_takes takes, Walk.advance_of_uncounted hleft]
      exact ⟨hlimit, hleft⟩
    exact transcript_of_turn (hlimit ▸ hroom) (turn_of_takes takes hlimit) (ih hrest.1 hrest.2)

/-- **A listing of the whole memory is what the pointer runs through.** A fresh disassembler that
decodes again and again without an address, and shows the word at the pointer as data and moves
past it where this fails, finds the addresses and texts of the listing line by line, until less
than two bytes are left. No line of the listing is data because its instruction passes the end. -/
theorem listing_eq_transcript (memory : Memory) :
    ∃ steps, listing memory ⟨none, none, none⟩ = .ok steps ∧
      (Disassembler.ofMemory memory).transcript =
        .ok (steps.map fun step => (step.line.address, step.line.text)) ∧
      ∀ step ∈ steps,
        (∀ text address limit, step.line.fault ≠ some (.pastRange text address limit)) ∧
          ∀ address fault, .overrun address fault ∉ step.log := by
  obtain ⟨steps, hrun, hruns⟩ := Walk.exists_runs (Walk.inside_ofRange memory ⟨none, none, none⟩)
  refine ⟨steps, hrun, Disassembler.transcript_of_runs hruns rfl rfl, ?_⟩
  intro step hstep
  obtain ⟨place, hlimit, htakes⟩ := Walk.exists_takes_of_mem hruns hstep
  exact Walk.no_overrun_of_takes htakes hlimit

/-- An instruction, an unknown word, a branch that is cut off by the end of the memory, and an
odd byte. -/
theorem listing_eq_transcript_of_cut_branch :
    let memory : Memory := ⟨#[0x4E, 0x71, 0xFF, 0xFF, 0x60, 0x00, 0x12], 0x100, .big⟩
    (Disassembler.ofMemory memory).transcript =
        .ok [(0x100, "NOP"), (0x102, "DC.W $FFFF"), (0x104, "DC.W $6000")] ∧
      ∃ steps step, listing memory ⟨none, none, none⟩ = .ok steps ∧ step ∈ steps ∧
        step.line.address = 0x104 ∧ ∀ address fault, .overrun address fault ∉ step.log := by
  intro memory
  have hshown : (listing memory ⟨none, none, none⟩).map
      (List.map fun step => (step.line.address, step.line.text)) =
      .ok [(0x100, "NOP"), (0x102, "DC.W $FFFF"), (0x104, "DC.W $6000")] :=
    listing_of_runWithin 3 (by decide +kernel)
  obtain ⟨steps, hlisting, htranscript, hfits⟩ := listing_eq_transcript memory
  rw [hlisting] at hshown
  have hsteps : steps.map (fun step => (step.line.address, step.line.text)) = _ :=
    Except.ok.inj hshown
  rw [hsteps] at htranscript
  obtain ⟨step, hstep, hbranch⟩ : ∃ step ∈ steps,
      (step.line.address, step.line.text) = (0x104, "DC.W $6000") := by
    rw [← List.mem_map, hsteps]
    simp
  exact ⟨htranscript, steps, step, hlisting, hstep, congrArg Prod.fst hbranch, (hfits step hstep).2⟩

end Disasm68k
