import Disasm68k.Listing
import Disasm68k.Proofs.Faults
import Disasm68k.Proofs.Load
import Disasm68k.Proofs.Tiling

/-!
# The steps of a listing

Within the memory a listing always has a next line until its range is used up, and the line
is of one of three kinds: an instruction, an instruction that does not fit into the range
and is shown as data, or a word at which no instruction can be decoded.

- `Walk.Inside`: the range of the walk lies in memory, the invariant of listings;
- `Walk.Takes`: what a step from a place can give, by cases;
- `Walk.exists_takes`: a walk that is inside and not done takes a step;
- `Walk.inside_of_takes`: the step leaves it inside;
- `Walk.Runs`: the steps up to the end of the range, with `Walk.exists_runs`: every listing
  of memory comes to its end;
- `Walk.runWithin`, `listing_of_runWithin`: how a listing of a few lines is evaluated.
-/

namespace Disasm68k

/-! ## Words -/

section Words

variable {memory : Memory} {address word : Int} {count : Nat} {words : List Int}

/-- Words can be read wherever the memory holds them. -/
theorem exists_wordsAt (h : memory.Holds address (2 * count)) :
    ∃ words, wordsAt memory address count = .ok words := by
  induction count generalizing address with
  | zero => exact ⟨[], rfl⟩
  | succ count ih =>
    obtain ⟨hbase, hlimit⟩ := h
    have hfirst : memory.Holds address 2 := ⟨hbase, by omega⟩
    have hrest : memory.Holds (address + 2) (2 * count) := ⟨by omega, by omega⟩
    obtain ⟨word, hword⟩ : ∃ word, memory.load .uint16 address = .ok word :=
      Memory.exists_load_iff.mpr hfirst
    obtain ⟨words, hwords⟩ := ih hrest
    refine ⟨word :: words, ?_⟩
    simp only [wordsAt, hword, hwords]

/-- The words read are those of the memory, two bytes apart. -/
theorem load_of_wordsAt (h : wordsAt memory address count = .ok words) {k : Nat}
    (hk : words[k]? = some word) : memory.load .uint16 (address + 2 * k) = .ok word := by
  induction count generalizing address words k with
  | zero =>
    cases h
    cases hk
  | succ count ih =>
    unfold wordsAt at h
    split at h
    · cases h
    · next first hfirst =>
      split at h
      · cases h
      · next rest hrest =>
        cases h
        cases k with
        | zero =>
          obtain rfl : first = word := by simpa using hk
          simpa using hfirst
        | succ k =>
          have hload := ih hrest (k := k) (by simpa using hk)
          have haddress : address + 2 * ((k + 1 : Nat) : Int) = address + 2 + 2 * (k : Int) := by
            omega
          rw [haddress]
          exact hload

end Words

/-! ## What a step gives -/

/-- The line that shows an instruction. -/
def Line.ofInstruction (address : Int) (words : List Int) (instruction : Instruction) : Line :=
  ⟨address, words, instruction.text, some instruction, none⟩

/-- The line that shows a word as data. -/
def Line.ofData (address word : Int) (fault : Fault) : Line :=
  ⟨address, [word], "DC.W $" ++ HexStyle.word.write word, none, some fault⟩

namespace Walk

variable {memory : Memory} {walk : Walk} {next : WalkStep}

/-- The step that shows the line and goes on after it. -/
def showing (walk : Walk) (line : Line) (pointer : Int) (log : List LogRecord) : WalkStep :=
  ⟨line, pointer, log, walk.advance line⟩

/-- What a step from a place can give. -/
inductive Takes (memory : Memory) (walk : Walk) : WalkStep → Prop
  /-- The instruction at the place fits into the range. -/
  | shown {instruction : Instruction} {words : List Int}
      (decoded : decodeAt memory walk.address = .ok instruction)
      (fits : walk.address + instruction.length ≤ walk.limit)
      (read : wordsAt memory walk.address (instruction.length / 2).toNat = .ok words) :
      Takes memory walk (walk.showing (.ofInstruction walk.address words instruction)
        (walk.address + instruction.length) [.decoded instruction])
  /-- The instruction at the place passes the end of the range. -/
  | overrun {instruction : Instruction} {word : Int}
      (decoded : decodeAt memory walk.address = .ok instruction)
      (passes : walk.limit < walk.address + instruction.length)
      (read : memory.load .uint16 walk.address = .ok word) :
      Takes memory walk
        (walk.showing (.ofData walk.address word (walk.overrunFault instruction))
          (walk.address + instruction.length)
          [.decoded instruction, .overrun walk.address (walk.overrunFault instruction)])
  /-- There is no instruction at the place. -/
  | undecodable {fault : Fault} {word : Int}
      (failed : decodeAt memory walk.address = .error fault)
      (read : memory.load .uint16 walk.address = .ok word) :
      Takes memory walk (walk.showing (.ofData walk.address word fault) walk.address
        [.undecodable walk.address fault])

/-- The range of the walk lies in memory. -/
structure Inside (memory : Memory) (walk : Walk) : Prop where
  base_le : memory.base ≤ walk.address
  le_limit : walk.limit ≤ memory.limit

theorem inside_ofRange (memory : Memory) (range : Range) :
    (ofRange memory range).Inside memory := by
  obtain ⟨start, stop, count⟩ := range
  refine ⟨?_, ?_⟩
  · cases start with
    | none => exact Int.le_refl _
    | some start => exact Int.le_max_right start memory.base
  · cases stop with
    | none => exact Int.le_refl _
    | some stop => exact Int.min_le_right stop memory.limit

theorem isDone_eq_false_iff :
    walk.isDone = false ↔
      walk.address + 2 ≤ walk.limit ∧ ∀ n, walk.left = some n → 0 < n := by
  obtain ⟨address, limit, left⟩ := walk
  cases left with
  | none => simp [isDone]
  | some n => simp [isDone]

/-- The word at a place that is not the end of the range can be read. -/
theorem exists_word (inside : walk.Inside memory) (hroom : walk.address + 2 ≤ walk.limit) :
    ∃ word, memory.load .uint16 walk.address = .ok word := by
  have hlimit := inside.le_limit
  exact Memory.exists_load_iff.mpr
    (show memory.Holds walk.address 2 from ⟨inside.base_le, by omega⟩)

theorem dataLine_of_load {word : Int} (h : memory.load .uint16 walk.address = .ok word)
    (fault : Fault) : walk.dataLine memory fault = .ok (.ofData walk.address word fault) := by
  simp only [dataLine, h, Line.ofData]

/-- The words of an instruction at the place can be read. -/
theorem exists_words {instruction : Instruction}
    (hat : decodeAt memory walk.address = .ok instruction) :
    ∃ words, wordsAt memory walk.address (instruction.length / 2).toNat = .ok words := by
  have hspans := spans_of_decodeAt hat
  have heven := hspans.even
  have htwo := hspans.two_le
  obtain ⟨hbase, hlimit⟩ := hspans.inside
  exact exists_wordsAt ⟨hbase, by omega⟩

/-- **A listing does not get stuck.** A walk inside the memory whose range is not used up
takes a step: what can go wrong with the instruction is recovered from, and the words that
the line needs are there. -/
theorem exists_takes (inside : walk.Inside memory) (hdone : walk.isDone = false) :
    ∃ next, walk.step memory = .ok (some next) ∧ walk.Takes memory next := by
  obtain ⟨hroom, -⟩ := isDone_eq_false_iff.mp hdone
  obtain ⟨word, hword⟩ := exists_word inside hroom
  unfold step
  rw [if_neg (Bool.eq_false_iff.mp hdone)]
  cases hat : decodeAt memory walk.address with
  | error fault =>
    have hdecode : (Disassembler.ofMemory memory).decode (some walk.address) =
        (.error fault, ⟨memory, walk.address⟩) := Disassembler.decode_of_error hat
    rw [hdecode]
    refine ⟨_, ?_, .undecodable hat hword⟩
    show (if fault.isRecoverable = true then _ else _) = _
    rw [if_pos (Fault.isRecoverable_of_ofDecoding (ofDecoding_of_decodeAt hat)),
      dataLine_of_load hword]
    rfl
  | ok instruction =>
    have hspans := spans_of_decodeAt hat
    have hstop : instruction.stop = walk.address + instruction.length := by
      rw [Instruction.stop, hspans.address_eq]
    have hdecode : (Disassembler.ofMemory memory).decode (some walk.address) =
        (.ok instruction, ⟨memory, walk.address + instruction.length⟩) :=
      Disassembler.decode_of_ok hat
    rw [hdecode]
    by_cases hfits : walk.address + instruction.length ≤ walk.limit
    · -- The line has as many words as the instruction, whose length is even.
      have heven := hspans.even
      have hcount : (instruction.length + 1) / 2 = instruction.length / 2 := by omega
      obtain ⟨words, hwords⟩ := exists_words hat
      refine ⟨_, ?_, .shown hat hfits hwords⟩
      show (if walk.limit < instruction.stop then _ else _) = _
      rw [if_neg (by omega), instructionLine, hcount, hwords]
      rfl
    · refine ⟨_, ?_, .overrun hat (by omega) hword⟩
      show (if walk.limit < instruction.stop then _ else _) = _
      rw [if_pos (by omega)]
      show walk.complete _ _ (walk.dataLine memory _) = _
      rw [dataLine_of_load hword]
      rfl

/-! ## What a step preserves -/

/-- The walk goes on right after the line it shows. -/
theorem rest_of_takes (h : walk.Takes memory next) : next.rest = walk.advance next.line := by
  cases h <;> rfl

theorem address_of_takes (h : walk.Takes memory next) : next.line.address = walk.address := by
  cases h <;> rfl

/-- The line of a step has a word at least and ends inside the range. -/
theorem length_of_takes (h : walk.Takes memory next) (hdone : walk.isDone = false) :
    2 ≤ next.line.length ∧ walk.address + next.line.length ≤ walk.limit := by
  obtain ⟨hroom, -⟩ := isDone_eq_false_iff.mp hdone
  cases h with
  | @shown instruction words decoded fits read =>
    have hspans := spans_of_decodeAt decoded
    have htwo := hspans.two_le
    have hlength := length_wordsAt read
    show 2 ≤ 2 * words.length ∧ walk.address + (2 * words.length : Nat) ≤ walk.limit
    omega
  | overrun decoded passes read => exact ⟨Nat.le_refl 2, hroom⟩
  | undecodable failed read => exact ⟨Nat.le_refl 2, hroom⟩

/-- The words of a line are those of the memory. -/
theorem load_of_takes (h : walk.Takes memory next) {k : Nat} {word : Int}
    (hk : next.line.words[k]? = some word) :
    memory.load .uint16 (walk.address + 2 * k) = .ok word := by
  -- A line of data has one word only.
  have hdata : ∀ {first : Int}, memory.load .uint16 walk.address = .ok first →
      [first][k]? = some word → memory.load .uint16 (walk.address + 2 * k) = .ok word := by
    intro first hfirst hone
    cases k with
    | zero =>
      obtain rfl : first = word := by simpa using hone
      simpa using hfirst
    | succ k => simp at hone
  cases h with
  | shown decoded fits read => exact load_of_wordsAt read hk
  | overrun decoded passes read => exact hdata read hk
  | undecodable failed read => exact hdata read hk

/-- A step leaves the walk inside the memory. -/
theorem inside_of_takes (inside : walk.Inside memory) (h : walk.Takes memory next) :
    next.rest.Inside memory := by
  rw [rest_of_takes h]
  refine ⟨?_, inside.le_limit⟩
  have hbase := inside.base_le
  show memory.base ≤ walk.address + next.line.length
  omega

/-! ## Whole runs -/

/-- The steps from a place to the end of the range. -/
inductive Runs (memory : Memory) : Walk → List WalkStep → Prop
  | done {walk : Walk} (finished : walk.isDone = true) : Runs memory walk []
  | step {walk : Walk} {next : WalkStep} {steps : List WalkStep}
      (unfinished : walk.isDone = false) (takes : walk.Takes memory next)
      (rest : Runs memory next.rest steps) : Runs memory walk (next :: steps)

/-- Every step of a run is taken from some place of the same range. -/
theorem exists_takes_of_mem {steps : List WalkStep} (h : walk.Runs memory steps)
    (hstep : next ∈ steps) :
    ∃ place : Walk, place.limit = walk.limit ∧ place.Takes memory next := by
  induction h with
  | done finished => cases hstep
  | @step walk first steps unfinished takes rest ih =>
    rcases List.mem_cons.mp hstep with rfl | hlater
    · exact ⟨walk, rfl, takes⟩
    · obtain ⟨place, hlimit, htakes⟩ := ih hlater
      rw [rest_of_takes takes] at hlimit
      exact ⟨place, hlimit, htakes⟩

theorem step_of_isDone (hdone : walk.isDone = true) : walk.step memory = .ok none := by
  unfold step
  rw [if_pos hdone]

theorem run_of_isDone (hdone : walk.isDone = true) : walk.run memory = .ok [] := by
  have hstep : walk.step memory = .ok none := step_of_isDone hdone
  unfold run
  split
  · next h => simp [hstep] at h
  · rfl
  · next h => simp [hstep] at h

theorem run_of_step {steps : List WalkStep} (hstep : walk.step memory = .ok (some next))
    (hrest : next.rest.run memory = .ok steps) : walk.run memory = .ok (next :: steps) := by
  unfold run
  split
  · next h => simp [hstep] at h
  · next h => simp [hstep] at h
  · next other h =>
    obtain rfl : next = other := by simpa [hstep] using h
    simp only [hrest]

/-- The steps of a walk that takes at most so many. Unlike `Walk.run`, this can be evaluated. -/
def runWithin (memory : Memory) (walk : Walk) : Nat → Option (List WalkStep)
  | 0 => if walk.isDone then some [] else none
  | count + 1 =>
    match walk.step memory with
    | .error _ => none
    | .ok none => some []
    | .ok (some next) => (next.rest.runWithin memory count).map (next :: ·)

theorem run_of_runWithin {count : Nat} {steps : List WalkStep}
    (h : walk.runWithin memory count = some steps) : walk.run memory = .ok steps := by
  induction count generalizing walk steps with
  | zero =>
    unfold runWithin at h
    split at h
    · next hdone =>
      cases h
      exact run_of_isDone hdone
    · cases h
  | succ count ih =>
    unfold runWithin at h
    split at h
    · cases h
    · next hstep =>
      cases h
      unfold run
      split
      · next other => simp [hstep] at other
      · rfl
      · next other => simp [hstep] at other
    · next next hstep =>
      obtain ⟨rest, hrest, rfl⟩ := Option.map_eq_some_iff.mp h
      exact run_of_step hstep (ih hrest)

/-- **A listing of memory comes to its end without a fault.** -/
theorem exists_runs (inside : walk.Inside memory) :
    ∃ steps, walk.run memory = .ok steps ∧ walk.Runs memory steps := by
  -- The room that is left shrinks with every line.
  generalize hroom : (walk.limit - walk.address).toNat = room
  induction room using Nat.strongRecOn generalizing walk with
  | ind room ih =>
    cases hdone : walk.isDone with
    | true => exact ⟨[], run_of_isDone hdone, .done hdone⟩
    | false =>
      obtain ⟨next, hstep, htakes⟩ := exists_takes inside hdone
      obtain ⟨hfits, hmoves, hlimit⟩ := step_progress hstep
      obtain ⟨steps, hrun, hruns⟩ :=
        ih (next.rest.limit - next.rest.address).toNat (by omega)
          (inside_of_takes inside htakes) rfl
      exact ⟨next :: steps, run_of_step hstep hrun, .step hdone htakes hruns⟩

end Walk

/-- What the lines of a listing show can be evaluated with a bound on their number. -/
theorem listing_of_runWithin {α : Type} {memory : Memory} {range : Range} {view : WalkStep → α}
    {shown : List α} (count : Nat)
    (h : ((Walk.ofRange memory range).runWithin memory count).map (List.map view) = some shown) :
    (listing memory range).map (List.map view) = .ok shown := by
  obtain ⟨steps, hsteps, rfl⟩ := Option.map_eq_some_iff.mp h
  rw [listing, Walk.run_of_runWithin hsteps]
  rfl

end Disasm68k
