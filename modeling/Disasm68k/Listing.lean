import Disasm68k.Disassembler

/-!
# Listings

A listing shows a range of memory line by line. An instruction that fits into the range
takes a line; any other word takes a line of data, and the listing goes on with the next
word.

- `Line`: a line, with `Line.format` for its printed form;
- `Walk`: a place in a listing: the next address, the end of the range and the number of
  lines still wanted;
- `Walk.step`: the next line with its effects, or the end of the listing;
- `Walk.run`: all lines. It ends because every line moves the address forward and none
  passes the end of the range.

Reference: specification §6.3, listings (`ListingLine`, `iter_listing`).
-/

namespace Disasm68k

/-! ## Lines -/

/-- A line of a listing. -/
structure Line where
  address : Int
  /-- The words of the line as they stand in memory. -/
  words : List Int
  text : String
  /-- The instruction shown, if the line is not data. -/
  instruction : Option Instruction
  /-- Why the line is data. -/
  fault : Option Fault
deriving DecidableEq

namespace Line

/-- The number of bytes of the line. -/
def length (line : Line) : Nat :=
  2 * line.words.length

/-- Whether the line shows data. -/
def isData (line : Line) : Bool :=
  line.instruction.isNone

/-- The width of the column of words. -/
def wordsWidth : Nat := 24

/-- The column of words: words in hexadecimal with blanks between them and after them. -/
def wordsColumn (words : List Int) : String :=
  let text := " ".intercalate (words.map HexStyle.word.write)
  text ++ String.ofList (List.replicate (wordsWidth - text.length) ' ')

/-- The line as printed, with or without its words. -/
def format (line : Line) (showWords : Bool) : String :=
  if showWords then
    HexStyle.address.write line.address ++ "  " ++ wordsColumn line.words ++ "  " ++ line.text
  else
    HexStyle.address.write line.address ++ "  " ++ line.text

end Line

/-! ## Walks -/

/-- What part of memory is to be listed: from `start` up to `stop`, at most `count`
lines. -/
structure Range where
  start : Option Int
  stop : Option Int
  count : Option Int
deriving DecidableEq, Repr

/-- A place in a listing. -/
structure Walk where
  /-- The address of the next line. -/
  address : Int
  /-- The end of the range. -/
  limit : Int
  /-- The number of lines still wanted, if it is bounded. -/
  left : Option Int
deriving DecidableEq, Repr

/-- What one step of a walk gives. -/
structure WalkStep where
  line : Line
  /-- The pointer of the disassembler after the step. -/
  pointer : Int
  log : List LogRecord
  /-- The place after the line. -/
  rest : Walk
deriving DecidableEq

/-- The given number of words from an address on. -/
def wordsAt (memory : Memory) (address : Int) : Nat → Except Fault (List Int)
  | 0 => .ok []
  | count + 1 =>
    match memory.load .uint16 address with
    | .error fault => .error fault
    | .ok word =>
      match wordsAt memory (address + 2) count with
      | .error fault => .error fault
      | .ok words => .ok (word :: words)

namespace Walk

/-- The start of a listing, with the range cut to the memory. -/
def ofRange (memory : Memory) (range : Range) : Walk where
  address := match range.start with
    | none => memory.base
    | some start => max start memory.base
  limit := match range.stop with
    | none => memory.limit
    | some stop => min stop memory.limit
  left := range.count

/-- Whether the listing is over: no word is left in the range, or no line is wanted. -/
def isDone (walk : Walk) : Bool :=
  walk.limit < walk.address + 2 || (match walk.left with
    | none => false
    | some n => n ≤ 0)

/-- The place after a line. -/
def advance (walk : Walk) (line : Line) : Walk :=
  { walk with address := walk.address + line.length, left := walk.left.map (· - 1) }

/-- The line of data for the word at the place. -/
def dataLine (memory : Memory) (walk : Walk) (fault : Fault) : Except Fault Line :=
  match memory.load .uint16 walk.address with
  | .error fault' => .error fault'
  | .ok word =>
    .ok ⟨walk.address, [word], "DC.W $" ++ HexStyle.word.write word, none, some fault⟩

/-- The line of an instruction at the place. -/
def instructionLine (memory : Memory) (walk : Walk) (instruction : Instruction) :
    Except Fault Line :=
  match wordsAt memory walk.address ((instruction.length + 1) / 2).toNat with
  | .error fault => .error fault
  | .ok words => .ok ⟨walk.address, words, instruction.text, some instruction, none⟩

/-- The fault of an instruction that does not fit into the range. -/
def overrunFault (walk : Walk) (instruction : Instruction) : Fault :=
  .pastRange instruction.text walk.address walk.limit

/-- Completes a step with the line found. -/
def complete (walk : Walk) (pointer : Int) (log : List LogRecord) :
    Except Fault Line → Except Fault (Option WalkStep)
  | .error fault => .error fault
  | .ok line => .ok (some ⟨line, pointer, log, walk.advance line⟩)

/-- The next line of the listing, or nothing when it is over. -/
def step (memory : Memory) (walk : Walk) : Except Fault (Option WalkStep) :=
  if walk.isDone then .ok none
  else
    match (Disassembler.ofMemory memory).decode (some walk.address) with
    | (.error fault, d) =>
      if fault.isRecoverable then
        walk.complete d.pointer [.undecodable walk.address fault] (walk.dataLine memory fault)
      else .error fault
    | (.ok instruction, d) =>
      if walk.limit < instruction.stop then
        let fault := walk.overrunFault instruction
        walk.complete d.pointer [.decoded instruction, .overrun walk.address fault]
          (walk.dataLine memory fault)
      else
        walk.complete d.pointer [.decoded instruction] (walk.instructionLine memory instruction)

/-! ## Walks come to an end -/

theorem length_wordsAt {memory : Memory} {address : Int} {count : Nat} {words : List Int}
    (h : wordsAt memory address count = .ok words) : words.length = count := by
  induction count generalizing address words with
  | zero =>
    cases h
    rfl
  | succ count ih =>
    unfold wordsAt at h
    split at h
    · cases h
    · split at h
      · cases h
      · next rest hrest =>
        cases h
        simp [ih hrest]

/-- A line of data is one word long. -/
theorem length_dataLine {memory : Memory} {walk : Walk} {fault : Fault} {line : Line}
    (h : walk.dataLine memory fault = .ok line) : line.length = 2 := by
  unfold dataLine at h
  split at h
  · cases h
  · cases h
    rfl

/-- The line of an instruction of at least one word is not empty. -/
theorem two_le_length_instructionLine {memory : Memory} {walk : Walk} {instruction : Instruction}
    {line : Line} (hlen : 2 ≤ instruction.length)
    (h : walk.instructionLine memory instruction = .ok line) : 2 ≤ line.length := by
  unfold instructionLine at h
  split at h
  · cases h
  · next words hwords =>
    cases h
    have := length_wordsAt hwords
    simp only [Line.length]
    omega

theorem rest_of_complete {walk : Walk} {pointer : Int} {log : List LogRecord}
    {outcome : Except Fault Line} {next : WalkStep}
    (h : walk.complete pointer log outcome = .ok (some next)) :
    outcome = .ok next.line ∧ next.rest = walk.advance next.line := by
  cases outcome with
  | error fault => cases h
  | ok line =>
    cases h
    exact ⟨rfl, rfl⟩

/-- Every step moves at least a word forward and stays below the end of the range. -/
theorem step_progress {memory : Memory} {walk : Walk} {next : WalkStep}
    (h : walk.step memory = .ok (some next)) :
    walk.address + 2 ≤ walk.limit ∧ walk.address + 2 ≤ next.rest.address ∧
      next.rest.limit = walk.limit := by
  unfold step at h
  split at h
  · cases h
  · next hdone =>
    have hroom : walk.address + 2 ≤ walk.limit := by
      simp only [isDone, Bool.or_eq_true, decide_eq_true_eq, not_or] at hdone
      omega
    have hline : 2 ≤ next.line.length ∧ next.rest = walk.advance next.line := by
      split at h
      · split at h
        · have hc := rest_of_complete h
          exact ⟨Nat.le_of_eq (length_dataLine hc.1).symm, hc.2⟩
        · cases h
      · next instruction d hdecode =>
        split at h
        · have hc := rest_of_complete h
          exact ⟨Nat.le_of_eq (length_dataLine hc.1).symm, hc.2⟩
        · have hc := rest_of_complete h
          have hat : decodeAt memory walk.address = .ok instruction := by
            have := (Disassembler.ofMemory memory).decode_fst (some walk.address)
            rw [hdecode] at this
            exact this.symm
          exact ⟨two_le_length_instructionLine (two_le_length_of_decodeAt hat) hc.1, hc.2⟩
    refine ⟨hroom, ?_, ?_⟩
    · rw [hline.2]
      simp only [advance]
      omega
    · rw [hline.2]
      rfl

/-- All steps from a place to the end of the listing. -/
def run (memory : Memory) (walk : Walk) : Except Fault (List WalkStep) :=
  match h : walk.step memory with
  | .error fault => .error fault
  | .ok none => .ok []
  | .ok (some next) =>
    have := step_progress h
    match run memory next.rest with
    | .error fault => .error fault
    | .ok steps => .ok (next :: steps)
termination_by (walk.limit - walk.address).toNat
decreasing_by omega

end Walk

/-! ## Whole listings -/

/-- The lines of a range of memory. -/
def listing (memory : Memory) (range : Range) : Except Fault (List WalkStep) :=
  (Walk.ofRange memory range).run memory

/-- The pointer after steps that start with the given pointer. -/
def pointerAfter (pointer : Int) (steps : List WalkStep) : Int :=
  (steps.map WalkStep.pointer).getLast?.getD pointer

end Disasm68k
