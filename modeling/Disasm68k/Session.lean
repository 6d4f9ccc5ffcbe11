import Disasm68k.Listing
import Disasm68k.Memory.Request

/-!
# Sessions

Several disassemblers may share one memory. A session is a sequence of requests to
them: decodes, pointer assignments, whole listings, listings that are produced line by
line, and requests to the memory itself. A line-by-line listing remembers its own place,
so other requests do not disturb it, but it reads the memory as it is when a line is
asked for.

- `Session.State`: the memory, the pointers and the open listings;
- `Session.Request`, `Session.Reply`, `Session.Failure`: what is asked and answered;
- `Session.step`, `Session.run`: one request, and a sequence of them.

Reference: specification §5, decoders that share a memory (`Disassembler`,
`iter_listing`).
-/

namespace Disasm68k

namespace Session

/-- A listing that is produced line by line, for one of the disassemblers. -/
structure OpenListing where
  id : String
  /-- The number of the disassembler whose pointer the listing moves. -/
  unit : Nat
  place : Walk
deriving DecidableEq, Repr

/-- The state of a session. -/
structure State where
  memory : Memory
  /-- The pointer of each disassembler. -/
  pointers : List Int
  listings : List OpenListing
deriving DecidableEq, Repr

/-- What can be asked in a session; `unit` is the number of a disassembler. -/
inductive Request where
  /-- Decode an instruction. -/
  | decode (unit : Nat) (address : Option Int)
  /-- Assign the pointer. -/
  | seek (unit : Nat) (address : Int)
  /-- List a range to its end. -/
  | list (unit : Nat) (range : Range)
  /-- Begin a line-by-line listing. -/
  | openListing (unit : Nat) (id : String) (range : Range)
  /-- Produce a line of an open listing. -/
  | next (id : String)
  /-- A request to the memory. -/
  | memory (request : Memory.Request)
deriving DecidableEq, Repr

/-- The reply to a request. -/
inductive Reply where
  | instruction (instruction : Instruction)
  | lines (lines : List Line)
  | line (line : Line)
  /-- The listing is over. -/
  | done
  /-- There is nothing to tell. -/
  | nothing
  | memory (reply : Memory.Reply)
deriving DecidableEq

/-- Why a request fails. -/
inductive Failure where
  | fault (fault : Fault)
  | store (fault : StoreFault)
  /-- There is no disassembler of this number. -/
  | noSuchUnit (unit : Nat)
  /-- No listing was opened under this name. -/
  | noSuchListing (id : String)
deriving DecidableEq, Repr

/-- The outcome of a request. -/
structure Result where
  outcome : Except Failure Reply
  log : List LogRecord
  state : State

/-- A session of the given number of disassemblers at the start of a memory. -/
def State.ofMemory (memory : Memory) (units : Nat) : State :=
  ⟨memory, List.replicate units memory.base, []⟩

namespace State

/-- Assigns the pointer of a disassembler. -/
def setPointer (state : State) (unit : Nat) (pointer : Int) : State :=
  { state with pointers := state.pointers.set unit pointer }

/-- Adds an open listing; an older one of the same name is forgotten. -/
def putListing (state : State) (listing : OpenListing) : State :=
  { state with listings := listing :: state.listings.filter fun other => other.id ≠ listing.id }

/-- The open listing of a name. -/
def listing? (state : State) (id : String) : Option OpenListing :=
  state.listings.find? fun listing => listing.id = id

end State

/-- A request that fails and changes nothing. -/
def refuse (state : State) (failure : Failure) : Result :=
  ⟨.error failure, [], state⟩

/-- Decodes an instruction with a disassembler. -/
def decode (state : State) (unit : Nat) (address : Option Int) : Result :=
  match state.pointers[unit]? with
  | none => refuse state (.noSuchUnit unit)
  | some pointer =>
    let (outcome, after) := Disassembler.decode ⟨state.memory, pointer⟩ address
    ⟨match outcome with
      | .ok instruction => .ok (.instruction instruction)
      | .error fault => .error (.fault fault),
      Disassembler.log outcome, state.setPointer unit after.pointer⟩

/-- Lists a range to its end. -/
def list (state : State) (unit : Nat) (range : Range) : Result :=
  match state.pointers[unit]? with
  | none => refuse state (.noSuchUnit unit)
  | some pointer =>
    match listing state.memory range with
    | .error fault => refuse state (.fault fault)
    | .ok steps =>
      ⟨.ok (.lines (steps.map WalkStep.line)), steps.flatMap WalkStep.log,
        state.setPointer unit (pointerAfter pointer steps)⟩

/-- Produces a line of an open listing. -/
def next (state : State) (id : String) : Result :=
  match state.listing? id with
  | none => refuse state (.noSuchListing id)
  | some listing =>
    match listing.place.step state.memory with
    | .error fault => refuse state (.fault fault)
    | .ok none => ⟨.ok .done, [], state⟩
    | .ok (some step) =>
      ⟨.ok (.line step.line), step.log,
        (state.setPointer listing.unit step.pointer).putListing
          { listing with place := step.rest }⟩

/-- Answers a request to the memory. -/
def askMemory (state : State) (request : Memory.Request) : Result :=
  let (outcome, memory) := state.memory.perform request
  ⟨match outcome with
    | .ok reply => .ok (.memory reply)
    | .error fault => .error (.store fault),
    [], { state with memory := memory }⟩

/-- Answers a request. -/
def step (state : State) : Request → Result
  | .decode unit address => decode state unit address
  | .seek unit address =>
    if unit < state.pointers.length then ⟨.ok .nothing, [], state.setPointer unit address⟩
    else refuse state (.noSuchUnit unit)
  | .list unit range => list state unit range
  | .openListing unit id range =>
    if unit < state.pointers.length then
      ⟨.ok .nothing, [], state.putListing ⟨id, unit, Walk.ofRange state.memory range⟩⟩
    else refuse state (.noSuchUnit unit)
  | .next id => next state id
  | .memory request => askMemory state request

/-- Answers requests one after the other. -/
def run (state : State) : List Request → List Result
  | [] => []
  | request :: rest =>
    let result := step state request
    result :: run result.state rest

end Session

end Disasm68k
