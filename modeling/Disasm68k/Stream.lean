import Disasm68k.Decode

/-!
# Streams of reads

A client may drive a cursor directly, one read after the other, without starting a new
instruction in between. The bytes read and the layout recorded so far stay with the
cursor, also when a step fails.

- `Stream.Request`, `Stream.Reply`: what can be asked of a cursor, and what it tells;
- `Stream.Failure`: why a request fails;
- `Stream.answer`: the answer to a request;
- `Stream.run`: the answers to requests in sequence.

Reference: specification §3, the cursor as its own interface (`StreamCtx`).
-/

namespace Disasm68k

namespace Stream

/-- What can be asked of a cursor. -/
inductive Request where
  /-- Read a number. -/
  | read (access : Access)
  /-- Read an immediate of the size that a code names. -/
  | immediate (code : Option Int) (key : String)
  /-- Read the operand of a mode and a register number. -/
  | address (mode reg : Int) (code : Option Int) (key : String)
  /-- Record an entry of the layout. -/
  | record (key kind : String) (start : Option Int) (details : List (String × Layout.Detail))
  /-- Read an instruction. -/
  | decodeNext
  /-- Read the operands of an instruction whose word is given. -/
  | decodeWord (word : Int)
deriving DecidableEq

/-- A detail to be recorded whose name is reserved, if there is one. -/
def Request.reservedName? : Request → Option String
  | record _ _ _ details => Layout.Entry.reservedName? details
  | _ => none

/-- The reply to a request. -/
inductive Reply where
  | number (value : Int)
  | operand (operand : Operand)
  | nothing
  | instruction (instruction : Instruction)
deriving DecidableEq

/-- Why a request fails. -/
inductive Failure where
  | fault (fault : Fault)
  /-- A detail may not be recorded under this name. -/
  | reservedName (name : String)
deriving DecidableEq, Repr

/-- The step that answers a request. -/
def perform : Request → Fetch Reply
  | .read access => do
    let value ← Fetch.read access
    pure (.number value)
  | .immediate code key => do
    let value ← Fetch.immediate code key
    pure (.number value)
  | .address mode reg code key => do
    let operand ← Fetch.address mode reg code key
    pure (.operand operand)
  | .record key kind start details => do
    Fetch.record key kind start details
    pure .nothing
  | .decodeNext => do
    let instruction ← Fetch.decodeNext
    pure (.instruction instruction)
  | .decodeWord word => do
    let instruction ← Fetch.decodeWord word
    pure (.instruction instruction)

/-- The answer to a request, and the cursor after it. A request to record a detail under
a reserved name leaves the cursor as it is. -/
def answer (request : Request) (cursor : Cursor) : Except Failure Reply × Cursor :=
  match request.reservedName? with
  | some name => (.error (.reservedName name), cursor)
  | none =>
    match perform request cursor with
    | (.ok reply, cursor') => (.ok reply, cursor')
    | (.error fault, cursor') => (.error (.fault fault), cursor')

/-- Answers requests one after the other; with each answer comes the cursor after it. -/
def run (cursor : Cursor) : List Request → List (Except Failure Reply × Cursor)
  | [] => []
  | request :: rest =>
    let outcome := answer request cursor
    outcome :: run outcome.2 rest

end Stream

end Disasm68k
