import Disasm68k.Memory

/-!
# Requests to a memory

A client drives a memory by a sequence of requests. Each request has a reply or a
fault, and a memory after it in either case.

Reference: specification §6.1, the accessors of `Memory`, from `get_int8` to
`set_int32`.
-/

namespace Disasm68k

namespace Memory

/-- What can be asked of a memory. -/
inductive Request where
  | load (access : Access) (address : Int)
  | store (access : Access) (address value : Int)
  | size
  | limit
deriving DecidableEq, Repr

/-- The reply to a request. -/
inductive Reply where
  /-- The number asked for. -/
  | number (value : Int)
  /-- The bytes after a store. -/
  | stored (bytes : Array UInt8)
deriving DecidableEq, Repr

/-- Answers a request and gives the memory after it. -/
def perform (memory : Memory) : Request → Except StoreFault Reply × Memory
  | .load access address =>
    match memory.load access address with
    | .error fault => (.error (.unreachable fault), memory)
    | .ok value => (.ok (.number value), memory)
  | .store access address value =>
    match memory.store access address value with
    | (.error fault, memory') => (.error fault, memory')
    | (.ok (), memory') => (.ok (.stored memory'.bytes), memory')
  | .size => (.ok (.number memory.size), memory)
  | .limit => (.ok (.number memory.limit), memory)

/-- Answers requests one after the other. -/
def performAll (memory : Memory) : List Request → List (Except StoreFault Reply) × Memory
  | [] => ([], memory)
  | request :: rest =>
    let (reply, memory') := memory.perform request
    let (replies, final) := memory'.performAll rest
    (reply :: replies, final)

end Memory

end Disasm68k
