import Disasm68k.Bits

/-!
# Condition codes

Conditional branches, set instructions and loop instructions test one of sixteen
conditions, chosen by four bits of the instruction word.

Reference: specification §4.3, the condition table (`CONDITIONS`, `condition_name`).
-/

namespace Disasm68k

/-- The sixteen conditions, in the order of their codes. -/
inductive Condition where
  | always
  | never
  | higher
  | lowerOrSame
  | carryClear
  | carrySet
  | notEqual
  | equal
  | overflowClear
  | overflowSet
  | plus
  | minus
  | greaterOrEqual
  | lessThan
  | greaterThan
  | lessOrEqual
deriving DecidableEq, Repr

namespace Condition

/-- The condition chosen by the low four bits of a number. -/
def ofCode (code : Int) : Condition :=
  match (bits code 0 4).toNat with
  | 0 => always
  | 1 => never
  | 2 => higher
  | 3 => lowerOrSame
  | 4 => carryClear
  | 5 => carrySet
  | 6 => notEqual
  | 7 => equal
  | 8 => overflowClear
  | 9 => overflowSet
  | 10 => plus
  | 11 => minus
  | 12 => greaterOrEqual
  | 13 => lessThan
  | 14 => greaterThan
  | _ => lessOrEqual

/-- The letters that a mnemonic shows for the condition. -/
def name : Condition → String
  | always => "T"
  | never => "F"
  | higher => "HI"
  | lowerOrSame => "LS"
  | carryClear => "CC"
  | carrySet => "CS"
  | notEqual => "NE"
  | equal => "EQ"
  | overflowClear => "VC"
  | overflowSet => "VS"
  | plus => "PL"
  | minus => "MI"
  | greaterOrEqual => "GE"
  | lessThan => "LT"
  | greaterThan => "GT"
  | lessOrEqual => "LE"

end Condition

end Disasm68k
