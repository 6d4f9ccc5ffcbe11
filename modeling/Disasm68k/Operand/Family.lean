import Disasm68k.Operand

/-!
# Families of operands

Operands fall into families: all operands, effective addresses among them, and the
effective addresses that name a register. A family can be asked the same questions as
an operand, but having no encoding of its own it has few answers.

- `Operand.Family`: the three families;
- `Operand.Missing`: the answer that is not there;
- `Operand.Subject`: an operand or a family, with the questions for both.

Reference: specification §3, the classes without an encoding (`Operand`,
`EffectiveAddress`, `RegisterEA`).
-/

namespace Disasm68k

namespace Operand

/-- A family of operands. -/
inductive Family where
  | operand
  | effectiveAddress
  | registerAddress
deriving DecidableEq, Repr

/-- The name of a family. -/
def Family.name : Family → String
  | operand => "Operand"
  | effectiveAddress => "EffectiveAddress"
  | registerAddress => "RegisterEA"

/-- Why there is no answer to a question. -/
inductive Missing where
  /-- Every member of a family answers for itself. -/
  | leftToMembers (question : String) (family : Family)
  /-- The value was never given. -/
  | neverGiven
  /-- The number in the name of a register has too many digits. -/
  | unwritable
deriving DecidableEq, Repr

/-- The text of a missing answer, if it has one. -/
def Missing.message? : Missing → Option String
  | leftToMembers question family =>
    some (question ++ " not implemented for " ++ family.name)
  | neverGiven => none
  | unwritable => none

/-- An operand or a family of operands. -/
inductive Subject where
  | operand (op : Operand)
  | family (fam : Family)
deriving Repr

namespace Subject

/-- The tokens of an operand; a family has none. -/
def tokens : Subject → Except Missing (List Token)
  | operand op =>
    match op.tokens? with
    | some tokens => .ok tokens
    | none => .error .unwritable
  | family fam => .error (.leftToMembers "tokens()" fam)

/-- Whether the subject is an effective address. -/
def isAddress : Subject → Bool
  | operand (.ea _) => true
  | operand _ => false
  | family .operand => false
  | family _ => true

/-- The mode number of an effective address; a family has none. -/
def mode : Subject → Except Missing Int
  | operand (.ea address) => .ok address.mode
  | _ => .error .neverGiven

/-- The register number of an effective address. -/
def register : Subject → Except Missing Int
  | operand (.ea address) => .ok address.register
  | family .effectiveAddress => .error (.leftToMembers "register" .effectiveAddress)
  | _ => .error .neverGiven

/-- The bytes that an effective address takes after the instruction word. -/
def extBytes : Subject → Nat
  | operand (.ea address) => address.extBytes
  | _ => 0

/-- Whether the subject is an effective address whose register number names a register. -/
def namesRegister : Subject → Bool
  | operand (.ea address) => address.namesRegister
  | family .registerAddress => true
  | _ => false

/-- Equal operands are the same; a family is the same as nothing. -/
def same : Subject → Subject → Bool
  | operand a, operand b => a == b
  | _, _ => false

/-- The operands of a list without families. -/
def operands : List Subject → Except Missing (List Operand)
  | [] => .ok []
  | operand op :: rest => (op :: ·) <$> operands rest
  | family fam :: _ => .error (.leftToMembers "tokens()" fam)

end Subject

end Operand

end Disasm68k
