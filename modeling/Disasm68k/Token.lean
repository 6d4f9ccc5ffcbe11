import Disasm68k.Numeral
import Disasm68k.Text.Quoted

/-!
# Tokens

The text of an instruction is a sequence of tokens, each with a kind that a printer
can colour by. Tokens hold any integers, of which those with too many digits cannot be
written: the functions that a client may call on any token give no result then.

- `Token`, `TokenKind`: the tokens and their kinds;
- `Token.toText`, `Token.render`: the characters of a token, and of a sequence of tokens;
- `Token.text?`, `Token.render?`: the same, unless a number has too many digits;
- `Token.typed?`, `Token.hashKey?`: the text with the kind, and with the constructor;
- `Token.describe?`: the token as an expression, for inspection;
- `Token.equalPairs`, `Token.distinctCount?`: the equal tokens of a sequence, and the number
  of different ones.

Reference: specification §4.3, output (`Token` and its classes, `asm_str`,
`typed_tokens`).
-/

namespace Disasm68k

/-- The kinds of tokens. -/
inductive TokenKind where
  | instruction
  | separator
  | text
  | integer
  | register
  | beginMemory
  | endMemory
  | relative
deriving DecidableEq, Repr

/-- The name of a kind. -/
def TokenKind.name : TokenKind → String
  | instruction => "instruction"
  | separator => "separator"
  | text => "text"
  | integer => "integer"
  | register => "register"
  | beginMemory => "begin_memory"
  | endMemory => "end_memory"
  | relative => "relative"

/-- A piece of the text of an instruction. -/
inductive Token where
  /-- A mnemonic. -/
  | instruction (mnemonic : String)
  /-- A comma or slash between operands or parts of an operand. -/
  | separator (text : String)
  /-- Any other mark. -/
  | text (text : String)
  /-- A number. -/
  | integer (value : Int)
  /-- The name of a register. -/
  | register (name : String)
  /-- The opening parenthesis of a memory operand. -/
  | beginMemory
  /-- The closing parenthesis of a memory operand with what follows it. -/
  | endMemory (suffix : String)
  /-- A displacement from the program counter. -/
  | relative (displacement : Int)
deriving DecidableEq, Repr

namespace Token

/-- The kind of a token. -/
def kind : Token → TokenKind
  | instruction _ => .instruction
  | separator _ => .separator
  | text _ => .text
  | integer _ => .integer
  | register _ => .register
  | beginMemory => .beginMemory
  | endMemory _ => .endMemory
  | relative _ => .relative

/-- The characters of a token. -/
def toText : Token → String
  | instruction mnemonic => mnemonic
  | separator mark => mark
  | text mark => mark
  | integer value => Numeral.decimal value
  | register name => name
  | beginMemory => "("
  | endMemory suffix => ")" ++ suffix
  | relative displacement => "*" ++ Numeral.signedDecimal displacement

/-- The text of a token. A number of too many digits has none. -/
def text? : Token → Option String
  | integer value => Numeral.decimalText? value
  | relative displacement => (Numeral.signedDecimalText? displacement).map ("*" ++ ·)
  | token => some token.toText

/-- The kind and the text of a token. -/
def typed? (token : Token) : Option (TokenKind × String) :=
  token.text?.map (token.kind, ·)

/-- What a token is hashed by: its constructor and its text. -/
def hashKey? (token : Token) : Option (Nat × String) :=
  token.text?.map (token.ctorIdx, ·)

/-- The token as an expression. -/
def describe? : Token → Option String
  | instruction mnemonic => some ("TInstr(" ++ mnemonic ++ ")")
  | separator mark => some ("TSep(" ++ mark ++ ")")
  | text mark => some ("TText(" ++ mark ++ ")")
  | integer value => (Numeral.decimalText? value).map ("TInt(" ++ · ++ ")")
  | register name => some ("TReg(" ++ name ++ ")")
  | beginMemory => some "TBegMem()"
  | endMemory suffix => some ("TEndMem(" ++ Text.quoted suffix ++ ")")
  | relative displacement =>
    (Numeral.decimalText? displacement).map ("TRel(" ++ · ++ ")")

/-- The characters of a sequence of tokens. -/
def render (tokens : List Token) : String :=
  tokens.foldr (fun token rest => token.toText ++ rest) ""

/-- The text of a sequence of tokens, unless one of them has none. -/
def render? : List Token → Option String
  | [] => some ""
  | token :: rest => do
    let first ← token.text?
    let others ← render? rest
    pure (first ++ others)

/-- The positions of equal tokens in a sequence: pairs `(i, j)` with `j < i`, ordered
by `i` and then by `j`. -/
def equalPairs (tokens : List Token) : List (Nat × Nat) :=
  tokens.zipIdx.flatMap fun (later, i) =>
    (tokens.take i).zipIdx.filterMap fun (earlier, j) =>
      if earlier = later then some (i, j) else none

/-- The number of different tokens in a sequence. Each token is hashed, so there is no
answer if one of them has no key. -/
def distinctCount? (tokens : List Token) : Option Nat := do
  let _ ← tokens.mapM hashKey?
  pure tokens.eraseDups.length

end Token

end Disasm68k
