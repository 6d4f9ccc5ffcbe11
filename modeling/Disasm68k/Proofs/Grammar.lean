import Disasm68k.Instruction
import Disasm68k.Proofs.Decimal

/-!
# The grammar of assembler text

A comma stands between operands, but also inside the parentheses of some of them, and a minus sign
belongs to a number or comes before a parenthesis. Text is therefore read in two steps. It falls
into words and marks first, in one way only; then a grammar with one rule for each addressing mode
takes an operand from the front and leaves the rest.

- `Lexeme`, `Lexeme.scan`: the words and marks of text, scanned from its end;
- `Lexeme.scan_word`: a word stays whole where no other word follows it;
- `Operand.Reading`, `Operand.reading`: what the text of an operand says;
- `Operand.read?`: the grammar, with `EffectiveAddress.read?` for what is in parentheses;
- `Operand.read?_scan`: an operand is read back from its text, whatever follows it;
- `Instruction.readings_of_text`: so the text of an instruction tells what its operands say.
-/

namespace Disasm68k

/-! ## Words and marks -/

/-- A piece of text: a mark, or the characters between two marks. -/
inductive Lexeme where
  | mark (c : Char)
  | word (chars : List Char)
deriving DecidableEq, Repr

namespace Lexeme

/-- The characters that are never part of a word. -/
def marks : List Char :=
  [' ', ',', '/', '#', '*', '(', ')']

/-- Puts a character of a word before lexemes; it joins the word that it comes before. -/
def join (c : Char) : List Lexeme → List Lexeme
  | .word chars :: rest => .word (c :: chars) :: rest
  | rest => .word [c] :: rest

/-- The lexemes of text that comes before other lexemes. -/
def scan (chars : List Char) (after : List Lexeme) : List Lexeme :=
  chars.foldr (fun c after => if c ∈ marks then .mark c :: after else join c after) after

/-- The characters make a word. -/
def IsWord (chars : List Char) : Prop :=
  chars ≠ [] ∧ ∀ c ∈ chars, c ∉ marks

-- goes through the characters of the word, not through all characters that there are
instance (chars : List Char) : Decidable (IsWord chars) :=
  @instDecidableAnd _ _ inferInstance (List.decidableBAll _ _)

/-- A word before the lexemes stays apart from them. -/
def Apart : List Lexeme → Prop
  | .word _ :: _ => False
  | _ => True

/-- The lexemes can come after an operand: none at all, or a comma and more. -/
inductive Follows : List Lexeme → Prop where
  | nothing : Follows []
  | comma (rest : List Lexeme) : Follows (.mark ',' :: rest)

variable {after : List Lexeme}

@[simp] theorem apart_mark (c : Char) (after : List Lexeme) : Apart (.mark c :: after) :=
  trivial

theorem Follows.apart (h : Follows after) : Apart after := by
  cases h <;> trivial

theorem join_of_apart {c : Char} (h : Apart after) : join c after = .word [c] :: after := by
  cases after with
  | nil => rfl
  | cons lexeme rest =>
    cases lexeme with
    | mark c => rfl
    | word chars => exact absurd h id

/-- A word is scanned whole if no word follows. -/
theorem scan_word {chars : List Char} (hword : IsWord chars) (h : Apart after) :
    scan chars after = .word chars :: after := by
  obtain ⟨hne, hchars⟩ := hword
  induction chars with
  | nil => exact absurd rfl hne
  | cons c rest ih =>
    rw [List.forall_mem_cons] at hchars
    refine (if_neg hchars.1).trans ?_
    -- the scan runs from the end, so what is left of the word is whole when `c` joins it
    cases rest with
    | nil => exact join_of_apart h
    | cons d rest =>
      show join c (scan (d :: rest) after) = _
      rw [ih (List.cons_ne_nil d rest) hchars.2]
      rfl

/-- Checks the characters of a list one by one. -/
theorem notMem_marks_of_all {chars : List Char} (h : chars.all (fun c => c ∉ marks) = true) :
    ∀ c ∈ chars, c ∉ marks := by
  intro c hc
  exact of_decide_eq_true (List.all_eq_true.mp h c hc)

end Lexeme

open Lexeme

/-! ## Words of numbers and names -/

theorem HexStyle.notMem_marks : ∀ c ∈ upperDigits, c ∉ marks :=
  notMem_marks_of_all (by decide)

namespace Numeral

theorem isWord_decimal (n : Int) : IsWord (decimal n).toList := by
  constructor
  · rw [toList_decimal]
    simp [Nat.toDigits_ne_nil]
  · intro c hc
    rcases mem_decimal hc with rfl | hdigit
    · decide
    · exact HexStyle.notMem_marks c hdigit

theorem isWord_cons_decimal {c : Char} (hc : c ∉ marks) (n : Int) :
    IsWord (c :: (decimal n).toList) :=
  ⟨List.cons_ne_nil c _, List.forall_mem_cons.mpr ⟨hc, (isWord_decimal n).2⟩⟩

theorem isWord_signedDecimal (n : Int) : IsWord (signedDecimal n).toList := by
  unfold signedDecimal
  split
  · exact isWord_decimal n
  · rw [String.toList_append]
    exact isWord_cons_decimal (by decide) n

/-- A letter and a number make a word. -/
theorem isWord_append_decimal {file : String} {letter : Char} (hfile : file.toList = [letter])
    (hletter : letter ∉ marks) (n : Int) : IsWord (file ++ decimal n).toList := by
  rw [String.toList_append, hfile]
  exact isWord_cons_decimal hletter n

end Numeral

/-! ## Tokens -/

namespace Token

variable {after : List Lexeme}

/-- The lexemes of a token that comes before other lexemes. -/
def scan (token : Token) (after : List Lexeme) : List Lexeme :=
  Lexeme.scan token.toText.toList after

/-- The lexemes of text are those of its tokens. -/
theorem scan_render (tokens : List Token) (after : List Lexeme) :
    Lexeme.scan (render tokens).toList after = tokens.foldr scan after := by
  induction tokens with
  | nil => rfl
  | cons token tokens ih =>
    show Lexeme.scan (token.toText ++ render tokens).toList after = token.scan _
    rw [String.toList_append, ← ih]
    exact List.foldr_append

@[simp] theorem scan_comma : (separator ",").scan after = .mark ',' :: after :=
  rfl

@[simp] theorem scan_hash : (text "#").scan after = .mark '#' :: after :=
  rfl

@[simp] theorem scan_minus (h : Apart after) : (text "-").scan after = .word ['-'] :: after :=
  scan_word (show IsWord ['-'] by decide) h

@[simp] theorem scan_integer (n : Int) (h : Apart after) :
    (integer n).scan after = .word (Numeral.decimal n).toList :: after :=
  scan_word (Numeral.isWord_decimal n) h

@[simp] theorem scan_relative (n : Int) (h : Apart after) :
    (relative n).scan after = .mark '*' :: .word (Numeral.signedDecimal n).toList :: after := by
  rw [← scan_word (Numeral.isWord_signedDecimal n) h]
  show Lexeme.scan ("*" ++ Numeral.signedDecimal n).toList after = _
  rw [String.toList_append]
  rfl

@[simp] theorem scan_beginMemory : beginMemory.scan after = .mark '(' :: after :=
  rfl

@[simp] theorem scan_endMemory : (endMemory "").scan after = .mark ')' :: after :=
  rfl

theorem scan_endMemory_suffix (suffix : String) (hsuffix : IsWord suffix.toList)
    (h : Apart after) :
    (endMemory suffix).scan after = .mark ')' :: .word suffix.toList :: after := by
  rw [← scan_word hsuffix h]
  show Lexeme.scan (")" ++ suffix).toList after = _
  rw [String.toList_append]
  rfl

theorem scan_register {name : String} (hname : IsWord name.toList) (h : Apart after) :
    (register name).scan after = .word name.toList :: after :=
  scan_word hname h

@[simp] theorem scan_programCounter (h : Apart after) :
    (register "PC").scan after = .word ['P', 'C'] :: after :=
  scan_register (show IsWord ['P', 'C'] by decide) h

/-- A register with a number is the letter of its file and the number in one word. -/
theorem scan_registerToken {file : String} {letter : Char} (hfile : file.toList = [letter])
    (hletter : letter ∉ marks) (n : Int) (h : Apart after) :
    (EffectiveAddress.registerToken file n).scan after =
      .word (letter :: (Numeral.decimal n).toList) :: after := by
  rw [EffectiveAddress.registerToken,
    scan_register (Numeral.isWord_append_decimal hfile hletter n) h, String.toList_append, hfile]
  rfl

@[simp] theorem scan_base (n : Int) (h : Apart after) :
    (EffectiveAddress.registerToken "A" n).scan after =
      .word ('A' :: (Numeral.decimal n).toList) :: after :=
  scan_registerToken rfl (by decide) n h

@[simp] theorem scan_index (n : Int) (h : Apart after) :
    (EffectiveAddress.registerToken "X" n).scan after =
      .word ('X' :: (Numeral.decimal n).toList) :: after :=
  scan_registerToken rfl (by decide) n h

end Token

/-! ## The grammar -/

/-- Reads the number of a register after the letter of its file. -/
def Text.register? (file : Char) : List Char → Option Int
  | [] => none
  | c :: digits => if c = file then decimal? digits else none

@[simp] theorem Text.register?_cons (file : Char) (n : Int) :
    register? file (file :: (Numeral.decimal n).toList) = some n := by
  rw [register?, if_pos rfl, Numeral.decimal?_decimal]

/-- Reads an operand in memory after its opening parenthesis. -/
def EffectiveAddress.read? : List Lexeme → Option (EffectiveAddress × List Lexeme)
  | .word addr :: .mark ')' :: .word ['.', 'W'] :: rest =>
    (Text.decimal? addr).map fun n => (absShort n, rest)
  | .word addr :: .mark ')' :: .word ['.', 'L'] :: rest =>
    (Text.decimal? addr).map fun n => (absLong n, rest)
  | .word base :: .mark ')' :: .word ['+'] :: rest =>
    (Text.register? 'A' base).map fun reg => (postIncrement reg, rest)
  | .word base :: .mark ')' :: rest =>
    (Text.register? 'A' base).map fun reg => (addrIndirect reg, rest)
  | .word disp :: .mark ',' :: .word ['P', 'C'] :: .mark ')' :: rest =>
    (Text.decimal? disp).map fun d => (pcDisp d, rest)
  | .word disp :: .mark ',' :: .word base :: .mark ')' :: rest => do
    let d ← Text.decimal? disp
    let reg ← Text.register? 'A' base
    return (addrDisp reg d, rest)
  | .word disp :: .mark ',' :: .word ['P', 'C'] :: .mark ',' :: .word index :: .mark ')' ::
      rest => do
    let d ← Text.decimal? disp
    let i ← Text.register? 'X' index
    return (pcIndex d i, rest)
  | .word disp :: .mark ',' :: .word base :: .mark ',' :: .word index :: .mark ')' :: rest => do
    let d ← Text.decimal? disp
    let reg ← Text.register? 'A' base
    let i ← Text.register? 'X' index
    return (addrIndex reg d i, rest)
  | _ => none

namespace Operand

/-- What the text of an operand says. Different operands may say the same: a number is a number
wherever it comes from, and a register may be one by itself or the only one of a list. -/
inductive Reading where
  /-- A number after `#`. -/
  | number (value : Int)
  /-- Names of registers with slashes between them. -/
  | registers (names : List String)
  /-- An operand in memory, in parentheses. -/
  | memory (address : EffectiveAddress)
  /-- A displacement after `*`. -/
  | branch (disp : Int)
deriving DecidableEq, Repr

/-- What an operand says in its text. -/
def reading : Operand → Reading
  | .ea (.dataReg reg) => .registers ["D" ++ Numeral.decimal reg]
  | .ea (.addrReg reg) => .registers ["A" ++ Numeral.decimal reg]
  | .ea (.immediate value _) => .number value
  | .ea address => .memory address
  | .quick value => .number value
  | .specialReg name => .registers [name]
  | .regList _ [] => .number 0
  | .regList _ (name :: names) => .registers (name :: names)
  | .branchDisp disp => .branch disp

/-- Reads names with slashes between them. -/
def readNames : List Lexeme → List String × List Lexeme
  | .word name :: .mark '/' :: rest =>
    (String.ofList name :: (readNames rest).1, (readNames rest).2)
  | .word name :: rest => ([String.ofList name], rest)
  | rest => ([], rest)

/-- Reads an operand and leaves what comes after it. -/
def read? : List Lexeme → Option (Reading × List Lexeme)
  | .mark '#' :: .word value :: rest =>
    (Text.decimal? value).map fun n => (.number n, rest)
  | .mark '*' :: .word disp :: rest =>
    (Text.decimal? disp).map fun d => (.branch d, rest)
  | .mark '(' :: rest =>
    (EffectiveAddress.read? rest).map fun (address, rest) => (.memory address, rest)
  | .word ['-'] :: .mark '(' :: .word base :: .mark ')' :: rest =>
    (Text.register? 'A' base).map fun reg => (.memory (.preDecrement reg), rest)
  | rest => some (.registers (readNames rest).1, (readNames rest).2)

/-! ## Reading back -/

variable {after : List Lexeme}

/-- The lexemes of the names that come after the first one of a list. -/
def furtherNames (names : List String) : List Lexeme :=
  names.flatMap fun name => [.mark '/', .word name.toList]

/-- A list of names is scanned as words with slashes between them. -/
theorem scan_names {name : String} {names : List String}
    (hnames : ∀ n ∈ name :: names, IsWord n.toList) (h : Apart after) :
    (((name :: names).map Token.register).intersperse (.separator "/")).foldr Token.scan after =
      .word name.toList :: (furtherNames names ++ after) := by
  induction names generalizing name with
  | nil => exact Token.scan_register (hnames name List.mem_cons_self) h
  | cons next names ih =>
    rw [List.forall_mem_cons] at hnames
    have hrest := ih hnames.2
    rw [List.map_cons] at hrest
    show (Token.register name).scan (.mark '/' :: List.foldr Token.scan after _) = _
    rw [hrest, Token.scan_register hnames.1 (apart_mark ..)]
    rfl

/-- Names are read up to the one that no slash follows. -/
theorem readNames_scan (name : String) (names : List String) (h : Follows after) :
    readNames (.word name.toList :: (furtherNames names ++ after)) = (name :: names, after) := by
  induction names generalizing name with
  | nil =>
    show readNames (.word name.toList :: after) = _
    cases h <;> simp [readNames]
  | cons next names ih =>
    show readNames (.word name.toList :: .mark '/' ::
      .word next.toList :: (furtherNames names ++ after)) = _
    rw [readNames, ih, String.ofList_toList]

/-- What begins with a word is a list of names unless a parenthesis follows the word. -/
theorem read?_word {chars : List Char} {rest : List Lexeme}
    (h : ∀ inside, rest ≠ .mark '(' :: inside) :
    read? (.word chars :: rest) =
      some (.registers (readNames (.word chars :: rest)).1,
        (readNames (.word chars :: rest)).2) := by
  rw [read?]
  · rintro value rest ⟨⟩
  · rintro disp rest ⟨⟩
  · rintro rest ⟨⟩
  · rintro base inside ⟨⟩
    exact h _ rfl

theorem read?_names {name : String} {names : List String}
    (hnames : ∀ n ∈ name :: names, IsWord n.toList) (h : Follows after) :
    read? ((((name :: names).map Token.register).intersperse (.separator "/")).foldr
      Token.scan after) = some (.registers (name :: names), after) := by
  rw [scan_names hnames h.apart, read?_word, readNames_scan name names h]
  -- a slash, a comma or nothing comes after the first name
  intro inside hinside
  cases names with
  | nil => cases h <;> cases hinside
  | cons next names => cases hinside

theorem read?_register {name : String} (hname : IsWord name.toList) (h : Follows after) :
    read? ((Token.register name).scan after) = some (.registers [name], after) :=
  read?_names (List.forall_mem_singleton.mpr hname) h

/-- An effective address is read back from its text. -/
theorem read?_address (address : EffectiveAddress) (h : Follows after) :
    read? (address.tokens.foldr Token.scan after) =
      some ((Operand.ea address).reading, after) := by
  cases address with
  | dataReg reg => exact read?_register (Numeral.isWord_append_decimal rfl (by decide) reg) h
  | addrReg reg => exact read?_register (Numeral.isWord_append_decimal rfl (by decide) reg) h
  | addrIndirect reg =>
    -- no suffix: the parenthesis is the end, or a comma comes next
    cases h <;> simp [EffectiveAddress.tokens, read?, EffectiveAddress.read?, reading]
  | postIncrement reg =>
    have hclose := Token.scan_endMemory_suffix "+" (by decide) h.apart
    simp [EffectiveAddress.tokens, read?, EffectiveAddress.read?, reading, hclose]
  | preDecrement reg =>
    simp [EffectiveAddress.tokens, read?, reading]
  | absShort addr =>
    have hclose := Token.scan_endMemory_suffix ".W" (by decide) h.apart
    simp [EffectiveAddress.tokens, read?, EffectiveAddress.read?, reading, hclose]
  | absLong addr =>
    have hclose := Token.scan_endMemory_suffix ".L" (by decide) h.apart
    simp [EffectiveAddress.tokens, read?, EffectiveAddress.read?, reading, hclose]
  | addrDisp reg disp => simp [EffectiveAddress.tokens, read?, EffectiveAddress.read?, reading]
  | addrIndex reg disp index =>
    simp [EffectiveAddress.tokens, read?, EffectiveAddress.read?, reading]
  | pcDisp disp => simp [EffectiveAddress.tokens, read?, EffectiveAddress.read?, reading]
  | pcIndex disp index => simp [EffectiveAddress.tokens, read?, EffectiveAddress.read?, reading]
  | immediate value size => simp [EffectiveAddress.tokens, read?, reading, h.apart]

/-- The registers of the operand have words for names. -/
def Named : Operand → Prop
  | .specialReg name => IsWord name.toList
  | .regList _ names => ∀ name ∈ names, IsWord name.toList
  | _ => True

/-- **An operand is read back from its text**, and what comes after it is left. -/
theorem read?_scan {operand : Operand} (hnamed : operand.Named) (h : Follows after) :
    read? (operand.tokens.foldr Token.scan after) = some (operand.reading, after) := by
  cases operand with
  | ea address => exact read?_address address h
  | quick value => simp [tokens, read?, reading, h.apart]
  | specialReg name => exact read?_register hnamed h
  | regList mask names =>
    cases names with
    | nil => simp [tokens, read?, reading, h.apart]
    | cons name names => exact read?_names hnamed h
  | branchDisp disp => simp [tokens, read?, reading, h.apart]

/-! ## Instructions -/

/-- Operands whose text begins the same way say the same and leave the same. -/
theorem reading_of_scan_eq {first second : Operand} {after after' : List Lexeme}
    (hfirst : first.Named) (hsecond : second.Named) (hafter : Follows after)
    (hafter' : Follows after')
    (h : first.tokens.foldr Token.scan after = second.tokens.foldr Token.scan after') :
    first.reading = second.reading ∧ after = after' := by
  have hread := read?_scan hfirst hafter
  rw [h, read?_scan hsecond hafter'] at hread
  exact Prod.mk.inj (Option.some.inj hread.symm)

/-- The lexemes of operands that come after another one. -/
def scanRest (operands : List Operand) : List Lexeme :=
  (operands.flatMap fun operand => .separator "," :: operand.tokens).foldr Token.scan []

theorem scanRest_cons (operand : Operand) (operands : List Operand) :
    scanRest (operand :: operands) =
      .mark ',' :: operand.tokens.foldr Token.scan (scanRest operands) := by
  rw [scanRest, List.flatMap_cons, List.foldr_append]
  rfl

theorem follows_scanRest (operands : List Operand) : Follows (scanRest operands) := by
  cases operands with
  | nil => exact .nothing
  | cons operand operands =>
    rw [scanRest_cons]
    exact .comma _

/-- Commas outside parentheses tell operands apart. -/
theorem readings_of_scanRest {operands operands' : List Operand}
    (hnamed : ∀ operand ∈ operands, operand.Named)
    (hnamed' : ∀ operand ∈ operands', operand.Named) (h : scanRest operands = scanRest operands') :
    operands.map reading = operands'.map reading := by
  induction operands generalizing operands' with
  | nil =>
    cases operands' with
    | nil => rfl
    | cons other others =>
      rw [scanRest_cons] at h
      cases h
  | cons operand operands ih =>
    cases operands' with
    | nil =>
      rw [scanRest_cons] at h
      cases h
    | cons other others =>
      rw [List.forall_mem_cons] at hnamed hnamed'
      rw [scanRest_cons, scanRest_cons] at h
      -- reading the first operand on both sides leaves the rests, which agree again
      obtain ⟨hhead, hrest⟩ := reading_of_scan_eq hnamed.1 hnamed'.1 (follows_scanRest operands)
        (follows_scanRest others) (List.cons.inj h).2
      rw [List.map_cons, List.map_cons, hhead, ih hnamed.2 hnamed'.2 hrest]

end Operand

namespace Instruction

open Operand

/-- The lexemes of the operands of an instruction. -/
def scanOperands (operands : List Operand) : List Lexeme :=
  (operandTokens operands).foldr Token.scan []

theorem scanOperands_cons (operand : Operand) (operands : List Operand) :
    scanOperands (operand :: operands) =
      .mark ' ' :: operand.tokens.foldr Token.scan (scanRest operands) := by
  rw [scanOperands, operandTokens]
  simp only [List.cons_append, List.foldr_cons, List.foldr_append]
  rfl

theorem apart_scanOperands (operands : List Operand) : Apart (scanOperands operands) := by
  cases operands with
  | nil => trivial
  | cons operand operands =>
    rw [scanOperands_cons]
    exact apart_mark ..

/-- A blank comes before the first operand where a comma comes before the others. -/
theorem scanRest_eq_modifyHead (operands : List Operand) :
    scanRest operands = (scanOperands operands).modifyHead fun _ => .mark ',' := by
  cases operands with
  | nil => rfl
  | cons operand operands =>
    rw [scanRest_cons, scanOperands_cons]
    rfl

variable {instruction instruction' : Instruction}

/-- The mnemonic of the instruction and the registers of its operands are words. -/
structure Spelled (instruction : Instruction) : Prop where
  mnemonic : IsWord instruction.fullMnemonic.toList
  operands : ∀ operand ∈ instruction.operands, operand.Named

theorem scan_text (h : instruction.Spelled) :
    Lexeme.scan instruction.text.toList [] =
      .word instruction.fullMnemonic.toList :: scanOperands instruction.operands := by
  rw [text, Token.scan_render]
  exact scan_word h.mnemonic (apart_scanOperands _)

/-- The text of an instruction tells its mnemonic and what its operands say. -/
theorem readings_of_text (h : instruction.Spelled) (h' : instruction'.Spelled)
    (htext : instruction.text = instruction'.text) :
    instruction.fullMnemonic = instruction'.fullMnemonic ∧
      instruction.operands.map reading = instruction'.operands.map reading := by
  have hscan := scan_text h
  rw [htext, scan_text h'] at hscan
  obtain ⟨hword, hoperands⟩ := List.cons.inj hscan
  refine ⟨String.toList_inj.mp (Lexeme.word.inj hword).symm, ?_⟩
  refine readings_of_scanRest h.operands h'.operands ?_
  rw [scanRest_eq_modifyHead, scanRest_eq_modifyHead, hoperands]

end Instruction

end Disasm68k
