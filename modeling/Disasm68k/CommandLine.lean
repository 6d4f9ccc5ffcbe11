import Disasm68k.CommandLine.Argument
import Disasm68k.ImagePath
import Disasm68k.Text.Integer

/-!
# The command line

The command line names an image and sets options in any order; the last setting of an
option wins.

- `CommandLine.Value`: what an option that takes a number is set to;
- `CommandLine.Arguments`: what a command line says;
- `CommandLine.Stop`: why there is nothing to run: help was asked for, or misuse;
- `CommandLine.parse`: reads a command line.

Reference: specification §6.4, the command line (`build_parser`).
-/

namespace Disasm68k

namespace CommandLine

/-- What an option that takes a number is set to. -/
inductive Value where
  /-- The option is not given. -/
  | absent
  | number (value : Int)
  /-- The option is given without a number: a double dash is attached to it. -/
  | blank
deriving DecidableEq, Repr

/-- The number that an option gives, if it is given at all; a blank value leaves that
open. -/
def Value.number? : Value → Option (Option Int)
  | absent => some none
  | number value => some (some value)
  | blank => none

/-- What the options say. -/
structure Options where
  base : Value
  start : Value
  stop : Value
  count : Value
  littleEndian : Option Bool
  bytes : Bool
  verbose : Bool
deriving DecidableEq, Repr

/-- The options when none is given: words are shown and the log is short. -/
def Options.default : Options :=
  ⟨.absent, .absent, .absent, .absent, none, true, false⟩

/-- What a command line says. -/
structure Arguments where
  /-- The path of the image. -/
  image : String
  options : Options
deriving DecidableEq, Repr

/-- Why a command line gives nothing to run. -/
inductive Stop where
  | help
  | misuse (misuse : Misuse)
deriving DecidableEq, Repr

/-- A command line that has been read in part. -/
structure Draft where
  image : Option String
  /-- Whether the argument just read was the image. -/
  atImage : Bool
  /-- Arguments that nothing has a use for. -/
  extras : List String
  options : Options
deriving DecidableEq, Repr

namespace Draft

/-- Nothing has been read yet. -/
def empty : Draft :=
  ⟨none, false, [], .default⟩

/-- A plain argument is the image if there is none yet. -/
def addPlain (draft : Draft) (text : String) : Draft :=
  match draft.image with
  | none => { draft with image := some text, atImage := true }
  | some _ => { draft with extras := draft.extras ++ [text], atImage := false }

/-- A double dash is dropped before or right after the image. -/
def addTerminator (draft : Draft) : Draft :=
  if draft.image.isNone || draft.atImage then { draft with atImage := false }
  else { draft with extras := draft.extras ++ ["--"], atImage := false }

/-- An argument that nothing has a use for. -/
def addUnknown (draft : Draft) (text : String) : Draft :=
  { draft with extras := draft.extras ++ [text], atImage := false }

end Draft

/-- Reads the number of an option. -/
def NumberOption.parse? (option : NumberOption) (text : String) : Option Int :=
  match option with
  | count => Text.parseDecimal? text
  | _ => Text.parseInteger? text

/-- Reads the value of an option. A double dash, which can only be attached to the option,
is a blank value. -/
def NumberOption.value? (option : NumberOption) (text : String) : Option Value :=
  if text = "--" then some .blank else (option.parse? text).map .number

/-- Sets the value of an option that takes a number. -/
def Options.setValue (options : Options) (option : NumberOption) (value : Value) : Options :=
  match option with
  | .base => { options with base := value }
  | .start => { options with start := value }
  | .stop => { options with stop := value }
  | .count => { options with count := value }

/-- Sets a flag. -/
def Options.setFlag (options : Options) (option : FlagOption) (value : Bool) : Options :=
  match option with
  | .littleEndian => { options with littleEndian := some value }
  | .bytes => { options with bytes := value }
  | .verbose => { options with verbose := value }

/-- Gives a value to an option that takes a number. -/
def Draft.setValue (draft : Draft) (option : NumberOption) (text : String) :
    Except Stop Draft :=
  match option.value? text with
  | none => .error (.misuse (.invalidValue option.label option.valueName text))
  | some value =>
    .ok { draft with options := draft.options.setValue option value, atImage := false }

/-- Takes actions that need no value. -/
def Draft.act (draft : Draft) : List Action → Except Stop Draft
  | [] => .ok { draft with atImage := false }
  | .help :: _ => .error .help
  | .number option :: _ => .error (.misuse (.missingValue option.label))
  | .flag option value :: rest =>
    Draft.act { draft with options := draft.options.setFlag option value } rest

/-- The actions of short options joined to a first one, which has been met already. -/
def joinedActions (first : Action) : List Char → Except Stop (List Action)
  | [] => .ok [first]
  | c :: rest =>
    match findOption? ['-', c] with
    | none =>
      .error (.misuse (.surplusValue first.label (String.ofList (c :: rest))))
    | some name =>
      match joinedActions name.action rest with
      | .error stop => .error stop
      | .ok actions => .ok (first :: actions)

/-- The actions of an option without a value of its own. Only a short option may have
something attached to it, namely further short options. -/
def flagActions (name : OptionName) : Option (List Char) → Except Stop (List Action)
  | none => .ok [name.action]
  | some attached =>
    if name.chars.take 2 = ['-', '-'] ∨ attached = [] then
      .error (.misuse (.surplusValue name.action.label (String.ofList attached)))
    else joinedActions name.action attached

/-- Reads sorted arguments from first to last. -/
def consume (draft : Draft) : List Argument → Except Stop Draft
  | [] => .ok draft
  | .plain text :: rest => consume (draft.addPlain text) rest
  | .terminator :: rest => consume draft.addTerminator rest
  | .unknown text :: rest => consume (draft.addUnknown text) rest
  | .option ⟨_, .number option⟩ (some attached) :: rest =>
    match draft.setValue option (String.ofList attached) with
    | .error stop => .error stop
    | .ok draft' => consume draft' rest
  | .option ⟨_, .number option⟩ none :: .plain text :: rest =>
    match draft.setValue option text with
    | .error stop => .error stop
    | .ok draft' => consume draft' rest
  | .option ⟨_, .number option⟩ none :: _ => .error (.misuse (.missingValue option.label))
  | .option name attached :: rest =>
    match flagActions name attached with
    | .error stop => .error stop
    | .ok actions =>
      match draft.act actions with
      | .error stop => .error stop
      | .ok draft' => consume draft' rest

/-- What a command line says that has been read to its end: the image must be there and
nothing may be left over. -/
def Draft.finish (draft : Draft) : Except Stop Arguments :=
  match draft.image, draft.extras with
  | none, _ => .error (.misuse .missingImage)
  | some image, [] => .ok ⟨ImagePath.normalize image, draft.options⟩
  | some _, extras => .error (.misuse (.unrecognized extras))

/-- Reads a command line. -/
def parse (arguments : List String) : Except Stop Arguments :=
  match sort arguments with
  | .error misuse => .error (.misuse misuse)
  | .ok sorted =>
    match consume .empty sorted with
    | .error stop => .error stop
    | .ok draft => draft.finish

end CommandLine

end Disasm68k
