import Disasm68k.Layout.Detail

/-!
# Layout of extension words

Decoding an instruction leaves a record of the extension words: which bytes belong to
which operand and how they are to be read.

- `Layout.Entry`: one recorded field, with its key, its kind and further details;
- `Layout.Entry.make`: an entry for the bytes from a start offset to the present one;
- `Layout.Entry.reservedName?`: a name that stands for something else in a record.

Reference: specification §3, the recorded layout (`LayoutEntry`, `record_operand`).
-/

namespace Disasm68k

namespace Layout

/-- One field of the extension words. -/
structure Entry where
  /-- The part that the field plays in the instruction. -/
  key : String
  /-- How the bytes of the field are read. -/
  kind : String
  /-- Named details, such as where the field begins and how long it is. -/
  details : List (String × Detail)
deriving DecidableEq

namespace Entry

/-- The name of the detail that tells where a field begins. -/
def offsetName : String := "offset"

/-- The name of the detail that tells how many bytes a field has. -/
def lengthName : String := "length_bytes"

/-- The name of the detail that tells how many bits an immediate has. -/
def widthName : String := "width"

/-- Adds a detail unless the name is taken. -/
def addDetail (name : String) (value : Detail) (details : List (String × Detail)) :
    List (String × Detail) :=
  if (details.lookup name).isSome then details else details ++ [(name, value)]

/-- An entry that ends at the offset `now`. With a start offset, the details tell the
offset and the length of the field, unless they do so already. -/
def make (key kind : String) (start : Option Int) (now : Int)
    (details : List (String × Detail)) : Entry :=
  match start with
  | none => ⟨key, kind, details⟩
  | some offset =>
    ⟨key, kind, addDetail lengthName (.number (now - offset))
      (addDetail offsetName (.number offset) details)⟩

/-- The names that the parts of a record itself go by. -/
def reservedNames : List String :=
  ["self", "key", "kind", "start"]

/-- The first detail whose name is reserved, if there is one. -/
def reservedName? (details : List (String × Detail)) : Option String :=
  (details.map Prod.fst).find? reservedNames.contains

/-- The number noted under a name. -/
def number? (entry : Entry) (name : String) : Option Int :=
  match entry.details.lookup name with
  | some (.number value) => some value
  | _ => none

/-- Where the field begins, counted from the instruction word. -/
def offset? (entry : Entry) : Option Int :=
  entry.number? offsetName

/-- The number of bytes of the field. -/
def length? (entry : Entry) : Option Int :=
  entry.number? lengthName

end Entry

end Layout

end Disasm68k
