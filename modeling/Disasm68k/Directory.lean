import Disasm68k.ImagePath

/-!
# Looking up images

A path is followed name by name, from the working directory or, if it begins with a
slash, from the root. It leads to a file, or to none, or it is refused because the whole
path or a name that is reached on the way is too long.

- `Lookup`: what looking up a path gives;
- `Directory`: the files of a working directory;
- `Directory.lookup`: looks up a path in a working directory of which nothing but its
  files is known.

Reference: specification §6.4, the image that `main` opens.
-/

namespace Disasm68k

/-- What looking up a path gives. -/
inductive Lookup where
  /-- A file with these bytes. -/
  | file (bytes : Array UInt8)
  /-- There is no such file. -/
  | missing
  /-- The path or a name in it is too long. -/
  | tooLong
deriving DecidableEq, Repr

/-- The files of a directory by name; it has no directories of its own. -/
structure Directory where
  files : List (String × Array UInt8)
deriving DecidableEq, Repr

namespace Directory

/-- The greatest number of bytes of a path. -/
def pathLimit : Nat := 4095

/-- The greatest number of bytes of a name in a path. -/
def nameLimit : Nat := 255

/-- The name of the directory above. -/
def parentName : List Char := ['.', '.']

/-- Follows names one after the other, from the directory itself or from one outside it.
Outside the directory only the way up is known. -/
def follow (directory : Directory) (inside : Bool) : List (List Char) → Lookup
  | [] => .missing
  | name :: rest =>
    if name = parentName then directory.follow false rest
    else if nameLimit < (String.ofList name).utf8ByteSize then .tooLong
    else
      match inside, directory.files.lookup (String.ofList name) with
      | true, some bytes => if rest.isEmpty then .file bytes else .missing
      | _, _ => .missing

/-- Looks up a path. A path with a null character leads nowhere, however long it is. -/
def lookup (directory : Directory) (path : String) : Lookup :=
  let chars := path.toList
  if chars.contains '\x00' then .missing
  else if pathLimit < path.utf8ByteSize then .tooLong
  else
    directory.follow (chars.head? ≠ some '/')
      ((ImagePath.components chars).filter ImagePath.isProper)

end Directory

end Disasm68k
