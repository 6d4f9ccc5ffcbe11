/-!
# Paths of image files

A path is written in its shortest form: repeated slashes, components that stand for the
current directory and a final slash are dropped, components that stand for the parent
directory stay, and the empty path is the current directory. A path that begins with
exactly two slashes keeps them.

Reference: specification §6.4, the `image` argument of `build_parser`.
-/

namespace Disasm68k

namespace ImagePath

/-- The components of a path: the runs of characters between slashes. -/
def components (path : List Char) : List (List Char) :=
  path.splitOn '/'

/-- The slashes at the start of the written path. -/
def root (path : List Char) : List Char :=
  match (path.takeWhile (· = '/')).length with
  | 0 => []
  | 2 => ['/', '/']
  | _ => ['/']

/-- Whether a component names something other than the directory that it stands in. -/
def isProper (component : List Char) : Bool :=
  component ≠ [] && component ≠ ['.']

/-- The path as written. -/
def normalize (path : String) : String :=
  let chars := path.toList
  let written := root chars ++ ['/'].intercalate ((components chars).filter isProper)
  if written.isEmpty then "." else String.ofList written

end ImagePath

end Disasm68k
