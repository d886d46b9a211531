/-!
File paths as text, their components, and the names that a program may use for files.
-/

namespace Pseudocode.CommandLine

/-- What a path goes through: the root, the place where it is, the place above, or a name. -/
inductive Component where
  | root
  | current
  | parent
  | ordinary (name : List Char)
deriving DecidableEq, Repr

/-- The pieces between the slashes. -/
def pieces : List Char → List (List Char)
  | [] => [[]]
  | c :: rest =>
    if c = '/' then [] :: pieces rest
    else
      match pieces rest with
      | [] => [[c]]
      | piece :: more => (c :: piece) :: more

/-- The component of a piece behind the first. An empty one and a single dot go nowhere. -/
def innerComponent? : List Char → Option Component
  | [] => none
  | ['.'] => none
  | ['.', '.'] => some .parent
  | name => some (.ordinary name)

/-- The components of a path. A slash in front is the root, and a dot counts only as the first
piece. -/
def components (path : List Char) : List Component :=
  match pieces path with
  | [] => []
  | [] :: [] => []
  | [] :: more => .root :: more.filterMap innerComponent?
  | ['.'] :: more => .current :: more.filterMap innerComponent?
  | first :: more => (innerComponent? first).toList ++ more.filterMap innerComponent?

def Component.isOrdinary : Component → Bool
  | .ordinary _ => true
  | _ => false

/-- A relative path behind a directory, with a slash between them unless the directory is empty or ends with one. -/
def join (dir name : String) : String :=
  if dir.toList.getLast?.all (· == '/') then dir ++ name else dir ++ "/" ++ name

/-- The path of a program's file in a directory. A name that could lead out of the directory is
refused. -/
def pathInDir? (dir name : String) : Option String :=
  let cs := components name.toList
  if !cs.isEmpty && cs.all Component.isOrdinary then some (join dir name) else none

end Pseudocode.CommandLine
