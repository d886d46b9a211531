import Pseudocode.CommandLine.Path

/-!
The files below a working directory, and what can be said about paths from there. Nothing is known
of the world outside it.
-/

namespace Pseudocode.CommandLine

inductive PathError where
  | notFound
  | notDirectory
  | isDirectory
  | nameTooLong
  | nulByte
deriving DecidableEq, Repr

/-- The wording of the operating system. -/
def PathError.message : PathError → String
  | .notFound => "No such file or directory (os error 2)"
  | .notDirectory => "Not a directory (os error 20)"
  | .isDirectory => "Is a directory (os error 21)"
  | .nameTooLong => "File name too long (os error 36)"
  | .nulByte => "file name contained an unexpected NUL byte"

/-- The names that lead to a file from the working directory. -/
abbrev Route := List (List Char)

/-- Every directory holds a file, directly or further below. -/
structure FileTree where
  files : List (Route × String)
deriving DecidableEq, Repr

/-- The longest name, in bytes, that a directory takes. -/
def maxNameBytes : Nat := 255

/-- The number of bytes from which on a path is too long. -/
def maxPathBytes : Nat := 4096

/-- Where a path leads: a route from the working directory, or some place outside. -/
inductive Place where
  | inside (route : Route)
  | outside
deriving DecidableEq, Repr

namespace FileTree

def ofList (files : List (String × String)) : FileTree :=
  ⟨files.map fun file => (pieces file.1.toList, file.2)⟩

/-- A file's name with its directories. -/
def nameOf (route : Route) : String := String.intercalate "/" (route.map String.ofList)

def toList (t : FileTree) : List (String × String) := t.files.map fun file => (nameOf file.1, file.2)

def file? (t : FileTree) (route : Route) : Option String := t.files.lookup route

def isDirectory (t : FileTree) (route : Route) : Bool :=
  route.isEmpty || t.files.any fun file => route.isPrefixOf file.1 && route.length < file.1.length

/-- The place that a name leads to from a directory, whether or not there is anything. -/
def child (place : Place) (name : List Char) : Except PathError Place :=
  if maxNameBytes < (String.ofList name).utf8ByteSize then .error .nameTooLong
  else
    match place with
    | .inside route => .ok (.inside (route ++ [name]))
    | .outside => .error .notFound

/-- The place above a directory. -/
def above : Place → Place
  | .inside [] => .outside
  | .inside route => .inside route.dropLast
  | .outside => .outside

/-- Whether a place can be gone through. -/
def enter (t : FileTree) (place : Place) : Except PathError Unit :=
  match place with
  | .outside => .ok ()
  | .inside route =>
    if t.isDirectory route then .ok ()
    else if (t.file? route).isSome then .error .notDirectory
    else .error .notFound

/-- Follows pieces of a path from a directory to an existing directory. -/
def walk (t : FileTree) (place : Place) : List (List Char) → Except PathError Place
  | [] => .ok place
  | [] :: rest => walk t place rest
  | ['.'] :: rest => walk t place rest
  | ['.', '.'] :: rest => walk t (above place) rest
  | name :: rest => do
    let next ← child place name
    t.enter next
    walk t next rest

/-- The directory that a path is read from, and the pieces left. -/
def origin (path : List Char) : Place × List (List Char) :=
  match path with
  | '/' :: rest => (.outside, pieces rest)
  | path => (.inside [], pieces path)

/-- Refuses what is no path at all. -/
def checkPath (path : String) : Except PathError Unit :=
  if path.toList.contains '\x00' then .error .nulByte
  else if maxPathBytes ≤ path.utf8ByteSize then .error .nameTooLong
  else if path.isEmpty then .error .notFound
  else .ok ()

/-- A path's last piece if it is a name, and the directory before it. -/
def resolve (t : FileTree) (path : String) : Except PathError (Place × List Char) := do
  checkPath path
  let (start, ps) := origin path.toList
  let place ← t.walk start ps.dropLast
  pure (place, ps.getLast?.getD [])

/-- The content of the file at a path. -/
def read (t : FileTree) (path : String) : Except PathError String := do
  let (place, last) ← t.resolve path
  match last with
  | [] | ['.'] | ['.', '.'] => throw .isDirectory
  | name =>
    match ← child place name with
    | .outside => throw .notFound
    | .inside route =>
      match t.file? route with
      | some content => pure content
      | none => throw (if t.isDirectory route then .isDirectory else .notFound)

/-- The files with the content of one replaced, or with one more. -/
def putIn (route : Route) (content : String) : List (Route × String) → List (Route × String)
  | [] => [(route, content)]
  | file :: rest => if file.1 == route then (route, content) :: rest else file :: putIn route content rest

/-- Writes the file at a path, which is made if it is not there; its directory must be. -/
def write (t : FileTree) (path content : String) : Except PathError FileTree := do
  checkPath path
  let (start, ps) := origin path.toList
  let named := ps.reverse.dropWhile List.isEmpty
  if named.length < ps.length then
    discard <| t.walk start (named.drop 1).reverse
    throw .isDirectory
  let (place, last) ← t.resolve path
  match last with
  | ['.'] | ['.', '.'] => throw .isDirectory
  | name =>
    match ← child place name with
    | .outside => throw .notFound
    | .inside route =>
      if t.isDirectory route then throw .isDirectory
      pure ⟨putIn route content t.files⟩

end FileTree

end Pseudocode.CommandLine
