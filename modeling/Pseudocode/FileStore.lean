import Pseudocode.Syntax
import Pseudocode.Text

/-!
Files as buffers of lines under their names. What is written stays in its buffer until the run is
over.
-/

namespace Pseudocode

inductive FileError where
  | notFound (name : String)
  | alreadyOpen (name : String)
  | notOpen (name : String)
  | wrongMode (name : String) (expected actual : FileMode)
  | pastEnd (name : String)
deriving DecidableEq, Repr

def FileError.message : FileError → String
  | .notFound name => s!"file '{name}' not found"
  | .alreadyOpen name => s!"file '{name}' is already open"
  | .notOpen name => s!"file '{name}' is not open"
  | .wrongMode name expected actual =>
    s!"file '{name}' is open for {actual.keyword}, not {expected.keyword}"
  | .pastEnd name => s!"no more lines to read in '{name}'"

/-- `mode` is none while the file is closed, `cursor` counts the lines read since it was opened, and
`modified` tells whether it was ever opened to be written. -/
structure FileBuffer where
  lines : Array String
  mode : Option FileMode
  cursor : Nat
  modified : Bool
deriving DecidableEq, Repr

namespace FileBuffer

def empty : FileBuffer := ⟨#[], none, 0, false⟩

/-- The text of the file: every line with a line feed behind it. -/
def contents (b : FileBuffer) : String := Text.unlines b.lines.toList

end FileBuffer

structure FileStore where
  files : List (String × FileBuffer)
deriving DecidableEq, Repr

namespace FileStore

def empty : FileStore := ⟨[]⟩

def get? (s : FileStore) (name : String) : Option FileBuffer := s.files.lookup name

/-- The entries with the buffer of one name replaced, or added behind them. -/
def putIn (name : String) (b : FileBuffer) : List (String × FileBuffer) → List (String × FileBuffer)
  | [] => [(name, b)]
  | entry :: rest => if entry.1 == name then (name, b) :: rest else entry :: putIn name b rest

def put (s : FileStore) (name : String) (b : FileBuffer) : FileStore := ⟨putIn name b s.files⟩

def isOpen (s : FileStore) (name : String) : Bool := (s.get? name).any (·.mode.isSome)

/-- Opens a file. `content` is what the outside world holds under its name, which a file opened to
be read starts with; without it the lines written before are read. -/
def openFile (s : FileStore) (name : String) (mode : FileMode) (content : Option String) :
    Except FileError FileStore :=
  if s.isOpen name then .error (.alreadyOpen name)
  else
    let old := (s.get? name).getD .empty
    match mode with
    | .read =>
      match content, s.get? name with
      | some text, _ =>
        .ok (s.put name { old with lines := (Text.lines text).toArray, cursor := 0, mode := some .read })
      | none, some b => .ok (s.put name { b with cursor := 0, mode := some .read })
      | none, none => .error (.notFound name)
    | .write => .ok (s.put name ⟨#[], some .write, 0, true⟩)
    | .append => .ok (s.put name { old with cursor := 0, mode := some .append, modified := true })

def close (s : FileStore) (name : String) : Except FileError FileStore :=
  match s.get? name with
  | some b => if b.mode.isSome then .ok (s.put name { b with mode := none }) else .error (.notOpen name)
  | none => .error (.notOpen name)

/-- The buffer and mode of an open file. -/
def opened (s : FileStore) (name : String) : Except FileError (FileBuffer × FileMode) :=
  match s.get? name with
  | none => .error (.notOpen name)
  | some b =>
    match b.mode with
    | none => .error (.notOpen name)
    | some mode => .ok (b, mode)

/-- The next line of a file open to be read. -/
def readLine (s : FileStore) (name : String) : Except FileError (String × FileStore) := do
  let (b, mode) ← s.opened name
  if mode = .read then
    match b.lines[b.cursor]? with
    | some line => pure (line, s.put name { b with cursor := b.cursor + 1 })
    | none => throw (.pastEnd name)
  else throw (.wrongMode name .read mode)

/-- Whether a file is open to be written. -/
def checkWritable (s : FileStore) (name : String) : Except FileError Unit := do
  let (_, mode) ← s.opened name
  if mode = .read then throw (.wrongMode name .write mode)

/-- The entries with a line added to the buffer of one name. -/
def appendIn (name text : String) : List (String × FileBuffer) → List (String × FileBuffer)
  | [] => []
  | (key, b) :: rest =>
    if key == name then (key, { b with lines := b.lines.push text }) :: rest
    else (key, b) :: appendIn name text rest

/-- Adds a line to a file, if there is one of the name. -/
def append (s : FileStore) (name text : String) : FileStore := ⟨appendIn name text s.files⟩

/-- Adds a line to a file open to be written. -/
def writeLine (s : FileStore) (name text : String) : Except FileError FileStore := do
  s.checkWritable name
  pure (s.append name text)

/-- Whether all lines of a file open to be read have been read. -/
def atEnd (s : FileStore) (name : String) : Except FileError Bool := do
  let (b, mode) ← s.opened name
  if mode = .read then pure (b.lines.size ≤ b.cursor) else throw (.wrongMode name .read mode)

/-- The files that were opened to be written, by name. -/
def modified (s : FileStore) : List (String × FileBuffer) :=
  (s.files.filter (·.2.modified)).mergeSort fun a b => a.1 ≤ b.1

end FileStore

end Pseudocode
