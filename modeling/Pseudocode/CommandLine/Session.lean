import Pseudocode.Arena.Dump
import Pseudocode.CommandLine.FileTree
import Pseudocode.CommandLine.Help
import Pseudocode.CommandLine.Options
import Pseudocode.Interpreter
import Pseudocode.Trace.Query

/-!
A program run from the command line: what it prints, which files it leaves behind, and its exit
code. The world is given by what is known of it; a run that needs to know more stops and says so.
-/

namespace Pseudocode.CommandLine

namespace Style

/-- Text in one of the 256 colours, which ends at its end. -/
def coloured (colour : Nat) (text : String) : String := s!"\x1b[38;5;{colour}m" ++ text ++ "\x1b[39m"

def bold (text : String) : String := "\x1b[1m" ++ text ++ "\x1b[0m"

/-- Bold text in a colour; the end of the one ends the other. -/
def boldColoured (colour : Nat) (text : String) : String := s!"\x1b[38;5;{colour}m" ++ bold text

def darkGrey (text : String) : String := coloured 8 text

def yellow (text : String) : String := coloured 11 text

def cyan (text : String) : String := coloured 14 text

def redBold (text : String) : String := boldColoured 9 text

def yellowBold (text : String) : String := boldColoured 11 text

end Style

/-- Something of the world that a run needs: the next line of input, or the file at a path. -/
inductive Request where
  | line
  | file (path : String)
deriving DecidableEq, Repr

/-- What is known of the world. `files` tells of each path whether it is known and, if so, whether a
text can be read there; `ended` tells whether no lines follow the `inputs`. The `keys` are those that
will be pressed when the program pauses, by what they ask for. -/
structure World where
  files : String → Option (Option String)
  inputs : List String
  ended : Bool
  keys : List StepReply := []

/-- A terminal with what has been printed so far. A run that is short of something stops, and
`needs` tells of what. -/
structure Terminal where
  world : World
  filesDir : String
  out : String := ""
  err : String := ""
  needs : Option Request := none

namespace Terminal

def print (t : Terminal) (line : String) : Terminal := { t with out := t.out ++ line ++ "\n" }

def complain (t : Terminal) (line : String) : Terminal := { t with err := t.err ++ line ++ "\n" }

/-- Shows a line. What was typed already stands on the terminal. -/
def emit (l : OutputLine) (t : Terminal) : Terminal :=
  match l.kind with
  | .output => t.print l.text
  | .fileWrite => t.print (Style.darkGrey s!"[file] {l.text}")
  | .inputEcho => t

/-- Prompts for a line and reads it. -/
def requestInput (name : String) (type : DataType) (t : Terminal) : Option String × Terminal :=
  let asked := { t with err := t.err ++ Style.cyan s!"{name} ({type.render})? " }
  match t.world.inputs with
  | text :: rest => (some text, { asked with world := { t.world with inputs := rest } })
  | [] => if t.world.ended then (none, asked) else (none, { asked with needs := some .line })

/-- Waits for a key. Where none can be read the program goes on. -/
def pressKey (t : Terminal) : StepReply × Terminal :=
  match t.world.keys with
  | reply :: rest => (reply, { t with world := { t.world with keys := rest } })
  | [] => (.resume, t)

/-- Shows where the program stands, and waits for a key. -/
def step (s : Snapshot) (t : Terminal) : StepReply × Terminal :=
  let place := match s.calls.top? with
    | some frame => s!"line {s.line} in {frame.name}"
    | none => s!"line {s.line}"
  let t := t.complain (Style.yellowBold place)
  (s.visible.foldl (fun t entry => t.complain s!"  {entry.1} = {entry.2.render}") t).pressKey

/-- Reads a file below the directory of the program's files. -/
def requestFile (name : String) (t : Terminal) : Option String × Terminal :=
  match pathInDir? t.filesDir name with
  | none => (none, t)
  | some path =>
    match t.world.files path with
    | some content => (content, t)
    | none => (none, { t with needs := some (.file path) })

def host : Host Terminal where
  emit := emit
  requestInput := requestInput
  step := step
  requestFile := requestFile
  cancelled t := (t.needs.isSome, t)

end Terminal

/-- What is to be done about a file that the program has written. -/
inductive Save where
  | refuse (warning : String)
  | write (path content : String)
deriving DecidableEq, Repr

/-- A run that has come to its end: the files to be saved, then the last lines for the standard
error, then the exit code. -/
structure Session where
  terminal : Terminal
  saves : List Save
  closing : List String
  exit : Nat

/-- The files that a run has written, by name. -/
def savesOf (files : FileStore) (dir : String) : List Save :=
  files.modified.map fun (name, buffer) =>
    match pathInDir? dir name with
    | some path => .write path buffer.contents
    | none => .refuse (Style.yellow s!"not saving '{name}': file names must stay inside {dir}")

/-- The operations of a run, their numbers, and the state of the arena. -/
def traceLines (m : Machine σ) : List String :=
  let truncation :=
    if m.trace.truncated then [Style.yellow "trace limit reached; later operations were not recorded"] else []
  let a := m.arena
  m.trace.toList.map TraceEntry.render
    ++ [Style.bold s!"{m.trace.entries.size} operation(s)"]
    ++ m.trace.counts.map (fun entry => s!"  {entry.1.name} {entry.2}")
    ++ truncation
    ++ [s!"arena: {a.used} of {a.size} slots in use, {a.blocks.length} live block(s), "
      ++ s!"watermark {addressText a.watermark}"]

/-- How a run ended. -/
def outcomeLines (result : Except RuntimeError Outcome) (calls : CallStack) : List String :=
  match result with
  | .ok .completed => []
  | .ok .cancelled => [Style.yellow "Stopped."]
  | .error e =>
    Style.redBold e.message
      :: calls.frames.map fun f => s!"  in {f.kind.keyword} {f.name} (line {f.line})"

def exitCode : Except RuntimeError Outcome → Nat
  | .ok _ => 0
  | .error _ => 1

/-- Runs the program of a source text. -/
def Session.run (options : Options) (source : String) (draws : Draws) (world : World) : Session :=
  let terminal : Terminal := { world, filesDir := options.filesDir.getD "." }
  match Program.ofSource source with
  | .error e => ⟨terminal, [], [Style.redBold e.message], 1⟩
  | .ok program =>
    let (result, i) := (Interpreter.new program options.config draws terminal).run Terminal.host
    let saves := match options.filesDir with
      | some dir => savesOf i.machine.files dir
      | none => []
    let trace := if options.trace then traceLines i.machine else []
    let dump := match options.dump with
      | some (start, length) => [i.machine.arena.dump start length]
      | none => []
    ⟨i.machine.host, saves, trace ++ dump ++ outcomeLines result i.machine.calls, exitCode result⟩

/-- The message of a command that ends because of the operating system. -/
def failureText (what reason : String) : String := s!"Error: {what}\n\nCaused by:\n    {reason}\n"

/-- What a command leaves behind. -/
structure Report where
  out : String
  err : String
  exit : Nat
deriving DecidableEq, Repr

/-- Saves files with `write`, which gives a reason if it fails, and then ends the session. The first
failure is also the last. -/
def Session.finish [Monad m] (s : Session) (write : String → String → m (Option String)) : m Report :=
  go s.terminal.err s.saves
where
  go (err : String) : List Save → m Report
    | [] => pure ⟨s.terminal.out, err ++ String.join (s.closing.map (· ++ "\n")), s.exit⟩
    | .refuse warning :: rest => go (err ++ warning ++ "\n") rest
    | .write path content :: rest => do
      match ← write path content with
      | none => go err rest
      | some reason => pure ⟨s.terminal.out, err ++ failureText s!"cannot write {path}" reason, 1⟩

/-- A line of input without the line feed and the carriage returns at its end. -/
def dropLineEnd (line : List Char) : List Char :=
  (line.reverse.dropWhile fun c => c == '\r' || c == '\n').reverse

/-- Splits an input behind its line feeds; `line` holds, reversed, what has been read of the current
line. -/
def inputLines (line : List Char) : List Char → List String
  | [] => if line.isEmpty then [] else [String.ofList (dropLineEnd line.reverse)]
  | c :: rest =>
    if c = '\n' then String.ofList (dropLineEnd line.reverse) :: inputLines [] rest
    else inputLines (c :: line) rest

/-- Where the files of a tree are all there are. -/
def World.ofTree (tree : FileTree) (input : String) (keys : List StepReply) : World :=
  ⟨fun path => some (tree.read path).toOption, inputLines [] input.toList, true, keys⟩

/-- Writes into a tree, and tells the reason if that fails. -/
def FileTree.save (path content : String) : StateM FileTree (Option String) := fun tree =>
  match tree.write path content with
  | .ok tree => (none, tree)
  | .error e => (some e.message, tree)

/-- Runs a program file where the files of a tree are all there are, and gives the tree that it
leaves. -/
def runFileIn (tree : FileTree) (file : String) (options : Options) (input : String) (draws : Draws)
    (keys : List StepReply) : Report × FileTree :=
  match tree.read file with
  | .error e => (⟨"", failureText s!"cannot read {file}" e.message, 1⟩, tree)
  | .ok source =>
    ((Session.run options source draws (.ofTree tree input keys)).finish FileTree.save).run tree

/-- Runs a command line in a tree. None stands for arguments that cannot be used. -/
def runIn (tree : FileTree) (args : List String) (input : String) (draws : Draws)
    (keys : List StepReply := []) : Option (Report × FileTree) := do
  match ← Command.parse? args with
  | .help => pure (⟨helpText, "", 0⟩, tree)
  | .run file options => pure (runFileIn tree file options input draws keys)

end Pseudocode.CommandLine
