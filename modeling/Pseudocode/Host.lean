import Pseudocode.CallStack
import Pseudocode.Scopes
import Pseudocode.Trace

/-!
The world around a running program: its limits, the lines it shows, and its host. A host receives
lines, answers requests, watches debug steps and may ask for a stop. It is a set of functions on a
state of its own, so that all it was shown can be read off the state it ends in.
-/

namespace Pseudocode

/-- The limits and switches of a run. `debug` shows every statement outside functions to the host before
it runs; `echo` shows lines written to files. -/
structure Config where
  arenaSize : Nat := 65536
  maxIterations : Nat := 100000
  maxDepth : Nat := 500
  traceLimit : Nat := Trace.defaultLimit
  debug : Bool := false
  echo : Bool := false
deriving DecidableEq, Repr

/-- Where a line comes from: an OUTPUT statement, a line written to a file, or an answer to INPUT.
-/
inductive OutputKind where
  | output
  | fileWrite
  | inputEcho
deriving DecidableEq, Repr

structure OutputLine where
  kind : OutputKind
  text : String
  line : Nat
deriving DecidableEq, Repr

/-- All lines of a run in order. -/
structure Transcript where
  lines : Array OutputLine
deriving DecidableEq, Repr

namespace Transcript

def empty : Transcript := ⟨#[]⟩

def push (t : Transcript) (l : OutputLine) : Transcript := ⟨t.lines.push l⟩

def texts (t : Transcript) : List String := t.lines.toList.map (·.text)

def textsOf (t : Transcript) (kind : OutputKind) : List String :=
  (t.lines.toList.filter (·.kind == kind)).map (·.text)

end Transcript

/-- What a debugger sees before a statement: the line, the running calls, and the visible variables
by name. -/
structure Snapshot where
  line : Nat
  calls : CallStack
  visible : List (String × Variable)
  paused : Bool

inductive StepReply where
  | resume
  | stop
deriving DecidableEq, Repr

structure Host (σ : Type) where
  /-- Receives a line. -/
  emit : OutputLine → σ → σ
  /-- The text for an INPUT of the name and type given; none ends the run. -/
  requestInput : String → DataType → σ → Option String × σ
  /-- Watches a statement that is about to run. -/
  step : Snapshot → σ → StepReply × σ
  /-- The content of a file that is opened to be read, if there is such a file. -/
  requestFile : String → σ → Option String × σ
  /-- Whether the run is to stop before its next statement. Nothing is promised about how the answers
  of a host follow one another. -/
  cancelled : σ → Bool × σ

/-- A host with all its answers prepared, and what it has been shown. It asks for a stop once
`cancelAfter` lines have been emitted, and refuses to go on when more than `stopAfter` steps have
been seen. -/
structure Script where
  inputs : List String := []
  files : List (String × String) := []
  stopAfter : Option Nat := none
  cancelAfter : Option Nat := none
  lines : Array OutputLine := #[]
  prompts : Array (String × DataType) := #[]
  snapshots : Array Snapshot := #[]

namespace Script

def host : Host Script where
  emit line s := { s with lines := s.lines.push line }
  requestInput name type s :=
    let s := { s with prompts := s.prompts.push (name, type) }
    match s.inputs with
    | [] => (none, s)
    | text :: rest => (some text, { s with inputs := rest })
  step snapshot s :=
    let s := { s with snapshots := s.snapshots.push snapshot }
    (if s.stopAfter.any (· < s.snapshots.size) then .stop else .resume, s)
  requestFile name s := (s.files.lookup name, s)
  cancelled s := (s.cancelAfter.any (· ≤ s.lines.size), s)

/-- A host that takes lines and has nothing to give. -/
def silent : Host Script where
  emit line s := { s with lines := s.lines.push line }
  requestInput _ _ s := (none, s)
  step _ s := (.resume, s)
  requestFile _ s := (none, s)
  cancelled s := (s.cancelAfter.any (· ≤ s.lines.size), s)

/-- The texts of the lines of one kind. -/
def textsOf (s : Script) (kind : OutputKind) : List String := Transcript.textsOf ⟨s.lines⟩ kind

end Script

end Pseudocode
