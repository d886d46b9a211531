import Pseudocode.Value

/-!
The trace: a record of the operations on memory, in order, up to a limit. Nothing a program does
depends on it.
-/

namespace Pseudocode

inductive Operation where
  | declare
  | read
  | write
  | allocate
  | free
  | addressOf
  | dereference
  | pointerAssign
deriving DecidableEq, Repr

namespace Operation

def name : Operation → String
  | .declare => "DECLARE"
  | .read => "READ"
  | .write => "WRITE"
  | .allocate => "ALLOCATE"
  | .free => "FREE"
  | .addressOf => "ADDRESS_OF"
  | .dereference => "DEREFERENCE"
  | .pointerAssign => "POINTER_ASSIGN"

/-- In the order in which summaries list them. -/
def all : List Operation :=
  [.declare, .read, .write, .allocate, .free, .addressOf, .dereference, .pointerAssign]

end Operation

/-- What an operation was about. `pointer` is the address of the pointer variable itself; a value is
kept as its text. -/
structure Details where
  subject : Option String := none
  address : Option Nat := none
  pointer : Option Nat := none
  value : Option String := none
  note : Option String := none
deriving DecidableEq, Repr

structure TraceEntry where
  step : Nat
  operation : Operation
  line : Nat
  details : Details
deriving DecidableEq, Repr

/-- Steps count from one. `truncated` tells whether an operation found the trace full. -/
structure Trace where
  entries : Array TraceEntry
  limit : Nat
  truncated : Bool
deriving DecidableEq, Repr

namespace TraceEntry

/-- A part of the text that is there only with a value. -/
def part (lead : String) (value : Option String) (close : String) : String :=
  match value with
  | some text => lead ++ text ++ close
  | none => ""

def render (e : TraceEntry) : String :=
  "#" ++ Text.padRight 5 (toString e.step) ++ " line " ++ Text.padRight 4 (toString e.line)
    ++ " " ++ e.operation.name
    ++ part " " e.details.subject ""
    ++ part " @" (e.details.address.map addressText) ""
    ++ part " via " (e.details.pointer.map addressText) ""
    ++ part " = " e.details.value ""
    ++ part " (" e.details.note ")"

end TraceEntry

namespace Trace

/-- The number of entries kept unless it is said otherwise. -/
def defaultLimit : Nat := 100000

def empty (limit : Nat) : Trace := ⟨#[], limit, false⟩

/-- The step that the next operation gets; none if the trace is full. -/
def nextStep? (t : Trace) : Option Nat := if t.entries.size < t.limit then some (t.entries.size + 1) else none

/-- Adds an operation, or marks the trace as truncated. -/
def record (t : Trace) (operation : Operation) (line : Nat) (details : Details) : Trace :=
  match t.nextStep? with
  | some step => { t with entries := t.entries.push ⟨step, operation, line, details⟩ }
  | none => { t with truncated := true }

end Trace

end Pseudocode
