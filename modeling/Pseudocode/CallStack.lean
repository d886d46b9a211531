/-!
The procedures and functions that are running.
-/

namespace Pseudocode

inductive CallableKind where
  | procedure
  | function
deriving DecidableEq, Repr

def CallableKind.keyword : CallableKind → String
  | .procedure => "PROCEDURE"
  | .function => "FUNCTION"

/-- `line` is the line that runs inside the call. -/
structure Frame where
  name : String
  line : Nat
  kind : CallableKind
deriving DecidableEq, Repr

/-- The frames, innermost first. -/
structure CallStack where
  frames : List Frame
deriving DecidableEq, Repr

namespace CallStack

def empty : CallStack := ⟨[]⟩

def depth (s : CallStack) : Nat := s.frames.length

def isEmpty (s : CallStack) : Bool := s.frames.isEmpty

def push (s : CallStack) (f : Frame) : CallStack := ⟨f :: s.frames⟩

def pop (s : CallStack) : CallStack := ⟨s.frames.tail⟩

def top? (s : CallStack) : Option Frame := s.frames.head?

/-- Sets the line of the innermost frame. -/
def setLine (s : CallStack) (line : Nat) : CallStack :=
  match s.frames with
  | [] => s
  | f :: rest => ⟨{ f with line } :: rest⟩

/-- The frames from the outermost inwards. -/
def outermostFirst (s : CallStack) : List Frame := s.frames.reverse

end CallStack

end Pseudocode
