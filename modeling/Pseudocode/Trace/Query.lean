import Pseudocode.Trace

/-!
Questions to a trace.
-/

namespace Pseudocode.Trace

def toList (t : Trace) : List TraceEntry := t.entries.toList

/-- The entries about a variable. -/
def about (t : Trace) (name : String) : List TraceEntry := t.toList.filter (·.details.subject == some name)

/-- The entries that touch an address, as their target or as the place of a pointer. -/
def touching (t : Trace) (address : Nat) : List TraceEntry :=
  t.toList.filter fun e => e.details.address == some address || e.details.pointer == some address

def betweenSteps (t : Trace) (first last : Nat) : List TraceEntry :=
  t.toList.filter fun e => first ≤ e.step && e.step ≤ last

def betweenLines (t : Trace) (first last : Nat) : List TraceEntry :=
  t.toList.filter fun e => first ≤ e.line && e.line ≤ last

/-- The latest entry about a variable. -/
def latest? (t : Trace) (name : String) : Option TraceEntry := (t.about name).getLast?

def count (t : Trace) (operation : Operation) : Nat := t.toList.countP (·.operation == operation)

/-- How often each operation occurs, without those that do not. -/
def counts (t : Trace) : List (Operation × Nat) :=
  (Operation.all.map fun o => (o, t.count o)).filter (·.2 != 0)

/-- The pairs with one name's pair replaced, or added behind them. -/
def retarget (name : String) (target : Nat) : List (String × Nat) → List (String × Nat)
  | [] => [(name, target)]
  | pair :: rest => if pair.1 == name then (name, target) :: rest else pair :: retarget name target rest

/-- What pointer variables were last made to point to, as far as that was not NULL. -/
def pointerTargets (t : Trace) : List (String × Nat) :=
  t.toList.foldl
    (fun targets e =>
      match e.operation, e.details.subject, e.details.address with
      | .pointerAssign, some name, some 0 => targets.filter (·.1 != name)
      | .pointerAssign, some name, some target => retarget name target targets
      | _, _, _ => targets)
    []

end Pseudocode.Trace
