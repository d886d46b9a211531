import Pseudocode.Builtin
import Pseudocode.Machine.Memory

/-!
Calls of procedures and functions: how arguments reach their parameters, and what surrounds the run
of a body.
-/

namespace Pseudocode

/-- Runs a list of statements. -/
abbrev Runner (σ : Type) := Access → List Stmt → Exec σ Flow

/-- What a run does not change. `below` runs the body of a callable that is called from here; there
is none when no further frame is allowed. -/
structure Context (σ : Type) where
  host : Host σ
  config : Config
  definitions : List (Definition Stmt)
  below : Option (Runner σ)

namespace Context

def definition? (ctx : Context σ) (name : String) : Option (Definition Stmt) :=
  ctx.definitions.find? (·.name == name)

end Context

/-- How an argument reaches its parameter: as the cell of a variable, or as a value. -/
inductive Binding where
  | shared (cell : CellId)
  | copied (value : Value)

/-- Whether a variable of type `actual` may be passed by reference. A parameter without bounds takes
every array with its element type. -/
def referenceFits (declared actual : DataType) : Bool :=
  match declared, actual with
  | .array [] element, .array _ element' => element == element'
  | _, _ => declared == actual

namespace Exec

/-- What runs the body of a callable. The number of arguments must be right, and one more frame
allowed. -/
def runnerFor (ctx : Context σ) (d : Definition Stmt) (arguments : Nat) (line : Nat) : Exec σ (Runner σ) :=
  if arguments = d.params.length then
    match ctx.below with
    | some run => pure run
    | none => fail (.recursionLimit d.name ctx.config.maxDepth) line
  else fail (.argumentCount d.name d.params.length arguments) line

/-- An argument passed by reference, which must be a variable of a fitting type. -/
def shareArgument (d : Definition Stmt) (p : Param) (arg : Expr) (line : Nat) : Exec σ Binding :=
  match arg with
  | .identifier name _ => do
    let (cell, v) ← find name line
    if referenceFits p.type v.type then pure (.shared cell)
    else fail (.typeMismatch (.referenceType p.name p.type name v.type)) line
  | _ => fail (.typeMismatch (.referenceArgument p.name d.name)) line

/-- An argument passed by value. -/
def copyArgument (d : Definition Stmt) (p : Param) (value : Value) (line : Nat) : Exec σ Binding :=
  if value.conforms p.type then pure (.copied value)
  else fail (.typeMismatch (.argument value.kind p.name p.type d.name)) line

/-- The value that a parameter starts with, if it has one. -/
def startsWith (b : Binding) : Exec σ (Option Value) := do
  match b with
  | .shared cell => return ((← get).scopes.cell? cell).bind (·.value)
  | .copied v => pure (some v)

/-- Gives a parameter its cell in the innermost scope. -/
def bindParameter (callable : String) (p : Param) (b : Binding) (line : Nat) : Exec σ Unit := do
  let id := (← get).scopes.current
  let value ← startsWith b
  if (← get).scopes.accepts id p.name then
    match b with
    | .shared cell => modifyScopes (·.link id p.name cell)
    | .copied v => modifyScopes (·.declare id p.name (.declared p.type (some v) id))
  record .declare line
    { subject := some p.name, value := value.map Value.display,
      note := some s!"{p.mode.keyword} parameter of {callable}" }

def bindParameters (callable : String) (line : Nat) : List Param → List Binding → Exec σ Unit
  | p :: ps, b :: bs => do
    bindParameter callable p b line
    bindParameters callable line ps bs
  | _, _ => pure ()

/-- Opens the scope and the frame of a call. -/
def enter (d : Definition Stmt) (kind : CallableKind) (bindings : List Binding) (line : Nat) :
    Exec σ Unit := do
  modifyScopes (·.push globalScope)
  bindParameters d.name line d.params bindings
  modify fun m => { m with calls := m.calls.push ⟨d.name, d.location.line, kind⟩ }

/-- Closes the frame and the scope of a call, and ends the scope's variables. The id of the scope is
the depth that is left. -/
def leave (line : Nat) : Exec σ Unit := do
  modify fun m => { m with calls := m.calls.pop }
  match (← get).scopes.innermost? with
  | none => pure ()
  | some scope =>
    modifyScopes (·.pop)
    endVariables (← get).scopes.depth line scope.names

/-- Runs the body of a callable in a frame of its own, and gives how it ended and on which line. The
frame is closed however it ended. -/
def runBody (run : Runner σ) (access : Access) (d : Definition Stmt) (kind : CallableKind)
    (bindings : List Binding) (line : Nat) : Exec σ (Flow × Nat) := do
  enter d kind bindings line
  let result ← attempt (run access d.body)
  let last := (← get).line
  leave line
  match result with
  | .ok flow => pure (flow, last)
  | .error e => throw e

/-- Calls a function. It must return a value of its type. -/
def callFunction (run : Runner σ) (d : Definition Stmt) (bindings : List Binding) (line : Nat) :
    Exec σ Value := do
  match ← runBody run .denied d .function bindings line with
  | (.returned (some v), last) =>
    match d.returns with
    | some type =>
      if v.conforms type then pure v else fail (.typeMismatch (.returned d.name type v.kind)) last
    | none => pure v
  | (_, last) => fail (.missingReturn d.name) last

/-- Calls a procedure. It may not return a value; a stop inside it is passed on. -/
def callProcedure (run : Runner σ) (access : Access) (d : Definition Stmt) (bindings : List Binding)
    (line : Nat) : Exec σ Flow := do
  match ← runBody run access d .procedure bindings line with
  | (.returned (some _), last) => fail (.typeMismatch (.procedureReturned d.name)) last
  | (.halt, _) => pure .halt
  | _ => pure .normal

def callBuiltin (b : Builtin) (args : List Value) (line : Nat) : Exec σ Value := do
  let x ← if b.draws then draw else pure 0
  ofExcept line (b.apply x args)

end Exec

end Pseudocode
