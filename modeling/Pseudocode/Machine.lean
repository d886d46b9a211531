import Pseudocode.Host
import Pseudocode.RuntimeError

/-!
The state of a run and the steps on it. A step that fails keeps what it has done so far.
-/

namespace Pseudocode

/-- The random numbers of a run, each from zero to below one, and how many of them have been drawn. -/
structure Draws where
  number : Nat → Float
  taken : Nat

/-- Nothing but zeros is drawn. -/
instance : Zero Draws := ⟨⟨fun _ => 0, 0⟩⟩

/-- `bound` maps the addresses that were given to variables to the cells of those variables, and `line`
is that of the latest statement. -/
structure Machine (σ : Type) where
  scopes : Scopes
  calls : CallStack
  arena : Arena
  trace : Trace
  files : FileStore
  transcript : Transcript
  bound : List (Nat × CellId)
  iterations : Nat
  line : Nat
  random : Draws
  host : σ

def Machine.initial (config : Config) (draws : Draws) (host : σ) : Machine σ where
  scopes := .initial
  calls := .empty
  arena := .empty config.arenaSize
  trace := .empty config.traceLimit
  files := .empty
  transcript := .empty
  bound := []
  iterations := 0
  line := 0
  random := draws
  host := host

/-- A step of a run. -/
abbrev Exec (σ : Type) := EStateM RuntimeError (Machine σ)

/-- How a statement ends: the next one follows, the running callable returns, or the run stops. -/
inductive Flow where
  | normal
  | returned (value : Option Value)
  | halt

/-- Whether statements may use the host. Functions may not, nor procedures that they call. -/
inductive Access where
  | granted
  | denied
deriving DecidableEq, Repr

namespace Machine

/-- A name's cell and variable as seen from the innermost scope. -/
def find? (m : Machine σ) (name : String) : Option (CellId × Variable) := do
  let cell ← m.scopes.lookup? m.scopes.current name
  let v ← m.scopes.cell? cell
  pure (cell, v)

/-- The variables visible from the innermost scope, by name. -/
def visible (m : Machine σ) : List (String × Variable) :=
  ((m.scopes.visible m.scopes.current).filterMap fun entry =>
    (m.scopes.cell? entry.2).map fun v => (entry.1, v)).mergeSort fun a b => a.1 ≤ b.1

def snapshot (m : Machine σ) (paused : Bool) : Snapshot := ⟨m.line, m.calls, m.visible, paused⟩

/-- The value of a global variable that is declared and assigned. -/
def global? (m : Machine σ) (name : String) : Option Value := do
  let scope ← m.scopes.scope? globalScope
  let cell ← scope.get? name
  let v ← m.scopes.cell? cell
  v.value

end Machine

namespace Exec

def fail (cause : Cause) (line : Nat) : Exec σ α := throw ⟨cause, line⟩

/-- A result without a line, which it gets here. -/
def ofExcept (line : Nat) : Except Cause α → Exec σ α
  | .ok a => pure a
  | .error cause => fail cause line

/-- The outcome of a step, which itself does not fail. -/
def attempt (x : Exec σ α) : Exec σ (Except RuntimeError α) := fun m =>
  match x m with
  | .ok a m => .ok (.ok a) m
  | .error e m => .ok (.error e) m

/-- Adds an operation to the trace. -/
def record (operation : Operation) (line : Nat) (details : Details) : Exec σ Unit :=
  modify fun m => { m with trace := m.trace.record operation line details }

def modifyScopes (f : Scopes → Scopes) : Exec σ Unit := modify fun m => { m with scopes := f m.scopes }

/-- The cell and variable of a name, which must be declared. -/
def find (name : String) (line : Nat) : Exec σ (CellId × Variable) := do
  match (← get).find? name with
  | some found => pure found
  | none => fail (.undefinedVariable name) line

/-- Fails if more loop passes than allowed have begun. -/
def checkBudget (config : Config) (line : Nat) : Exec σ Unit := do
  if config.maxIterations < (← get).iterations then fail (.iterationLimit config.maxIterations) line

/-- Counts a loop pass. -/
def tick (config : Config) (line : Nat) : Exec σ Unit := do
  modify fun m => { m with iterations := m.iterations + 1 }
  checkBudget config line

/-- The number of loop passes that may still begin. -/
def passesLeft (config : Config) : Exec σ Nat := return config.maxIterations - (← get).iterations

/-- Counts a loop pass that is not allowed any more. -/
def overrun (config : Config) (line : Nat) : Exec σ α := do
  modify fun m => { m with iterations := m.iterations + 1 }
  fail (.iterationLimit config.maxIterations) line

/-- Shows a line to the host and keeps it in the transcript. -/
def emit (host : Host σ) (l : OutputLine) : Exec σ Unit :=
  modify fun m => { m with host := host.emit l m.host, transcript := m.transcript.push l }

/-- Fails unless the host may be used. -/
def requireHost (access : Access) (statement : String) (line : Nat) : Exec σ Unit :=
  match access with
  | .granted => pure ()
  | .denied => fail (.illegalInFunction statement) line

/-- Draws the next random number. -/
def draw : Exec σ Float := modifyGet fun m =>
  (m.random.number m.random.taken, { m with random := { m.random with taken := m.random.taken + 1 } })

end Exec

end Pseudocode
