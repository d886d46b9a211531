import Pseudocode.Execution
import Pseudocode.Syntax.Parser

/-!
Programs from their text to the end of their run.
-/

namespace Pseudocode

inductive Outcome where
  | completed
  | cancelled
deriving DecidableEq, Repr

/-- The first definition whose name is in `seen` or was defined before it. -/
def duplicate? (seen : List String) : List (Definition Stmt) → Option (Definition Stmt)
  | [] => none
  | d :: rest => if seen.contains d.name then some d else duplicate? (d.name :: seen) rest

/-- Runs a whole program. No two definitions may share a name. -/
def Program.exec (p : Program) (host : Host σ) (config : Config) : Exec σ Outcome := do
  if let some d := duplicate? [] p.definitions then Exec.fail (.redeclaration d.name) d.location.line
  match ← Exec.runBlock host config p.definitions config.maxDepth .granted p.statements with
  | .normal => pure .completed
  | .halt => pure .cancelled
  | .returned _ => Exec.fail (.invalidArgument .returnOutside) (← get).line

/-- A program with the state of its run. -/
structure Interpreter (σ : Type) where
  program : Program
  config : Config
  machine : Machine σ
  started : Bool

namespace Interpreter

/-- A program that is ready to run. `draws` decides what random numbers it will draw. -/
def new (program : Program) (config : Config) (draws : Draws) (state : σ) : Interpreter σ :=
  ⟨program, config, .initial config draws state, false⟩

/-- Runs the program, which can be done once. -/
def run (i : Interpreter σ) (host : Host σ) : Except RuntimeError Outcome × Interpreter σ :=
  if i.started then (.error ⟨.alreadyRun, 0⟩, i)
  else
    match i.program.exec host i.config i.machine with
    | .ok outcome machine => (.ok outcome, { i with machine, started := true })
    | .error e machine => (.error e, { i with machine, started := true })

end Interpreter

/-- Why a source text gives no outcome. -/
inductive SourceError where
  | malformed (error : SyntaxError)
  | failed (error : RuntimeError)
deriving DecidableEq, Repr

namespace SourceError

def message : SourceError → String
  | .malformed e => e.message
  | .failed e => e.message

def line : SourceError → Nat
  | .malformed e => e.location.line
  | .failed e => e.line

end SourceError

/-- Reads and runs a source text, and gives the outcome with the state that the host ends in. -/
def runSource (source : String) (config : Config) (draws : Draws) (host : Host σ) (state : σ) :
    Except SourceError Outcome × σ :=
  match Program.ofSource source with
  | .error e => (.error (.malformed e), state)
  | .ok program =>
    let (result, i) := (Interpreter.new program config draws state).run host
    (result.mapError .failed, i.machine.host)

end Pseudocode
