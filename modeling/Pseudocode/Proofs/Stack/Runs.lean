import Pseudocode.Proofs.Stack.Accounts
import Pseudocode.Proofs.Stack.Ceiling

/-!
The discipline of the stacks of scopes and of calls (`stack_discipline`): what is opened is closed, however it
ends, and calls are nested to the depth that is allowed and no deeper.
-/

namespace Pseudocode

open Exec Machine Semantics

variable {σ : Type}

/-- In every state that a run can reach there is one scope for each call that runs, beside the global one, and
at most as many calls run as are allowed. In every state with a global scope, an expression, a statement or a
block leaves as many scopes open and as many calls running as there were, however it ends and whatever calls
it may still make. A run ends because calls are nested too deeply if and only if a callable was called, with
as many arguments as it has parameters, while as many calls ran as are allowed; the error has the name and the
line of that call. When a run has ended no call runs and only the global scope is open, and what ran at the
top level did not end with a RETURN. -/
theorem stack_discipline (p : Program) (host : Host σ) (config : Config) (draws : Draws) (state : σ) :
    let ran := p.exec host config (.initial config draws state)
    (∀ m, Reachable p host config draws state m →
      m.scopes.depth = m.calls.depth + 1 ∧ m.calls.depth ≤ config.maxDepth) ∧
    (∀ frames m, 0 < m.scopes.depth →
      (∀ e, SameDepths m (final (eval (runContext host config p.definitions frames) e m))) ∧
      ∀ access,
        (∀ st, SameDepths m (final (execStmt (runContext host config p.definitions frames) access st m))) ∧
        ∀ sts, SameDepths m (final (runBlock host config p.definitions frames access sts m))) ∧
    (∀ name limit line, outcome ran = .error ⟨.recursionLimit name limit, line⟩ ↔
      limit = config.maxDepth ∧ ∃ m, CallAttempted p host config draws state name line m ∧
        m.calls.depth = config.maxDepth) ∧
    (final ran).calls = .empty ∧ (final ran).scopes.depth = 1 ∧
    ∀ v, outcome (runBlock host config p.definitions config.maxDepth .granted p.statements
      (.initial config draws state)) ≠ .ok (.returned v) := by
  intro ran
  have depths : SameDepths (.initial config draws state) (final ran) := exec_depths p host config draws state
  refine ⟨fun m => balanced_of_reachable, fun frames m global => ⟨?_, fun access => ⟨?_, ?_⟩⟩, ?_, ?_,
    depths.scopes, ?_⟩
  · exact SameDepths.eval host config p.definitions frames global
  · exact SameDepths.execStmt host config p.definitions frames global access
  · exact SameDepths.runBlock host config p.definitions frames global access
  · exact recursionLimit_iff p host config draws state
  · exact congrArg CallStack.mk (List.length_eq_zero_iff.1 depths.calls)
  · have global : 0 < (Machine.initial config draws state).scopes.depth := Nat.zero_lt_one
    exact runBlock_returns_nothing host config p.definitions config.maxDepth global rfl .granted p.statements

/-- A procedure that calls itself. -/
def endless : Program where
  statements :=
    [.define ⟨"Again", [], none, [.call "Again" [] ⟨2, 3⟩], ⟨1, 1⟩⟩, .call "Again" [] ⟨4, 1⟩]

/-- The fourth call is refused where three are allowed. -/
theorem endless_refused :
    let config : Config := { arenaSize := 1030, maxDepth := 3 }
    let ran := endless.exec Script.host config (.initial config 0 {})
    (∃ m, CallAttempted endless Script.host config 0 {} "Again" 2 m ∧ m.calls.depth = 3) ∧
      outcome ran = .error ⟨.recursionLimit "Again" 3, 2⟩ ∧
      (final ran).calls = .empty ∧ (final ran).scopes.depth = 1 := by
  intro config ran
  have seen : ((endless.attempts "Again" 2 Script.host config (.initial config 0 {})).seen.any
      (·.calls.depth == 3)) = true := by decide +kernel
  obtain ⟨m, attempted, depth⟩ := List.any_eq_true.1 seen
  have ceiling : ∃ m, CallAttempted endless Script.host config 0 {} "Again" 2 m ∧ m.calls.depth = 3 :=
    ⟨m, attempted, eq_of_beq depth⟩
  obtain ⟨-, -, refusal, calls, scopes, -⟩ := stack_discipline endless Script.host config 0 {}
  exact ⟨ceiling, (refusal "Again" 3 2).2 ⟨rfl, ceiling⟩, calls, scopes⟩

end Pseudocode
