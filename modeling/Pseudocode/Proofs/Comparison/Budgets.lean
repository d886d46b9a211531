import Pseudocode.Proofs.Comparison.Runs
import Pseudocode.Proofs.Stack.Accounts
import Pseudocode.Proofs.Trace.Runs

/-!
The budgets of loop passes and of nested calls matter only when they are hit
(`budgets_matter_only_when_hit`): a run that ends for another reason is the same with larger budgets.
-/

namespace Pseudocode

open Exec Machine

variable {σ : Type}

namespace Exec.Tracks

variable {Arenas : Arena → Arena → Prop} {Outer : Transcript × σ → Transcript × σ → Prop}

/-- Where the smaller budget of passes is kept, so is the larger one. -/
theorem budget {config config' : Config} (more : config.maxIterations ≤ config'.maxIterations) (line : Nat) :
    Tracking (Beside Arenas Outer) (¬ ·.Ordinary) (fun _ => True) (checkBudget config line)
      (checkBudget config' line) := by
  refine Tracking.look fun m n same => ?_
  rw [same.iterations]
  by_cases spent : config.maxIterations < m.iterations
  · rw [if_pos spent]
    exact Tracking.excused id _
  · rw [if_neg spent, if_neg (show ¬ config'.maxIterations < m.iterations by omega)]
    exact Tracking.pure trivial

/-- Where a call is permitted at the smaller depth, so it is at the larger one. -/
theorem deeper {config config' : Config} (more : config.maxDepth ≤ config'.maxDepth) (d : Definition Stmt)
    (arguments line : Nat) :
    Tracking (Beside Arenas Outer) (¬ ·.Ordinary) (fun _ => True) (Watch.permit config d arguments line)
      (Watch.permit config' d arguments line) := by
  unfold Watch.permit
  split
  · refine Tracking.look fun m n same => ?_
    rw [same.calls]
    by_cases full : config.maxDepth ≤ m.calls.depth
    · rw [if_pos full]
      exact Tracking.excused id _
    · rw [if_neg full, if_neg (show ¬ config'.maxDepth ≤ m.calls.depth by omega)]
      exact Tracking.pure trivial
  · exact Tracking.throw _

end Exec.Tracks

theorem Following.ofBudgets (ctx : Context σ) {passes depth : Nat} (morePasses : ctx.config.maxIterations ≤ passes)
    (moreDepth : ctx.config.maxDepth ≤ depth) :
    Following ctx { ctx.config with maxIterations := passes, maxDepth := depth } Eq Eq (¬ ·.Ordinary) where
  memorySteps := Tracks.memorySteps
  hostSteps := Tracks.hostSteps ctx
  budget := Tracks.budget morePasses
  permit := Tracks.deeper moreDepth
  pause := (Tracks.hostSteps ctx).pause
  echo := (Tracks.hostSteps ctx).echo

/-- If a run does not end because a budget is used up, then with larger budgets it is the same: it has the
same outcome or error, asks the same of the host in the same order, and ends in the same state, with as many
loop passes begun. Every run begins at most one loop pass more than is allowed, and it begins that many if and
only if it ends because too many passes have begun, with an error that tells how many are allowed. -/
theorem budgets_matter_only_when_hit (p : Program) (host : Host σ) (config : Config) (draws : Draws) (state : σ) :
    (∀ passes depth, config.maxIterations ≤ passes → config.maxDepth ≤ depth →
      (∀ e, outcome (p.exec host.logged config (.initial config draws (state, []))) = .error e →
        e.cause.Ordinary) →
      p.exec host.logged { config with maxIterations := passes, maxDepth := depth }
          (.initial { config with maxIterations := passes, maxDepth := depth } draws (state, [])) =
        p.exec host.logged config (.initial config draws (state, []))) ∧
    let ran := p.exec host config (.initial config draws state)
    (final ran).iterations ≤ config.maxIterations + 1 ∧
      ((final ran).iterations = config.maxIterations + 1 ↔
        ∃ line, outcome ran = .error ⟨.iterationLimit config.maxIterations, line⟩) := by
  refine ⟨fun passes depth morePasses moreDepth ordinary => ?_, iterations_le p host config draws state⟩
  have following := Following.ofBudgets ⟨host.logged, config, p.definitions, none⟩ morePasses moreDepth
  have initial : Beside Eq Eq (Machine.initial config draws (state, ([] : List Interaction)))
      (.initial { config with maxIterations := passes, maxDepth := depth } draws (state, [])) := .mk rfl rfl
  obtain ⟨same, beside⟩ := (following.exec initial).same fun e ended spent => spent (ordinary e ended)
  exact result_ext same beside.eq

/-- A loop of one pass, in which one call is made. -/
def once : Program where
  statements :=
    [.define ⟨"Nothing", [], none, [], ⟨1, 1⟩⟩, .declare "more" .boolean ⟨3, 1⟩,
      .assign (.identifier "more" ⟨4, 1⟩) (.literal (.boolean true) ⟨4, 9⟩) ⟨4, 1⟩,
      .whileDo (.identifier "more" ⟨5, 7⟩)
        [.call "Nothing" [] ⟨6, 3⟩,
          .assign (.identifier "more" ⟨7, 3⟩) (.literal (.boolean false) ⟨7, 11⟩) ⟨7, 3⟩]
        ⟨5, 1⟩]

/-- The program uses up both budgets and hits neither. -/
theorem once_within_budgets :
    let config : Config := { arenaSize := 1030, maxIterations := 1, maxDepth := 1 }
    let ran := once.exec Script.host.logged config (.initial config 0 ({}, []))
    1 ≤ 100 ∧ 1 ≤ 50 ∧ (outcome ran).isOk = true ∧ (final ran).iterations = 1 ∧
      once.exec Script.host.logged { config with maxIterations := 100, maxDepth := 50 }
        (.initial { config with maxIterations := 100, maxDepth := 50 } 0 ({}, [])) = ran := by
  intro config ran
  have completes : (outcome ran).isOk = true := by decide +kernel
  have ordinary (e : RuntimeError) (failed : outcome ran = .error e) : e.cause.Ordinary := by
    rw [failed] at completes
    cases completes
  have same := (budgets_matter_only_when_hit once Script.host config 0 {}).1 100 50 (by decide) (by decide) ordinary
  exact ⟨by decide, by decide, completes, by decide +kernel, same⟩

end Pseudocode
