import Pseudocode.Proofs.Memory.Runs
import Pseudocode.Proofs.Outside.Inward
import Pseudocode.Proofs.Termination
import Pseudocode.Proofs.Trace.Runs

/-!
What a run shows to the outside. Nothing of it comes from expressions, and the transcript holds, in order,
the lines that the host has received (`expressions_keep_outside`).
-/

namespace Pseudocode

open Exec Machine Semantics

variable {σ : Type} {α β : Type}

namespace Exec

theorem Preserves.quietSteps {Inv : Machine σ → Prop} (looks : ∀ m m', SameOutside m m' → Inv m → Inv m') :
    QuietSteps fun _ => Preserves Inv where
  pure := .pure
  throw _ _ := .throw _
  bind := .bind
  look _ next := .get fun m inv => next m m inv
  quiet _ _ outside m inv := ⟨looks m _ (outside m) inv, trivial⟩

end Exec

/-- What is known of the outside alone, and what the host and the files keep, every step of a run keeps. -/
theorem Kept.ofHostSteps {ctx : Context σ} {Inv : Machine σ → Prop}
    (looks : ∀ m m', SameOutside m m' → Inv m → Inv m')
    (outside : HostSteps (fun _ => Preserves Inv) ctx) : Kept ctx .nothing Inv := by
  refine .ofPreserves ?_ outside
  exact {
    memorySteps := Preserves.memorySteps fun m m' same => looks m m' same.sameOutside
    quietSteps := outside.toQuietSteps
    throw := .throw
    setCalls := fun _ => .modify fun m => looks m _ ⟨rfl, rfl, rfl⟩
    setScopes := fun _ => .modify fun m => looks m _ ⟨rfl, rfl, rfl⟩
    countPass := .modify fun m => looks m _ ⟨rfl, rfl, rfl⟩ }

/-- The line that a host receives. -/
def Interaction.line? : Interaction → Option OutputLine
  | .emit l => some l
  | _ => none

/-- The lines that a host has received, in order. -/
def delivered (log : List Interaction) : List OutputLine := log.filterMap Interaction.line?

/-- The transcript holds the lines that the host has received. -/
def Machine.Faithful (m : Machine (σ × List Interaction)) : Prop :=
  m.transcript.lines.toList = delivered m.host.2

theorem Machine.Faithful.kept (host : Host σ) (config : Config) (definitions : List (Definition Stmt)) :
    Kept ⟨host.logged, config, definitions, none⟩ .nothing Faithful := by
  have looks (m m' : Machine (σ × List Interaction)) (same : SameOutside m m') (inv : m.Faithful) :
      m'.Faithful := by
    unfold Faithful
    rw [same.transcript, same.host]
    exact inv
  -- What is not a line leaves the lines as they are.
  have silent {m : Machine (σ × List Interaction)} (inv : m.Faithful) (state : σ) {what : Interaction}
      (none : what.line? = none) : (m.withHost (state, m.host.2 ++ [what])).Faithful := by
    unfold Faithful delivered at *
    simp [withHost, inv, none]
  exact .ofHostSteps looks {
    toQuietSteps := Preserves.quietSteps looks
    checkBudget := .checkBudget config
    poll := fun m inv => ⟨silent inv _ rfl, trivial⟩
    showState := fun m inv => ⟨silent inv _ rfl, trivial⟩
    emit := fun l m inv => by
      refine ⟨?_, trivial⟩
      unfold Faithful delivered at *
      simp [Transcript.push, Host.logged, inv, Interaction.line?]
    askInput := fun name type m inv => ⟨silent inv _ rfl, trivial⟩
    askFile := fun name mode m inv => by
      cases mode with
      | read => exact ⟨silent inv _ rfl, trivial⟩
      | write | append => exact ⟨inv, trivial⟩
    setFiles := fun f m inv => ⟨inv, trivial⟩ }

/-- Evaluating an expression, with all the callables that it calls, leaves the host, the files and the
transcript as they were, also if it fails, and takes the same course whatever state the host is in: no
host is asked or shown anything. The same is true of the statements of functions and of procedures that
they call, which are never stopped. In every state that a run can reach, the transcript holds the lines
that the host has received, in this order. The definitions and the configuration are given to a run and
are no part of its state. -/
theorem expressions_keep_outside (host : Host σ) (config : Config) (definitions : List (Definition Stmt))
    (frames : Nat) :
    (∀ e m, SameOutside m (final (eval (runContext host config definitions frames) e m)) ∧
      ∀ s, eval (runContext host config definitions frames) e (m.withHost s) =
        mapState (·.withHost s) (eval (runContext host config definitions frames) e m)) ∧
    (∀ sts m, SameOutside m (final (runBlock host config definitions frames .denied sts m)) ∧
      (∀ s, runBlock host config definitions frames .denied sts (m.withHost s) =
        mapState (·.withHost s) (runBlock host config definitions frames .denied sts m)) ∧
      outcome (runBlock host config definitions frames .denied sts m) ≠ .ok .halt) ∧
    ∀ p draws state m, Reachable p host.logged config draws (state, []) m →
      m.transcript.lines.toList = delivered m.host.2 := by
  refine ⟨fun e m => ?_, fun sts m => ?_, fun p draws state m reached => ?_⟩
  · obtain ⟨ended, blind⟩ := Inward.eval host config definitions frames e m
    exact ⟨ended.final, blind⟩
  · obtain ⟨ended, blind⟩ := (GoesOn.runBlock host config definitions frames sts).2 m
    refine ⟨ended.final, blind, fun stopped => ?_⟩
    cases run : runBlock host config definitions frames .denied sts m with
    | ok flow m' =>
      rw [run] at ended stopped
      cases stopped
      exact ended.2 rfl
    | error e m' =>
      rw [run] at stopped
      cases stopped
  · have initial : (Machine.initial config draws (state, ([] : List Interaction))).Faithful := rfl
    exact (Machine.Faithful.kept host config p.definitions).reachable initial reached

/-- A function whose result is put out. -/
def greeting : Program where
  statements :=
    [.define ⟨"Greet", [], some .string, [.giveBack (some (.literal (.string "hello") ⟨2, 10⟩)) ⟨2, 3⟩], ⟨1, 1⟩⟩,
      .output [.call "Greet" [] ⟨4, 8⟩] ⟨4, 1⟩, .output [.literal (.string "bye") ⟨5, 8⟩] ⟨5, 1⟩]

theorem greeting_delivered :
    ∃ m, Reachable greeting Script.host.logged { arenaSize := 1030 } 0 ({}, []) m ∧
      delivered m.host.2 = [⟨.output, "hello", 4⟩, ⟨.output, "bye", 5⟩] := by
  have reached := reachable_final greeting Script.host.logged { arenaSize := 1030 } 0 ({}, [])
  have shown : (final (greeting.exec Script.host.logged { arenaSize := 1030 }
      (.initial { arenaSize := 1030 } 0 ({}, [])))).transcript.lines.toList =
        [⟨.output, "hello", 4⟩, ⟨.output, "bye", 5⟩] := by
    decide +kernel
  have lines := (expressions_keep_outside Script.host { arenaSize := 1030 } [] 0).2.2 greeting 0 {} _ reached
  exact ⟨_, reached, lines.symm.trans shown⟩

end Pseudocode
