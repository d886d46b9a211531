import Pseudocode.Proofs.Stopping.Obedience
import Pseudocode.Proofs.Stopping.Script

/-!
Stopping early only truncates: a run that is cancelled, that lacks an INPUT or that is stopped in the
debugger shows the beginning of what the whole run shows, and no statement begins after the stop
(`stopping_truncates`).
-/

namespace Pseudocode

open Exec Machine

/-- What a script has been shown when the run of a program has ended. -/
def Program.play (p : Program) (config : Config) (draws : Draws) (script : Script) : Script :=
  (final (p.exec Script.host config (.initial config draws script))).host

section Scripts

variable (p : Program) (config : Config) (draws : Draws)

/-- Two scripts that compare as a truncation says compare so at the end, or the first run was cut. -/
theorem Truncation.play {Between Begun Cut : Script → Script → Prop}
    (h : Truncation Script.host Between Begun Cut) {s t : Script} (between : Between s t) :
    Between (p.play config draws s) (p.play config draws t) ∧
        p.exec Script.host config (.initial config draws s) =
          mapState (·.withHost (p.play config draws s)) (p.exec Script.host config (.initial config draws t)) ∨
      Cut (p.play config draws s) (p.play config draws t) := by
  rcases h.exec p config (.initial config draws t) s between with ⟨s', same, between'⟩ | cut
  · have ended : p.play config draws s = s' := by
      unfold Program.play
      rw [show Machine.initial config draws s = (Machine.initial config draws t).withHost s from rfl, same,
        final_mapState]
      rfl
    exact .inl (ended ▸ ⟨between', same⟩)
  · exact .inr cut

theorem cancelled_lines (inputs : List String) (files : List (String × String)) (stopAfter : Option Nat)
    (n : Nat) :
    (p.play config draws { inputs, files, stopAfter, cancelAfter := some n }).lines.toList =
      (p.play config draws { inputs, files, stopAfter }).lines.toList.take n := by
  have between : Script.Cancelling n (· ≤ n) { inputs, files, stopAfter, cancelAfter := some n }
      { inputs, files, stopAfter } := ⟨rfl, rfl, Nat.zero_le n⟩
  rcases (Script.cancelling n).play p config draws between with ⟨⟨same, -, room⟩, -⟩ | ⟨full, begun⟩
  · rw [same, List.take_of_length_le (by simpa using room)]
  · rw [List.prefix_iff_eq_take.1 begun, Array.length_toList, full]

theorem supplied_prefix (xs ys : List String) (files : List (String × String))
    (stopAfter cancelAfter : Option Nat) :
    let short := p.play config draws { inputs := xs, files, stopAfter, cancelAfter }
    let long := p.play config draws { inputs := xs ++ ys, files, stopAfter, cancelAfter }
    short.lines.toList <+: long.lines.toList ∧ short.prompts.toList <+: long.prompts.toList := by
  have between : Script.Supplied xs.length ys { inputs := xs, files, stopAfter, cancelAfter }
      { inputs := xs ++ ys, files, stopAfter, cancelAfter } := ⟨rfl, by simp⟩
  rcases (Script.supplied xs.length ys).play p config draws between with ⟨⟨same, -⟩, -⟩ | ⟨-, lines, prompts⟩
  · dsimp only
    rw [same]
    exact ⟨List.prefix_refl _, List.prefix_refl _⟩
  · exact ⟨lines, prompts⟩

/-- A run that lacks no answer is the run with more of them, which are left over. -/
theorem supplied_same (xs ys : List String) (files : List (String × String))
    (stopAfter cancelAfter : Option Nat)
    (enough : (p.play config draws { inputs := xs, files, stopAfter, cancelAfter }).prompts.size ≤ xs.length) :
    p.exec Script.host config
        (.initial config draws { inputs := xs ++ ys, files, stopAfter, cancelAfter }) =
      mapState (fun m => m.withHost { m.host with inputs := m.host.inputs ++ ys })
        (p.exec Script.host config (.initial config draws { inputs := xs, files, stopAfter, cancelAfter })) := by
  have between : Script.Supplied xs.length ys { inputs := xs, files, stopAfter, cancelAfter }
      { inputs := xs ++ ys, files, stopAfter, cancelAfter } := ⟨rfl, by simp⟩
  rcases (Script.supplied xs.length ys).play p config draws between with ⟨⟨last, -⟩, same⟩ | ⟨lacks, -⟩
  · rw [same]
    unfold Program.play at last
    cases run : p.exec Script.host config
        (.initial config draws { inputs := xs ++ ys, files, stopAfter, cancelAfter }) with
    | ok outcome m =>
      rw [run] at last
      have here : m.withHost m.host = m := rfl
      simp only [mapState, withHost, EStateM.Result.ok.injEq, true_and]
      exact here.symm.trans (congrArg m.withHost last)
    | error e m =>
      rw [run] at last
      have here : m.withHost m.host = m := rfl
      simp only [mapState, withHost, EStateM.Result.error.injEq, true_and]
      exact here.symm.trans (congrArg m.withHost last)
  · omega

theorem stopped_steps (inputs : List String) (files : List (String × String)) (cancelAfter : Option Nat)
    (k : Nat) :
    let stopped := p.play config draws { inputs, files, stopAfter := some k, cancelAfter }
    let whole := p.play config draws { inputs, files, cancelAfter }
    stopped.lines.toList <+: whole.lines.toList ∧
      stopped.snapshots.toList = whole.snapshots.toList.take (k + 1) := by
  have between : Script.Stepping k { inputs, files, stopAfter := some k, cancelAfter }
      { inputs, files, cancelAfter } := ⟨rfl, rfl, Nat.zero_le k⟩
  rcases (Script.stepping k).play p config draws between with ⟨⟨same, -, room⟩, -⟩ | ⟨full, lines, snapshots⟩
  · dsimp only
    rw [same]
    refine ⟨List.prefix_refl _, (List.take_of_length_le ?_).symm⟩
    simpa using Nat.le_succ_of_le room
  · refine ⟨lines, ?_⟩
    rw [List.prefix_iff_eq_take.1 snapshots, Array.length_toList, full]

end Scripts

/-- Where a statement begins, no stop has been asked for. In the end one has been asked for if and only if
the run was cancelled, and the host was not turned to since. -/
theorem stops_are_obeyed {σ : Type} (p : Program) (host : Host σ) (config : Config) (draws : Draws) (state : σ) :
    (∀ m, StatementBegins p host.minded config draws (state, none) m → m.host.2 = none) ∧
      let ran := p.exec host.minded config (.initial config draws (state, none))
      (final ran).host.2 = if outcome ran matches .ok .cancelled then some 0 else none := by
  have initial : (Machine.initial config draws (state, (none : Option Nat))).Running :=
    ⟨.empty _ (.empty _), rfl⟩
  refine ⟨fun m ⟨fuel, among⟩ => (Obeys.exec p host config fuel _ initial).1 m among, ?_⟩
  have ended := (Obeys.exec p host config _ _ initial).2 _
    (openings_result p host.minded config draws (state, none) 0)
  dsimp only
  cases run : p.exec host.minded config (.initial config draws (state, none)) with
  | ok outcome m =>
    rw [run] at ended
    cases outcome <;> exact ended.2
  | error e m =>
    rw [run] at ended
    exact ended.going

/-- Stopping early only truncates. A run that is cancelled when `n` lines have been emitted emits the first
`n` lines of the run that is not cancelled, or all of them if there are fewer. With fewer inputs, the lines
and the prompts are a prefix of those with more; if no input was lacking, both runs have the same result and
end in the same state, but for the inputs left over. A run that is stopped in the debugger after step `k`
emits a prefix of the lines of the run that goes on, and shows its first snapshots, to that of the stop.
With every host, no statement begins after a stop, at the top level or in a callable, and the host is not
turned to again. -/
theorem stopping_truncates (p : Program) (config : Config) (draws : Draws) (files : List (String × String)) :
    (∀ inputs stopAfter n,
      (p.play config draws { inputs, files, stopAfter, cancelAfter := some n }).lines.toList =
        (p.play config draws { inputs, files, stopAfter }).lines.toList.take n) ∧
    (∀ xs ys stopAfter cancelAfter,
      let short := p.exec Script.host config (.initial config draws { inputs := xs, files, stopAfter, cancelAfter })
      let long :=
        p.exec Script.host config (.initial config draws { inputs := xs ++ ys, files, stopAfter, cancelAfter })
      (final short).host.lines.toList <+: (final long).host.lines.toList ∧
      (final short).host.prompts.toList <+: (final long).host.prompts.toList ∧
      ((final short).host.prompts.size ≤ xs.length →
        long = mapState (fun m => m.withHost { m.host with inputs := m.host.inputs ++ ys }) short)) ∧
    (∀ inputs cancelAfter k,
      let stopped := p.play config draws { inputs, files, stopAfter := some k, cancelAfter }
      let whole := p.play config draws { inputs, files, cancelAfter }
      stopped.lines.toList <+: whole.lines.toList ∧
        stopped.snapshots.toList = whole.snapshots.toList.take (k + 1)) ∧
    ∀ (σ : Type) (host : Host σ) (state : σ),
      (∀ m, StatementBegins p host.minded config draws (state, none) m → m.host.2 = none) ∧
      let ran := p.exec host.minded config (.initial config draws (state, none))
      (final ran).host.2 = if outcome ran matches .ok .cancelled then some 0 else none := by
  refine ⟨?_, ?_, ?_, ?_⟩
  · intro inputs stopAfter n
    exact cancelled_lines p config draws inputs files stopAfter n
  · intro xs ys stopAfter cancelAfter
    have shown := supplied_prefix p config draws xs ys files stopAfter cancelAfter
    exact ⟨shown.1, shown.2, supplied_same p config draws xs ys files stopAfter cancelAfter⟩
  · intro inputs cancelAfter k
    exact stopped_steps p config draws inputs files cancelAfter k
  · intro σ host state
    exact stops_are_obeyed p host config draws state

/-- Asks for a name and repeats it. -/
def echoing : Program where
  statements :=
    [.declare "Name" .string ⟨1, 1⟩, .input (.identifier "Name" ⟨2, 7⟩) ⟨2, 1⟩,
      .output [.identifier "Name" ⟨3, 8⟩] ⟨3, 1⟩]

/-- One answer is enough, and a second one is left over. -/
theorem echoing_supplied :
    (final (echoing.exec Script.host { arenaSize := 1030 }
      (.initial { arenaSize := 1030 } 0 { inputs := ["Ada"] }))).host.prompts.size ≤ ["Ada"].length ∧
    (final (echoing.exec Script.host { arenaSize := 1030 }
      (.initial { arenaSize := 1030 } 0 { inputs := ["Ada"] ++ ["Bob"] }))).host.inputs = ["Bob"] := by
  have enough : (final (echoing.exec Script.host { arenaSize := 1030 }
      (.initial { arenaSize := 1030 } 0 { inputs := ["Ada"] }))).host.prompts.size ≤ ["Ada"].length := by
    decide +kernel
  have used : (final (echoing.exec Script.host { arenaSize := 1030 }
      (.initial { arenaSize := 1030 } 0 { inputs := ["Ada"] }))).host.inputs = [] := by
    decide +kernel
  have truncated := (stopping_truncates echoing { arenaSize := 1030 } 0 []).2.1 ["Ada"] ["Bob"] none none
  dsimp only at truncated
  refine ⟨enough, ?_⟩
  rw [truncated.2.2 enough, final_mapState]
  simp only [withHost, used, List.nil_append]

end Pseudocode
