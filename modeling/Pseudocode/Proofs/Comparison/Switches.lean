import Pseudocode.Proofs.Comparison.Hosts
import Pseudocode.Proofs.Trace.Runs

/-!
The switches for the debugger and for the echo of file writes do not change what a program does
(`switches_change_nothing`), with a host that lets it go on and minds neither the steps nor the lines that
the switches add.
-/

namespace Pseudocode

open Exec Machine

variable {σ : Type}

/-- A line that is shown whatever the switches are. -/
def OutputLine.essential (l : OutputLine) : Bool := l.kind != .fileWrite

/-- What is asked of a host or shown to it whatever the switches are. -/
def Interaction.essential : Interaction → Bool
  | .emit l => l.essential
  | .step _ => false
  | _ => true

/-- The host goes on after every step and is never cancelled, and its answers to requests do not depend on the
steps and on the lines written to files that it was shown: from states that are alike it gives the same
answers, and such steps and lines leave states alike. -/
structure Host.Indifferent (host : Host σ) (Alike : σ → σ → Prop) : Prop where
  symm {s t : σ} : Alike s t → Alike t s
  emit {s t : σ} (l : OutputLine) : Alike s t → Alike (host.emit l s) (host.emit l t)
  echo {s t : σ} (text : String) (line : Nat) : Alike s t → Alike (host.emit ⟨.fileWrite, text, line⟩ s) t
  step {s t : σ} (snapshot : Snapshot) :
    Alike s t → (host.step snapshot s).1 = .resume ∧ Alike (host.step snapshot s).2 t
  requestInput {s t : σ} (name : String) (type : DataType) :
    Alike s t → (host.requestInput name type t).1 = (host.requestInput name type s).1 ∧
      Alike (host.requestInput name type s).2 (host.requestInput name type t).2
  requestFile {s t : σ} (name : String) :
    Alike s t → (host.requestFile name t).1 = (host.requestFile name s).1 ∧
      Alike (host.requestFile name s).2 (host.requestFile name t).2
  cancelled {s t : σ} :
    Alike s t → (host.cancelled s).1 = false ∧ Alike (host.cancelled s).2 (host.cancelled t).2

namespace Host.Indifferent

variable {host : Host σ} {Alike : σ → σ → Prop} (h : host.Indifferent Alike)

include h

theorem respects : host.Respects Alike where
  emit l alike := h.emit l alike
  step snapshot alike := by
    obtain ⟨resumes, left⟩ := h.step snapshot alike
    obtain ⟨resumes', right⟩ := h.step snapshot (h.symm left)
    exact ⟨resumes'.trans resumes.symm, h.symm right⟩
  requestInput name type := h.requestInput name type
  requestFile name := h.requestFile name
  cancelled alike := ⟨(h.cancelled (h.symm alike)).1.trans (h.cancelled alike).1.symm, (h.cancelled alike).2⟩

/-- So is the host that also keeps what is asked of it, whose logs then agree in what is essential. -/
theorem logged :
    host.logged.Indifferent fun s t =>
      Alike s.1 t.1 ∧ s.2.filter Interaction.essential = t.2.filter Interaction.essential where
  symm same := ⟨h.symm same.1, same.2.symm⟩
  emit l same := ⟨h.emit l same.1, by simp [Host.logged, same.2]⟩
  echo text line same :=
    ⟨h.echo text line same.1, by simp [Host.logged, same.2, Interaction.essential, OutputLine.essential]⟩
  step snapshot same := by
    obtain ⟨resumes, alike⟩ := h.step snapshot same.1
    exact ⟨resumes, alike, by simp [Host.logged, same.2, Interaction.essential]⟩
  requestInput name type same := by
    obtain ⟨answer, alike⟩ := h.requestInput name type same.1
    exact ⟨answer, alike, by simp [Host.logged, same.2]⟩
  requestFile name same := by
    obtain ⟨content, alike⟩ := h.requestFile name same.1
    exact ⟨content, alike, by simp [Host.logged, same.2]⟩
  cancelled same := by
    obtain ⟨goesOn, alike⟩ := h.cancelled same.1
    exact ⟨goesOn, alike, by simp [Host.logged, same.2]⟩

end Host.Indifferent

/-- What was put out agrees in what is essential, and the states of the host are alike. -/
def Switched (Alike : σ → σ → Prop) (first second : Transcript × σ) : Prop :=
  first.1.lines.toList.filter OutputLine.essential = second.1.lines.toList.filter OutputLine.essential ∧
    Alike first.2 second.2

/-- A computation gives a value, and changes at most what lies outside, where nothing essential changes. -/
def Exec.Aside (Alike : σ → σ → Prop) (a : α) (x : Exec σ α) : Prop :=
  ∀ m outer, Switched Alike (m.transcript, m.host) outer →
    ∃ transcript host, x m = .ok a (m.withOutside transcript host) ∧ Switched Alike (transcript, host) outer

namespace Exec.Tracks

variable {Alike : σ → σ → Prop} {excuse : Cause → Prop}

/-- Two computations that happen aside, with one value, come to the same. -/
theorem aside (symm : ∀ s t, Alike s t → Alike t s) {a : α} {x y : Exec σ α} (first : Aside Alike a x)
    (second : Aside Alike a y) : Tracking (Beside Eq (Switched Alike)) excuse (fun _ => True) x y := by
  have swap {outer outer' : Transcript × σ} (h : Switched Alike outer outer') : Switched Alike outer' outer :=
    ⟨h.1.symm, symm _ _ h.2⟩
  rintro m _ @⟨_, transcript, host, rfl, outer⟩
  obtain ⟨l, s, ran, left⟩ := first m (transcript, host) outer
  obtain ⟨l', s', ran', right⟩ := second (m.besides m.arena m.trace transcript host) (l, s) (swap left)
  rw [ran, ran']
  exact ⟨⟨trivial, trivial⟩, _, rfl, .mk rfl (swap right)⟩

theorem hostSteps_of_indifferent {ctx : Context σ} (h : ctx.host.Indifferent Alike) :
    HostSteps (Tracks (Beside Eq (Switched Alike)) excuse) ctx := by
  refine hostSteps_of_respects (fun s t => s.lines.toList.filter OutputLine.essential =
    t.lines.toList.filter OutputLine.essential) h.respects fun s t l lines => ?_
  simp only [Transcript.push, Array.toList_push, List.filter_append]
  exact congrArg (· ++ _) lines

end Exec.Tracks

namespace Exec

variable (ctx : Context σ) {Alike : σ → σ → Prop} (h : ctx.host.Indifferent Alike)

include h

theorem pause_aside (config : Config) (st : Stmt) : Aside Alike false (pause ctx.host config st) := by
  intro m outer switched
  unfold pause
  split
  · obtain ⟨resumes, alike⟩ := h.step (m.snapshot true) switched.2
    refine ⟨m.transcript, (ctx.host.step (m.snapshot true) m.host).2, ?_, switched.1, alike⟩
    have shown : showState ctx.host m =
        .ok .resume (m.withOutside m.transcript (ctx.host.step (m.snapshot true) m.host).2) := by
      rw [← resumes]
      rfl
    rw [bind_of_ok shown]
    rfl
  · exact ⟨m.transcript, m.host, rfl, switched⟩

theorem echo_aside (text : String) (line : Nat) : Aside Alike () (echo ctx text line) := by
  intro m outer switched
  unfold echo
  split
  · refine ⟨_, _, rfl, ?_, h.echo text line switched.2⟩
    simpa [Transcript.push, OutputLine.essential] using switched.1
  · exact ⟨m.transcript, m.host, rfl, switched⟩

end Exec

theorem Following.ofSwitches (ctx : Context σ) {Alike : σ → σ → Prop} (h : ctx.host.Indifferent Alike)
    (debug echo : Bool) :
    Following ctx { ctx.config with debug, echo } Eq (Switched Alike) fun _ => False where
  memorySteps := Tracks.memorySteps
  hostSteps := Tracks.hostSteps_of_indifferent h
  budget := (Tracks.hostSteps_of_indifferent h).checkBudget
  permit := Tracks.permit ctx.config
  pause st := Tracks.aside (fun _ _ => h.symm) (pause_aside ctx h _ st) (pause_aside ctx h _ st)
  echo text line := by
    refine Tracks.aside (fun _ _ => h.symm) (echo_aside ctx h text line) ?_
    exact echo_aside { ctx with config := { ctx.config with debug, echo } } h text line

/-- The switches for the debugger and for the echo of file writes do not change the program, if the host goes
on after every step, is never cancelled, and gives answers that do not depend on steps and on lines written
to files. Whatever the switches are, the program has the same outcome or error and ends in the same state but
for what was put out and for the host; the lines it put out are the same but for those written to files; and
what it asked of the host and showed to it is the same, in the same order, but for the steps and these
lines. -/
theorem switches_change_nothing (p : Program) {host : Host σ} {Alike : σ → σ → Prop}
    (indifferent : host.Indifferent Alike) (config : Config) (debug echo : Bool) (draws : Draws) {state : σ}
    (itself : Alike state state) :
    let plain := p.exec host.logged config (.initial config draws (state, []))
    let switched := p.exec host.logged { config with debug, echo }
      (.initial { config with debug, echo } draws (state, []))
    outcome switched = outcome plain ∧
      final switched = (final plain).withOutside (final switched).transcript (final switched).host ∧
      (final switched).transcript.lines.toList.filter OutputLine.essential =
        (final plain).transcript.lines.toList.filter OutputLine.essential ∧
      (final switched).host.2.filter Interaction.essential =
        (final plain).host.2.filter Interaction.essential := by
  intro plain switched
  have following := Following.ofSwitches ⟨host.logged, config, p.definitions, none⟩ indifferent.logged debug echo
  have initial : Beside Eq (Switched fun s t => Alike s.1 t.1 ∧
      s.2.filter Interaction.essential = t.2.filter Interaction.essential)
      (Machine.initial config draws (state, ([] : List Interaction)))
      (.initial { config with debug, echo } draws (state, [])) := .mk rfl ⟨rfl, itself, rfl⟩
  obtain ⟨same, beside⟩ := (following.exec initial).same fun _ _ never => never
  refine ⟨same, ?_⟩
  generalize final switched = last at beside
  obtain @⟨_, transcript, host, rfl, lines, -, log⟩ := beside
  exact ⟨rfl, lines.symm, log.symm⟩

/-- Scripts that have the same answers left and never ask for a stop. -/
def Script.SameAnswers (s t : Script) : Prop :=
  s.inputs = t.inputs ∧ s.files = t.files ∧ (s.stopAfter = none ∧ t.stopAfter = none) ∧
    s.cancelAfter = none ∧ t.cancelAfter = none

theorem Script.indifferent : Script.host.Indifferent Script.SameAnswers where
  symm := fun ⟨inputs, files, stop, cancel⟩ => ⟨inputs.symm, files.symm, stop.symm, cancel.symm⟩
  emit _ same := same
  echo _ _ same := same
  step snapshot := fun ⟨inputs, files, stop, cancel⟩ =>
    ⟨by simp [host, stop.1], inputs, files, stop, cancel⟩
  requestInput := by
    rintro ⟨inputs, files, stopAfter, cancelAfter, lines, prompts, snapshots⟩
      ⟨inputs', files', stopAfter', cancelAfter', lines', prompts', snapshots'⟩ name type ⟨rfl, rfl, stop, cancel⟩
    cases inputs with
    | nil | cons text rest => exact ⟨rfl, rfl, rfl, stop, cancel⟩
  requestFile name := fun ⟨inputs, files, stop, cancel⟩ =>
    ⟨by simp [host, files], inputs, files, stop, cancel⟩
  cancelled := fun ⟨inputs, files, stop, cancel⟩ =>
    ⟨by simp [host, cancel.1], inputs, files, stop, cancel⟩

/-- Writes a name that was asked for to a file. -/
def register : Program where
  statements :=
    [.declare "Name" .string ⟨1, 1⟩, .input (.identifier "Name" ⟨2, 7⟩) ⟨2, 1⟩,
      .openFile (.literal (.string "names") ⟨3, 10⟩) .write ⟨3, 1⟩,
      .writeFile (.literal (.string "names") ⟨4, 11⟩) (.identifier "Name" ⟨4, 20⟩) ⟨4, 1⟩,
      .closeFile (.literal (.string "names") ⟨5, 11⟩) ⟨5, 1⟩,
      .output [.identifier "Name" ⟨6, 8⟩] ⟨6, 1⟩]

/-- With the switches on, each of the six statements is a step, and one more line is shown. -/
theorem register_switched :
    let config : Config := { arenaSize := 1030 }
    let script : Script := { inputs := ["Ada"] }
    let plain := register.exec Script.host.logged config (.initial config 0 (script, []))
    let switched := register.exec Script.host.logged { config with debug := true, echo := true }
      (.initial { config with debug := true, echo := true } 0 (script, []))
    script.SameAnswers script ∧
      (final plain).host.1.snapshots.size = 0 ∧ (final switched).host.1.snapshots.size = 6 ∧
      (final switched).transcript.lines.size = (final plain).transcript.lines.size + 1 ∧
      outcome switched = outcome plain ∧
      (final switched).host.2.filter Interaction.essential =
        (final plain).host.2.filter Interaction.essential := by
  intro config script
  have itself : script.SameAnswers script := ⟨rfl, rfl, ⟨rfl, rfl⟩, rfl, rfl⟩
  have unchanged := switches_change_nothing register Script.indifferent config true true 0 itself
  dsimp only at unchanged ⊢
  obtain ⟨same, -, -, log⟩ := unchanged
  exact ⟨itself, by decide +kernel, by decide +kernel, by decide +kernel, same, log⟩

end Pseudocode
