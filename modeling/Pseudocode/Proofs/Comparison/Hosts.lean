import Pseudocode.Proofs.Comparison.Runs

/-!
Two runs of one program with one host that starts in two states. If the host gives the same answers in states that
are alike, the runs are the same but for the states of the host, which stay alike (`Host.Respects.exec`).
-/

namespace Pseudocode

open Exec Machine

variable {σ : Type}

/-- From states that are alike the host gives the same answers and comes to states that are alike. -/
structure Host.Respects (host : Host σ) (Alike : σ → σ → Prop) : Prop where
  emit {s t : σ} (l : OutputLine) : Alike s t → Alike (host.emit l s) (host.emit l t)
  step {s t : σ} (snapshot : Snapshot) :
    Alike s t → (host.step snapshot t).1 = (host.step snapshot s).1 ∧
      Alike (host.step snapshot s).2 (host.step snapshot t).2
  requestInput {s t : σ} (name : String) (type : DataType) :
    Alike s t → (host.requestInput name type t).1 = (host.requestInput name type s).1 ∧
      Alike (host.requestInput name type s).2 (host.requestInput name type t).2
  requestFile {s t : σ} (name : String) :
    Alike s t → (host.requestFile name t).1 = (host.requestFile name s).1 ∧
      Alike (host.requestFile name s).2 (host.requestFile name t).2
  cancelled {s t : σ} :
    Alike s t → (host.cancelled t).1 = (host.cancelled s).1 ∧ Alike (host.cancelled s).2 (host.cancelled t).2

/-- What was put out is the same, and the states of the host are alike. -/
def SameShown (Alike : σ → σ → Prop) (first second : Transcript × σ) : Prop :=
  first.1 = second.1 ∧ Alike first.2 second.2

namespace Exec.Tracks

variable {Alike : σ → σ → Prop} {excuse : Cause → Prop} {Shown : Transcript → Transcript → Prop}

theorem answer {q : Machine σ → σ → α × σ} (blind : ∀ m a l s, q (m.besides a m.trace l s) = q m)
    (answers : ∀ m s t, Alike s t → (q m t).1 = (q m s).1 ∧ Alike (q m s).2 (q m t).2) :
    Tracks (Beside Eq fun s t => Shown s.1 t.1 ∧ Alike s.2 t.2) excuse (fun _ => True)
      (modifyGet fun m => ((q m m.host).1, { m with host := (q m m.host).2 })) := by
  refine turnTo blind fun m l s ⟨shown, alike⟩ => ?_
  obtain ⟨same, alike'⟩ := answers m m.host s alike
  exact ⟨same, shown, alike'⟩

/-- What was shown may be related by any relation that one more line preserves. -/
theorem hostSteps_of_respects (Shown : Transcript → Transcript → Prop) {ctx : Context σ}
    (h : ctx.host.Respects Alike) (push : ∀ s t l, Shown s t → Shown (s.push l) (t.push l)) :
    HostSteps (Tracks (Beside Eq fun s t => Shown s.1 t.1 ∧ Alike s.2 t.2) excuse) ctx where
  toFileSteps := fileSteps
  poll := answer (fun _ _ _ _ => rfl) fun _ _ _ => h.cancelled
  showState := answer (q := fun m => ctx.host.step (m.snapshot true)) (fun _ _ _ _ => rfl) fun m _ _ => h.step _
  emit l := by
    refine Tracking.modifyGet ?_
    rintro m _ @⟨_, _, host, rfl, shown, alike⟩
    exact ⟨rfl, .mk rfl ⟨push _ _ l shown, h.emit l alike⟩⟩
  askInput name type := answer (fun _ _ _ _ => rfl) fun _ _ _ => h.requestInput name type
  askFile name mode := by
    cases mode with
    | read => exact answer (fun _ _ _ _ => rfl) fun _ _ _ => h.requestFile name
    | write | append => exact Tracking.pure trivial
  checkBudget := quietSteps.checkBudget Tracking.throw ctx.config

end Exec.Tracks

theorem Following.ofRespects {ctx : Context σ} {Alike : σ → σ → Prop} (h : ctx.host.Respects Alike) :
    Following ctx ctx.config Eq (SameShown Alike) fun _ => False := by
  have steps : HostSteps (Tracks (Beside Eq (SameShown Alike)) fun _ => False) ctx :=
    Tracks.hostSteps_of_respects Eq h fun _ _ l => congrArg (Transcript.push · l)
  exact {
    memorySteps := Tracks.memorySteps
    hostSteps := steps
    budget := steps.checkBudget
    permit := Tracks.permit ctx.config
    pause := steps.pause
    echo := steps.echo }

/-- A run does not depend on what a host makes no use of. -/
theorem Host.Respects.exec {host : Host σ} {Alike : σ → σ → Prop} (h : host.Respects Alike) (p : Program)
    (config : Config) (draws : Draws) {s t : σ} (alike : Alike s t) :
    outcome (p.exec host config (.initial config draws t)) = outcome (p.exec host config (.initial config draws s)) ∧
      ∃ state, Alike (final (p.exec host config (.initial config draws s))).host state ∧
        final (p.exec host config (.initial config draws t)) =
          (final (p.exec host config (.initial config draws s))).withHost state := by
  have following : Following ⟨host, config, p.definitions, none⟩ config Eq (SameShown Alike) fun _ => False :=
    .ofRespects h
  have initial : Beside Eq (SameShown Alike) (Machine.initial config draws s) (.initial config draws t) :=
    .mk rfl ⟨rfl, alike⟩
  obtain ⟨same, beside⟩ := (following.exec initial).same fun _ _ never => never
  refine ⟨same, ?_⟩
  generalize final (p.exec host config (.initial config draws t)) = last at beside
  obtain @⟨_, _, state, rfl, rfl, alike⟩ := beside
  exact ⟨state, alike, rfl⟩

end Pseudocode
