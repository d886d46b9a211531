import Pseudocode.Proofs.Comparison.Tracking
import Pseudocode.Proofs.Mirror.Runs

/-!
Two runs of one program under two configurations. If the steps of the second run track those of the
first, it does the same from beginning to end, unless the first ends with an error that is excused
(`Following.exec`).

An error leaves through all calls that run. Their frames are always closed, because variables agree with
their copies in the arena, and so an error that is excused stays the error that the run ends with.
-/

namespace Pseudocode

open Exec Machine Semantics

variable {σ : Type} {α β : Type}

namespace Watch

/-- A computation keeps variables and their copies together, and another one follows it. -/
def Follows (Same : Machine σ → Machine σ → Prop) (excuse : Cause → Prop) (m : Machine σ)
    (Q : Machine σ → α → Prop) (x y : Watch σ α) : Prop :=
  Keeps .nothing Mirrors (fun _ => True) m Q x ∧
    (m.Mirrors → ∀ n, Same m n → Followed Same excuse (x m).result (y n).result)

namespace Follows

variable {Same : Machine σ → Machine σ → Prop} {excuse : Cause → Prop} {m : Machine σ}

theorem pure {Q : Machine σ → α → Prop} {a : α} (known : Q m a) :
    Follows Same excuse m Q (pure a : Watch σ α) (Pure.pure a) :=
  ⟨.pure known, fun _ n same => ⟨n, rfl, same⟩⟩

theorem exhausted {Q : Machine σ → α → Prop} {y : Watch σ α} : Follows Same excuse m Q exhausted y :=
  ⟨.exhausted, fun _ _ _ => trivial⟩

theorem lift {P : α → Prop} {Q : Machine σ → α → Prop} {x y : Exec σ α}
    (keeps : Exec.Keeps .nothing Mirrors m Q x) (tracks : Tracking Same excuse P x y) :
    Follows Same excuse m Q (lift x) (Watch.lift y) :=
  ⟨.lift keeps, fun _ n same => (tracks m n same).2⟩

theorem bind {P : Machine σ → α → Prop} {Q : Machine σ → β → Prop} {x y : Watch σ α} {f g : α → Watch σ β}
    (first : Follows Same excuse m P x y) (next : ∀ m' a, P m' a → Follows Same excuse m' Q (f a) (g a)) :
    Follows Same excuse m Q (x >>= f) (y >>= g) := by
  refine ⟨first.1.bind fun m' a _ known => (next m' a known).1, fun inv n same => ?_⟩
  have kept := (first.1 inv).2
  have followed := first.2 inv n same
  rcases ran : x m with ⟨seen, _ | ⟨a, m'⟩ | ⟨e, m'⟩⟩
  · rw [bind_of_none ran]
    trivial
  · rw [ran] at kept followed
    rw [bind_of_ok ran]
    obtain ⟨⟨inv', -⟩, known⟩ := kept _ rfl
    obtain ⟨n', ran', same'⟩ := followed
    rcases other : y n with ⟨seen', r⟩
    rw [other] at ran'
    obtain rfl : r = _ := ran'
    rw [bind_of_ok other]
    exact (next m' a known).2 inv' n' same'
  · rw [ran] at followed
    rw [bind_of_error ran]
    rcases followed with allowed | ⟨n', ran', same'⟩
    · exact .inl allowed
    · rcases other : y n with ⟨seen', r⟩
      rw [other] at ran'
      obtain rfl : r = _ := ran'
      rw [bind_of_error other]
      exact .inr ⟨n', rfl, same'⟩

theorem sequenced : Sequenced (fun _ m Q x y => Follows Same excuse m Q (Watch.lift x) (Watch.lift y)) .nothing where
  pure known := pure known
  throw ordinary := lift (P := fun _ => True) (Exec.Keeps.sequenced.throw ordinary) (.throw _)
  bind first next := by
    rw [lift_bind, lift_bind]
    exact first.bind fun m' a known => next m' a trivial known

theorem composes : Composes .nothing fun _ => Follows Same excuse where
  exhausted := exhausted
  pure := pure
  bind first next := first.bind fun m' a known => next m' a trivial known

end Follows

end Watch

namespace Exec

/-- Shows a statement that is about to run to the host, if it is watched. -/
def pause (host : Host σ) (config : Config) (st : Stmt) : Exec σ Bool :=
  if config.debug && !st.isDefinition then do
    let reply ← showState host
    pure (reply == .stop)
  else pure false

theorem interrupted_granted (ctx : Context σ) (st : Stmt) :
    interrupted ctx .granted st = (do
      modify fun m => { m with line := st.line, calls := m.calls.setLine st.line }
      checkBudget ctx.config st.line
      let stopped ← poll ctx.host
      if stopped then pure true else pause ctx.host ctx.config st) := rfl

theorem HostSteps.pause {C : Property σ} {ctx : Context σ} (h : HostSteps C ctx) (st : Stmt) :
    C.of (pause ctx.host ctx.config st) := by
  unfold Exec.pause
  split
  · exact h.bind h.showState fun _ _ => h.pure trivial
  · exact h.pure trivial

/-- Whether a call is refused does not depend on what may differ. -/
theorem Tracks.permit {Arenas : Arena → Arena → Prop} {Outer : Transcript × σ → Transcript × σ → Prop}
    {excuse : Cause → Prop} (config : Config) (d : Definition Stmt) (arguments line : Nat) :
    Tracks (Beside Arenas Outer) excuse (fun _ => True) (Watch.permit config d arguments line) := by
  unfold Watch.permit
  split
  · refine quietSteps.look (fun _ _ _ _ _ => rfl) fun m => ?_
    split
    · exact Tracking.throw _
    · exact Tracking.pure trivial
  · exact Tracking.throw _

end Exec

/-- The steps under a second configuration track those of a run. Where nothing depends on the configuration,
they are the same steps. -/
structure Following (ctx : Context σ) (config : Config) (Arenas : Arena → Arena → Prop)
    (Outer : Transcript × σ → Transcript × σ → Prop) (excuse : Cause → Prop) : Prop where
  memorySteps : MemorySteps (Tracks (Beside Arenas Outer) excuse)
  hostSteps : HostSteps (Tracks (Beside Arenas Outer) excuse) ctx
  budget (line : Nat) :
    Tracking (Beside Arenas Outer) excuse (fun _ => True) (checkBudget ctx.config line) (checkBudget config line)
  permit (d : Definition Stmt) (arguments line : Nat) :
    Tracking (Beside Arenas Outer) excuse (fun _ => True) (Watch.permit ctx.config d arguments line)
      (Watch.permit config d arguments line)
  pause (st : Stmt) :
    Tracking (Beside Arenas Outer) excuse (fun _ => True) (pause ctx.host ctx.config st)
      (Exec.pause ctx.host config st)
  echo (text : String) (line : Nat) :
    Tracking (Beside Arenas Outer) excuse (fun _ => True) (echo ctx text line)
      (Exec.echo { ctx with config } text line)

namespace Following

variable {ctx : Context σ} {config : Config} {Arenas : Arena → Arena → Prop}
  {Outer : Transcript × σ → Transcript × σ → Prop} {excuse : Cause → Prop}
  (h : Following ctx config Arenas Outer excuse)

include h

theorem interrupted (access : Access) (st : Stmt) :
    Tracking (Beside Arenas Outer) excuse (fun _ => True) (interrupted ctx access st)
      (Exec.interrupted { ctx with config } access st) := by
  cases access with
  | denied =>
    refine Tracking.bind (h.hostSteps.setLine st.line) fun _ _ => ?_
    exact Tracking.bind (h.budget st.line) fun _ _ => Tracking.pure trivial
  | granted =>
    rw [interrupted_granted, interrupted_granted]
    refine Tracking.bind (h.hostSteps.setLine st.line) fun _ _ => ?_
    refine Tracking.bind (h.budget st.line) fun _ _ => ?_
    refine Tracking.bind h.hostSteps.poll fun stopped _ => ?_
    cases stopped with
    | true => exact Tracking.pure trivial
    | false => exact h.pause st

theorem tick (line : Nat) :
    Tracking (Beside Arenas Outer) excuse (fun _ => True) (tick ctx.config line) (Exec.tick config line) :=
  Tracking.bind (Tracks.framing h.memorySteps).countPass fun _ _ => h.budget line

theorem steps :
    Steps (fun _ m Q x y => Watch.Follows (Beside Arenas Outer) excuse m Q (Watch.lift x) (Watch.lift y)) .nothing
      Eq ctx { ctx with config } := by
  have kept : Kept ctx .nothing Mirrors := Machine.Mirrors.kept.kept ctx
  refine h.hostSteps.refine h.memorySteps kept.steps Watch.Follows.sequenced .lift ?_ ?_
  · intro m access st
    exact .lift (kept.steps.interrupted rfl st) (h.interrupted access st)
  · intro m text line
    exact .lift (kept.steps.echo rfl text line) (h.echo text line)

/-- A call is followed if its body is. An error that is excused leaves the call as it is. -/
theorem runBody {body body' : Access → List Stmt → Watch σ Flow} {mark mark' : Watch σ Flow → Watch σ Flow}
    {access : Access}
    (onBody : ∀ m sts, Watch.Follows (Beside Arenas Outer) excuse m Knowledge.nothing.flow (body access sts)
      (body' access sts))
    (fuel : Nat) {m : Machine σ} {d : Definition Stmt} {bindings : List Binding} (kind : CallableKind) (line : Nat)
    (known : Knowledge.nothing.bindings m d.params bindings) :
    Watch.Follows (Beside Arenas Outer) excuse m (fun m' ended => Knowledge.nothing.flow m' ended.1)
      ({ Watch.semantics ctx.config fuel body with boundary := mark }.runBody access d kind bindings line)
      ({ Watch.semantics config fuel body' with boundary := mark' }.runBody access d kind bindings line) := by
  have kept : Kept ctx .nothing Mirrors := Machine.Mirrors.kept.kept ctx
  have frames := Tracks.framing h.memorySteps
  refine ⟨kept.runBody (fun m _ sts => (onBody m sts).1) fuel kind line known, fun inv n same => ?_⟩
  obtain ⟨m₁, entered, inv₁, -⟩ := kept.call kind line known inv
  have begun := (frames.enter d kind bindings line m n same).2
  rw [entered] at begun
  obtain ⟨n₁, entered', same₁⟩ := begun
  rw [Watch.runBody_eq, Watch.runBody_eq, entered, Option.some.inj entered']
  have inside := ((onBody m₁ d.body).1 inv₁).2
  have followed := (onBody m₁ d.body).2 inv₁ n₁ same₁
  have closes {result : Except RuntimeError Flow} :
      Tracks (Beside Arenas Outer) excuse (fun _ => True) (closeCall line result) :=
    frames.closeCall line fun _ _ => trivial
  dsimp only
  rcases ran : (body access d.body m₁).result with _ | ⟨flow, m₂⟩ | ⟨e, m₂⟩
  · trivial
  · rw [ran] at followed
    obtain ⟨n₂, ended, same₂⟩ := followed
    rw [ended]
    exact (closes m₂ n₂ same₂).2
  · rw [ran] at inside followed
    rcases followed with allowed | ⟨n₂, ended, same₂⟩
    · obtain ⟨m₃, -, -, closed⟩ := closeCall_eq (inside _ rfl).1 line (.error e)
      show Followed _ _ (some (closeCall line (.error e) m₂)) _
      rw [closed]
      exact .inl allowed
    · rw [ended]
      exact (closes m₂ n₂ same₂).2

/-- One level of calls, given the bodies of the callables. -/
theorem semantics {body body' : Access → List Stmt → Watch σ Flow}
    (onBody : ∀ access m sts, Watch.Follows (Beside Arenas Outer) excuse m Knowledge.nothing.flow
      (body access sts) (body' access sts))
    (fuel : Nat) :
    Congruence { Watch.semantics ctx.config fuel body with boundary := id }
      { Watch.semantics config fuel body' with boundary := id } ctx { ctx with config }
      (fun _ m Q x y => Watch.Follows (Beside Arenas Outer) excuse m Q (Watch.lift x) (Watch.lift y))
      (fun _ => Watch.Follows (Beside Arenas Outer) excuse) .nothing Eq True := by
  have kept : Kept ctx .nothing Mirrors := Machine.Mirrors.kept.kept ctx
  refine Watch.Follows.composes.semantics fuel h.steps id id ?_ ?_ ?_
  · intro m line
    exact .lift (kept.tick m line) (h.tick line)
  · intro m _ d _ arguments line
    exact .lift (Watch.permit_keeps ctx.config d arguments line) (h.permit d arguments line)
  · rintro m _ access _ rfl d kind bindings line known
    exact h.runBody (onBody access) fuel kind line known

theorem watching (fuel : Nat) :
    Congruence (watchingAt id id ctx fuel) (watchingAt id id { ctx with config } fuel) ctx { ctx with config }
      (fun _ m Q x y => Watch.Follows (Beside Arenas Outer) excuse m Q (Watch.lift x) (Watch.lift y))
      (fun _ => Watch.Follows (Beside Arenas Outer) excuse) .nothing Eq True := by
  induction fuel with
  | zero => exact h.semantics (fun _ _ _ => .exhausted) 0
  | succ fuel ih => exact h.semantics (fun _ m sts => ih.execBlock rfl m sts) (fuel + 1)

end Following

/-- A program under one configuration does what it does under another, unless it ends with an error that is
excused. -/
theorem Following.exec {p : Program} {host : Host σ} {config config' : Config} {Arenas : Arena → Arena → Prop}
    {Outer : Transcript × σ → Transcript × σ → Prop} {excuse : Cause → Prop}
    (h : Following ⟨host, config, p.definitions, none⟩ config' Arenas Outer excuse) {draws : Draws} {s s' : σ}
    (initial : Beside Arenas Outer (.initial config draws s) (.initial config' draws s')) :
    Followed (Beside Arenas Outer) excuse (some (p.exec host config (.initial config draws s)))
      (some (p.exec host config' (.initial config' draws s'))) := by
  -- Both runs are watched with the fuel that either of them needs.
  have first := watchingAt_result id id (fun _ _ => rfl) (fun _ _ => rfl) p host config draws s
    (config'.maxDepth + config'.maxIterations)
  have second := watchingAt_result id id (fun _ _ => rfl) (fun _ _ => rfl) p host config' draws s'
    (config.maxDepth + config.maxIterations)
  have fuel : config'.maxDepth + config'.maxIterations + 1 + (config.maxDepth + config.maxIterations) =
      config.maxDepth + config.maxIterations + 1 + (config'.maxDepth + config'.maxIterations) := by omega
  rw [fuel] at second
  have inv : (Machine.initial config draws s).Mirrors := .empty _ (.empty _)
  rw [← first, ← second]
  exact ((h.watching _).exec rfl _ p).2 inv _ initial

end Pseudocode
