import Pseudocode.Proofs.Stack.Depths

/-!
How high the stacks grow. In every state that a run can reach there is one scope for each call that runs,
beside the global one, and no more calls run than are allowed (`balanced_of_reachable`).

The invariant counts the calls that may still be nested. Steps keep that number, and in the body of a
callable it is one less.
-/

namespace Pseudocode

open Exec Machine Semantics

variable {σ : Type}

/-- Beside the global scope there is one for each call that runs, and as many more calls may be nested. -/
structure Machine.Stacked (config : Config) (frames : Nat) (m : Machine σ) : Prop where
  scopes : m.scopes.depth = m.calls.depth + 1
  frames : FramesLeft config frames m

/-- There is one scope for each call that runs, beside the global one, and no more calls run than are
allowed. -/
def Machine.Balanced (config : Config) (m : Machine σ) : Prop :=
  m.scopes.depth = m.calls.depth + 1 ∧ m.calls.depth ≤ config.maxDepth

namespace Machine.Stacked

variable {config : Config} {frames : Nat}

theorem depths {m m' : Machine σ} (h : Stacked config frames m) (depths : SameDepths m m') :
    Stacked config frames m' where
  scopes := by rw [depths.scopes, depths.calls, h.scopes]
  frames := by
    unfold FramesLeft
    rw [depths.calls]
    exact h.frames

theorem balanced {m : Machine σ} (h : Stacked config frames m) : m.Balanced config :=
  ⟨h.scopes, h.frames ▸ Nat.le_add_right _ _⟩

/-- A call is permitted only if a frame is left. -/
theorem permit (m : Machine σ) (d : Definition Stmt) (arguments line : Nat) :
    Exec.Keeps .depths (Stacked config frames) m (fun _ _ => 0 < frames) (Watch.permit config d arguments line) := by
  intro h
  have left : m.calls.depth + frames = config.maxDepth := h.frames
  rw [permit_eq]
  split
  · split
    · exact ⟨h, .refl m⟩
    · exact ⟨⟨h, .refl m⟩, by omega⟩
  · exact ⟨h, .refl m⟩

/-- One level of calls, given the bodies of the callables one level below. -/
theorem semantics (ctx : Context σ) {body : Access → List Stmt → Watch σ Flow}
    (onBody : ∀ below, frames = below + 1 → ∀ access m sts,
      Watch.Keeps .depths (Stacked ctx.config below) (Balanced ctx.config) m Knowledge.depths.flow
        (body access sts))
    (fuel : Nat) :
    SelfCongruence (Watch.semantics ctx.config fuel body) ctx
      (.onLeft (Exec.Keeps .depths (Stacked ctx.config frames)))
      (.onLeft (Watch.Keeps .depths (Stacked ctx.config frames) (Balanced ctx.config))) .depths Eq
      (0 < frames) := by
  have stays (frames : Nat) (m m' : Machine σ) (depths : SameDepths m m') (h : Stacked ctx.config frames m) :
      Stacked ctx.config frames m' := h.depths depths
  refine Watch.Keeps.composes.semantics fuel (KeepsDepths.steps (stays frames) ctx) .lift
    (fun statement => statement.between fun _ => Stacked.balanced) ?_ ?_ ?_
  · intro m line
    exact .lift ((tick_depths ctx.config line).keeps (stays frames) m)
  · intro m _ d _ arguments line
    exact .lift (permit m d arguments line)
  · intro m allowed access _ _ d kind bindings line _ h
    obtain ⟨below, rfl⟩ := Nat.exists_eq_add_one.2 allowed
    have left : m.calls.depth + (below + 1) = ctx.config.maxDepth := h.frames
    have global : m.HasGlobal := Nat.lt_of_lt_of_eq (Nat.succ_pos _) h.scopes.symm
    obtain ⟨m₁, entered, scopes, calls, leaves⟩ := call_depths (stays _) h global d kind bindings line
    have inside : Stacked ctx.config below m₁ :=
      ⟨by rw [scopes, calls, h.scopes], show m₁.calls.depth + below = _ by omega⟩
    exact KeptUnder.inside entered inside (onBody below rfl access m₁ d.body)
      (fun m₂ depths _ => leaves m₂ depths) h

-- By induction on the fuel, for all numbers of frames: the body of a callable has one less of both.
theorem watching (ctx : Context σ) (fuel frames : Nat) :
    SelfCongruence (watching ctx fuel) ctx
      (.onLeft (Exec.Keeps .depths (Stacked ctx.config frames)))
      (.onLeft (Watch.Keeps .depths (Stacked ctx.config frames) (Balanced ctx.config))) .depths Eq
      (0 < frames) := by
  induction fuel generalizing frames with
  | zero => exact semantics ctx (fun _ _ _ _ _ => .exhausted) 0
  | succ fuel ih => exact semantics ctx (fun below _ _ m sts => (ih below).execBlock rfl m sts) (fuel + 1)

end Machine.Stacked

/-- In every state that a run can reach the stacks are balanced. -/
theorem balanced_of_reachable {p : Program} {host : Host σ} {config : Config} {draws : Draws} {state : σ}
    {m : Machine σ} (reached : Reachable p host config draws state m) : m.Balanced config := by
  obtain ⟨fuel, among⟩ := reached
  have initial : Stacked config config.maxDepth (Machine.initial config draws state) :=
    ⟨rfl, Nat.zero_add config.maxDepth⟩
  have watched := (Stacked.watching ⟨host, config, p.definitions, none⟩ fuel config.maxDepth).exec rfl
    (Machine.initial config draws state) p
  exact watched.states (fun _ there _ => there.balanced) initial m among

/-- A run ends without calls and in the global scope. -/
theorem exec_depths (p : Program) (host : Host σ) (config : Config) (draws : Draws) (state : σ) :
    SameDepths (.initial config draws state) (final (p.exec host config (.initial config draws state))) :=
  (Kept.final (SameDepths.kept ⟨host, config, p.definitions, none⟩) Nat.zero_lt_one).2

end Pseudocode
