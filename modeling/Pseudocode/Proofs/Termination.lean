import Pseudocode.Proofs.Observation

/-!
Every run ends. A run that nothing bounds but its fuel, and that counts loop passes and nested calls as
it goes, has a result as soon as its fuel exceeds the depth that is allowed by more than the number of
passes that is allowed (`observe_result`). More fuel does not change the result, which is that of the
interpreter, where the bounds are part of the recursion.

The measure is the number of frames that may still be opened and, within a frame, the number of passes
that may still begin. Steps keep the first and never increase the second (`Later`).
-/

namespace Pseudocode

open Exec

variable {σ : Type} {α β : Type}

/-- A state further on in the same frame. -/
structure Machine.Later (m₀ m : Machine σ) : Prop where
  depth : m.calls.depth = m₀.calls.depth
  iterations : m₀.iterations ≤ m.iterations

open Machine

namespace Machine.Later

theorem refl (m : Machine σ) : Later m m := ⟨rfl, Nat.le_refl _⟩

theorem trans {a b c : Machine σ} (first : Later a b) (next : Later b c) : Later a c :=
  ⟨next.depth.trans first.depth, Nat.le_trans first.iterations next.iterations⟩

theorem ends_trans {Q : α → Prop} {m m' : Machine σ} {r : EStateM.Result RuntimeError (Machine σ) α}
    (first : Later m m') (next : Ends (Later m') Q r) : Ends (Later m) Q r :=
  next.mono (fun _ later => first.trans later) fun _ q => q

end Machine.Later

/-- In the states in which `I` holds, a watched computation has the result of a step, which stays in
its frame. -/
def Agrees (I : Machine σ → Prop) (Q : α → Prop) (w : Watch σ α) (x : Exec σ α) : Prop :=
  ∀ m, I m → (w m).result = some (x m) ∧ Ends (Later m) Q (x m)

namespace Agrees

variable {I : Machine σ → Prop} {f : α → Watch σ β} {J : Machine σ → Prop} {Q : α → Prop} {x : Exec σ α}
  {w : Watch σ α}

theorem pure {a : α} (h : Q a) : Agrees I Q (pure a) (pure a) :=
  fun m _ => ⟨rfl, .refl m, h⟩

theorem lift (h : ∀ m, Ends (Later m) Q (x m)) : Agrees I Q (Watch.lift x) x :=
  fun m _ => ⟨rfl, h m⟩

theorem mono (h : Agrees I Q w x) (weaker : ∀ m, J m → I m) : Agrees J Q w x :=
  fun m j => h m (weaker m j)

/-- The second computation begins in states in which `J` holds. -/
theorem andThen {P : α → Prop} {Q : β → Prop} {g : α → Exec σ β} (first : Agrees I P w x)
    (enters : ∀ m a m', I m → x m = .ok a m' → J m') (next : ∀ a, P a → Agrees J Q (f a) (g a)) :
    Agrees I Q (w >>= f) (x >>= g) := by
  intro m i
  obtain ⟨result, ended⟩ := first m i
  show (Watch.bind w f m).result = some (EStateM.bind x g m) ∧ Ends (Later m) Q (EStateM.bind x g m)
  unfold Watch.bind EStateM.bind
  rcases seen : w m with ⟨before, last⟩
  rw [seen] at result
  cases result
  cases run : x m with
  | ok a m' =>
    rw [run] at ended
    obtain ⟨same, rest⟩ := next a ended.2 m' (enters m a m' i run)
    exact ⟨same, ended.1.ends_trans rest⟩
  | error e m' =>
    rw [run] at ended
    exact ⟨rfl, ended⟩

theorem bind (stays : ∀ m m', I m → Later m m' → I m') {P : α → Prop} {Q : β → Prop} {g : α → Exec σ β}
    (first : Agrees I P w x) (next : ∀ a, P a → Agrees I Q (f a) (g a)) : Agrees I Q (w >>= f) (x >>= g) := by
  refine first.andThen (fun m a m' i run => ?_) next
  have ended := (first m i).2
  rw [run] at ended
  exact stays m m' i ended.1

theorem followedBy {V : Value → Prop} {flow : Flow} {w : Watch σ Flow} {x : Exec σ Flow}
    (known : flow.Holds V) (next : Agrees I (Flow.Holds V) w x) :
    Agrees I (Flow.Holds V) (Semantics.followedBy flow w) (Exec.followedBy flow x) := by
  cases flow with
  | normal => exact next
  | returned v => exact pure known
  | halt => exact pure trivial

end Agrees

/-- As many more calls may be nested. -/
def Machine.FramesLeft (config : Config) (frames : Nat) (m : Machine σ) : Prop :=
  m.calls.depth + frames = config.maxDepth

variable {frames : Nat}

theorem Machine.FramesLeft.later {config : Config} {m m' : Machine σ} (left : FramesLeft config frames m)
    (later : Later m m') : FramesLeft config frames m' := by
  unfold FramesLeft
  rw [later.depth]
  exact left

/-- At most `passes` more loop passes may begin. -/
structure Machine.Room (config : Config) (frames passes : Nat) (m : Machine σ) : Prop where
  frames : FramesLeft config frames m
  passes : config.maxIterations ≤ m.iterations + passes

theorem Machine.Room.later {config : Config} {passes : Nat} {m m' : Machine σ} (room : Room config frames passes m)
    (later : Later m m') : Room config frames passes m' :=
  ⟨room.frames.later later, Nat.le_trans room.passes (Nat.add_le_add_right later.iterations _)⟩

theorem tick_eq (config : Config) (line : Nat) (m : Machine σ) :
    tick config line m =
      if config.maxIterations < m.iterations + 1 then
        .error ⟨.iterationLimit config.maxIterations, line⟩ { m with iterations := m.iterations + 1 }
      else .ok () { m with iterations := m.iterations + 1 } := by
  show (checkBudget config line) { m with iterations := m.iterations + 1 } = _
  show (if config.maxIterations < m.iterations + 1 then fail _ line else Pure.pure ()) _ = _
  split <;> rfl

theorem tick_later (config : Config) (line : Nat) (m : Machine σ) :
    Ends (Later m) (fun _ => True) (tick config line m) := by
  have counted : Later m { m with iterations := m.iterations + 1 } := ⟨rfl, Nat.le_succ _⟩
  rw [tick_eq]
  split
  · exact counted
  · exact ⟨counted, trivial⟩

namespace Agrees

variable {config : Config} {frames passes line : Nat} {Q : α → Prop} {f : Unit → Watch σ α}

/-- A pass that begins leaves room for one less. -/
theorem tick {g : Unit → Exec σ α} (next : Agrees (Room config frames passes) Q (f ()) (g ())) :
    Agrees (Room config frames (passes + 1)) Q (Watch.lift (tick config line) >>= f)
      (Exec.tick config line >>= g) := by
  refine (lift (tick_later config line)).andThen (fun m _ m' room run => ?_) fun _ _ => next
  rw [tick_eq] at run
  split at run
  · cases run
  · cases run
    exact ⟨room.frames, by have := room.passes; show _ ≤ m.iterations + 1 + passes; omega⟩

/-- A pass for which there is no room is refused. -/
theorem overrun :
    Agrees (Room config frames 0) Q (Watch.lift (Exec.tick config line) >>= f) (overrun config line) := by
  intro m room
  have full : config.maxIterations < m.iterations + 1 := Nat.lt_succ_of_le room.passes
  have refused : Exec.tick config line m =
      .error ⟨.iterationLimit config.maxIterations, line⟩ { m with iterations := m.iterations + 1 } := by
    rw [tick_eq, if_pos full]
  refine ⟨?_, rfl, Nat.le_succ _⟩
  show (Watch.bind (Watch.lift (Exec.tick config line)) f m).result = _
  simp only [Watch.bind, Watch.lift, refused]
  rfl

/-- What needs frames only may begin a pass. -/
theorem inRoom {P : α → Prop} {Q : β → Prop} {w : Watch σ α} {x : Exec σ α} {f : α → Watch σ β} {g : α → Exec σ β}
    (first : Agrees (FramesLeft config frames) P w x)
    (next : ∀ a, P a → Agrees (Room config frames passes) Q (f a) (g a)) :
    Agrees (Room config frames passes) Q (w >>= f) (x >>= g) :=
  (first.mono fun _ room => room.frames).bind (fun _ _ => Room.later) next

section Loops

variable {V : Value → Prop} {condition : Watch σ Bool} {condition' : Exec σ Bool} {body : Watch σ Flow}
  {body' : Exec σ Flow} (onBody : Agrees (FramesLeft config frames) (Flow.Holds V) body body')

-- By induction on the passes that the step may still begin; the watched loop has fuel for more.
include onBody

theorem whilePasses (onCondition : Agrees (FramesLeft config frames) (fun _ => True) condition condition')
    (passes fuel : Nat) (enough : passes < fuel) :
    Agrees (Room config frames passes) (Flow.Holds V) (Watch.whilePasses config condition body line fuel)
      (Exec.whilePasses config condition' body' line passes) := by
  induction passes generalizing fuel with
  | zero =>
    obtain ⟨fuel, rfl⟩ := Nat.exists_eq_add_of_lt enough
    refine onCondition.inRoom fun truth _ => ?_
    cases truth with
    | false => exact pure trivial
    | true => exact overrun
  | succ passes ih =>
    obtain ⟨fuel, rfl⟩ := Nat.exists_eq_add_of_lt enough
    refine onCondition.inRoom fun truth _ => ?_
    cases truth with
    | false => exact pure trivial
    | true =>
      refine tick (onBody.inRoom fun flow known => ?_)
      exact followedBy known (ih _ (by omega))

theorem repeatPasses (onCondition : Agrees (FramesLeft config frames) (fun _ => True) condition condition')
    (passes fuel : Nat) (enough : passes < fuel) :
    Agrees (Room config frames passes) (Flow.Holds V) (Watch.repeatPasses config body condition line fuel)
      (Exec.repeatPasses config condition' body' line passes) := by
  induction passes generalizing fuel with
  | zero =>
    obtain ⟨fuel, rfl⟩ := Nat.exists_eq_add_of_lt enough
    exact overrun
  | succ passes ih =>
    obtain ⟨fuel, rfl⟩ := Nat.exists_eq_add_of_lt enough
    refine tick (onBody.inRoom fun flow known => ?_)
    refine followedBy known ?_
    refine onCondition.inRoom fun truth _ => ?_
    cases truth with
    | false => exact ih _ (by omega)
    | true => exact pure trivial

theorem forPasses {counter : Watch σ Float} {counter' : Exec σ Float} (continues : Float → Bool)
    {advance : Float → Watch σ Unit} {advance' : Float → Exec σ Unit}
    (onCounter : Agrees (FramesLeft config frames) (fun _ => True) counter counter')
    (onAdvance : ∀ x, Agrees (FramesLeft config frames) (fun _ => True) (advance x) (advance' x))
    (passes fuel : Nat) (enough : passes < fuel) :
    Agrees (Room config frames passes) (Flow.Holds V)
      (Watch.forPasses config counter continues advance body line fuel)
      (Exec.forPasses config counter' continues advance' body' line passes) := by
  induction passes generalizing fuel with
  | zero =>
    obtain ⟨fuel, rfl⟩ := Nat.exists_eq_add_of_lt enough
    refine onCounter.inRoom fun x _ => ?_
    split
    · exact overrun
    · exact pure trivial
  | succ passes ih =>
    obtain ⟨fuel, rfl⟩ := Nat.exists_eq_add_of_lt enough
    refine onCounter.inRoom fun x _ => ?_
    split
    · refine tick (onBody.inRoom fun flow known => ?_)
      refine followedBy known ?_
      refine onCounter.inRoom fun y _ => ?_
      refine (onAdvance y).inRoom fun _ _ => ?_
      exact ih _ (by omega)
    · exact pure trivial

end Loops

/-- A loop may begin as many passes as are left when it starts. -/
theorem passesLeft {w : Watch σ α} {x : Nat → Exec σ α}
    (loop : ∀ passes ≤ config.maxIterations, Agrees (Room config frames passes) Q w (x passes)) :
    Agrees (FramesLeft config frames) Q w (passesLeft config >>= x) :=
  fun m left => loop (config.maxIterations - m.iterations) (Nat.sub_le _ _) m ⟨left, by omega⟩

end Agrees

/-- A step stays in its frame. -/
def Stays : Property σ := fun _ Q x => ∀ m, Ends (Later m) Q (x m)

namespace Stays

theorem sequential : Sequential (Stays : Property σ) where
  pure known m := ⟨.refl m, known⟩
  throw _ _ m := .refl m
  bind first next m := (first m).bind fun a known _ later => later.ends_trans (next a known _)
  look _ next m := next m m
  record _ _ _ _ := ⟨⟨rfl, Nat.le_refl _⟩, trivial⟩

theorem controlSteps : ControlSteps (Stays : Property σ) :=
  sequential.controlSteps fun _ same m => ⟨⟨(same m).depth, Nat.le_of_eq (same m).iterations.symm⟩, trivial⟩

theorem memorySteps : MemorySteps (Stays : Property σ) :=
  sequential.memorySteps
    (fun _ same _ m => ⟨⟨(same m).calls ▸ rfl, Nat.le_of_eq (same m).iterations.symm⟩, trivial⟩)
    fun _ _ => ⟨⟨rfl, Nat.le_refl _⟩, trivial⟩

theorem steps (ctx : Context σ) (below : Option (Runner σ)) :
    Semantics.Steps (Alike Stays).staged .nothing Eq ctx { ctx with below } :=
  Alike.steps (fun stays m => (stays m).mono (fun _ _ => trivial) fun _ known => known) controlSteps memorySteps
    (fun _ m => .refl m) ctx ctx.config.traceLimit below

end Stays

section Call

variable (access : Access) (d : Definition Stmt) (kind : CallableKind) (bindings : List Binding) (line : Nat)

theorem runBody_eq (run : Runner σ) (m : Machine σ) :
    Exec.runBody run access d kind bindings line m =
      match enter d kind bindings line m with
      | .ok _ m' => closeCall line (outcome (run access d.body m')) (final (run access d.body m'))
      | .error e m' => .error e m' := by
  show EStateM.bind (enter d kind bindings line)
    (fun _ => EStateM.bind (attempt (run access d.body)) fun result => closeCall line result) m = _
  unfold EStateM.bind attempt
  cases enter d kind bindings line m with
  | error e m' => rfl
  | ok _ m' =>
    dsimp only
    cases run access d.body m' <;> rfl

/-- Closing a call leaves its frame. -/
theorem closeCall_control (result : Except RuntimeError Flow) (m : Machine σ) :
    Ends (SameControl { m with calls := m.calls.pop }) (fun ended => result = .ok ended.1)
      (closeCall line result m) := by
  have left := leave_control line m
  have seen : (currentLine : Exec σ Nat) m = .ok m.line m := rfl
  unfold closeCall
  rw [bind_of_ok seen]
  rw [bind_apply]
  generalize leave line m = r at left ⊢
  cases r with
  | error e m' => exact left
  | ok _ m' =>
    cases result with
    | ok flow => exact ⟨left.1, rfl⟩
    | error e => exact left.1

/-- A call opens a frame, in which one call less may be nested, and closes it. -/
theorem Agrees.runBody {config : Config} {frames fuel : Nat} {V : Value → Prop}
    {body : Access → List Stmt → Watch σ Flow} {mark : Watch σ Flow → Watch σ Flow}
    {gate : Definition Stmt → Nat → Nat → Watch σ Unit} {run : Runner σ}
    (onBody : Agrees (FramesLeft config frames) (Flow.Holds V) (body access d.body) (run access d.body)) :
    Agrees (FramesLeft config (frames + 1)) (fun ended => ended.1.Holds V)
      ({ Watch.semantics config fuel body with boundary := mark, permit := gate }.runBody access d kind
        bindings line)
      (Exec.runBody run access d kind bindings line) := by
  intro m left
  have entered := enter_control d kind bindings line m
  rw [Watch.runBody_eq, runBody_eq]
  cases opened : enter d kind bindings line m with
  | error e m₁ =>
    rw [opened] at entered
    exact ⟨rfl, entered.calls ▸ rfl, Nat.le_of_eq entered.iterations.symm⟩
  | ok _ m₁ =>
    rw [opened] at entered
    have deeper : m₁.calls.depth = m.calls.depth + 1 := by simp [entered.calls]
    obtain ⟨same, ended⟩ := onBody m₁ (by unfold FramesLeft at *; omega)
    refine ⟨by dsimp only; rw [same]; rfl, ?_⟩
    dsimp only
    have inside : Later m₁ (final (run access d.body m₁)) := by
      cases last : run access d.body m₁ <;> rw [last] at ended
      · exact ended.1
      · exact ended
    have returned : ∀ flow, outcome (run access d.body m₁) = .ok flow → flow.Holds V := by
      intro flow given
      cases last : run access d.body m₁ <;> rw [last] at ended given <;> cases given
      exact ended.2
    refine (closeCall_control line _ _).mono (fun m₂ closed => ?_) fun ended given => returned _ given
    have back : m₂.calls.depth = (final (run access d.body m₁)).calls.depth - 1 := by simp [closed.calls]
    constructor
    · rw [back, inside.depth, deeper]
      rfl
    · calc
        m.iterations = m₁.iterations := entered.iterations.symm
        _ ≤ (final (run access d.body m₁)).iterations := inside.iterations
        _ = m₂.iterations := closed.iterations.symm

end Call

theorem permit_eq (config : Config) (d : Definition Stmt) (arguments line : Nat) (m : Machine σ) :
    Watch.permit config d arguments line m =
      if arguments = d.params.length then
        if config.maxDepth ≤ m.calls.depth then .error ⟨.recursionLimit d.name config.maxDepth, line⟩ m
        else .ok () m
      else .error ⟨.argumentCount d.name d.params.length arguments, line⟩ m := by
  unfold Watch.permit
  split
  · show (if config.maxDepth ≤ m.calls.depth then fail _ line else Pure.pure ()) m = _
    split <;> rfl
  · rfl

/-- A call is refused at the depth at which no frame is left. -/
theorem permit_agrees (host : Host σ) (config : Config) (definitions : List (Definition Stmt)) (d : Definition Stmt)
    (arguments line : Nat) :
    Agrees (FramesLeft config frames) (fun _ => 0 < frames)
      (Watch.lift (Watch.permit config d arguments line))
      (discard (runnerFor (Semantics.runContext host config definitions frames) d arguments line)) := by
  intro m left
  unfold FramesLeft at left
  simp only [Watch.lift, permit_eq, runnerFor]
  split
  · cases frames with
    | zero =>
      rw [if_pos (by omega)]
      exact ⟨rfl, .refl m⟩
    | succ below =>
      rw [if_neg (by omega)]
      exact ⟨rfl, .refl m, Nat.succ_pos below⟩
  · exact ⟨rfl, .refl m⟩

open Semantics in
/-- One level of calls, given the bodies of the callables one level below. -/
theorem semantics_agree (host : Host σ) (config : Config) (definitions : List (Definition Stmt)) {fuel : Nat}
    {body : Access → List Stmt → Watch σ Flow} {mark : Watch σ Flow → Watch σ Flow}
    {gate : Definition Stmt → Nat → Nat → Watch σ Unit} (marked : ∀ x m, (mark x m).result = (x m).result)
    (gated : ∀ d arguments line m, (gate d arguments line m).result = some (Watch.permit config d arguments line m))
    (enough : config.maxIterations < fuel)
    (onBody : ∀ below, frames = below + 1 → ∀ access sts,
      Agrees (FramesLeft config below) (Flow.Holds fun _ => True) (body access sts)
        (runBlock host config definitions below access sts)) :
    Congruence { Watch.semantics config fuel body with boundary := mark, permit := gate }
      (ofExec (runContext host config definitions frames))
      ⟨host, config, definitions, none⟩ (runContext host config definitions frames) (Alike Stays).staged
      (FlatRelation.staged fun _ => Agrees (FramesLeft config frames)) .nothing Eq (0 < frames) where
  steps := Stays.steps ⟨host, config, definitions, none⟩ _
  pure known := .pure known
  bind first next := first.bind (fun _ _ => FramesLeft.later) fun a known => next () a trivial known
  lift := by
    rintro α _ Q x _ ⟨rfl, stays⟩
    exact .lift stays
  boundary agrees m left := ⟨(marked _ m).trans (agrees m left).1, (agrees m left).2⟩
  whileLoop line onCondition onBody :=
    .passesLeft fun passes le =>
      .whilePasses (onBody () trivial) (onCondition () trivial) passes fuel (by omega)
  repeatLoop line onBody onCondition :=
    .passesLeft fun passes le =>
      .repeatPasses (onBody () trivial) (onCondition () trivial) passes fuel (by omega)
  forLoop continues _ _ _ _ line onCounter onAdvance onBody :=
    .passesLeft fun passes le =>
      .forPasses (onBody () trivial) continues (onCounter () trivial)
        (fun x => onAdvance () x trivial) passes fuel (by omega)
  permit {_ _ d} _ arguments line m left := by
    obtain ⟨same, ended⟩ := permit_agrees host config definitions d arguments line m left
    exact ⟨(gated d arguments line m).trans same, ended⟩
  call allowed access _ same d kind bindings line _ := by
    subst same
    obtain ⟨below, rfl⟩ := Nat.exists_eq_add_one.2 allowed
    rw [runBody_ofExec _ rfl]
    exact .runBody access d kind bindings line (onBody below rfl access d.body)

/-- With fuel for all passes at every depth, a watched program agrees with the one that runs, wherever it
is watched. -/
theorem watchingAt_agrees (host : Host σ) (config : Config) (definitions : List (Definition Stmt))
    {statement body : Watch σ Flow → Watch σ Flow}
    (onStatement : ∀ x m, (statement x m).result = (x m).result)
    (onBody : ∀ x m, (body x m).result = (x m).result) (frames fuel : Nat)
    (enough : frames + config.maxIterations < fuel) :
    Semantics.Congruence (watchingAt statement body ⟨host, config, definitions, none⟩ fuel)
      (Semantics.ofExec (Semantics.runContext host config definitions frames))
      ⟨host, config, definitions, none⟩ (Semantics.runContext host config definitions frames)
        (Alike Stays).staged
      (FlatRelation.staged fun _ => Agrees (FramesLeft config frames)) .nothing Eq (0 < frames) := by
  obtain ⟨fuel, rfl⟩ :=
    Nat.exists_eq_add_one.2 (Nat.lt_of_le_of_lt (Nat.zero_le _) enough)
  induction frames generalizing fuel with
  | zero => exact semantics_agree host config definitions onStatement (fun _ _ _ _ => rfl) (by omega) nofun
  | succ frames ih =>
    obtain ⟨fuel, rfl⟩ := Nat.exists_eq_succ_of_ne_zero (n := fuel) (by omega)
    refine semantics_agree host config definitions onStatement (fun _ _ _ _ => rfl) (by omega) ?_
    rintro _ ⟨⟩ access sts m left
    rw [Semantics.runBlock_eq]
    obtain ⟨same, ended⟩ := (ih fuel (by omega)).execBlock rfl () sts m left
    exact ⟨(onBody _ m).trans same, ended⟩

/-- With this much fuel, which depends on the configuration alone, or more, a watched run has the
result of the interpreter. -/
theorem watchingAt_result (statement body : Watch σ Flow → Watch σ Flow)
    (onStatement : ∀ x m, (statement x m).result = (x m).result)
    (onBody : ∀ x m, (body x m).result = (x m).result) (p : Program) (host : Host σ) (config : Config)
    (draws : Draws) (state : σ) (more : Nat) :
    ((watchingAt statement body ⟨host, config, p.definitions, none⟩
        (config.maxDepth + config.maxIterations + 1 + more)).exec ⟨host, config, p.definitions, none⟩ p
        (.initial config draws state)).result =
      some (p.exec host config (.initial config draws state)) := by
  have agrees := (watchingAt_agrees host config p.definitions onStatement onBody config.maxDepth
    (config.maxDepth + config.maxIterations + 1 + more) (by omega)).exec rfl () p
  rw [Semantics.exec_ofExec] at agrees
  exact (agrees (.initial config draws state) (Nat.zero_add config.maxDepth)).1

theorem observe_result (p : Program) (host : Host σ) (config : Config) (draws : Draws) (state : σ)
    (more : Nat) :
    (p.observe host config (config.maxDepth + config.maxIterations + 1 + more)
        (.initial config draws state)).result =
      some (p.exec host config (.initial config draws state)) := by
  rw [Program.observe, watching_eq]
  exact watchingAt_result Watch.between id (fun _ _ => rfl) (fun _ _ => rfl) p host config draws state more

/-- The state in which a run ends can be reached. -/
theorem reachable_final (p : Program) (host : Host σ) (config : Config) (draws : Draws) (state : σ) :
    Reachable p host config draws state (final (p.exec host config (.initial config draws state))) := by
  refine ⟨config.maxDepth + config.maxIterations + 1 + 0, ?_⟩
  rw [Observed.states, observe_result]
  simp

/-- A program that is run for the first time. -/
theorem Interpreter.run_new (p : Program) (config : Config) (draws : Draws) (host : Host σ) (state : σ) :
    let ran := p.exec host config (.initial config draws state)
    (Interpreter.new p config draws state).run host = (outcome ran, ⟨p, config, final ran, true⟩) := by
  simp only [Interpreter.run, Interpreter.new]
  cases p.exec host config (.initial config draws state) <;> rfl

/-- For every program, host and configuration there is an amount of fuel from which on the run has a
result that no longer changes, though nothing but the fuel bounds its loops and calls. The result is
the outcome and the state that the interpreter gives. -/
theorem run_terminates (p : Program) (host : Host σ) (config : Config) (draws : Draws) (state : σ) :
    ∃ fuel, ∀ more,
      (p.observe host config (fuel + more) (.initial config draws state)).result.map
          (fun r => (outcome r, final r)) =
        some (((Interpreter.new p config draws state).run host).1,
          ((Interpreter.new p config draws state).run host).2.machine) := by
  refine ⟨config.maxDepth + config.maxIterations + 1, fun more => ?_⟩
  rw [observe_result]
  simp only [Interpreter.run, Interpreter.new, Option.map_some]
  cases p.exec host config (.initial config draws state) <;> rfl

end Pseudocode
