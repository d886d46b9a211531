import Pseudocode.Proofs.Mirror.Runs

/-!
What a run has counted when it ends. A run that ends because too many loop passes have begun has begun one
more than is allowed, and every other run at most as many as are allowed; a run ends because calls are
nested too deeply if and only if a call that could have been made was attempted at the depth that is
allowed (`exec_accounts`).

Errors of these two kinds come from the counting of loop passes and from the attempts of calls. No other
step gives one of them, and where no budget is used up none of them finds one used up (`Steady`).
-/

namespace Pseudocode

open Exec Machine Semantics

variable {σ : Type} {α β : Type}

/-- Keeps the state in which a callable is called by its name on a line, with as many arguments as it has
parameters. -/
def Watch.attempts (name : String) (line : Nat) (config : Config) (d : Definition Stmt) (arguments place : Nat) :
    Watch σ Unit := fun m =>
  ⟨if d.name = name ∧ arguments = d.params.length ∧ place = line then [m] else [],
    some (Watch.permit config d arguments place m)⟩

/-- A run that is watched where calls are attempted. -/
def attempting (name : String) (line : Nat) (ctx : Context σ) : Nat → Semantics σ (Watch σ)
  | 0 =>
    { Watch.semantics ctx.config 0 fun _ _ => Watch.exhausted with
      boundary := id
      permit := Watch.attempts name line ctx.config }
  | fuel + 1 =>
    { Watch.semantics ctx.config (fuel + 1) fun access sts =>
        (attempting name line ctx fuel).execBlock ctx access sts with
      boundary := id
      permit := Watch.attempts name line ctx.config }

/-- The run of a program, watched where calls by a name on a line are attempted, with fuel for all passes at
every depth. -/
def Program.attempts (p : Program) (name : String) (line : Nat) (host : Host σ) (config : Config) :
    Watch σ Outcome :=
  (attempting name line ⟨host, config, p.definitions, none⟩ (config.maxDepth + config.maxIterations + 1)).exec
    ⟨host, config, p.definitions, none⟩ p

/-- A state in which a callable is called by its name on a line, with as many arguments as it has parameters,
whether the call is then made or refused. -/
def CallAttempted (p : Program) (host : Host σ) (config : Config) (draws : Draws) (state : σ) (name : String)
    (line : Nat) (m : Machine σ) : Prop :=
  m ∈ (p.attempts name line host config (.initial config draws state)).seen

theorem attempting_agrees (name : String) (line : Nat) (host : Host σ) (config : Config)
    (definitions : List (Definition Stmt)) (frames fuel : Nat) (enough : frames + config.maxIterations < fuel) :
    Congruence (attempting name line ⟨host, config, definitions, none⟩ fuel)
      (ofExec (runContext host config definitions frames)) ⟨host, config, definitions, none⟩
      (runContext host config definitions frames) (Alike Stays).staged
      (FlatRelation.staged fun _ => Agrees (FramesLeft config frames)) .nothing Eq (0 < frames) := by
  induction frames generalizing fuel with
  | zero =>
    obtain ⟨fuel, rfl⟩ := Nat.exists_eq_succ_of_ne_zero (n := fuel) (by omega)
    exact semantics_agree host config definitions (fun _ _ => rfl) (fun _ _ _ _ => rfl) (by omega) nofun
  | succ frames ih =>
    obtain ⟨fuel, rfl⟩ := Nat.exists_eq_succ_of_ne_zero (n := fuel) (by omega)
    refine semantics_agree host config definitions (fun _ _ => rfl) (fun _ _ _ _ => rfl) (by omega) ?_
    rintro _ ⟨⟩ access sts
    rw [runBlock_eq]
    exact (ih fuel (by omega)).execBlock rfl () sts

/-- A run that is watched where calls are attempted is that of the interpreter. -/
theorem attempts_result (p : Program) (name : String) (line : Nat) (host : Host σ) (config : Config)
    (draws : Draws) (state : σ) :
    (p.attempts name line host config (.initial config draws state)).result =
      some (p.exec host config (.initial config draws state)) := by
  have agrees := (attempting_agrees name line host config p.definitions config.maxDepth _
    (Nat.lt_succ_self _)).exec rfl () p
  rw [exec_ofExec] at agrees
  exact (agrees (.initial config draws state) (Nat.zero_add config.maxDepth)).1

namespace Exec

/-- As many calls run as in another state, and as many loop passes have begun. -/
structure SameCounts (m₀ m : Machine σ) : Prop where
  depth : m.calls.depth = m₀.calls.depth
  iterations : m.iterations = m₀.iterations

theorem SameCounts.trans {a b c : Machine σ} (first : SameCounts a b) (next : SameCounts b c) : SameCounts a c :=
  ⟨next.depth.trans first.depth, next.iterations.trans first.iterations⟩

/-- While no more passes have begun than are allowed, a step counts nothing and finds no budget used up. -/
def Steady (config : Config) : Property σ := fun _ Q x => ∀ m, m.iterations ≤ config.maxIterations →
  match x m with
  | .ok a m' => SameCounts m m' ∧ Q a
  | .error e m' => SameCounts m m' ∧ e.cause.Ordinary

namespace Steady

variable {config : Config}

theorem bind {P : α → Prop} {Q : β → Prop} {x : Exec σ α} {f : α → Exec σ β} (first : Steady config P x)
    (next : ∀ a, P a → Steady config Q (f a)) : Steady config Q (x >>= f) := by
  intro m room
  have ended := first m room
  cases run : x m with
  | error e m' =>
    rw [run] at ended
    rw [bind_of_error run]
    exact ended
  | ok a m' =>
    rw [run] at ended
    rw [bind_of_ok run]
    have rest := next a ended.2 m' (ended.1.iterations ▸ room)
    cases last : f a m' <;> rw [last] at rest <;> exact ⟨ended.1.trans rest.1, rest.2⟩

theorem sequential : Sequential (Steady config : Property σ) where
  pure known _ _ := ⟨⟨rfl, rfl⟩, known⟩
  throw ordinary _ _ _ := ⟨⟨rfl, rfl⟩, ordinary⟩
  bind := bind
  look _ next m := next m m
  record _ _ _ _ _ := ⟨⟨rfl, rfl⟩, trivial⟩

theorem memorySteps : MemorySteps (Steady config : Property σ) :=
  sequential.memorySteps (fun _ same _ m _ => ⟨⟨by rw [(same m).calls], (same m).iterations⟩, trivial⟩)
    fun _ _ _ => ⟨⟨rfl, rfl⟩, trivial⟩

theorem checkBudget (line : Nat) : Steady config (fun _ => True) (checkBudget config line : Exec σ Unit) := by
  intro m room
  have passed : Exec.checkBudget config line m = .ok () m := by
    show (if config.maxIterations < m.iterations then fail _ line else Pure.pure ()) m = _
    rw [if_neg (Nat.not_lt.2 room)]
    rfl
  rw [passed]
  exact ⟨⟨rfl, rfl⟩, trivial⟩

theorem hostSteps (ctx : Context σ) : HostSteps (Steady ctx.config : Property σ) ctx := by
  have control : ControlSteps (Steady ctx.config : Property σ) :=
    sequential.controlSteps fun _ same m _ => ⟨⟨(same m).depth, (same m).iterations⟩, trivial⟩
  exact control.hostSteps checkBudget

end Steady

end Exec

/-- What is true of the loop passes that have begun where a run has failed. -/
def Cause.Accounts (config : Config) (passes : Nat) : Cause → Prop
  | .iterationLimit limit => limit = config.maxIterations ∧ passes = config.maxIterations + 1
  | .recursionLimit _ limit => limit = config.maxDepth ∧ passes ≤ config.maxIterations
  | _ => passes ≤ config.maxIterations

theorem Cause.Ordinary.accounts {config : Config} {passes : Nat} {cause : Cause} (ordinary : cause.Ordinary)
    (room : passes ≤ config.maxIterations) : cause.Accounts config passes := by
  cases cause <;> first | exact room | exact ordinary.elim

/-- Variables agree with their copies, and as many more calls may be nested. -/
structure Machine.InFrame (config : Config) (frames : Nat) (m : Machine σ) : Prop where
  mirrors : m.Mirrors
  left : FramesLeft config frames m

namespace Machine.InFrame

variable {config : Config} {frames : Nat}

/-- In the body of a callable one call less may be nested. -/
theorem enter {m : Machine σ} (h : InFrame config (frames + 1) m) (d : Definition Stmt) (kind : CallableKind)
    {bindings : List Binding} (line : Nat) (known : Knowledge.nothing.bindings m d.params bindings) :
    ∃ m₁, enter d kind bindings line m = .ok () m₁ ∧ InFrame config frames m₁ ∧ m₁.iterations = m.iterations := by
  obtain ⟨t, entered⟩ := enter_eq d kind bindings line m
  have left : m.calls.depth + (frames + 1) = config.maxDepth := h.left
  exact ⟨_, entered, ⟨h.mirrors.enter known, show m.calls.depth + 1 + frames = _ by omega⟩, rfl⟩

/-- When the call has been left it is one more, and the call has ended as its body has. -/
theorem closeCall {m : Machine σ} (h : InFrame config frames m) (inside : frames < config.maxDepth) (line : Nat)
    (result : Except RuntimeError Flow) :
    ∃ m' : Machine σ, InFrame config (frames + 1) m' ∧ m'.iterations = m.iterations ∧ closeCall line result m =
      match result with
      | .ok flow => .ok (flow, m.line) m'
      | .error e => .error e m' := by
  obtain ⟨m', mirrors, -, closed⟩ := closeCall_eq h.mirrors line result
  have control : SameControl { m with calls := m.calls.pop } m' := by
    have ended := (closeCall_control line result m).final
    rw [closed] at ended
    cases result <;> exact ended
  have left : m.calls.depth + frames = config.maxDepth := h.left
  refine ⟨m', ⟨mirrors, ?_⟩, control.iterations, closed⟩
  unfold FramesLeft
  rw [control.calls, CallStack.depth_pop]
  omega

end Machine.InFrame

/-- One of the states is at the depth that is allowed. -/
def AtCeiling (config : Config) (seen : List (Machine σ)) : Prop := ∃ m ∈ seen, m.calls.depth = config.maxDepth

theorem not_atCeiling_nil (config : Config) : ¬ AtCeiling config ([] : List (Machine σ)) :=
  fun ⟨_, among, _⟩ => nomatch among

theorem atCeiling_append {config : Config} {seen after : List (Machine σ)} (below : ¬ AtCeiling config seen) :
    AtCeiling config (seen ++ after) ↔ AtCeiling config after := by
  simp only [AtCeiling, List.mem_append, or_and_right, exists_or]
  exact or_iff_right below

namespace Watch

/-- Where no budget is used up yet, the loop passes that have begun in the end account for how a computation
ends; and it ends with the refusal of a call by a name on a line if and only if such a call is seen at the
depth that is allowed. -/
def Accounts (config : Config) (name : String) (line frames : Nat) (m : Machine σ)
    (Q : Machine σ → α → Prop) (x : Watch σ α) : Prop :=
  m.InFrame config frames → m.iterations ≤ config.maxIterations →
    match (x m).result with
    | none => True
    | some (.ok a m') =>
      m'.InFrame config frames ∧ m'.iterations ≤ config.maxIterations ∧ Q m' a ∧ ¬ AtCeiling config (x m).seen
    | some (.error e m') =>
      m'.InFrame config frames ∧ e.cause.Accounts config m'.iterations ∧
        (AtCeiling config (x m).seen ↔ e = ⟨.recursionLimit name config.maxDepth, line⟩)

namespace Accounts

variable {config : Config} {name : String} {line frames : Nat} {m : Machine σ} {Q : Machine σ → α → Prop}
  {body : Access → List Stmt → Watch σ Flow}

theorem pure {a : α} (known : Q m a) : Accounts config name line frames m Q (pure a) :=
  fun inFrame room => ⟨inFrame, room, known, not_atCeiling_nil config⟩

theorem exhausted : Accounts config name line frames m Q exhausted :=
  fun _ _ => trivial

theorem bind {P : Machine σ → α → Prop} {Q : Machine σ → β → Prop} {x : Watch σ α} {f : α → Watch σ β}
    (first : Accounts config name line frames m P x)
    (next : ∀ m' a, P m' a → Accounts config name line frames m' Q (f a)) :
    Accounts config name line frames m Q (x >>= f) := by
  intro inFrame room
  have ended := first inFrame room
  rcases run : x m with ⟨seen, _ | ⟨a, m'⟩ | ⟨e, m'⟩⟩
  · rw [bind_of_none run]
    trivial
  · rw [run] at ended
    rw [bind_of_ok run]
    obtain ⟨inFrame', room', known, below⟩ := ended
    dsimp only
    rw [atCeiling_append below]
    exact next m' a known inFrame' room'
  · rw [run] at ended
    rw [bind_of_error run]
    exact ended

theorem lift {P : α → Prop} {x : Exec σ α} (keeps : Exec.Keeps .nothing Mirrors m Q x) (steady : Steady config P x) :
    Accounts config name line frames m Q (lift x) := by
  intro inFrame room
  have kept := keeps inFrame.mirrors
  have ended := steady m room
  have stays {m' : Machine σ} (counts : SameCounts m m') : FramesLeft config frames m' := by
    unfold FramesLeft
    rw [counts.depth]
    exact inFrame.left
  unfold Watch.lift
  cases run : x m with
  | ok a m' =>
    rw [run] at kept ended
    exact ⟨⟨kept.1.1, stays ended.1⟩, ended.1.iterations ▸ room, kept.2, not_atCeiling_nil config⟩
  | error e m' =>
    rw [run] at kept ended
    refine ⟨⟨kept.1, stays ended.1⟩, ended.2.accounts (ended.1.iterations ▸ room), ?_⟩
    refine iff_of_false (not_atCeiling_nil config) fun refused => ?_
    have ordinary := ended.2
    rw [refused] at ordinary
    exact ordinary

theorem sequenced :
    Sequenced (fun _ m Q x (_ : Exec σ _) => Accounts config name line frames m Q (Watch.lift x)) .nothing where
  pure known := pure known
  throw ordinary :=
    lift (P := fun _ => True) (Exec.Keeps.sequenced.throw ordinary) (Steady.sequential.throw ordinary trivial)
  bind first next := by
    rw [lift_bind]
    exact first.bind fun m' a known => next m' a trivial known

theorem steps (ctx : Context σ) :
    Steps (fun _ m Q x _ => Accounts ctx.config name line frames m Q (Watch.lift x)) .nothing Eq ctx ctx := by
  have kept : Kept ctx .nothing Mirrors := Machine.Mirrors.kept.kept ctx
  have steady : HostSteps (Steady ctx.config) ctx := Steady.hostSteps ctx
  refine steady.refine Steady.memorySteps kept.steps sequenced lift ?_ ?_
  · intro m access st
    exact lift (kept.steps.interrupted rfl st) (steady.interrupted access st)
  · intro m text line
    exact lift (kept.steps.echo rfl text line) (steady.echo text line)

/-- A pass that begins is counted, and refused if it is one too many. -/
theorem tick (place : Nat) :
    Accounts config name line frames m (fun _ _ => True) (Watch.lift (Exec.tick config place)) := by
  intro inFrame room
  have inFrame' : InFrame config frames { m with iterations := m.iterations + 1 } := ⟨inFrame.mirrors, inFrame.left⟩
  unfold Watch.lift
  dsimp only
  rw [tick_eq]
  by_cases full : config.maxIterations < m.iterations + 1
  · have one : m.iterations + 1 = config.maxIterations + 1 := by omega
    rw [if_pos full]
    exact ⟨inFrame', ⟨rfl, one⟩, iff_of_false (not_atCeiling_nil config) nofun⟩
  · rw [if_neg full]
    exact ⟨inFrame', Nat.not_lt.1 full, trivial, not_atCeiling_nil config⟩

/-- A call with a wrong number of arguments is refused for that, and any other one at the ceiling. -/
theorem attempt (d : Definition Stmt) (arguments place : Nat) :
    Accounts config name line frames m (fun _ _ => 0 < frames) (attempts name line config d arguments place) := by
  intro inFrame room
  have left : m.calls.depth + frames = config.maxDepth := inFrame.left
  unfold attempts
  dsimp only
  rw [permit_eq]
  by_cases fits : arguments = d.params.length
  · rw [if_pos fits]
    by_cases full : config.maxDepth ≤ m.calls.depth
    · have ceiling : m.calls.depth = config.maxDepth := by omega
      rw [if_pos full]
      refine ⟨inFrame, ⟨rfl, room⟩, ?_⟩
      by_cases sought : d.name = name ∧ arguments = d.params.length ∧ place = line
      · rw [if_pos sought, sought.1, sought.2.2]
        exact iff_of_true ⟨m, List.mem_singleton_self m, ceiling⟩ rfl
      · rw [if_neg sought]
        refine iff_of_false (not_atCeiling_nil config) fun refused => sought ?_
        simp only [RuntimeError.mk.injEq, Cause.recursionLimit.injEq] at refused
        exact ⟨refused.1.1, fits, refused.2⟩
    · rw [if_neg full]
      refine ⟨inFrame, room, by omega, ?_⟩
      rintro ⟨m', among, ceiling⟩
      split at among
      · cases List.mem_singleton.1 among
        omega
      · cases among
  · rw [if_neg fits, if_neg fun sought => fits sought.2.1]
    exact ⟨inFrame, room, iff_of_false (not_atCeiling_nil config) nofun⟩

/-- A call accounts for what its body does, in a frame of its own. An error of the body leaves the call as it
is. -/
theorem runBody {mark : Watch σ Flow → Watch σ Flow} {gate : Definition Stmt → Nat → Nat → Watch σ Unit}
    {access : Access}
    (onBody : ∀ m sts, Accounts config name line frames m Knowledge.nothing.flow (body access sts)) (fuel : Nat)
    {d : Definition Stmt} {bindings : List Binding} (kind : CallableKind) (place : Nat)
    (known : Knowledge.nothing.bindings m d.params bindings) :
    Accounts config name line (frames + 1) m (fun m' ended => Knowledge.nothing.flow m' ended.1)
      ({ Watch.semantics config fuel body with boundary := mark, permit := gate }.runBody access d kind bindings
        place) := by
  intro inFrame room
  have inside : frames < config.maxDepth := by
    have left : m.calls.depth + (frames + 1) = config.maxDepth := inFrame.left
    omega
  obtain ⟨m₁, entered, inFrame₁, counted⟩ := inFrame.enter d kind place known
  have ended := onBody m₁ d.body inFrame₁ (counted ▸ room)
  rw [runBody_eq, entered]
  dsimp only
  generalize body access d.body m₁ = ran at ended ⊢
  rcases ran with ⟨seen, _ | ⟨flow, m₂⟩ | ⟨e, m₂⟩⟩
  · trivial
  · obtain ⟨inFrame₂, room₂, returned, below⟩ := ended
    obtain ⟨m₃, inFrame₃, counted₃, closed⟩ := inFrame₂.closeCall inside place (.ok flow)
    simp only [Option.map_some, outcome, final, closed]
    exact ⟨inFrame₃, counted₃ ▸ room₂, returned, below⟩
  · obtain ⟨inFrame₂, accounts, ceiling⟩ := ended
    obtain ⟨m₃, inFrame₃, counted₃, closed⟩ := inFrame₂.closeCall inside place (.error e)
    simp only [Option.map_some, outcome, final, closed]
    exact ⟨inFrame₃, counted₃ ▸ accounts, ceiling⟩

theorem composes :
    Composes .nothing fun _ m Q x (_ : Watch σ _) => Accounts config name line frames m Q x where
  exhausted := exhausted
  pure := pure
  bind first next := first.bind fun m' a known => next m' a trivial known

/-- One level of calls, given the bodies of the callables one level below. -/
theorem semantics (ctx : Context σ)
    (onBody : ∀ below, frames = below + 1 → ∀ access m sts,
      Accounts ctx.config name line below m Knowledge.nothing.flow (body access sts)) (fuel : Nat) :
    Congruence
      { Watch.semantics ctx.config fuel body with boundary := id, permit := attempts name line ctx.config }
      { Watch.semantics ctx.config fuel body with boundary := id, permit := attempts name line ctx.config } ctx ctx
      (fun _ m Q x _ => Accounts ctx.config name line frames m Q (Watch.lift x))
      (.onLeft (Accounts ctx.config name line frames)) .nothing Eq (0 < frames) := by
  refine composes.semantics fuel (steps ctx) id id (fun _ => tick) (fun _ => attempt _) ?_
  intro m allowed access _ _ d kind bindings place known
  obtain ⟨below, rfl⟩ := Nat.exists_eq_add_one.2 allowed
  exact runBody (onBody below rfl access) fuel kind place known

-- By induction on the fuel, for all numbers of frames: the body of a callable has one less of both.
theorem attempting (name : String) (line : Nat) (ctx : Context σ) (fuel frames : Nat) :
    SelfCongruence (attempting name line ctx fuel) ctx
      (fun _ m Q x _ => Accounts ctx.config name line frames m Q (Watch.lift x))
      (.onLeft (Accounts ctx.config name line frames)) .nothing Eq (0 < frames) := by
  induction fuel generalizing frames with
  | zero => exact semantics ctx (fun _ _ _ _ _ => exhausted) 0
  | succ fuel ih => exact semantics ctx (fun below _ _ m sts => (ih below).execBlock rfl m sts) (fuel + 1)

end Accounts

end Watch

section Runs

variable (p : Program) (host : Host σ) (config : Config) (draws : Draws) (state : σ)

/-- A run accounts for how it has ended. -/
theorem exec_accounts (name : String) (line : Nat) :
    let seen := (p.attempts name line host config (.initial config draws state)).seen
    match p.exec host config (.initial config draws state) with
    | .ok _ m => m.iterations ≤ config.maxIterations ∧ ¬ AtCeiling config seen
    | .error e m => e.cause.Accounts config m.iterations ∧
        (AtCeiling config seen ↔ e = ⟨.recursionLimit name config.maxDepth, line⟩) := by
  have initial : InFrame config config.maxDepth (Machine.initial config draws state) :=
    ⟨.empty _ (.empty _), Nat.zero_add config.maxDepth⟩
  have ended := (Watch.Accounts.attempting name line ⟨host, config, p.definitions, none⟩
    (config.maxDepth + config.maxIterations + 1) config.maxDepth).exec rfl _ p initial (Nat.zero_le _)
  have result := attempts_result p name line host config draws state
  unfold Program.attempts at result ⊢
  rw [result] at ended
  cases run : p.exec host config (.initial config draws state) with
  | ok a m =>
    rw [run] at ended
    exact ⟨ended.2.1, ended.2.2.2⟩
  | error e m =>
    rw [run] at ended
    exact ended.2

/-- A run ends because calls are nested too deeply if and only if a call with as many arguments as there are
parameters was attempted at the depth that is allowed; the error names the callable and the line. -/
theorem recursionLimit_iff (name : String) (limit line : Nat) :
    outcome (p.exec host config (.initial config draws state)) = .error ⟨.recursionLimit name limit, line⟩ ↔
      limit = config.maxDepth ∧ ∃ m, CallAttempted p host config draws state name line m ∧
        m.calls.depth = config.maxDepth := by
  have accounts := exec_accounts p host config draws state name line
  dsimp only at accounts
  cases run : p.exec host config (.initial config draws state) with
  | ok a m =>
    rw [run] at accounts
    exact iff_of_false nofun fun attempted => accounts.2 attempted.2
  | error e m =>
    rw [run] at accounts
    constructor
    · rintro ⟨⟩
      obtain ⟨rfl, -⟩ := accounts.1
      exact ⟨rfl, accounts.2.2 rfl⟩
    · rintro ⟨rfl, attempted⟩
      rw [accounts.2.1 attempted]
      rfl

/-- A run begins at most one pass more than is allowed, and it begins that many if and only if it ends because
too many passes have begun. -/
theorem iterations_le :
    let ran := p.exec host config (.initial config draws state)
    (final ran).iterations ≤ config.maxIterations + 1 ∧
      ((final ran).iterations = config.maxIterations + 1 ↔
        ∃ line, outcome ran = .error ⟨.iterationLimit config.maxIterations, line⟩) := by
  have accounts := exec_accounts p host config draws state "" 0
  dsimp only at accounts ⊢
  cases run : p.exec host config (.initial config draws state) with
  | ok a m =>
    rw [run] at accounts
    have room : m.iterations ≤ config.maxIterations := accounts.1
    exact ⟨Nat.le_succ_of_le room, iff_of_false (by simp only [final]; omega) nofun⟩
  | error e m =>
    rw [run] at accounts
    obtain ⟨cause, line⟩ := e
    have counted := accounts.1
    cases cause with
    | iterationLimit limit =>
      obtain ⟨rfl, full⟩ := counted
      exact ⟨Nat.le_of_eq full, iff_of_true full ⟨line, rfl⟩⟩
    | recursionLimit who limit =>
      exact ⟨Nat.le_succ_of_le counted.2, iff_of_false (by have := counted.2; simp only [final]; omega) nofun⟩
    | _ =>
      have room : m.iterations ≤ config.maxIterations := counted
      exact ⟨Nat.le_succ_of_le room, iff_of_false (by simp only [final]; omega) nofun⟩

end Runs

end Pseudocode
