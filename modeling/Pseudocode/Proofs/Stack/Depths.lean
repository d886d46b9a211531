import Pseudocode.Proofs.Calls
import Pseudocode.Proofs.Memory.Steps

/-!
The depths of the stack of scopes and of the stack of calls. Every step leaves them as they are, and a call
closes the frame and the scope that it opened, however its body has ended; so expressions and statements
leave both depths as they found them (`SameDepths.eval`, `SameDepths.execStmt`, `SameDepths.runBlock`). Where
no call runs, no RETURN ends a block (`runBlock_returns_nothing`).
-/

namespace Pseudocode

open Exec Machine Semantics

variable {σ : Type} {α β : Type}

/-- As many scopes are open as in another state, and as many calls run. -/
structure Machine.SameDepths (m₀ m : Machine σ) : Prop where
  scopes : m.scopes.depth = m₀.scopes.depth
  calls : m.calls.depth = m₀.calls.depth

namespace Machine.SameDepths

theorem refl (m : Machine σ) : SameDepths m m := ⟨rfl, rfl⟩

theorem trans {a b c : Machine σ} (first : SameDepths a b) (next : SameDepths b c) : SameDepths a c :=
  ⟨next.scopes.trans first.scopes, next.calls.trans first.calls⟩

end Machine.SameDepths

/-- The global scope is open. -/
abbrev Machine.HasGlobal (m : Machine σ) : Prop := 0 < m.scopes.depth

/-- The stages of a run between which no scope and no call is left open. -/
def Knowledge.depths : Knowledge (Machine σ) where
  Later := SameDepths
  value _ _ := True
  cell _ _ := True
  refl := .refl
  trans := .trans
  value_later _ _ := trivial
  cell_later _ _ := trivial

namespace Exec

/-- A step leaves the depths as they are. -/
def KeepsDepths : Property σ := fun _ Q x => ∀ m, Ends (SameDepths m) Q (x m)

namespace KeepsDepths

theorem sequential : Sequential (KeepsDepths : Property σ) where
  pure known m := ⟨.refl m, known⟩
  throw _ _ m := .refl m
  bind first next m := (first m).bind fun a known _ depths =>
    (next a known _).mono (fun _ there => depths.trans there) fun _ q => q
  look _ next m := next m m
  record _ _ _ _ := ⟨⟨rfl, rfl⟩, trivial⟩

theorem memorySteps : MemorySteps (KeepsDepths : Property σ) :=
  sequential.memorySteps (fun _ same depth m => ⟨⟨depth m, by rw [(same m).calls]⟩, trivial⟩)
    fun _ _ => ⟨⟨rfl, rfl⟩, trivial⟩

theorem hostSteps (ctx : Context σ) : HostSteps (KeepsDepths : Property σ) ctx := by
  have control : ControlSteps (KeepsDepths : Property σ) :=
    sequential.controlSteps fun _ same m => ⟨⟨by rw [(same m).scopes], (same m).depth⟩, trivial⟩
  exact control.hostSteps (control.quietSteps.checkBudget (fun _ m => .refl m) ctx.config)

/-- Steps keep what depends on the depths. -/
theorem keeps {Inv : Machine σ → Prop} (stays : ∀ m m', SameDepths m m' → Inv m → Inv m') {Q : α → Prop}
    {x : Exec σ α} (depths : KeepsDepths Q x) (m : Machine σ) : Keeps .depths Inv m (fun _ => Q) x := by
  intro inv
  have ended := depths m
  cases run : x m with
  | ok a m' =>
    rw [run] at ended
    exact ⟨⟨stays m m' ended.1 inv, ended.1⟩, ended.2⟩
  | error e m' =>
    rw [run] at ended
    exact ⟨stays m m' ended inv, ended⟩

theorem steps {Inv : Machine σ → Prop} (stays : ∀ m m', SameDepths m m' → Inv m → Inv m') (ctx : Context σ) :
    Steps (.onLeft (Exec.Keeps .depths Inv)) .depths Eq ctx ctx := by
  have both {α : Type} {m : Machine σ} {Q : α → Prop} {x : Exec σ α} (depths : KeepsDepths Q x) :
      Keeps .depths Inv m (fun _ => Q) x := depths.keeps stays m
  refine (hostSteps ctx).steps Keeps.sequenced ?_ both (fun _ => .true) ctx.config.traceLimit ctx.below
  refine memorySteps.related (fun {_ m _ _} known depths => ?_) (fun _ _ => trivial) fun _ _ => trivial
  exact fun inv => (both depths inv).mono (fun _ there => there) fun _ _ _ _ => known _ _

end KeepsDepths

theorem tick_depths (config : Config) (line : Nat) : KeepsDepths (fun _ => True) (tick config line : Exec σ Unit) := by
  intro m
  rw [tick_eq]
  split
  · exact ⟨rfl, rfl⟩
  · exact ⟨⟨rfl, rfl⟩, trivial⟩

/-- A call that is entered opens a scope and a frame. -/
theorem enter_depths (d : Definition Stmt) (kind : CallableKind) (bindings : List Binding) (line : Nat)
    (m : Machine σ) :
    ∃ m₁ : Machine σ, enter d kind bindings line m = .ok () m₁ ∧ m₁.scopes.depth = m.scopes.depth + 1 ∧
      m₁.calls.depth = m.calls.depth + 1 := by
  obtain ⟨t, entered⟩ := enter_eq d kind bindings line m
  refine ⟨_, entered, ?_, rfl⟩
  show (m.scopes.enter d.params bindings).depth = _
  rw [Scopes.enter, Scopes.depth_receiveAll, Scopes.depth_push]

/-- A call that is left closes them, also if one of its variables fails to end. -/
theorem leave_depths {m m₂ : Machine σ} (global : m.HasGlobal)
    (scopes : m₂.scopes.depth = m.scopes.depth + 1) (calls : m₂.calls.depth = m.calls.depth + 1) (line : Nat) :
    Ends (SameDepths m) (fun _ => True) (leave line m₂) := by
  have inner : 1 < m₂.scopes.depth := by omega
  have popped : m₂.scopes.pop.depth = m.scopes.depth := by
    rw [Scopes.depth_pop inner, Scopes.current, show m₂.scopes.stack.size = _ from scopes, Nat.add_sub_cancel]
  obtain ⟨scope, live⟩ : ∃ scope, m₂.scopes.innermost? = some scope := by
    rw [Scopes.innermost?_of_inner inner]
    exact ⟨_, Array.getElem?_eq_getElem (Nat.sub_one_lt_of_lt (Nat.lt_trans Nat.zero_lt_one inner))⟩
  unfold leave
  rw [modify_bind, get_bind]
  dsimp only
  rw [live]
  have ended := KeepsDepths.memorySteps.endVariables m₂.scopes.pop.depth line trivial scope.names
    { m₂ with calls := m₂.calls.pop, scopes := m₂.scopes.pop }
  refine ended.mono (fun m' depths => ⟨depths.scopes.trans popped, depths.calls.trans ?_⟩) fun _ _ => trivial
  rw [CallStack.depth_pop, calls, Nat.add_sub_cancel]

end Exec

/-- A call closes the scope and the frame that it opened. -/
theorem call_depths {Inv : Machine σ → Prop} (stays : ∀ m m', SameDepths m m' → Inv m → Inv m') {m : Machine σ}
    (inv : Inv m) (global : m.HasGlobal) (d : Definition Stmt) (kind : CallableKind)
    (bindings : List Binding) (line : Nat) :
    ∃ m₁, enter d kind bindings line m = .ok () m₁ ∧ m₁.scopes.depth = m.scopes.depth + 1 ∧
      m₁.calls.depth = m.calls.depth + 1 ∧ ∀ m₂, SameDepths m₁ m₂ →
        EndsAt (fun m' => Inv m' ∧ SameDepths m m') (fun m' _ => ∀ v, Knowledge.depths.value m₂ v →
          Knowledge.depths.value m' v) (leave line m₂) := by
  obtain ⟨m₁, entered, scopes, calls⟩ := enter_depths d kind bindings line m
  refine ⟨m₁, entered, scopes, calls, fun m₂ depths => ?_⟩
  have left := leave_depths global (depths.scopes.trans scopes) (depths.calls.trans calls) line
  cases run : leave line m₂ with
  | ok _ m' =>
    rw [run] at left
    exact ⟨⟨stays m m' left.1 inv, left.1⟩, fun _ _ => trivial⟩
  | error e m' =>
    rw [run] at left
    exact ⟨stays m m' left inv, left⟩

/-- In a state with a global scope, every step leaves the depths as they are, and so does every call. -/
theorem Machine.SameDepths.kept (ctx : Context σ) : Kept ctx .depths HasGlobal := by
  have stays (m m' : Machine σ) (depths : SameDepths m m') (global : m.HasGlobal) : m'.HasGlobal :=
    Nat.lt_of_lt_of_eq global depths.scopes.symm
  exact {
    steps := KeepsDepths.steps stays ctx
    tick := fun m line => (tick_depths ctx.config line).keeps stays m
    call := by
      intro m d bindings kind line _ global
      obtain ⟨m₁, entered, scopes, -, leaves⟩ := call_depths stays global global d kind bindings line
      exact ⟨m₁, entered, Nat.lt_of_lt_of_eq (Nat.succ_pos _) scopes.symm, fun m₂ depths _ => leaves m₂ depths⟩ }

section Runs

variable (host : Host σ) (config : Config) (definitions : List (Definition Stmt)) (frames : Nat)

/-- Whatever is run in a context keeps the depths. -/
abbrev RunsKeepDepths (ctx : Context σ) : Prop :=
  SelfCongruence (ofExec ctx) ctx (.onLeft (Exec.Keeps .depths HasGlobal)) (.onLeft (Exec.Keeps .depths HasGlobal))
    .depths Eq True

/-- Runs keep the depths, whatever calls they may still make. -/
theorem Machine.SameDepths.related : RunsKeepDepths (runContext host config definitions frames) :=
  Kept.related (fun frames => SameDepths.kept (runContext host config definitions frames)) frames

namespace Machine.SameDepths

variable {m : Machine σ} (global : m.HasGlobal)

include global

theorem eval (e : Expr) : SameDepths m (final (Exec.eval (runContext host config definitions frames) e m)) := by
  have ended := (SameDepths.related host config definitions frames).eval m e global
  rw [eval_ofExec] at ended
  exact ended.final.2

theorem execStmt (access : Access) (st : Stmt) :
    SameDepths m (final (Exec.execStmt (runContext host config definitions frames) access st m)) := by
  have related := SameDepths.related host config definitions frames
  have ended := (related.flows (rfl : access = access)).execStmt related m st global
  rw [execStmt_ofExec] at ended
  exact ended.final.2

theorem runBlock (access : Access) (sts : List Stmt) :
    SameDepths m (final (Exec.runBlock host config definitions frames access sts m)) :=
  (Kept.runBlock (fun frames => SameDepths.kept (runContext host config definitions frames)) global frames access
    sts).2

end Machine.SameDepths

/-- Statements that begin where no call runs do not end with a RETURN. -/
def ReturnsInCalls (m : Machine σ) (x _y : Exec σ Flow) : Prop :=
  Exec.Keeps .depths HasGlobal m (fun m' flow => m'.calls.depth = 0 → ∀ v, flow ≠ .returned v) x

namespace ReturnsInCalls

variable {m : Machine σ}

theorem pure {flow : Flow} (never : ∀ v, flow ≠ .returned v) : ReturnsInCalls m (pure flow) (Pure.pure flow) :=
  Exec.Keeps.sequenced.pure fun _ => never

theorem bind {Q : Machine σ → α → Prop} {x y : Exec σ α} {f g : α → Exec σ Flow}
    (first : Exec.Keeps .depths HasGlobal m Q x)
    (next : ∀ m' a, SameDepths m m' → Q m' a → ReturnsInCalls m' (f a) (g a)) :
    ReturnsInCalls m (x >>= f) (y >>= g) :=
  Exec.Keeps.sequenced.bind (y := y) (g := g) first next

theorem flows :
    FlowSequenced (N := Exec σ) (.onLeft (Exec.Keeps .depths HasGlobal)) .depths ReturnsInCalls where
  normal := pure nofun
  bind := bind
  followedBy first next := by
    refine bind first fun m' flow depths known => ?_
    cases flow with
    | normal => exact next m' depths
    | returned v => exact Exec.Keeps.sequenced.pure known
    | halt => exact pure nofun

theorem procedureResult (d : Definition Stmt) (ended : Flow × Nat) :
    ReturnsInCalls m (procedureResult d ended) (Exec.procedureResult d ended) := by
  obtain ⟨flow, last⟩ := ended
  rcases flow with _ | (_ | v) | _
  · exact pure nofun
  · exact pure nofun
  · exact Exec.Keeps.sequenced.throw trivial
  · exact pure nofun

theorem simply {x y : Exec σ Unit}
    (step : Exec.Keeps .depths HasGlobal m (fun _ _ => True) x) :
    ReturnsInCalls m (Semantics.simply x) (Semantics.simply y) :=
  bind step fun _ _ _ _ => pure nofun

variable {ctx : Context σ} (related : RunsKeepDepths ctx)

include related

/-- A RETURN fails where no call runs. -/
theorem giveBack (value : Option Expr) (line : Nat) :
    ReturnsInCalls m ((ofExec ctx).giveBack ctx value line) ((ofExec ctx).giveBack ctx value line) := by
  by_cases outside : m.calls.depth = 0
  · have empty : m.calls.isEmpty = true := List.isEmpty_iff.2 (List.length_eq_zero_iff.1 outside)
    have refused : requireCall line m = .error ⟨.invalidArgument .returnOutside, line⟩ m := by
      show (if m.calls.isEmpty then fail _ line else Pure.pure ()) m = _
      rw [if_pos empty]
      rfl
    intro global
    have failed : (ofExec ctx).giveBack ctx value line m = .error ⟨.invalidArgument .returnOutside, line⟩ m :=
      bind_of_error refused
    rw [failed]
    exact ⟨global, .refl m⟩
  · have inside := related.giveBack
      (G := fun m x y => m.calls.depth ≠ 0 → ReturnsInCalls m x y)
      (fun first next inside => bind first fun m' a depths known => next m' a depths known (depths.calls ▸ inside))
      (fun _ inside => Exec.Keeps.sequenced.pure fun outside => absurd outside inside) m value line
    exact inside outside

theorem input {access : Access} (target : Expr) (line : Nat) :
    ReturnsInCalls m ((ofExec ctx).input ctx access target line)
      ((ofExec ctx).input ctx access target line) := by
  refine bind (related.steps.requireHost rfl _ line) fun _ _ _ _ => ?_
  refine bind (related.steps.targetType line target) fun _ type _ _ => ?_
  refine bind (related.steps.askInput rfl _ type) fun _ answer _ _ => ?_
  cases answer with
  | none => exact pure nofun
  | some raw =>
    refine bind (related.steps.convert target type raw line) fun _ v _ known => ?_
    refine bind (related.steps.emit rfl _) fun m₁ _ _ _ => ?_
    exact bind (related.assign m₁ target line known) fun _ _ _ _ => pure nofun

omit related in
theorem statements (access : Access) :
    SelfFlows (ofExec (runContext host config definitions frames)) (runContext host config definitions frames)
      (.onLeft (Exec.Keeps .depths HasGlobal)) .depths True access ReturnsInCalls ReturnsInCalls := by
  have related := SameDepths.related host config definitions frames
  have counted := (SameDepths.kept (runContext host config definitions frames)).counted
  exact {
    normal := flows.normal
    followedBy := flows.followedBy
    weaken := id
    bind := bind
    fail := fun _ ordinary => Exec.Keeps.sequenced.throw ordinary
    begin := fun st _ _ rest => by
      refine bind (related.steps.interrupted rfl st) fun m' stopped _ _ => ?_
      cases stopped with
      | true => exact pure nofun
      | false => exact rest m'
    whileLoop := flows.whileLoop counted
    repeatLoop := flows.repeatLoop counted
    forLoop := flows.forLoop counted
    call := fun _ d _ line known =>
      bind (related.call trivial rfl d .procedure line known) fun _ ended _ _ => procedureResult d ended
    giveBack := giveBack related
    output := fun {m} items line => simply (related.output rfl m items line)
    input := input related
    openFile := fun {m} file mode line => simply (related.openFile rfl m file mode line)
    readFile := fun {m} file target line => simply (related.readFile rfl m file target line)
    writeFile := fun {m} file value line => simply (related.writeFile rfl m file value line)
    closeFile := fun {m} file line => simply (related.closeFile rfl m file line) }

end ReturnsInCalls

/-- A block that runs outside of calls does not end with a RETURN. -/
theorem runBlock_returns_nothing {m : Machine σ} (global : m.HasGlobal) (outside : m.calls.depth = 0)
    (access : Access) (sts : List Stmt) (v : Option Value) :
    outcome (Exec.runBlock host config definitions frames access sts m) ≠ .ok (.returned v) := by
  have ended := (ReturnsInCalls.statements host config definitions frames access).execBlock
    (SameDepths.related host config definitions frames) m sts global
  rw [← runBlock_eq] at ended
  intro returned
  exact ended.outcome _ returned (ended.final.2.calls.trans outside) v rfl

end Runs

end Pseudocode
