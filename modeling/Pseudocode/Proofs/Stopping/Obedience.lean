import Pseudocode.Proofs.Calls
import Pseudocode.Proofs.Mirror.Runs
import Pseudocode.Proofs.Outside.Inward

/-!
Stops are obeyed. A run is watched where statements begin, and its host remembers whether it has asked
for a stop: no statement begins after that, wherever in the program it stands, and the run ends cancelled
(`Obeys.exec`).
-/

namespace Pseudocode

open Exec Machine Semantics

variable {σ : Type} {α β : Type}

/-- How often a host was turned to since it asked for a stop, if it did, after it is turned to once more. -/
def heard (stops : Bool) : Option Nat → Option Nat
  | none => if stops then some 0 else none
  | some n => some (n + 1)

/-- A host that also counts how often it was turned to since it asked for a stop: by cancelling the run,
by refusing a step, or by having no answer to an INPUT. -/
def Host.minded (host : Host σ) : Host (σ × Option Nat) where
  emit l s := (host.emit l s.1, heard false s.2)
  requestInput name type s :=
    let (answer, state) := host.requestInput name type s.1
    (answer, state, heard answer.isNone s.2)
  step snapshot s :=
    let (reply, state) := host.step snapshot s.1
    (reply, state, heard (reply == .stop) s.2)
  requestFile name s :=
    let (content, state) := host.requestFile name s.1
    (content, state, heard false s.2)
  cancelled s :=
    let (stopped, state) := host.cancelled s.1
    (stopped, state, heard stopped s.2)

/-- Nothing has asked for a stop, and variables agree with their copies in the arena. -/
structure Machine.Running (m : Machine (σ × Option Nat)) : Prop where
  mirrors : m.Mirrors
  going : m.host.2 = none

namespace Machine.Running

/-- All but memory and what the host remembers of stops may change. -/
theorem of_same {m m' : Machine (σ × Option Nat)} (h : m.Running) (memory : m'.memory = m.memory)
    (stops : m'.host.2 = m.host.2) : m'.Running := by
  constructor
  · show m'.memory.Mirrors
    rw [memory]
    exact h.mirrors
  · rw [stops]
    exact h.going

theorem fileSteps : FileSteps (fun _ => Preserves Running : Property (σ × Option Nat)) where
  pure := .pure
  throw _ _ := .throw _
  bind := .bind
  look _ next := .get fun m inv => next m m inv
  quiet _ same outside m inv :=
    ⟨inv.of_same (same m).memory (congrArg Prod.snd (outside m).host), trivial⟩
  setFiles _ := .modify fun _ inv => inv.of_same rfl rfl

theorem emit (host : Host σ) (l : OutputLine) : Preserves Running (fun _ => True) (emit host.minded l) :=
  .modify fun m inv => inv.of_same rfl (show heard false m.host.2 = m.host.2 by rw [inv.going]; rfl)

theorem openNamed (host : Host σ) (name : String) (mode : FileMode) (line : Nat) :
    Preserves Running (fun _ => True) (openNamed host.minded name mode line) := by
  have asked : Preserves Running (fun _ => True) (askFile host.minded name mode) := by
    cases mode with
    | read =>
      intro m inv
      have same : heard false m.host.2 = m.host.2 := by rw [inv.going]; rfl
      exact ⟨inv.of_same rfl same, trivial⟩
    | write | append => exact .pure trivial
  exact asked.bind fun content _ => fileSteps.openContent name mode content line

/-- What has nothing to do with the outside asks for no stop. -/
theorem inward {m : Machine (σ × Option Nat)} {P : α → Prop} {Q : Machine (σ × Option Nat) → α → Prop}
    {x : Exec (σ × Option Nat) α} (keeps : Keeps .nothing Mirrors m Q x) (step : Inward P x) :
    Keeps .nothing Running m Q x := by
  intro inv
  have ended := keeps inv.mirrors
  have outside := (step m).1
  cases run : x m with
  | ok a m' =>
    rw [run] at ended outside
    have going : m'.host.2 = none := by rw [outside.1.host, inv.going]
    exact ⟨⟨⟨ended.1.1, going⟩, trivial⟩, ended.2⟩
  | error e m' =>
    rw [run] at ended outside
    have going : m'.host.2 = none := by rw [outside.host, inv.going]
    exact ⟨⟨ended.1, going⟩, trivial⟩

/-- Statements without rights ask for no stop. -/
theorem kept (ctx : Context (σ × Option Nat)) :
    KeptUnder (fun access access' => access = .denied ∧ access' = .denied) ctx .nothing Running where
  steps := by
    have memory : MemoryRelated (σ := σ × Option Nat) (.onLeft (Keeps .nothing Running)) .nothing :=
      Inward.memorySteps.refine (Machine.Mirrors.kept.memoryRelated) inward
    exact fileSteps.toQuietSteps.steps Keeps.sequenced memory (fun step => step.keeps _) (fun _ => .true)
      (.checkBudget ctx.config)
  tick m line := by
    have counts : Preserves Running (fun _ => True)
        (modify fun m : Machine (σ × Option Nat) => { m with iterations := m.iterations + 1 }) :=
      .modify fun _ inv => inv.of_same rfl rfl
    exact (counts.bind fun _ _ => Preserves.checkBudget ctx.config line).keeps m
  call {m d bindings} kind line known inv := by
    have mirrors : Kept ctx .nothing Mirrors := Machine.Mirrors.kept.kept ctx
    obtain ⟨m₁, entered, inv₁, leaves⟩ := mirrors.call kind line known inv.mirrors
    have began := enter_control d kind bindings line m
    rw [entered] at began
    refine ⟨m₁, entered, ⟨inv₁, ?_⟩, fun m₂ later inv₂ => ?_⟩
    · rw [show m₁.host = m.host from began.host]
      exact inv.going
    · have left := leaves m₂ later inv₂.mirrors
      have control := leave_control line m₂
      cases run : leave line m₂ with
      | ok _ m₃ =>
        rw [run] at left control
        have going : m₃.host.2 = none := by rw [show m₃.host = m₂.host from control.1.host, inv₂.going]
        exact ⟨⟨⟨left.1.1, going⟩, trivial⟩, fun _ _ => trivial⟩
      | error e m₃ =>
        rw [run] at left control
        have going : m₃.host.2 = none := by rw [show m₃.host = m₂.host from control.host, inv₂.going]
        exact ⟨⟨left.1, going⟩, trivial⟩

end Machine.Running

/-- Computations that have ended: a stop was asked for if and only if the result says so, and the host was
not turned to since. -/
def Heeded (stops : α → Bool) : EStateM.Result RuntimeError (Machine (σ × Option Nat)) α → Prop
  | .ok a m => m.Mirrors ∧ m.host.2 = heard (stops a) none
  | .error _ m => m.Running

theorem Heeded.running {stops : α → Bool} {a : α} {m : Machine (σ × Option Nat)}
    (h : Heeded stops (.ok a m)) (goesOn : stops a = false) : m.Running := by
  refine ⟨h.1, ?_⟩
  rw [h.2, goesOn]
  rfl

theorem Machine.Running.heeded {stops : α → Bool} {a : α} {m : Machine (σ × Option Nat)} (inv : m.Running)
    (goesOn : stops a = false) : Heeded stops (.ok a m) := by
  refine ⟨inv.mirrors, ?_⟩
  rw [inv.going, goesOn]
  rfl

/-- A step asks for a stop if and only if its result says so. -/
def Tells (stops : α → Bool) (x : Exec (σ × Option Nat) α) : Prop :=
  ∀ m : Machine (σ × Option Nat), m.Running → Heeded stops (x m)

namespace Tells

variable {host : Host σ} {f : α → Exec (σ × Option Nat) β} {x : Exec (σ × Option Nat) α} {stops : α → Bool}

theorem pure {a : α} (goesOn : stops a = false) : Tells stops (pure a : Exec (σ × Option Nat) α) :=
  fun _ inv => inv.heeded goesOn

theorem after {stops : β → Bool} (first : Preserves Running (fun _ => True) x) (next : ∀ a, Tells stops (f a)) :
    Tells stops (x >>= f) := by
  intro m inv
  have ended := first m inv
  rw [bind_apply]
  generalize x m = r at ended ⊢
  cases r with
  | ok a m' => exact next a m' ended.1
  | error e m' => exact ended

theorem bind {stops' : β → Bool} (first : Tells stops x)
    (halts : ∀ a, stops a = true → ∃ b, f a = Pure.pure b ∧ stops' b = true)
    (next : ∀ a, stops a = false → Tells stops' (f a)) : Tells stops' (x >>= f) := by
  intro m inv
  have told := first m inv
  cases run : x m with
  | ok a m' =>
    rw [run] at told
    rw [bind_of_ok run]
    cases asked : stops a with
    | true =>
      obtain ⟨b, same, stop⟩ := halts a asked
      rw [same]
      refine ⟨told.1, ?_⟩
      rw [told.2, asked, stop]
    | false => exact next a asked m' (told.running asked)
  | error e m' =>
    rw [run] at told
    rw [bind_of_error run]
    exact told

theorem poll : Tells id (poll host.minded) := fun m inv =>
  ⟨inv.mirrors, show heard (host.cancelled m.host.1).1 m.host.2 = _ by rw [inv.going]; rfl⟩

theorem showState : Tells (· == .stop) (showState host.minded) := fun m inv =>
  ⟨inv.mirrors, show heard ((host.step (m.snapshot true) m.host.1).1 == .stop) m.host.2 = _ by
    rw [inv.going]; rfl⟩

theorem askInput (name : String) (type : DataType) :
    Tells Option.isNone (askInput host.minded name type) := fun m inv =>
  ⟨inv.mirrors, show heard (host.requestInput name type m.host.1).1.isNone m.host.2 = _ by
    rw [inv.going]; rfl⟩

/-- What asks for a stop where a statement begins. -/
theorem interrupted {ctx : Context (σ × Option Nat)} (minds : ctx.host = host.minded) (st : Stmt) :
    Tells id (interrupted ctx .granted st) := by
  unfold Exec.interrupted
  rw [minds]
  refine after (Running.fileSteps.setLine st.line) fun _ => ?_
  refine after (.checkBudget _ _) fun _ => ?_
  refine bind poll ?_ ?_
  · rintro _ rfl
    exact ⟨true, rfl, rfl⟩
  · rintro _ rfl
    dsimp only [id]
    split
    · contradiction
    · split
      · refine bind showState ?_ fun reply goesOn => pure goesOn
        intro reply stop
        exact ⟨_, rfl, stop⟩
      · exact pure rfl

end Tells

/-- The flow has stopped. -/
def Flow.halts : Flow → Bool
  | .halt => true
  | _ => false

/-- Statements begin only where no stop has been asked for, and a stop is told by the result. -/
def Obeys (stops : α → Bool) (m : Machine (σ × Option Nat)) (x : Watch (σ × Option Nat) α) : Prop :=
  m.Running → (∀ m' ∈ (x m).seen, m'.host.2 = none) ∧ ∀ r, (x m).result = some r → Heeded stops r

/-- A watched computation that asks for no stop. -/
abbrev AsksNoStop (m : Machine (σ × Option Nat)) (Q : Machine (σ × Option Nat) → α → Prop)
    (x : Watch (σ × Option Nat) α) : Prop :=
  Watch.Keeps .nothing Running (fun m => m.host.2 = none) m Q x

namespace Obeys

variable {m : Machine (σ × Option Nat)} {stops : α → Bool} {stops' : β → Bool}

theorem lift {x : Exec (σ × Option Nat) α} (h : Tells stops x) : Obeys stops m (Watch.lift x) := by
  intro inv
  refine ⟨nofun, fun r ended => ?_⟩
  cases ended
  exact h m inv

theorem pure {a : α} (goesOn : stops a = false) : Obeys stops m (pure a) :=
  lift (.pure goesOn)

variable {body : Access → List Stmt → Watch (σ × Option Nat) Flow} {x : Watch (σ × Option Nat) α}
  {f : α → Watch (σ × Option Nat) β}

/-- What follows a computation that asks for no stop. -/
theorem bind {Q : Machine (σ × Option Nat) → α → Prop} (first : AsksNoStop m Q x)
    (next : ∀ m' a, Q m' a → Obeys stops' m' (f a)) : Obeys stops' m (x >>= f) := by
  intro inv
  obtain ⟨seen, ended⟩ := first inv
  rcases run : x m with ⟨before, _ | ⟨a, m'⟩ | ⟨e, m'⟩⟩
  · rw [run] at seen
    rw [Watch.bind_of_none run]
    exact ⟨seen, fun _ ended => nomatch ended⟩
  · rw [run] at seen ended
    rw [Watch.bind_of_ok run]
    obtain ⟨⟨inv', -⟩, known⟩ := ended _ rfl
    obtain ⟨after, rest⟩ := next m' a known inv'
    exact ⟨List.forall_mem_append.2 ⟨seen, after⟩, rest⟩
  · rw [run] at seen ended
    rw [Watch.bind_of_error run]
    refine ⟨seen, fun r last => ?_⟩
    cases last
    exact (ended (.error e m') rfl).1

/-- A computation that may ask for a stop ends the whole with that. -/
theorem andThen (first : Obeys stops m x) (halts : ∀ a, stops a = true → ∃ b, f a = Pure.pure b ∧ stops' b = true)
    (next : ∀ m' a, stops a = false → Obeys stops' m' (f a)) : Obeys stops' m (x >>= f) := by
  intro inv
  obtain ⟨seen, ended⟩ := first inv
  rcases run : x m with ⟨before, _ | ⟨a, m'⟩ | ⟨e, m'⟩⟩
  · rw [run] at seen
    rw [Watch.bind_of_none run]
    exact ⟨seen, fun _ ended => nomatch ended⟩
  · rw [run] at seen ended
    rw [Watch.bind_of_ok run]
    have heeded := ended _ rfl
    cases asked : stops a with
    | true =>
      obtain ⟨b, same, stop⟩ := halts a asked
      rw [same]
      refine ⟨List.forall_mem_append.2 ⟨seen, nofun⟩, fun r last => ?_⟩
      cases last
      refine ⟨heeded.1, ?_⟩
      rw [heeded.2, asked, stop]
    | false =>
      obtain ⟨after, rest⟩ := next m' a asked (heeded.running asked)
      exact ⟨List.forall_mem_append.2 ⟨seen, after⟩, rest⟩
  · rw [run] at seen ended
    rw [Watch.bind_of_error run]
    refine ⟨seen, fun r last => ?_⟩
    cases last
    exact ended _ rfl

/-- Nothing follows a flow that has stopped. -/
theorem followedBy {x y : Watch (σ × Option Nat) Flow} (first : Obeys Flow.halts m x)
    (next : ∀ m', Obeys Flow.halts m' y) :
    Obeys Flow.halts m (do let flow ← x; Semantics.followedBy flow y) := by
  refine andThen first (fun flow stop => ?_) fun m' flow goesOn => ?_
  · cases flow with
    | halt => exact ⟨.halt, rfl, rfl⟩
    | _ => contradiction
  · cases flow with
    | normal => exact next m'
    | returned v => exact pure rfl
    | halt => contradiction

theorem exhausted : Obeys stops m Watch.exhausted :=
  fun _ => ⟨nofun, fun _ ended => nomatch ended⟩

theorem flowing :
    Watch.Flowing .nothing (fun _ (m : Machine (σ × Option Nat)) Q x _ => AsksNoStop m Q x) fun m x _ =>
      Obeys Flow.halts m x where
  exhausted := exhausted
  normal := pure rfl
  bind first next := bind first fun m' a known => next m' a trivial known
  followedBy first next := followedBy first fun m' => next m' trivial

/-- Statements begin where no stop has been asked for. -/
theorem opening {x : Watch (σ × Option Nat) Flow} (h : Obeys Flow.halts m x) :
    Obeys Flow.halts m (Watch.opening x) :=
  fun inv => ⟨List.forall_mem_cons.2 ⟨inv.going, (h inv).1⟩, (h inv).2⟩

theorem call (ctx : Context (σ × Option Nat)) (fuel : Nat)
    {mark : Watch (σ × Option Nat) Flow → Watch (σ × Option Nat) Flow}
    (onBody : ∀ m sts, Obeys Flow.halts m (body .granted sts)) (d : Definition Stmt) {bindings : List Binding}
    (line : Nat) (known : Knowledge.nothing.bindings m d.params bindings) :
    Obeys (fun ended => ended.1.halts) m
      ({ Watch.semantics ctx.config fuel body with boundary := mark }.runBody .granted d .procedure bindings
        line) := by
  intro inv
  obtain ⟨m₁, entered, inv₁, -⟩ := (Running.kept ctx).call .procedure line known inv
  obtain ⟨seen, ended⟩ := onBody m₁ d.body inv₁
  rw [Watch.runBody_eq, entered]
  refine ⟨seen, fun r closed => ?_⟩
  obtain ⟨r, result, rfl⟩ := Option.map_eq_some_iff.1 closed
  have heeded := ended r result
  cases r with
  | ok flow m₂ =>
    obtain ⟨m₃, mirrors, host, ran⟩ := closeCall_eq heeded.1 line (.ok flow)
    rw [outcome, final, ran]
    exact ⟨mirrors, by rw [host]; exact heeded.2⟩
  | error e m₂ =>
    obtain ⟨m₃, mirrors, host, ran⟩ := closeCall_eq heeded.mirrors line (.error e)
    rw [outcome, final, ran]
    exact ⟨mirrors, by rw [host]; exact heeded.going⟩

/-- A procedure passes on that its body was stopped. -/
theorem procedureResult {x : Watch (σ × Option Nat) (Flow × Nat)} (d : Definition Stmt)
    (first : Obeys (fun ended => ended.1.halts) m x) :
    Obeys Flow.halts m (do let ended ← x; Watch.lift (Exec.procedureResult d ended)) := by
  refine andThen first ?_ ?_
  · rintro ⟨_ | _ | _, last⟩ stop
    · contradiction
    · contradiction
    · exact ⟨.halt, rfl, rfl⟩
  · rintro m' ⟨_ | (_ | v) | _, last⟩ goesOn
    · exact pure rfl
    · exact pure rfl
    · exact lift fun _ inv => inv
    · contradiction

theorem quiet {x : Exec (σ × Option Nat) α} (step : Preserves Running (fun _ => True) x)
    (m : Machine (σ × Option Nat)) : AsksNoStop m (fun _ _ => True) (Watch.lift x) :=
  .lift (step.keeps m)

theorem simply {x : Watch (σ × Option Nat) Unit} (first : AsksNoStop m (fun _ _ => True) x) :
    Obeys Flow.halts m (Semantics.simply x) :=
  bind first fun _ _ _ => pure rfl

/-- A run that is watched where statements begin, given what runs the bodies of callables. -/
abbrev opened (ctx : Context (σ × Option Nat)) (fuel : Nat)
    (body : Access → List Stmt → Watch (σ × Option Nat) Flow) :
    Semantics (σ × Option Nat) (Watch (σ × Option Nat)) :=
  { Watch.semantics ctx.config fuel body with boundary := Watch.opening }

/-- Expressions, and statements without rights, ask for no stop. -/
abbrev Expressions (ctx : Context (σ × Option Nat))
    (s : Semantics (σ × Option Nat) (Watch (σ × Option Nat))) : Prop :=
  SelfCongruence s ctx (.onLeft (Exec.Keeps .nothing Running))
    (.onLeft AsksNoStop) .nothing
    (fun access access' => access = .denied ∧ access' = .denied) True

theorem expressions (ctx : Context (σ × Option Nat)) (fuel : Nat)
    (onBody : ∀ m sts, AsksNoStop m Knowledge.nothing.flow (body .denied sts)) :
    Expressions ctx (opened ctx fuel body) := by
  refine (Running.kept ctx).semantics ?_ (fun m x keeps inv => keeps.opening inv.going inv) fuel
  rintro _ _ ⟨rfl, rfl⟩ m _ sts
  exact onBody m sts

section Statements

variable {host : Host σ} {ctx : Context (σ × Option Nat)} (minds : ctx.host = host.minded) (fuel : Nat)
  {body : Access → List Stmt → Watch (σ × Option Nat) Flow} (known : Expressions ctx (opened ctx fuel body))

include known

theorem readFile (m : Machine (σ × Option Nat)) (file target : Expr) (line : Nat) :
    Obeys Flow.halts m (Semantics.simply ((opened ctx fuel body).readFile ctx .granted file target line)) := by
  refine simply (.bind (quiet (.pure trivial) m) fun m₁ _ _ _ => ?_)
  refine .bind (known.evalFileName m₁ file line) fun m₂ name _ _ => ?_
  refine .bind (.lift (known.steps.targetType line target)) fun m₃ type _ _ => ?_
  refine .bind (quiet (Running.fileSteps.readNamed name line) m₃) fun m₄ raw _ _ => ?_
  refine .bind (.lift (known.steps.convert target type raw line)) fun m₅ v _ _ => ?_
  exact known.assign m₅ target line trivial

theorem closeFile (m : Machine (σ × Option Nat)) (file : Expr) (line : Nat) :
    Obeys Flow.halts m (Semantics.simply ((opened ctx fuel body).closeFile ctx .granted file line)) := by
  refine simply (.bind (quiet (.pure trivial) m) fun m₁ _ _ _ => ?_)
  refine .bind (known.evalFileName m₁ file line) fun m₂ name _ _ => ?_
  exact quiet (Running.fileSteps.closeNamed name line) m₂

include minds

theorem output (m : Machine (σ × Option Nat)) (items : List Expr) (line : Nat) :
    Obeys Flow.halts m (Semantics.simply ((opened ctx fuel body).output ctx .granted items line)) := by
  refine simply (.bind (quiet (.pure trivial) m) fun m₁ _ _ _ => ?_)
  refine .bind (known.evalAll m₁ items) fun m₂ values _ _ => ?_
  rw [minds]
  exact quiet (Running.emit host _) m₂

theorem openFile (m : Machine (σ × Option Nat)) (file : Expr) (mode : FileMode) (line : Nat) :
    Obeys Flow.halts m (Semantics.simply ((opened ctx fuel body).openFile ctx .granted file mode line)) := by
  refine simply (.bind (quiet (.pure trivial) m) fun m₁ _ _ _ => ?_)
  refine .bind (known.evalFileName m₁ file line) fun m₂ name _ _ => ?_
  rw [minds]
  exact quiet (Running.openNamed host name mode line) m₂

theorem writeFile (m : Machine (σ × Option Nat)) (file value : Expr) (line : Nat) :
    Obeys Flow.halts m (Semantics.simply ((opened ctx fuel body).writeFile ctx .granted file value line)) := by
  refine simply (.bind (quiet (.pure trivial) m) fun m₁ _ _ _ => ?_)
  refine .bind (known.evalFileName m₁ file line) fun m₂ name _ _ => ?_
  refine .bind (known.eval m₂ value) fun m₃ v _ _ => ?_
  refine .bind (quiet (Running.fileSteps.writeNamed name v.display line) m₃) fun m₄ _ _ _ => ?_
  refine quiet ?_ m₄
  unfold echo
  rw [minds]
  split
  · exact Running.emit host _
  · exact .pure trivial

theorem input (m : Machine (σ × Option Nat)) (target : Expr) (line : Nat) :
    Obeys Flow.halts m ((opened ctx fuel body).input ctx .granted target line) := by
  refine bind (quiet (.pure trivial) m) fun m₁ _ _ => ?_
  refine bind (.lift (known.steps.targetType line target)) fun m₂ type _ => ?_
  rw [minds]
  refine andThen (lift (Tells.askInput (targetName target) type)) ?_ fun m₃ answer given => ?_
  · intro answer none
    rw [Option.isNone_iff_eq_none.1 none]
    exact ⟨.halt, rfl, rfl⟩
  · cases answer with
    | none => contradiction
    | some raw =>
      refine bind (.lift (known.steps.convert target type raw line)) fun m₄ v _ => ?_
      refine bind (quiet (Running.emit host ⟨.inputEcho, raw, line⟩) m₄) fun m₅ _ _ => ?_
      exact bind (known.assign m₅ target line trivial) fun _ _ _ => pure rfl

theorem flows (onBody : ∀ m sts, Obeys Flow.halts m (body .granted sts)) :
    SelfFlows (opened ctx fuel body) ctx (.onLeft AsksNoStop) .nothing True .granted
      (fun m x _ => Obeys Flow.halts m x) fun m x _ => Obeys Flow.halts m x where
  normal := pure rfl
  followedBy first next := followedBy first fun m' => next m' trivial
  weaken := id
  bind first next := bind first fun m' a known => next m' a trivial known
  fail _ _ := lift fun _ inv => inv
  giveBack value line :=
    known.giveBack (G := fun m x _ => Obeys Flow.halts m x)
      (fun first next => bind first fun m' a q => next m' a trivial q) (fun _ => pure rfl) _ value line
  begin st x _ rest := by
    refine opening (andThen (lift (Tells.interrupted minds st)) ?_ fun m' stop goesOn => ?_)
    · rintro _ rfl
      exact ⟨.halt, rfl, rfl⟩
    · cases goesOn
      exact rest m'
  whileLoop {_ _ c' _ y} line onCondition onBody :=
    flowing.whilePasses ctx.config c' y (.lift <| (Running.kept ctx).tick · line) fuel onBody onCondition
  repeatLoop {_ _ c' _ y} line onBody onCondition :=
    flowing.repeatPasses ctx.config c' y (.lift <| (Running.kept ctx).tick · line) fuel onBody onCondition
  forLoop {_ _ i'} continues _ next' _ y line onCounter onAdvance onBody :=
    flowing.forPasses ctx.config y (.lift <| (Running.kept ctx).tick · line) fuel i' continues next' onBody
      onCounter onAdvance
  call _ d _ line known := procedureResult d (call ctx fuel onBody d line known)
  output := output minds fuel known _
  input := input minds fuel known _
  openFile := openFile minds fuel known _
  readFile := readFile fuel known _
  writeFile := writeFile minds fuel known _
  closeFile := closeFile fuel known _

end Statements

/-- Statements obey at every depth of calls. -/
theorem levels {host : Host σ} (ctx : Context (σ × Option Nat)) (minds : ctx.host = host.minded)
    (fuel : Nat) :
    Expressions ctx (watchingAt Watch.opening id ctx fuel) ∧
      ∀ m sts, Obeys Flow.halts m ((watchingAt Watch.opening id ctx fuel).execBlock ctx .granted sts) := by
  induction fuel with
  | zero =>
    have known : Expressions ctx (opened ctx 0 fun _ _ => Watch.exhausted) :=
      expressions ctx 0 fun _ _ => .exhausted
    exact ⟨known, fun m sts => (flows minds 0 known fun _ _ => exhausted).execBlock known m sts⟩
  | succ fuel ih =>
    have known := expressions ctx (fuel + 1) fun m sts => ih.1.execBlock ⟨rfl, rfl⟩ m sts
    exact ⟨known, fun m sts => (flows minds (fuel + 1) known ih.2).execBlock known m sts⟩

end Obeys

/-- The run of a program, watched where statements begin. -/
def Program.openings (p : Program) (host : Host σ) (config : Config) (fuel : Nat) : Watch σ Outcome :=
  (watchingAt Watch.opening id ⟨host, config, p.definitions, none⟩ fuel).exec ⟨host, config, p.definitions, none⟩ p

theorem openings_result (p : Program) (host : Host σ) (config : Config) (draws : Draws) (state : σ)
    (more : Nat) :
    (p.openings host config (config.maxDepth + config.maxIterations + 1 + more)
        (.initial config draws state)).result =
      some (p.exec host config (.initial config draws state)) :=
  watchingAt_result Watch.opening id (fun _ _ => rfl) (fun _ _ => rfl) p host config draws state more

/-- A state in which a statement begins, at the top level or in the body of a callable. -/
def StatementBegins (p : Program) (host : Host σ) (config : Config) (draws : Draws) (state : σ) (m : Machine σ) :
    Prop :=
  ∃ fuel, m ∈ (p.openings host config fuel (.initial config draws state)).seen

/-- No statement begins after a stop, and with the stop the run ends. -/
theorem Obeys.exec (p : Program) (host : Host σ) (config : Config) (fuel : Nat) (m : Machine (σ × Option Nat)) :
    Obeys (· == .cancelled) m (p.openings host.minded config fuel) := by
  obtain ⟨known, obeys⟩ := levels ⟨host.minded, config, p.definitions, none⟩ rfl fuel
  have lifted {α : Type} (x : Exec (σ × Option Nat) α) :
      (watchingAt Watch.opening id ⟨host.minded, config, p.definitions, none⟩ fuel).lift x = Watch.lift x := by
    cases fuel <;> rfl
  unfold Program.openings Semantics.exec
  simp only [lifted]
  refine .bind (.lift (known.steps.checkDefinitions p)) fun m' _ _ => ?_
  refine .andThen (obeys m' p.statements) (fun flow stop => ?_) fun m' flow goesOn => ?_
  · cases flow with
    | halt => exact ⟨.cancelled, rfl, rfl⟩
    | _ => contradiction
  · cases flow with
    | normal => exact .pure rfl
    | returned v => exact .lift fun _ inv => inv
    | halt => contradiction

end Pseudocode
