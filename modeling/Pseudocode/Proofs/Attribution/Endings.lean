import Mathlib.Control.Monad.Basic
import Pseudocode.Proofs.Attribution.Activations

/-!
Errors about how a callable has ended: a function that returned nothing or a value of another type, and a
procedure that returned a value. They are reported on the line on which the run is when the body has ended. The
frame of the callable holds the line of the last statement of its own, a RETURN if it returned; the two lines are
the same if no statement of another call has begun since (`endings_blame_line_reached`).
-/

namespace Pseudocode

open Exec Machine Semantics

variable {σ : Type} {α β : Type}

namespace Exec

/-- Nothing but a fault of memory can go wrong. -/
def Faults (x : Exec σ α) : Prop := ∀ m e, outcome (x m) = .error e → ∃ fault, e.cause = .memory fault

namespace Faults

theorem pure (a : α) : Faults (pure a : Exec σ α) := fun _ _ failed => nomatch failed

theorem bind {x : Exec σ α} {f : α → Exec σ β} (first : Faults x) (next : ∀ a, Faults (f a)) : Faults (x >>= f) := by
  intro m e failed
  cases run : x m with
  | ok a m' =>
    rw [bind_of_ok run] at failed
    exact next a m' e failed
  | error e' m' =>
    rw [bind_of_error run] at failed
    cases failed
    exact first m e (by rw [run]; rfl)

theorem modify (f : Machine σ → Machine σ) : Faults (modify f : Exec σ Unit) := fun _ _ failed => nomatch failed

theorem look {f : Machine σ → Exec σ β} (next : ∀ m, Faults (f m)) : Faults (get >>= f) := fun m => next m m

theorem fault (fault : MemoryFault) (line : Nat) : Faults (fail (.memory fault) line : Exec σ α) := by
  intro m e failed
  cases failed
  exact ⟨fault, rfl⟩

theorem release (address line : Nat) : Faults (release address line : Exec σ Block) := by
  refine look fun m => ?_
  split
  · exact fault _ line
  · exact bind (modify _) fun _ => pure _

theorem endVariable (id : ScopeId) (name : String) (cell : CellId) (line : Nat) :
    Faults (endVariable id name cell line : Exec σ Unit) := by
  refine look fun m => ?_
  split
  · exact pure _
  · split
    · refine bind (modify _) fun _ => ?_
      split
      · refine bind (modify _) fun _ => bind (bind (release _ line) fun _ => pure _) fun _ => modify _
      · exact pure _
    · exact pure _

theorem endVariables (id : ScopeId) (line : Nat) (names : List (String × CellId)) :
    Faults (endVariables id line names : Exec σ Unit) := by
  induction names with
  | nil => exact pure _
  | cons entry rest ih => exact bind (endVariable id entry.1 entry.2 line) fun _ => ih

theorem leave (line : Nat) : Faults (leave line : Exec σ Unit) := by
  refine bind (modify _) fun _ => look fun m => ?_
  split
  · exact pure _
  · exact bind (modify _) fun _ => look fun m => endVariables _ line _

end Faults

end Exec

/-- A complaint about how the body of a callable has ended. -/
def Cause.AboutEnding (d : Definition Stmt) : Cause → Prop
  | .missingReturn name => name = d.name
  | .typeMismatch (.returned name _ _) => name = d.name
  | .typeMismatch (.procedureReturned name) => name = d.name
  | _ => False

variable {host : Host σ} {config : Config} {definitions : List (Definition Stmt)}

/-- A call of a callable whose body has been run to its end. -/
structure Activation (host : Host σ) (config : Config) (definitions : List (Definition Stmt)) where
  frames : Nat
  callable : Definition Stmt
  kind : CallableKind
  access : Access
  bindings : List Binding
  line : Nat
  called : Machine σ
  begun : Machine σ
  flow : Flow
  ended : Machine σ
  left : called.FramesLeft config (frames + 1)
  entered : enter callable kind bindings line called = .ok () begun
  ran : runBlock host config definitions frames access callable.body begun = .ok flow ended

namespace Activation

variable (a : Activation host config definitions)

/-- The body, watched where statements begin, with the fuel that it takes at most. -/
def watched : Observed σ Flow :=
  (watchingAt Watch.opening id ⟨host, config, definitions, none⟩ (a.frames + config.maxIterations + 1)).execBlock
    ⟨host, config, definitions, none⟩ a.access a.callable.body a.begun

/-- The statement that has begun last is one of the callable's own, and not of a call that is nested in it. -/
def EndsItself : Prop := ∀ m, a.watched.seen.getLast? = some m → m.calls.depth = a.begun.calls.depth

/-- What the call reports of how the body has ended. -/
inductive Reports : RuntimeError → Prop
  | function {e : RuntimeError} : a.kind = .function → a.access = .denied →
    outcome (callFunction (runBlock host config definitions a.frames) a.callable a.bindings a.line a.called) =
      .error e → e.cause.AboutEnding a.callable → Reports e
  | procedure {e : RuntimeError} : a.kind = .procedure →
    outcome (callProcedure (runBlock host config definitions a.frames) a.access a.callable a.bindings a.line
      a.called) = .error e → e.cause.AboutEnding a.callable → Reports e

theorem begun_calls : a.begun.calls = a.called.calls.push ⟨a.callable.name, a.callable.location.line, a.kind⟩ := by
  obtain ⟨m, entered, -, calls⟩ := enter_ok a.callable a.kind a.bindings a.line a.called
  rw [a.entered] at entered
  cases entered
  exact calls

theorem watched_result : a.watched.result = some (.ok a.flow a.ended) := by
  have left : a.begun.FramesLeft config a.frames := by
    have before := a.left
    unfold FramesLeft at before ⊢
    rw [a.begun_calls, CallStack.depth_push]
    omega
  have agrees := (watchingAt_agrees host config definitions
    (fun _ _ => rfl : ∀ (x : Watch σ Flow) m, (Watch.opening x m).result = (x m).result)
    (fun _ _ => rfl : ∀ (x : Watch σ Flow) m, (id x m).result = (x m).result) a.frames
    (a.frames + config.maxIterations + 1) (Nat.lt_succ_self _)).execBlock (rfl : a.access = a.access) () a.callable.body
  rw [← runBlock_eq] at agrees
  rw [watched, (agrees a.begun left).1, a.ran]

/-- The call goes on with how the body has ended and the line on which the run is then, or it fails to give
memory back. -/
theorem runBody_cases :
    (∃ m, runBody (runBlock host config definitions a.frames) a.access a.callable a.kind a.bindings a.line a.called =
      .ok (a.flow, a.ended.line) m) ∨
    ∃ e m fault, runBody (runBlock host config definitions a.frames) a.access a.callable a.kind a.bindings a.line
      a.called = .error e m ∧ e.cause = .memory fault := by
  rw [runBody_eq, a.entered]
  dsimp only
  rw [a.ran]
  have seen : (currentLine : Exec σ Nat) a.ended = .ok a.ended.line a.ended := rfl
  show (∃ m, closeCall a.line (.ok a.flow) a.ended = _) ∨ ∃ e m fault, closeCall a.line (.ok a.flow) a.ended = _ ∧ _
  unfold closeCall
  rw [bind_of_ok seen]
  cases closed : leave a.line a.ended with
  | ok _ m =>
    rw [bind_of_ok closed]
    exact .inl ⟨m, rfl⟩
  | error e m =>
    rw [bind_of_error closed]
    obtain ⟨fault, cause⟩ := Faults.leave a.line a.ended e (by rw [closed]; rfl)
    exact .inr ⟨e, m, fault, rfl, cause⟩

end Activation

theorem functionResult_line {d : Definition Stmt} {flow : Flow} {line : Nat} {m : Machine σ} {e : RuntimeError}
    (failed : outcome (functionResult d (flow, line) m) = .error e) : e.line = line := by
  rcases flow with _ | ⟨_ | v⟩ | _
  case returned.some =>
    simp only [functionResult] at failed
    cases returns : d.returns with
    | none =>
      rw [returns] at failed
      cases failed
    | some type =>
      rw [returns] at failed
      dsimp only at failed
      cases fits : v.conforms type with
      | true =>
        rw [if_pos fits] at failed
        cases failed
      | false =>
        rw [if_neg (by rw [fits]; decide)] at failed
        cases failed
        rfl
  all_goals
    cases failed
    rfl

theorem procedureResult_line {d : Definition Stmt} {flow : Flow} {line : Nat} {m : Machine σ} {e : RuntimeError}
    (failed : outcome (procedureResult d (flow, line) m) = .error e) : e.line = line := by
  rcases flow with _ | ⟨_ | v⟩ | _ <;> cases failed
  rfl

theorem Activation.Reports.line {a : Activation host config definitions} {e : RuntimeError} (h : a.Reports e) :
    e.line = a.ended.line := by
  cases h with
  | function isFunction denied failed about =>
    rw [callFunction_eq, ← isFunction, ← denied] at failed
    rcases a.runBody_cases with ⟨m, ran⟩ | ⟨e', m, fault, ran, cause⟩
    · rw [bind_of_ok ran] at failed
      exact functionResult_line failed
    · rw [bind_of_error ran] at failed
      cases failed
      rw [cause] at about
      exact about.elim
  | procedure isProcedure failed about =>
    rw [callProcedure_eq, ← isProcedure] at failed
    rcases a.runBody_cases with ⟨m, ran⟩ | ⟨e', m, fault, ran, cause⟩
    · rw [bind_of_ok ran] at failed
      exact procedureResult_line failed
    · rw [bind_of_error ran] at failed
      cases failed
      rw [cause] at about
      exact about.elim

/-- What a call reports of how the body of its callable has ended is reported on the line on which the run is
then. The frame holds the line of the last statement that has begun of the callable's own, and if the body has
returned, that is a RETURN. Unless a statement of a call that is nested in it has begun since, the two lines are
one. The line is one of the callable or of a callable that may be called from it. -/
theorem endings_blame_line_reached (a : Activation host config definitions) (begins : a.callable.body ≠ []) :
    ∃ last ∈ Stmt.blockParts a.callable.body,
      a.ended.calls = a.begun.calls.setLine last.line ∧
      (∀ v, a.flow = .returned v → last.isReturn = true) ∧
      (∀ e, a.Reports e → e.line = a.ended.line) ∧
      (a.EndsItself → ∀ e, a.Reports e → e.line = last.line) ∧
      ∃ d ∈ a.callable :: definitions, ∃ l ∈ Stmt.blockPlaces d.body, a.ended.line = l.line := by
  have ran : Executes (fun line => ∃ d ∈ a.callable :: definitions, ∃ l ∈ Stmt.blockPlaces d.body, line = l.line)
      (· ∈ Stmt.blockParts a.callable.body)
      ((watchingAt Watch.opening id ⟨host, config, definitions, none⟩ (a.frames + config.maxIterations + 1)).execBlock
        ⟨host, config, definitions, none⟩ a.access a.callable.body) :=
    executes_blocks (fun d mem l there => ⟨d, List.mem_cons_of_mem _ mem, l, there, rfl⟩) _ a.access
      (fun _ mem => mem) (fun l there => ⟨_, List.mem_cons_self, l, there, rfl⟩)
  have there : if a.watched.seen = [] then _ else ∃ last, _ ∧ Ended _ last a.begun a.watched.seen _ :=
    (ran a.begun).2 _ a.watched_result
  obtain ⟨st, rest, body⟩ := List.exists_cons_of_ne_nil begins
  have some : a.watched.seen ≠ [] := by
    rw [Activation.watched, body]
    exact List.ne_nil_of_mem (execBlock_begins _ a.access st rest a.begun)
  rw [if_neg some] at there
  obtain ⟨last, own, there⟩ := there
  refine ⟨last, own, there.calls, fun v returned => there.returned v (congrArg Except.ok returned), fun e h => h.line,
    fun itself e h => h.line.trans ?_, there.line⟩
  have latest := List.getLast?_eq_some_getLast some
  exact there.latest _ latest (itself _ latest)

/-- A function that declares a variable and returns nothing. -/
def unfinished : Definition Stmt := ⟨"Name", [], some .string, [.declare "Text" .string ⟨2, 3⟩], ⟨1, 1⟩⟩

/-- That it returns nothing is reported on the line of its declaration. -/
theorem unfinished_reported :
    ∃ a : Activation Script.host { arenaSize := 1030, maxDepth := 3, maxIterations := 1 } [],
      a.callable = unfinished ∧ a.callable.body ≠ [] ∧ a.EndsItself ∧ a.Reports ⟨.missingReturn "Name", 2⟩ ∧
        ∃ last ∈ Stmt.blockParts a.callable.body, 2 = last.line := by
  let config : Config := { arenaSize := 1030, maxDepth := 3, maxIterations := 1 }
  let called : Machine Script := .initial config 0 {}
  let begun := final (enter unfinished .function [] 4 called)
  have entered : enter unfinished .function [] 4 called = .ok () begun := by
    obtain ⟨m, entered, -⟩ := enter_ok unfinished .function [] 4 called
    show enter unfinished .function [] 4 called = .ok () (final (enter unfinished .function [] 4 called))
    rw [entered]
    rfl
  cases ran : runBlock Script.host config [] 2 .denied unfinished.body begun with
  | error e m =>
    have ends : (outcome (runBlock Script.host config [] 2 .denied unfinished.body begun)).isOk = true := by
      decide +kernel
    rw [ran] at ends
    cases ends
  | ok flow ended =>
    let a : Activation Script.host config [] :=
      ⟨2, unfinished, .function, .denied, [], 4, called, begun, flow, ended, rfl, entered, ran⟩
    have itself : a.EndsItself := by
      have depth : ((watchingAt Watch.opening id ⟨Script.host, config, [], none⟩ 4).execBlock
          ⟨Script.host, config, [], none⟩ .denied unfinished.body begun).seen.getLast?.map (·.calls.depth) =
            some begun.calls.depth := by
        decide +kernel
      intro m latest
      have same : a.watched.seen.getLast?.map (·.calls.depth) = some begun.calls.depth := depth
      rw [latest] at same
      exact Option.some.inj same
    have reported : a.Reports ⟨.missingReturn "Name", 2⟩ := by
      refine .function rfl rfl ?_ rfl
      have shown : (match outcome (callFunction (runBlock Script.host config [] 2) unfinished [] 4 called) with
          | .error e => decide (e = ⟨.missingReturn "Name", 2⟩)
          | .ok _ => false) = true := by
        decide +kernel
      show outcome (callFunction (runBlock Script.host config [] 2) unfinished [] 4 called) = _
      split at shown
      case h_1 e given => rw [given, of_decide_eq_true shown]
      case h_2 v given => cases shown
    obtain ⟨last, own, -, -, -, blamed, -⟩ := endings_blame_line_reached a (List.cons_ne_nil _ _)
    exact ⟨a, rfl, List.cons_ne_nil _ _, itself, reported, last, own, blamed itself _ reported⟩

/-- A function that returns what another one gives. -/
def passedOn : Program where
  statements :=
    [.define ⟨"Flag", [], some .boolean, [.giveBack (some (.literal (.boolean true) ⟨2, 10⟩)) ⟨2, 3⟩], ⟨1, 1⟩⟩,
      .define ⟨"Name", [], some .string, [.giveBack (some (.call "Flag" [] ⟨5, 10⟩)) ⟨5, 3⟩], ⟨4, 1⟩⟩,
      .output [.call "Name" [] ⟨7, 8⟩] ⟨7, 1⟩]

/-- What `Name` returns is no text, and that is reported on the line of the RETURN in `Flag`; all of `Name` stands
on line 5. -/
theorem passedOn_misplaced :
    outcome (passedOn.exec Script.host { arenaSize := 1030 } (.initial { arenaSize := 1030 } 0 {})) =
      .error ⟨.typeMismatch (.returned "Name" .string .boolean), 2⟩ ∧
    ∃ d ∈ passedOn.definitions, d.name = "Name" ∧ ∀ s ∈ Stmt.blockParts d.body, s.line = 5 := by
  refine ⟨by decide +kernel, _, List.mem_cons_of_mem _ List.mem_cons_self, rfl, fun s mem => ?_⟩
  rw [List.mem_singleton.1 mem]
  rfl

end Pseudocode
