import Mathlib.Logic.Function.Iterate
import Pseudocode.Proofs.Calls
import Pseudocode.Proofs.Mirror.Runs
import Pseudocode.Proofs.Outside.Inward
import Pseudocode.Proofs.Trace.Runs

/-!
Statements with and without rights. Statements that do not need the host do the same whether they may
use it or not (`granted_agrees_with_denied`): with rights, they do no more than ask before each statement
whether to go on.
-/

namespace Pseudocode

open Exec Machine Semantics

variable {σ : Type} {α β : Type}

namespace Host

/-- The state of a host that has been asked a number of times whether to go on. -/
def polled (host : Host σ) (n : Nat) : σ → σ := (fun s => (host.cancelled s).2)^[n]

theorem polled_polled (host : Host σ) (n k : Nat) (s : σ) :
    host.polled n (host.polled k s) = host.polled (n + k) s :=
  (Function.iterate_add_apply _ n k s).symm

/-- In the log of a host, all these questions are alike. -/
theorem logged_polled (host : Host σ) (n : Nat) (s : σ) (log : List Interaction) :
    host.logged.polled n (s, log) = (host.polled n s, log ++ List.replicate n .cancelled) := by
  induction n generalizing s log with
  | zero => simp [polled]
  | succ n ih =>
    have asked : host.logged.polled (n + 1) (s, log) =
        host.logged.polled n ((host.cancelled s).2, log ++ [.cancelled]) := rfl
    rw [asked, ih, List.append_assoc]
    rfl

/-- A host that lets a run go on, however often it is asked. -/
def Idle (host : Host σ) (s : σ) : Prop := ∀ n, (host.cancelled (host.polled n s)).1 = false

theorem Idle.polled {host : Host σ} {s : σ} (idle : host.Idle s) (k : Nat) : host.Idle (host.polled k s) := by
  intro n
  rw [polled_polled]
  exact idle (n + k)

end Host

namespace Exec

/-- A run did not end because it needed a host that it may not use. -/
def Legal (r : EStateM.Result RuntimeError (Machine σ) α) : Prop :=
  ∀ statement line, outcome r ≠ .error ⟨.illegalInFunction statement, line⟩

/-- Unless `x` needs a host that it may not use, `y` does the same, and has only asked the host whether
to go on. -/
def Parallel (host : Host σ) (m : Machine σ) (Q : Machine σ → α → Prop) (x y : Exec σ α) : Prop :=
  Keeps .nothing Mirrors m Q x ∧
    (m.Mirrors → Legal (x m) → ∀ s, host.Idle s →
      ∃ n, y (m.withHost s) = mapState (·.withHost (host.polled n s)) (x m))

namespace Parallel

variable {host : Host σ}

/-- What has nothing to do with the outside asks for nothing. -/
theorem inward {m : Machine σ} {Q : Machine σ → α → Prop} {P : α → Prop} {x : Exec σ α}
    (keeps : Keeps .nothing Mirrors m Q x) (step : Inward P x) : Parallel host m Q x x := by
  refine ⟨keeps, fun _ _ s _ => ⟨0, ?_⟩⟩
  exact (step m).2 s

theorem bind {m : Machine σ} {P : Machine σ → α → Prop} {Q : Machine σ → β → Prop} {x y : Exec σ α}
    {f g : α → Exec σ β} (first : Parallel host m P x y)
    (next : ∀ m' a, P m' a → Parallel host m' Q (f a) (g a)) : Parallel host m Q (x >>= f) (y >>= g) := by
  have keeps : Keeps .nothing Mirrors m Q (x >>= f) :=
    Keeps.sequenced.bind (y := x) (g := f) first.1 fun m' a _ known => (next m' a known).1
  refine ⟨keeps, fun inv legal s idle => ?_⟩
  have ended := first.1 inv
  cases run : x m with
  | ok a m' =>
    rw [run] at ended
    rw [bind_of_ok run] at legal
    have lawful : Legal (x m) := by
      rw [run]
      exact fun _ _ => nofun
    obtain ⟨k, same⟩ := first.2 inv lawful s idle
    rw [run] at same
    obtain ⟨n, rest⟩ := (next m' a ended.2).2 ended.1.1 legal _ (idle.polled k)
    refine ⟨n + k, ?_⟩
    rw [bind_of_ok run, bind_of_ok same, rest, Host.polled_polled]
  | error e m' =>
    rw [bind_of_error run] at legal
    have lawful : Legal (x m) := by
      rw [run]
      intro statement line same
      cases same
      exact legal statement line rfl
    obtain ⟨k, same⟩ := first.2 inv lawful s idle
    rw [run] at same
    refine ⟨k, ?_⟩
    rw [bind_of_error run, bind_of_error same]
    rfl

theorem sequenced : Sequenced (fun _ => Parallel host : Relation (Machine σ) (Exec σ) (Exec σ)) .nothing where
  pure known := inward (P := fun _ => True) (Keeps.sequenced.pure known) (Inward.sequences.pure trivial)
  throw ordinary :=
    inward (P := fun _ => True) (Keeps.sequenced.throw ordinary) (Inward.sequences.throw ordinary trivial)
  bind first next := bind first fun m' a known => next m' a trivial known

theorem quiet {m : Machine σ} {Q : α → Prop} {x : Exec σ α} (leaves : LeavesMemory Q x) (step : Inward Q x) :
    Parallel host m (fun _ => Q) x x := by
  have ended := (leaves m).mono (fun _ same => same.memory) fun _ known => known
  have keeps : Keeps (Knowledge.nothing.comap memory) (·.memory.Mirrors) m (fun _ => Q) x :=
    MemoryKept.unchanged (R := fun _ => Q) ended fun _ _ known => known
  exact inward keeps step

/-- A statement that may use the host asks it whether to go on. -/
theorem interrupted {ctx : Context σ} (unwatched : ctx.config.debug = false) (m : Machine σ)
    (access : Access) (st : Stmt) :
    Parallel ctx.host m (fun _ _ => True) (interrupted ctx .denied st) (interrupted ctx access st) := by
  have leaves : QuietSteps (LeavesMemory : Property σ) := LeavesMemory.controlSteps.quietSteps
  have steps : QuietSteps (Inward : Property σ) := Inward.quietSteps
  refine bind (quiet (leaves.setLine st.line) (steps.setLine st.line)) fun m₁ _ _ => ?_
  refine bind (quiet (LeavesMemory.checkBudget _ _) (Inward.enclosing.checkBudget _ _)) fun m₂ _ _ => ?_
  refine ⟨fun inv => ⟨⟨inv, trivial⟩, trivial⟩, fun _ _ s idle => ?_⟩
  cases access with
  | denied => exact ⟨0, rfl⟩
  | granted =>
    have asked : poll ctx.host (m₂.withHost s) = .ok false (m₂.withHost (ctx.host.polled 1 s)) := by
      have goesOn : (ctx.host.cancelled s).1 = false := idle 0
      unfold poll
      show EStateM.Result.ok (ctx.host.cancelled s).1 _ = _
      rw [goesOn]
      rfl
    refine ⟨1, ?_⟩
    show (poll ctx.host >>= _) (m₂.withHost s) = _
    rw [bind_of_ok asked]
    simp only [unwatched]
    rfl

theorem steps (ctx : Context σ) (unwatched : ctx.config.debug = false) :
    Steps (fun _ => Parallel ctx.host : Relation (Machine σ) (Exec σ) (Exec σ)) .nothing
      (fun access _ => access = .denied) ctx ctx :=
  have kept : Steps (.onLeft (Keeps .nothing Mirrors)) .nothing Eq ctx ctx :=
    (Machine.Mirrors.kept.kept ctx).steps
  { toSequenced := sequenced
    toMemoryRelated := Inward.memorySteps.refine kept.toMemoryRelated inward
    toQuietRelated := Inward.quietSteps.refine kept.toQuietRelated inward
    values := fun _ => .true
    definitions := fun _ => rfl
    denied := rfl
    interrupted := by
      rintro m _ access' rfl st
      exact interrupted unwatched m access' st
    requireHost := by
      rintro m _ access' rfl statement line
      exact ⟨kept.requireHost rfl statement line, fun _ legal => absurd rfl (legal statement line)⟩
    emit := fun rights => nomatch rights
    echo := fun rights => nomatch rights
    askInput := fun rights => nomatch rights
    openNamed := fun rights => nomatch rights
    readNamed := fun rights => nomatch rights
    writeNamed := fun rights => nomatch rights
    closeNamed := fun rights => nomatch rights }

theorem counted (ctx : Context σ) :
    Counted (fun _ => Parallel host : Relation (Machine σ) (Exec σ) (Exec σ)) .nothing ctx.config :=
  have kept : Counted (.onLeft (Keeps .nothing Mirrors)) .nothing ctx.config :=
    (Machine.Mirrors.kept.kept ctx).counted
  have passes := (Inward.enclosing (σ := σ)).counted ctx.config
  { toSequenced := sequenced
    tick := fun line => inward (kept.tick line) (passes.tick line (w := ())).2
    overrun := fun line => inward (kept.overrun line) (passes.overrun line (w := ()) (Q := fun _ _ => True)).2
    passesLeft := inward kept.passesLeft (passes.passesLeft (w := ())).2
    refuse := fun name line =>
      inward (kept.refuse name line) (passes.refuse name line (w := ()) (Q := fun _ _ => True)).2 }

theorem legal_of_closeCall {r : EStateM.Result RuntimeError (Machine σ) Flow} (inv : (final r).Mirrors)
    {line : Nat} (legal : Legal (closeCall line (outcome r) (final r))) : Legal r := by
  intro statement place illegal
  obtain ⟨m', -, -, closed⟩ := closeCall_eq inv line (outcome r)
  apply legal statement place
  rw [closed, illegal]
  rfl

theorem calls (ctx : Context σ) :
    Counted.Calls (fun _ => Parallel host : Relation (Machine σ) (Exec σ) (Exec σ)) .nothing := by
  intro m d kind bindings line body body' known onBody
  have kept : Kept ctx .nothing Mirrors := Machine.Mirrors.kept.kept ctx
  refine ⟨kept.call_keeps d kind line known fun m => (onBody m).1, fun inv legal s idle => ?_⟩
  obtain ⟨m₁, entered, inv₁, -⟩ := kept.call kind line known inv
  have begun := (Inward.enclosing.enter d kind bindings line m).2 s
  rw [entered] at begun
  rw [bind_of_ok entered, bind_of_ok (attempt_eq body m₁)] at legal ⊢
  have inv₂ : (final (body m₁)).Mirrors := ((onBody m₁).1 inv₁).final.1
  obtain ⟨n, same⟩ := (onBody m₁).2 inv₁ (legal_of_closeCall inv₂ legal) s idle
  refine ⟨n, ?_⟩
  rw [bind_of_ok begun, bind_of_ok (attempt_eq body' _), same, outcome_mapState, final_mapState]
  exact (Inward.enclosing.closeCall line (fun _ _ => trivial) (Q := fun _ => True) _).2 _

variable {config : Config} (definitions : List (Definition Stmt)) (frames : Nat)

theorem runBlock (host : Host σ) (unwatched : config.debug = false) (access : Access) (sts : List Stmt)
    (m : Machine σ) :
    Parallel host m Knowledge.nothing.flow (runBlock host config definitions frames .denied sts)
      (runBlock host config definitions frames access sts) := by
  have counting : Counted (fun _ => Parallel host : Relation (Machine σ) (Exec σ) (Exec σ)) .nothing config :=
    counted (runContext host config definitions 0)
  have related := counting.runBlock_related host definitions
    (fun frames => steps (runContext host config definitions frames) unwatched)
    (calls (runContext host config definitions 0)) frames
  rw [runBlock_eq, runBlock_eq]
  exact related.execBlock rfl m sts

end Parallel

end Exec

/-- Statements that do not need the host do the same with rights as without. In a state that a run
without a debugger has reached, and with a host that lets the run go on: if statements without rights do
not end because they need the host, then with rights they end with the same flow or error, in the same
state; the host was asked whether to go on, and for nothing else. -/
theorem granted_agrees_with_denied {p : Program} {host : Host σ} {config : Config} {draws : Draws} {state : σ}
    {m : Machine σ} (reached : Reachable p host config draws state m) (unwatched : config.debug = false)
    (idle : host.Idle m.host) (frames : Nat) (sts : List Stmt)
    (legal : ∀ statement line, outcome (runBlock host config p.definitions frames .denied sts m) ≠
      .error ⟨.illegalInFunction statement, line⟩) :
    outcome (runBlock host config p.definitions frames .granted sts m) =
        outcome (runBlock host config p.definitions frames .denied sts m) ∧
      ∃ n, final (runBlock host config p.definitions frames .granted sts m) =
        (final (runBlock host config p.definitions frames .denied sts m)).withHost (host.polled n m.host) := by
  have inv : m.Mirrors := (Machine.Mirrors.kept.kept _).reachable (.empty _ (.empty _)) reached
  obtain ⟨n, same⟩ :=
    (Parallel.runBlock p.definitions frames host unwatched .granted sts m).2 inv legal m.host idle
  have here : m.withHost m.host = m := rfl
  rw [here] at same
  rw [same, outcome_mapState, final_mapState]
  exact ⟨rfl, n, rfl⟩

theorem Script.idle {s : Script} (patient : s.cancelAfter = none) (log : List Interaction) :
    Script.host.logged.Idle (s, log) := by
  intro n
  have same : Script.host.polled n s = s := Function.iterate_fixed rfl n
  rw [Host.logged_polled, same]
  show s.cancelAfter.any (· ≤ s.lines.size) = false
  rw [patient]
  rfl

/-- After a declaration, an assignment does the same with rights as without; nothing but the question
whether to go on is added to the log of the host. -/
theorem assignment_agrees :
    let p : Program := ⟨[.declare "b" .boolean ⟨1, 1⟩]⟩
    let st : Stmt := .assign (.identifier "b" ⟨2, 1⟩) (.literal (.boolean true) ⟨2, 6⟩) ⟨2, 1⟩
    ∃ m, Reachable p Script.host.logged { arenaSize := 1030 } 0 ({}, []) m ∧
      outcome (runBlock Script.host.logged { arenaSize := 1030 } [] 0 .granted [st] m) =
        outcome (runBlock Script.host.logged { arenaSize := 1030 } [] 0 .denied [st] m) ∧
      ∃ n, (final (runBlock Script.host.logged { arenaSize := 1030 } [] 0 .granted [st] m)).host.2 =
        m.host.2 ++ List.replicate n .cancelled := by
  intro p st
  have reached := reachable_final p Script.host.logged { arenaSize := 1030 } 0 ({}, [])
  have patient : (final (p.exec Script.host.logged { arenaSize := 1030 }
      (.initial { arenaSize := 1030 } 0 ({}, [])))).host.1.cancelAfter = none := by decide +kernel
  have goesWell : (outcome (runBlock Script.host.logged { arenaSize := 1030 } [] 0 .denied [st]
      (final (p.exec Script.host.logged { arenaSize := 1030 }
        (.initial { arenaSize := 1030 } 0 ({}, [])))))).isOk = true := by decide +kernel
  obtain ⟨same, n, last⟩ := granted_agrees_with_denied reached rfl (Script.idle patient _) 0 [st]
    fun statement line illegal => by
      rw [show p.definitions = [] from rfl] at illegal
      rw [illegal] at goesWell
      cases goesWell
  refine ⟨_, reached, same, n, ?_⟩
  rw [show p.definitions = [] from rfl] at last
  rw [last]
  exact congrArg Prod.snd (Host.logged_polled Script.host n _ _)

end Pseudocode
