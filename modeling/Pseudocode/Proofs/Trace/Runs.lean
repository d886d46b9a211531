import Pseudocode.Proofs.Preservation
import Pseudocode.Proofs.Trace.Recording

/-!
Nothing a program does depends on the trace. Every step takes the same course whatever the trace
holds, and at most adds operations to it (`Oblivious`); so does every run, and the limit of the trace
decides only how many of these operations are kept.
-/

namespace Pseudocode

open Exec

variable {σ : Type} {α β : Type}

namespace Exec

/-- A step's result with another trace. -/
def retrace (t : Trace) : EStateM.Result RuntimeError (Machine σ) α → EStateM.Result RuntimeError (Machine σ) α
  | .ok a m => .ok a (m.withTrace t)
  | .error e m => .error e (m.withTrace t)

/-- From states that differ in the trace alone, a step leads to results that differ in the trace
alone, and adds the same operations to each trace. -/
def Oblivious : Property σ := fun _ Q x =>
  ∀ m : Machine σ, ∃ r ops, Ends (fun _ => True) Q r ∧ ∀ t : Trace, x (m.withTrace t) = retrace (t.recordAll ops) r

namespace Oblivious

theorem gives {Q : α → Prop} {x : Exec σ α} (h : Oblivious Q x) (m : Machine σ) :
    Ends (fun _ => True) Q (x m) := by
  obtain ⟨r, ops, known, run⟩ := h m
  have here : x m = retrace (m.trace.recordAll ops) r := run m.trace
  rw [here]
  cases r with
  | ok a m' => exact known
  | error e m' => exact trivial

theorem modifyGet {f : Machine σ → α × Machine σ}
    (blind : ∀ m t, f (m.withTrace t) = ((f m).1, (f m).2.withTrace t)) :
    Oblivious (fun _ => True) (modifyGet f) := by
  intro m
  refine ⟨.ok (f m).1 (f m).2, [], ⟨trivial, trivial⟩, fun t => ?_⟩
  show EStateM.Result.ok (f (m.withTrace t)).1 (f (m.withTrace t)).2 = _
  rw [blind]
  rfl

theorem modify {f : Machine σ → Machine σ} (blind : ∀ m t, f (m.withTrace t) = (f m).withTrace t) :
    Oblivious (fun _ => True) (modify f) :=
  modifyGet fun m t => by rw [blind]

theorem bind {P : α → Prop} {Q : β → Prop} {x : Exec σ α} {f : α → Exec σ β} (first : Oblivious P x)
    (next : ∀ a, P a → Oblivious Q (f a)) : Oblivious Q (x >>= f) := by
  intro m
  obtain ⟨r, ops, known, run⟩ := first m
  cases r with
  | ok a m' =>
    obtain ⟨r', more, known', run'⟩ := next a known.2 m'
    refine ⟨r', ops ++ more, known', fun t => ?_⟩
    rw [bind_of_ok (run t), run', Trace.recordAll_append]
  | error e m' => exact ⟨.error e m', ops, trivial, fun t => bind_of_error (run t)⟩

theorem throw {Q : α → Prop} (e : RuntimeError) : Oblivious Q (throw e : Exec σ α) :=
  fun m => ⟨.error e m, [], trivial, fun _ => rfl⟩

theorem sequential : Sequential (Oblivious : Property σ) where
  pure known m := ⟨.ok _ m, [], ⟨trivial, known⟩, fun _ => rfl⟩
  throw _ _ := throw _
  bind := bind
  look := by
    intro β Q f blind next m
    obtain ⟨r, ops, known, run⟩ := next m m
    refine ⟨r, ops, known, fun t => ?_⟩
    show f (m.withTrace t) (m.withTrace t) = _
    rw [show f (m.withTrace t) = f m from blind m t m.transcript m.host, run]
  record operation line details m := ⟨.ok () m, [⟨operation, line, details⟩], ⟨trivial, trivial⟩, fun _ => rfl⟩

theorem controlSteps : ControlSteps (Oblivious : Property σ) := sequential.controlSteps fun blind _ => modifyGet blind

theorem memorySteps : MemorySteps (Oblivious : Property σ) := by
  refine sequential.memorySteps (fun {f} blind _ _ => modify fun m t => ?_) fun _ => modify fun _ _ => rfl
  calc
    f (m.withTrace t) = ((f m).besides m.arena m.trace m.transcript m.host).withTrace t :=
      blind m m.arena t m.transcript m.host
    _ = (f m).withTrace t := by rw [Machine.besides_self blind]

theorem attempt {Q : α → Prop} {x : Exec σ α} (h : Oblivious Q x) :
    Oblivious (fun r => ∀ a, r = .ok a → Q a) (attempt x) := by
  intro m
  obtain ⟨r, ops, known, run⟩ := h m
  cases r with
  | ok a m' =>
    refine ⟨.ok (.ok a) m', ops, ⟨trivial, ?_⟩, fun t => ?_⟩
    · rintro _ ⟨⟩
      exact known.2
    · simp only [Exec.attempt, run, retrace]
  | error e m' =>
    refine ⟨.ok (.error e) m', ops, ⟨trivial, nofun⟩, fun t => ?_⟩
    simp only [Exec.attempt, run, retrace]

theorem enclosing : Enclosing (Oblivious : Property σ) where
  memorySteps := memorySteps
  quietSteps := controlSteps.quietSteps
  throw := throw
  gives := gives
  attempt := attempt
  setCalls _ := modify fun _ _ => rfl
  setScopes _ := modify fun _ _ => rfl
  countPass := modify fun _ _ => rfl

end Oblivious

/-- The same computation under two limits, which takes no notice of the trace. -/
def Unlimited : FlatRelation (Exec σ) (Exec σ) := Alike Oblivious

namespace Unlimited

open Semantics

theorem runBlock (host : Host σ) (config : Config) (limit : Nat) (definitions : List (Definition Stmt))
    (frames : Nat) :
    Congruence (ofExec (runContext host config definitions frames))
      (ofExec (runContext host { config with traceLimit := limit } definitions frames))
      (runContext host config definitions frames)
      (runContext host { config with traceLimit := limit } definitions frames)
      (Unlimited : FlatRelation (Exec σ) (Exec σ)).staged (Unlimited : FlatRelation (Exec σ) (Exec σ)).staged
      .nothing Eq True :=
  (Oblivious.enclosing.counted config).runBlock_related host definitions
    (fun _ => Alike.steps Oblivious.gives Oblivious.controlSteps Oblivious.memorySteps Oblivious.throw _ limit _)
    Oblivious.enclosing.calls frames

end Unlimited

end Exec

theorem exec_unlimited (p : Program) (host : Host σ) (config : Config) (limit : Nat) :
    Unlimited (fun _ => True) (p.exec host config) (p.exec host { config with traceLimit := limit }) := by
  rw [← Semantics.exec_ofExec, ← Semantics.exec_ofExec]
  exact (Unlimited.runBlock host config limit p.definitions config.maxDepth).exec rfl () p

/-- A program's run under a limit of the trace. -/
def Program.runLimited (p : Program) (host : Host σ) (config : Config) (draws : Draws) (state : σ) (limit : Nat) :
    Except RuntimeError Outcome × Interpreter σ :=
  (Interpreter.new p { config with traceLimit := limit } draws state).run host

/-- All runs under a limit have one outcome, and differ in how much of one list of operations their
traces keep. -/
theorem runLimited_eq (p : Program) (host : Host σ) (config : Config) (draws : Draws) (state : σ) :
    ∃ (outcome : Except RuntimeError Outcome) (m : Machine σ) (ops : List Noted), ∀ limit,
      (p.runLimited host config draws state limit).1 = outcome ∧
        (p.runLimited host config draws state limit).2.machine =
          m.withTrace ((Trace.empty limit).recordAll ops) := by
  obtain ⟨r, ops, -, run⟩ := (exec_unlimited p host config 0).2 (.initial config draws state)
  have ended (limit : Nat) : p.exec host { config with traceLimit := limit }
      (.initial { config with traceLimit := limit } draws state) =
        retrace ((Trace.empty limit).recordAll ops) r := by
    rw [← (exec_unlimited p host config limit).1]
    exact run (.empty limit)
  cases r with
  | ok outcome m =>
    refine ⟨.ok outcome, m, ops, fun limit => ?_⟩
    simp only [Program.runLimited, Interpreter.run, Interpreter.new, ended, retrace]
    exact ⟨rfl, rfl⟩
  | error e m =>
    refine ⟨.error e, m, ops, fun limit => ?_⟩
    simp only [Program.runLimited, Interpreter.run, Interpreter.new, ended, retrace]
    exact ⟨rfl, rfl⟩

/-- What a run asks of its host or shows to it. -/
inductive Interaction where
  | emit (line : OutputLine)
  | requestInput (name : String) (type : DataType)
  | step (snapshot : Snapshot)
  | requestFile (name : String)
  | cancelled

/-- A host that also keeps, in order, what is asked of it. -/
def Host.logged (host : Host σ) : Host (σ × List Interaction) where
  emit l s := (host.emit l s.1, s.2 ++ [.emit l])
  requestInput name type s :=
    let (answer, state) := host.requestInput name type s.1
    (answer, state, s.2 ++ [.requestInput name type])
  step snapshot s :=
    let (reply, state) := host.step snapshot s.1
    (reply, state, s.2 ++ [.step snapshot])
  requestFile name s :=
    let (content, state) := host.requestFile name s.1
    (content, state, s.2 ++ [.requestFile name])
  cancelled s :=
    let (stopped, state) := host.cancelled s.1
    (stopped, state, s.2 ++ [.cancelled])

/-- The limit of the trace decides nothing but how much of the trace is kept. Two runs under different
limits have the same outcome or error, ask the same of the host in the same order, and end in states
that differ in the trace alone; the lower limit keeps the first entries of the higher one. Entries are
numbered from one without gaps, and a trace is truncated if and only if more operations were attempted
than it may hold. -/
theorem runLimited_independent (p : Program) (host : Host σ) (config : Config) (draws : Draws) (state : σ)
    {low high : Nat} (ordered : low ≤ high) :
    (p.runLimited host config draws state low).1 = (p.runLimited host config draws state high).1 ∧
    (∀ t, (p.runLimited host config draws state low).2.machine.withTrace t =
      (p.runLimited host config draws state high).2.machine.withTrace t) ∧
    (p.runLimited host.logged config draws (state, []) low).2.machine.host =
      (p.runLimited host.logged config draws (state, []) high).2.machine.host ∧
    (p.runLimited host config draws state low).2.machine.trace.entries.toList =
      (p.runLimited host config draws state high).2.machine.trace.entries.toList.take low ∧
    (∀ i e, (p.runLimited host config draws state high).2.machine.trace.entries.toList[i]? = some e →
      e.step = i + 1) ∧
    ∃ attempted : List Noted, ∀ limit,
      (p.runLimited host config draws state limit).2.machine.trace.entries.toList =
          Trace.numbered (attempted.take limit) ∧
        ((p.runLimited host config draws state limit).2.machine.trace.truncated = true ↔
          limit < attempted.length) := by
  obtain ⟨outcome, m, ops, run⟩ := runLimited_eq p host config draws state
  obtain ⟨_, logged, _, runLogged⟩ := runLimited_eq p host.logged config draws (state, [])
  have entries (limit : Nat) : (p.runLimited host config draws state limit).2.machine.trace =
      ⟨(Trace.numbered (ops.take limit)).toArray, limit, decide (limit < ops.length)⟩ := by
    rw [(run limit).2, ← Trace.recordAll_empty]
    rfl
  refine ⟨?_, fun t => ?_, ?_, ?_, fun i e there => ?_, ops, fun limit => ?_⟩
  · rw [(run low).1, (run high).1]
  · rw [(run low).2, (run high).2]
    rfl
  · rw [(runLogged low).2, (runLogged high).2]
    rfl
  · simp only [entries, Trace.take_numbered, List.take_take, Nat.min_eq_left ordered]
  · rw [entries] at there
    exact Trace.step_of_getElem?_numbered there
  · simp only [entries, decide_eq_true_iff, and_self]

/-- Two operations, of which a trace may keep one. -/
theorem runLimited_two_declarations :
    let p : Program := ⟨[.declare "a" .integer ⟨1, 1⟩, .declare "b" .integer ⟨2, 1⟩]⟩
    1 ≤ 2 ∧ (p.runLimited Script.host {} 0 {} 1).2.machine.trace.truncated = true ∧
      (p.runLimited Script.host {} 0 {} 1).1 = (p.runLimited Script.host {} 0 {} 2).1 ∧
      (p.runLimited Script.host {} 0 {} 1).2.machine.trace.entries.toList =
        (p.runLimited Script.host {} 0 {} 2).2.machine.trace.entries.toList.take 1 := by
  intro p
  obtain ⟨outcome, -, -, first, -⟩ :=
    runLimited_independent p Script.host {} 0 {} (show 1 ≤ 2 by decide)
  exact ⟨by decide, by decide +kernel, outcome, first⟩

end Pseudocode
