import Pseudocode.Proofs.Comparison.Runs
import Pseudocode.Proofs.Outside.Runs
import Pseudocode.Proofs.Stack.Accounts
import Pseudocode.Proofs.Stack.Depths
import Pseudocode.Proofs.Stopping.Truncation

/-!
Where the definitions of a program stand does not matter (`definitions_anywhere`). Calls find a definition by
its name, wherever it stands, so the same bodies are run; and a definition that is reached among the statements
changes nothing but the current line, which the next statement sets again.
-/

namespace Pseudocode

open Exec Machine Semantics

variable {σ : Type}

section Lookup

variable {ds ds' : List (Definition Stmt)}

/-- Definitions with different names are found in any order. -/
theorem find?_definition_eq_some (distinct : (ds.map (·.name)).Nodup) {name : String} {d : Definition Stmt} :
    ds.find? (·.name == name) = some d ↔ d ∈ ds ∧ d.name = name := by
  induction ds with
  | nil => simp
  | cons e rest ih =>
    obtain ⟨new, others⟩ := List.nodup_cons.1 distinct
    rw [List.find?_cons]
    cases same : e.name == name with
    | true =>
      have same := beq_iff_eq.1 same
      constructor
      · rintro ⟨⟩
        exact ⟨List.mem_cons_self, same⟩
      · rintro ⟨among, named⟩
        rcases List.mem_cons.1 among with rfl | later
        · rfl
        · exact absurd (List.mem_map.2 ⟨d, later, named.trans same.symm⟩) new
    | false =>
      have other : e.name ≠ name := fun same' => by simp [same'] at same
      simp only [ih others, List.mem_cons]
      constructor
      · exact fun ⟨later, named⟩ => ⟨.inr later, named⟩
      · rintro ⟨rfl | later, named⟩
        · exact absurd named other
        · exact ⟨later, named⟩

theorem find?_definition_perm (moved : ds.Perm ds') (distinct : (ds.map (·.name)).Nodup) (name : String) :
    ds'.find? (·.name == name) = ds.find? (·.name == name) := by
  have distinct' : (ds'.map (·.name)).Nodup := (moved.map _).nodup_iff.1 distinct
  refine Option.ext fun d => ?_
  rw [find?_definition_eq_some distinct, find?_definition_eq_some distinct', moved.mem_iff]

theorem duplicate?_eq_none {seen : List String} (distinct : (ds.map (·.name)).Nodup)
    (fresh : ∀ d ∈ ds, d.name ∉ seen) : duplicate? seen ds = none := by
  induction ds generalizing seen with
  | nil => rfl
  | cons d rest ih =>
    obtain ⟨new, others⟩ := List.nodup_cons.1 distinct
    rw [duplicate?, if_neg (by simpa using fresh d List.mem_cons_self)]
    refine ih others fun e later => ?_
    rw [List.mem_cons, not_or]
    exact ⟨fun same => new (List.mem_map.2 ⟨e, later, same⟩), fresh e (List.mem_cons_of_mem _ later)⟩

end Lookup

/-- Runs with two lists of definitions in which the same are found are the same. -/
theorem runBlock_definitions (host : Host σ) (config : Config) {ds ds' : List (Definition Stmt)}
    (same : ∀ name, ds'.find? (·.name == name) = ds.find? (·.name == name)) (frames : Nat) (access : Access)
    (sts : List Stmt) : runBlock host config ds frames access sts = runBlock host config ds' frames access sts := by
  have steps (frames : Nat) : Steps (Alike Oblivious).staged .nothing Eq (runContext host config ds frames)
      (runContext host config ds' frames) :=
    { Alike.steps Oblivious.gives Oblivious.controlSteps Oblivious.memorySteps Oblivious.throw
        (runContext host config ds frames) config.traceLimit none with
      definitions := same }
  have related := (Oblivious.enclosing.counted config).runBlock_related host ds steps Oblivious.enclosing.calls frames
  rw [runBlock_eq, runBlock_eq]
  exact (related.execBlock (rfl : access = access) () sts).1

/-- From a state on the host asks for no stop, whatever else it is asked or shown, and being asked about a stop
leaves it as it is. -/
def Host.Calm (host : Host σ) (s : σ) : Prop :=
  ∃ P : σ → Prop, P s ∧ ∀ t, P t → host.cancelled t = (false, t) ∧ ∀ u, host.Asked t u → P u

theorem Host.Calm.cancelled {host : Host σ} {s : σ} (calm : host.Calm s) : host.cancelled s = (false, s) := by
  obtain ⟨P, here, stays⟩ := calm
  exact (stays s here).1

theorem Host.Calm.asked {host : Host σ} {s t : σ} (calm : host.Calm s) (asked : host.Asked s t) :
    host.Calm t := by
  obtain ⟨P, here, stays⟩ := calm
  exact ⟨P, (stays s here).2 t asked, stays⟩

/-- Every step of a run leaves the host calm. -/
theorem Host.Calm.kept (ctx : Context σ) : Kept ctx .nothing fun m => ctx.host.Calm m.host := by
  have looks (m m' : Machine σ) (same : SameOutside m m') (calm : ctx.host.Calm m.host) :
      ctx.host.Calm m'.host := by
    rw [same.host]
    exact calm
  exact .ofHostSteps looks {
    toQuietSteps := Preserves.quietSteps looks
    checkBudget := .checkBudget ctx.config
    poll := fun m calm => ⟨calm.asked (.cancelled _), trivial⟩
    showState := fun m calm => ⟨calm.asked (.step _ _), trivial⟩
    emit := fun l m calm => ⟨calm.asked (.emit l _), trivial⟩
    askInput := fun name type m calm => ⟨calm.asked (.requestInput name type _), trivial⟩
    askFile := fun name mode m calm => by
      cases mode with
      | read => exact ⟨calm.asked (.requestFile name _), trivial⟩
      | write | append => exact ⟨calm, trivial⟩
    setFiles := fun f m calm => ⟨calm, trivial⟩ }

/-- A state between two statements of a program that may go on: no call runs, no more loop passes have begun than
are allowed, and the host is calm. -/
structure Machine.Outermost (host : Host σ) (config : Config) (m : Machine σ) : Prop where
  frame : m.InFrame config config.maxDepth
  room : m.iterations ≤ config.maxIterations
  calm : host.Calm m.host

namespace Machine.Outermost

variable {host : Host σ} {config : Config} {ds : List (Definition Stmt)} {m : Machine σ}

theorem initial {draws : Draws} {state : σ} (calm : host.Calm state) :
    (Machine.initial config draws state).Outermost host config where
  frame := ⟨.empty _ (.empty _), Nat.zero_add config.maxDepth⟩
  room := Nat.zero_le _
  calm := calm

theorem withLine (h : m.Outermost host config) (line : Nat) : { m with line }.Outermost host config where
  frame := ⟨h.frame.mirrors, h.frame.left⟩
  room := h.room
  calm := h.calm

theorem calls_eq (h : m.Outermost host config) : m.calls = .empty := by
  have left : m.calls.depth + config.maxDepth = config.maxDepth := h.frame.left
  have outside : m.calls.frames.length = 0 := Nat.right_eq_add.1 left.symm
  exact congrArg CallStack.mk (List.length_eq_zero_iff.1 outside)

/-- A statement that ends normally leaves such a state. -/
theorem execStmt (h : m.Outermost host config) {st : Stmt} {flow : Flow} {m' : Machine σ}
    (ended : Exec.execStmt (runContext host config ds config.maxDepth) .granted st m = .ok flow m') :
    m'.Outermost host config := by
  let ctx : Context σ := ⟨host, config, ds, none⟩
  let fuel := config.maxDepth + config.maxIterations + 1
  have agrees := attempting_agrees "" 0 host config ds config.maxDepth fuel (Nat.lt_succ_self _)
  have same := (agrees.flows (rfl : Access.granted = .granted)).execStmt agrees () st m h.frame.left
  rw [execStmt_ofExec, ended] at same
  have accounts := Watch.Accounts.attempting "" 0 ctx fuel config.maxDepth
  have counted := (accounts.flows (rfl : Access.granted = .granted)).execStmt accounts m st h.frame h.room
  rw [same.1] at counted
  have keeps (frames : Nat) : Kept (runContext host config ds frames) .nothing fun m => host.Calm m.host :=
    Host.Calm.kept _
  have kept := Kept.related keeps config.maxDepth
  have asked := (kept.flows (rfl : Access.granted = .granted)).execStmt kept m st h.calm
  rw [execStmt_ofExec, ended] at asked
  exact ⟨counted.1, counted.2.1, asked.1.1⟩

end Machine.Outermost

section Blocks

variable {host : Host σ} {config : Config} {ds : List (Definition Stmt)} {m : Machine σ}

theorem execStmt_begins (ctx : Context σ) (access : Access) (st : Stmt) :
    ∃ rest : Bool → Exec σ Flow, Exec.execStmt ctx access st = interrupted ctx access st >>= rest := by
  rw [Exec.execStmt.eq_def]
  exact ⟨_, rfl⟩

/-- Every statement begins by setting the current line. -/
theorem execStmt_withLine (ctx : Context σ) (access : Access) (st : Stmt) (m : Machine σ) (line : Nat) :
    Exec.execStmt ctx access st { m with line } = Exec.execStmt ctx access st m := by
  have same : interrupted ctx access st { m with line } = interrupted ctx access st m := rfl
  obtain ⟨rest, begins⟩ := execStmt_begins ctx access st
  rw [begins]
  cases began : interrupted ctx access st m with
  | ok stopped m' => rw [bind_of_ok (same.trans began), bind_of_ok began]
  | error e m' => rw [bind_of_error (same.trans began), bind_of_error began]

/-- A definition among the statements of a program sets the current line and nothing else. -/
theorem execStmt_define (h : m.Outermost host config) (d : Definition Stmt) (ctx : Context σ)
    (hosted : ctx.host = host) (configured : ctx.config = config) :
    Exec.execStmt ctx .granted (.define d) m = .ok .normal { m with line := d.location.line } := by
  subst hosted configured
  let line := (Stmt.define d).line
  let m₁ : Machine σ := { m with line }
  have begun : (modify fun m => { m with line, calls := m.calls.setLine line } : Exec σ Unit) m = .ok () m₁ := by
    have calls : m.calls.setLine line = m.calls := by
      rw [h.calls_eq]
      rfl
    show EStateM.Result.ok () { m with line, calls := m.calls.setLine line } = _
    rw [calls]
  have budget : checkBudget ctx.config line m₁ = .ok () m₁ := by
    show (if ctx.config.maxIterations < m.iterations then fail _ _ else pure () : Exec σ Unit) m₁ = _
    rw [if_neg (Nat.not_lt.2 h.room)]
    rfl
  have polled : poll ctx.host m₁ = .ok false m₁ := by
    show EStateM.Result.ok (ctx.host.cancelled m.host).1 { m₁ with host := (ctx.host.cancelled m.host).2 } = _
    rw [h.calm.cancelled]
  have paused : pause ctx.host ctx.config (.define d) = (pure false : Exec σ Bool) := by
    simp [pause, Stmt.isDefinition]
  have began : interrupted ctx .granted (.define d) m = .ok false m₁ := by
    rw [interrupted_granted, bind_of_ok begun, bind_of_ok budget, bind_of_ok polled, paused]
    rfl
  rw [Exec.execStmt, bind_of_ok began]
  rfl

/-- The results of two blocks are the same but for the current line where both have ended normally. -/
def SameButLine (r r' : EStateM.Result RuntimeError (Machine σ) Flow) : Prop :=
  r' = r ∨ ∃ m line, r = .ok .normal m ∧ r' = .ok .normal { m with line }

/-- Without its definitions a program does the same. -/
theorem execBlock_without_definitions (sts : List Stmt) (h : m.Outermost host config) (line : Nat) :
    SameButLine (Exec.execBlock (runContext host config ds config.maxDepth) .granted sts m)
      (Exec.execBlock (runContext host config ds config.maxDepth) .granted
        (sts.filter fun st => !st.isDefinition) { m with line }) := by
  induction sts generalizing m line with
  | nil =>
    exact .inr ⟨m, line, rfl, rfl⟩
  | cons st rest ih =>
    cases defines : st.isDefinition with
    | true =>
      obtain ⟨d, rfl⟩ : ∃ d, st = .define d := by
        cases st <;> first | exact ⟨_, rfl⟩ | cases defines
      have passed := execStmt_define h d (runContext host config ds config.maxDepth) rfl rfl
      rw [List.filter_cons_of_neg (by simp [defines]), Exec.execBlock, bind_of_ok passed]
      exact ih (h.withLine d.location.line) line
    | false =>
      have same := execStmt_withLine (runContext host config ds config.maxDepth) .granted st m line
      rw [List.filter_cons_of_pos (by simp [defines]), Exec.execBlock, Exec.execBlock]
      cases ended : Exec.execStmt (runContext host config ds config.maxDepth) .granted st m with
      | error e m' =>
        rw [bind_of_error ended, bind_of_error (same.trans ended)]
        exact .inl rfl
      | ok flow m' =>
        rw [bind_of_ok ended, bind_of_ok (same.trans ended)]
        cases flow with
        | normal => exact ih (h.execStmt ended) m'.line
        | returned v | halt => exact .inl rfl

end Blocks

/-- The same definitions stand in some other places, maybe in another order, among the same other statements. -/
structure Program.Rearranged (p q : Program) : Prop where
  definitions : p.definitions.Perm q.definitions
  others : (p.statements.filter fun st => !st.isDefinition) = q.statements.filter fun st => !st.isDefinition

/-- How a program ends if its statements have ended so. -/
def conclude : EStateM.Result RuntimeError (Machine σ) Flow → EStateM.Result RuntimeError (Machine σ) Outcome
  | .ok .normal m => .ok .completed m
  | .ok .halt m => .ok .cancelled m
  | .ok (.returned _) m => .error ⟨.invalidArgument .returnOutside, m.line⟩ m
  | .error e m => .error e m

theorem exec_eq_conclude {p : Program} (distinct : (p.definitions.map (·.name)).Nodup) (host : Host σ)
    (config : Config) (m : Machine σ) :
    p.exec host config m = conclude (runBlock host config p.definitions config.maxDepth .granted p.statements m) := by
  unfold Program.exec
  rw [duplicate?_eq_none distinct fun _ _ => List.not_mem_nil]
  show (runBlock host config p.definitions config.maxDepth .granted p.statements >>= _) m = _
  cases ended : runBlock host config p.definitions config.maxDepth .granted p.statements m with
  | error e m' =>
    rw [bind_of_error ended]
    rfl
  | ok flow m' =>
    rw [bind_of_ok ended]
    cases flow <;> rfl

theorem SameButLine.conclude {r r' : EStateM.Result RuntimeError (Machine σ) Flow} (same : SameButLine r r') :
    outcome (conclude r') = outcome (conclude r) ∧ ∃ line, final (conclude r') = { final (conclude r) with line } := by
  rcases same with rfl | ⟨m, line, rfl, rfl⟩
  · exact ⟨rfl, _, rfl⟩
  · exact ⟨rfl, line, rfl⟩

/-- A program ends as its other statements end where all its definitions are at hand. -/
theorem exec_without_definitions {p : Program} (distinct : (p.definitions.map (·.name)).Nodup) {host : Host σ}
    {state : σ} (calm : host.Calm state) (config : Config) (draws : Draws) :
    let start := Machine.initial config draws state
    let ended := conclude (runBlock host config p.definitions config.maxDepth .granted
      (p.statements.filter fun st => !st.isDefinition) start)
    outcome ended = outcome (p.exec host config start) ∧
      ∃ line, final ended = { final (p.exec host config start) with line } := by
  intro start
  have begins : start.Outermost host config := .initial calm
  have same : SameButLine
      (Exec.execBlock (runContext host config p.definitions config.maxDepth) .granted p.statements start) _ :=
    execBlock_without_definitions p.statements begins start.line
  rw [← execBlock_ofExec, ← execBlock_ofExec, ← runBlock_eq, ← runBlock_eq] at same
  rw [exec_eq_conclude distinct]
  exact same.conclude

/-- If no two definitions of a program have the same name, and the host does not ask for a stop, then it makes no
difference where the definitions stand: the run has the same outcome, or fails with the same error, and ends in
the same state but for the current line, with the same host, so that the same was emitted and asked for. -/
theorem definitions_anywhere {p q : Program} (moved : p.Rearranged q) (distinct : (p.definitions.map (·.name)).Nodup)
    {host : Host σ} {state : σ} (calm : host.Calm state) (config : Config) (draws : Draws) :
    let start := Machine.initial config draws state
    outcome (q.exec host config start) = outcome (p.exec host config start) ∧
      ∃ line, final (q.exec host config start) = { final (p.exec host config start) with line } := by
  intro start
  have distinct' : (q.definitions.map (·.name)).Nodup := (moved.definitions.map _).nodup_iff.1 distinct
  obtain ⟨given, line, last⟩ := exec_without_definitions distinct calm config draws
  obtain ⟨given', line', last'⟩ := exec_without_definitions distinct' calm config draws
  have found := find?_definition_perm moved.definitions distinct
  rw [← moved.others, ← runBlock_definitions host config found] at given' last'
  refine ⟨given'.symm.trans given, (final (q.exec host config start)).line, ?_⟩
  exact congrArg (fun m : Machine σ => { m with line := (final (q.exec host config start)).line })
    (last'.symm.trans last)

theorem Script.calm {s : Script} (never : s.cancelAfter = none) : Script.host.Calm s := by
  refine ⟨fun t => t.cancelAfter = none, never, fun t never => ⟨by simp [Script.host, never], fun u asked => ?_⟩⟩
  cases asked with
  | emit | step | requestFile | cancelled => exact never
  | requestInput name type =>
    obtain ⟨_ | ⟨text, rest⟩, _, _, _, _, _, _⟩ := t <;> exact never

/-- Two functions that are defined before they are called. -/
def defineFirst : Program where
  statements :=
    [.define ⟨"Yes", [], some .boolean, [.giveBack (some (.literal (.boolean true) ⟨2, 10⟩)) ⟨2, 3⟩], ⟨1, 1⟩⟩,
      .define ⟨"No", [], some .boolean, [.giveBack (some (.literal (.boolean false) ⟨5, 10⟩)) ⟨5, 3⟩], ⟨4, 1⟩⟩,
      .output [.call "Yes" [] ⟨7, 8⟩] ⟨7, 1⟩, .output [.call "No" [] ⟨8, 8⟩] ⟨8, 1⟩]

/-- The same program with its definitions between and behind the calls. -/
def defineLater : Program where
  statements :=
    [.output [.call "Yes" [] ⟨7, 8⟩] ⟨7, 1⟩,
      .define ⟨"No", [], some .boolean, [.giveBack (some (.literal (.boolean false) ⟨5, 10⟩)) ⟨5, 3⟩], ⟨4, 1⟩⟩,
      .output [.call "No" [] ⟨8, 8⟩] ⟨8, 1⟩,
      .define ⟨"Yes", [], some .boolean, [.giveBack (some (.literal (.boolean true) ⟨2, 10⟩)) ⟨2, 3⟩], ⟨1, 1⟩⟩]

theorem defineLater_rearranged : defineFirst.Rearranged defineLater where
  definitions := List.Perm.swap _ _ []
  others := rfl

theorem defineLater_lines :
    (defineFirst.definitions.map (·.name)).Nodup ∧ Script.host.Calm {} ∧
      (final (defineLater.exec Script.host { arenaSize := 1030 }
        (.initial { arenaSize := 1030 } 0 {}))).host.lines = #[⟨.output, "TRUE", 7⟩, ⟨.output, "FALSE", 8⟩] := by
  have distinct : (defineFirst.definitions.map (·.name)).Nodup := by decide
  have calm : Script.host.Calm {} := Script.calm rfl
  obtain ⟨-, line, last⟩ := definitions_anywhere defineLater_rearranged distinct calm { arenaSize := 1030 } 0
  have carry {m m' : Machine Script} {lines : Array OutputLine} (last : m' = { m with line })
      (shown : m.host.lines = lines) : m'.host.lines = lines := by
    rw [last]
    exact shown
  exact ⟨distinct, calm, carry last (by decide +kernel)⟩

end Pseudocode
