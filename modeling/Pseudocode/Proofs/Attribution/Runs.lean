import Mathlib.Control.Monad.Basic
import Pseudocode.Proofs.Attribution.Activations
import Pseudocode.Proofs.Reading.Places

/-!
Runtime errors are attributed to the program. The nodes of a program that was read stand where tokens of its
text stand (`Program.ofSource_places`), and a run blames nothing but lines of nodes. The current line is one of
them as soon as a statement has begun (`runtime_errors_are_attributed`).
-/

namespace Pseudocode

open Exec Machine Semantics

variable {σ : Type} {S : Nat → Prop} {p : Program} {source : String}

namespace Program

/-- Where the nodes of a program stand: its statements and definitions, and the expressions in them. -/
def places (p : Program) : List Location := Stmt.blockPlaces p.statements

/-- What is read of tokens stands where they stand. -/
theorem ofTokens_places {ts : List Token} (read : Program.ofTokens ts = .ok p) :
    ∀ l ∈ p.places, ∃ t ∈ ts, l = t.location := by
  intro l mem
  obtain ⟨t, among, -, here⟩ := (Stmt.BlockFits.of_forall ((ofTokens_placed ts).1 p read)).places l mem
  exact ⟨t, among, here⟩

theorem ofSource_places (read : Program.ofSource source = .ok p) : ∀ l ∈ p.places, l.Inside source.toList := by
  intro l mem
  unfold ofSource at read
  cases lexed : tokenize source with
  | error e =>
    rw [lexed] at read
    cases read
  | ok tokens =>
    rw [lexed] at read
    obtain ⟨t, among, rfl⟩ := ofTokens_places read l mem
    obtain ⟨before, first, same⟩ := (tokenize_eq_ok_iff.1 lexed).placed t among
    rw [same]
    exact Location.behind_inside first

end Program

/-- A place in a text is on one of its lines. -/
theorem Location.Inside.line_le {l : Location} {text : List Char} (h : l.Inside text) :
    1 ≤ l.line ∧ l.line ≤ (text.splitOn '\n').length := by
  obtain ⟨line, first, here, -⟩ := h
  have below := (List.getElem?_eq_some_iff.1 here).1
  omega

theorem Stmt.places_subset {s : Stmt} {body : List Stmt} (mem : s ∈ body) : s.places ⊆ blockPlaces body := by
  induction body with
  | nil => cases mem
  | cons first rest ih =>
    rcases List.mem_cons.1 mem with rfl | later
    · exact List.subset_append_left _ _
    · exact List.Subset.trans (ih later) (List.subset_append_right _ _)

/-- A definition and its body are nodes of the program. -/
theorem Program.places_of_definition {d : Definition Stmt} (mem : d ∈ p.definitions) :
    d.location :: Stmt.blockPlaces d.body ⊆ p.places := by
  obtain ⟨s, among, defines⟩ := List.mem_filterMap.1 mem
  cases s with
  | define d' =>
    cases defines
    exact Stmt.places_subset among
  | _ => cases defines

theorem duplicate?_mem {names : List String} {ds : List (Definition Stmt)} {d : Definition Stmt}
    (found : duplicate? names ds = some d) : d ∈ ds := by
  induction ds generalizing names with
  | nil => cases found
  | cons first rest ih =>
    unfold duplicate? at found
    split at found
    · cases found
      exact List.mem_cons_self
    · exact List.mem_cons_of_mem _ (ih found)

section Openings

variable {host : Host σ} {config : Config} {fuel : Nat} {m : Machine σ}

/-- Where two definitions share a name, no statement begins. -/
theorem openings_of_duplicate {d : Definition Stmt} (found : duplicate? [] p.definitions = some d) :
    p.openings host config fuel m = ⟨[], some (.error ⟨.redeclaration d.name, d.location.line⟩ m)⟩ := by
  have refused : checkDefinitions p m = .error ⟨.redeclaration d.name, d.location.line⟩ m := by
    rw [checkDefinitions, found]
    rfl
  have lifted : Watch.lift (checkDefinitions p) m = ⟨[], some (.error ⟨.redeclaration d.name, d.location.line⟩ m)⟩ := by
    rw [Watch.lift, refused]
  cases fuel <;> exact Watch.bind_of_error lifted

theorem openings_of_distinct (distinct : duplicate? [] p.definitions = none) :
    p.openings host config fuel m = (do
      let flow ← (watchingAt Watch.opening id ⟨host, config, p.definitions, none⟩ fuel).execBlock
        ⟨host, config, p.definitions, none⟩ .granted p.statements
      Watch.lift (outcomeOf flow) : Watch σ Outcome) m := by
  have checked : Watch.lift (checkDefinitions p) m = ⟨[], some (.ok () m)⟩ := by
    rw [Watch.lift, checkDefinitions, distinct]
    rfl
  cases fuel <;> exact Watch.bind_of_ok checked

/-- Statements begin unless there are none, or two definitions share a name; fuel does not matter. -/
theorem openings_seen : (p.openings host config fuel m).seen = [] ↔
    (duplicate? [] p.definitions).isSome ∨ p.statements = [] := by
  cases found : duplicate? [] p.definitions with
  | some d => simp [openings_of_duplicate found]
  | none =>
    rw [openings_of_distinct found]
    simp only [Option.isSome_none, Bool.false_eq_true, false_or]
    cases statements : p.statements with
    | nil => cases fuel <;> simp only [Semantics.execBlock, iff_true] <;> rfl
    | cons st rest =>
      simp only [reduceCtorEq, iff_false]
      exact List.ne_nil_of_mem (Watch.seen_subset_bind _ _ m (execBlock_begins _ .granted st rest m))

theorem outcomeOf_line (flow : Flow) (m : Machine σ) :
    final (outcomeOf flow m) = m ∧ ∀ e, outcome (outcomeOf flow m) = .error e → e.line = m.line ∧ flow ≠ .normal := by
  cases flow with
  | normal | halt => exact ⟨rfl, fun _ failed => nomatch failed⟩
  | returned v =>
    refine ⟨rfl, fun e failed => ?_⟩
    cases failed
    exact ⟨rfl, nofun⟩

/-- All that a program blames are lines of its nodes, and so is the current line when a statement has begun. -/
theorem openings_lines (placed : ∀ l ∈ p.places, S l.line) {r : EStateM.Result RuntimeError (Machine σ) Outcome}
    (ended : (p.openings host config fuel m).result = some r) :
    (∀ e, outcome r = .error e → S e.line) ∧
      if (p.openings host config fuel m).seen = [] then (final r).line = m.line else S (final r).line := by
  have defined {d : Definition Stmt} (mem : d ∈ p.definitions) :
      ∀ l ∈ d.location :: Stmt.blockPlaces d.body, S l.line :=
    fun l among => placed l (Program.places_of_definition mem among)
  cases found : duplicate? [] p.definitions with
  | some d =>
    rw [openings_of_duplicate found] at ended ⊢
    cases ended
    refine ⟨fun e failed => ?_, rfl⟩
    cases failed
    exact (List.forall_mem_cons.1 (defined (duplicate?_mem found))).1
  | none =>
    rw [openings_of_distinct found] at ended ⊢
    have onBlock : Executes S (fun _ => True) ((watchingAt Watch.opening id ⟨host, config, p.definitions, none⟩
        fuel).execBlock ⟨host, config, p.definitions, none⟩ .granted p.statements) :=
      executes_blocks (fun d mem => (List.forall_mem_cons.1 (defined mem)).2) fuel .granted (fun _ _ => trivial) placed
    have ran := onBlock m
    rcases run : (watchingAt Watch.opening id ⟨host, config, p.definitions, none⟩ fuel).execBlock
      ⟨host, config, p.definitions, none⟩ .granted p.statements m with ⟨before, _ | ⟨flow, m'⟩ | ⟨e, m'⟩⟩
    · rw [Watch.bind_of_none run] at ended
      cases ended
    · rw [Watch.bind_of_ok run] at ended ⊢
      rw [run] at ran
      obtain ⟨same, failing⟩ := outcomeOf_line flow m'
      obtain rfl : outcomeOf flow m' = r := Option.some.inj ended
      have seen : before ++ (Watch.lift (outcomeOf flow) m').seen = before := List.append_nil before
      rw [seen, same]
      have there := ran.2 _ rfl
      by_cases none : before = []
      · rw [if_pos none] at there ⊢
        cases there
        exact ⟨fun e failed => absurd rfl (failing e failed).2, rfl⟩
      · rw [if_neg none] at there ⊢
        obtain ⟨last, -, there⟩ := there
        exact ⟨fun e failed => (failing e failed).1 ▸ there.line, there.line⟩
    · rw [Watch.bind_of_error run] at ended ⊢
      rw [run] at ran
      cases ended
      have there := ran.2 _ rfl
      split at there
      case isTrue none => cases there
      case isFalse some =>
        obtain ⟨last, -, there⟩ := there
        rw [if_neg some]
        refine ⟨fun e' failed => ?_, there.line⟩
        cases failed
        exact there.blamed e rfl

end Openings

/-- A run fails only on lines of the program, so on lines of the text that it was read from; and after a run, the
current line is 0 if and only if no statement has begun. -/
theorem runtime_errors_are_attributed (source : String) (config : Config) (draws : Draws) (host : Host σ)
    (state : σ) :
    (∀ e, (runSource source config draws host state).1 = .error (.failed e) →
      ∃ p, Program.ofSource source = .ok p ∧ (∃ l ∈ p.places, e.line = l.line) ∧
        1 ≤ e.line ∧ e.line ≤ (source.toList.splitOn '\n').length) ∧
    ∀ p, Program.ofSource source = .ok p → ∀ paused,
      ((((Interpreter.new p config draws state).run host).2.machine.snapshot paused).line = 0 ↔
        ∀ m, ¬ StatementBegins p host config draws state m) := by
  constructor
  · intro e failed
    unfold runSource at failed
    cases read : Program.ofSource source with
    | error refused =>
      rw [read] at failed
      cases failed
    | ok p =>
      simp only [read, Interpreter.run_new] at failed
      have blamed : outcome (p.exec host config (.initial config draws state)) = .error e := by
        cases given : outcome (p.exec host config (.initial config draws state)) with
        | ok result =>
          rw [given] at failed
          cases failed
        | error e' =>
          rw [given] at failed
          cases failed
          rfl
      obtain ⟨l, mem, here⟩ := (openings_lines (S := fun line => ∃ l ∈ p.places, line = l.line)
        (fun l mem => ⟨l, mem, rfl⟩) (openings_result p host config draws state 0)).1 e blamed
      have inside := (Program.ofSource_places read l mem).line_le
      exact ⟨p, rfl, ⟨l, mem, here⟩, here ▸ inside⟩
  · intro p read paused
    rw [Interpreter.run_new]
    have lines := (openings_lines (S := (1 ≤ ·)) (fun l mem => (Program.ofSource_places read l mem).line_le.1)
      (openings_result p host config draws state 0)).2
    constructor
    · rintro zero m ⟨fuel, begun⟩
      rw [if_neg fun none => List.ne_nil_of_mem begun (openings_seen.2 (openings_seen.1 none))] at lines
      exact absurd zero (Nat.ne_of_gt lines)
    · intro never
      rw [if_pos (List.eq_nil_iff_forall_not_mem.2 fun m begun => never m ⟨_, begun⟩)] at lines
      exact lines

/-- A function that uses what was never declared. -/
def undeclaredText : String := "FUNCTION f RETURNS INTEGER\nRETURN x\nENDFUNCTION\nOUTPUT f()"

def undeclared : Program where
  statements :=
    [.define ⟨"f", [], some .integer, [.giveBack (some (.identifier "x" ⟨2, 8⟩)) ⟨2, 1⟩], ⟨1, 1⟩⟩,
      .output [.call "f" [] ⟨4, 8⟩] ⟨4, 1⟩]

/-- The error is that of the second line, and the run has begun. -/
theorem undeclared_attributed :
    (∃ p, Program.ofSource undeclaredText = .ok p ∧ (∃ l ∈ p.places, 2 = l.line) ∧
      1 ≤ 2 ∧ 2 ≤ (undeclaredText.toList.splitOn '\n').length) ∧
    ∃ m, StatementBegins undeclared Script.host { arenaSize := 1030 } 0 {} m := by
  have tokens : tokenize undeclaredText = .ok
      [⟨.keyword, "FUNCTION", ⟨1, 1⟩⟩, ⟨.identifier, "f", ⟨1, 10⟩⟩, ⟨.keyword, "RETURNS", ⟨1, 12⟩⟩,
        ⟨.keyword, "INTEGER", ⟨1, 20⟩⟩, ⟨.newline, "\n", ⟨1, 27⟩⟩, ⟨.keyword, "RETURN", ⟨2, 1⟩⟩,
        ⟨.identifier, "x", ⟨2, 8⟩⟩, ⟨.newline, "\n", ⟨2, 9⟩⟩, ⟨.keyword, "ENDFUNCTION", ⟨3, 1⟩⟩,
        ⟨.newline, "\n", ⟨3, 12⟩⟩, ⟨.keyword, "OUTPUT", ⟨4, 1⟩⟩, ⟨.identifier, "f", ⟨4, 8⟩⟩,
        ⟨.leftParen, "(", ⟨4, 9⟩⟩, ⟨.rightParen, ")", ⟨4, 10⟩⟩, ⟨.endOfInput, "", ⟨4, 11⟩⟩] := rfl
  have read : Program.ofSource undeclaredText = .ok undeclared := (Program.ofSource_eq tokens).trans rfl
  have stopped : outcome (undeclared.exec Script.host { arenaSize := 1030 } (.initial { arenaSize := 1030 } 0 {})) =
      .error ⟨.undefinedVariable "x", 2⟩ := by
    decide +kernel
  have failed : (runSource undeclaredText { arenaSize := 1030 } 0 Script.host {}).1 =
      .error (.failed ⟨.undefinedVariable "x", 2⟩) := by
    simp only [runSource, read, Interpreter.run_new, stopped]
    rfl
  obtain ⟨blamed, begun⟩ := runtime_errors_are_attributed undeclaredText { arenaSize := 1030 } 0 Script.host {}
  refine ⟨blamed _ failed, ?_⟩
  have line : (((Interpreter.new undeclared { arenaSize := 1030 } 0 {}).run Script.host).2.machine.snapshot
      false).line ≠ 0 := by
    decide +kernel
  exact Classical.byContradiction fun none => line ((begun undeclared read false).2 fun m begins => none ⟨m, begins⟩)

end Pseudocode
