import Pseudocode.Proofs.Grammar.Levels
import Pseudocode.Proofs.Reading.Places

/-!
Every list of tokens is read to its end or refused, by a parser that never crashes. Whatever comes of a rule, the
counters of blocks and expressions are as they were, and the cursor has not gone beyond the first end of input
(`Parser.Returns`).
-/

namespace Pseudocode

theorem Reader.program_reads_all {finish : Location} {ts rest : List Token} {p : Program}
    (h : program finish ts = .ok (p, rest)) : rest = [] := by
  obtain ⟨n, mid, start, h⟩ := bind_eq_ok h
  cases start
  obtain ⟨found, left, read, made⟩ := bind_eq_ok h
  cases made
  exact List.isEmpty_iff.1 (stop_of_statementsUntil (statement_takes .top maxNesting) rfl (Nat.le_refl _) read)

namespace Parser

open Reader

variable {α : Type} {s : Source} {k b d n : Nat}

/-- From wherever in the tokens, a rule gives a result or an error; the cursor has not gone back nor beyond the end
of input, and the counters are as they were. -/
def Returns {α : Type} (s : Source) (b d : Nat) (x : Parse α) : Prop :=
  ∀ k ≤ s.stop, ∃ result k', x (s.state k b d) = some (result, s.state k' b d) ∧ k ≤ k' ∧ k' ≤ s.stop

theorem Returns.of_sim {P Q : Spot} {g : α → α} {K : α → Prop} {r : Reader α} {x : Parse α}
    (sim : ∀ few, Sim s Any d b b b few P Q g K r x) (anywhere : ∀ ts, P.Known ts) : Returns s b d x := by
  intro k inside
  have ends := sim (s.left k) k inside (Nat.le_refl _) (anywhere _)
  generalize r s.last.location (s.rest k) = found at ends
  generalize x (s.state k b d) = found' at ends
  cases ends with
  | ok a _ later inside' => exact ⟨.ok (g a), _, rfl, later, inside'⟩
  | error err _ later inside' => exact ⟨.error err, _, rfl, later, inside'⟩

/-- The rules of expressions: those of every level, of types and of arguments, and the entries to the level
inside. -/
structure ExpressionsReturn (s : Source) (b d : Nat) (inner : Nested Parse) : Prop where
  level : ∀ level : Level, Returns s b d (level.reader inner)
  typeClause : Returns s b d (typeClause inner)
  arguments : Returns s b d (arguments inner)
  expression : Returns s b d inner.expression
  negation : Returns s b d inner.negation
  unary : Returns s b d inner.unary
  type : Returns s b d inner.type

theorem expressions_return (s : Source) (b : Nat) (levels : d + n = maxNesting) :
    ExpressionsReturn s b d (nested (n + 1)) := by
  have inner := nested_accord s.inside_any b levels
  have anywhere (ts : List Token) : Spot.Known .line ts := trivial
  refine ⟨fun level => ?_, .of_sim (fun _ => Accord.Alike.typeClause inner) anywhere,
    .of_sim (fun _ => Accord.Alike.arguments inner) anywhere, .of_sim inner.expression anywhere,
    .of_sim inner.negation anywhere, .of_sim inner.unary anywhere, .of_sim inner.type anywhere⟩
  have product := Accord.Alike.chain plain_product fun _ => Accord.Alike.unary inner
  cases level with
  | disjunction => exact .of_sim (fun _ => Accord.Alike.disjunction inner) anywhere
  | conjunction => exact .of_sim (Accord.Alike.chain plain_and fun _ => Accord.Alike.negation inner) anywhere
  | negation => exact .of_sim (fun _ => Accord.Alike.negation inner) anywhere
  | comparison => exact .of_sim (fun _ => Accord.Alike.comparison inner) anywhere
  | sum => exact .of_sim (Accord.Alike.chain plain_sum product) anywhere
  | product => exact .of_sim product anywhere
  | unary => exact .of_sim (fun _ => Accord.Alike.unary inner) anywhere
  | primary => exact .of_sim (fun _ => Accord.Alike.primary inner) anywhere

/-- The rules of statements: of any statement, of what follows each keyword, and of the parts that are read in
loops. -/
structure StatementsReturn (s : Source) (b : Nat) (inner : Blocks Parse) : Prop where
  statement : Returns s b 0 (statementAt inner)
  keyword : ∀ level word start, Returns s b 0 (afterKeyword level inner word start)
  assignment : ∀ start, Returns s b 0 (assignment start)
  block : ∀ closing, Returns s b 0 (inner.block closing)
  branch : Returns s b 0 inner.branch
  cases : Returns s b 0 (caseList inner)
  parameters : Returns s b 0 parameters

theorem statements_return (s : Source) (levels : b + n = maxNesting) : StatementsReturn s b (blocks (n + 1)) := by
  have inner := blocks_accord s.inside_any levels
  have outer : (accord s.inside_any b 0).OnNested maxNesting outermost outermost := nested_accord _ b (Nat.zero_add _)
  have anywhere (ts : List Token) : Spot.Known .line ts := trivial
  have between (ts : List Token) : Spot.Known .gap ts := trivial
  exact ⟨.of_sim (fun _ => statementAt_alike inner) anywhere,
    fun level word _ => .of_sim (fun _ => Accord.Alike.afterKeyword outer trivial inner level word rfl) anywhere,
    fun _ => .of_sim (fun _ => Accord.Alike.assignment (n := n) outer trivial) anywhere,
    fun closing => .of_sim (inner.block · closing) between, .of_sim inner.branch anywhere,
    .of_sim (fun _ => Accord.Alike.caseList inner) between,
    .of_sim (fun _ => Accord.Alike.parameters outer) anywhere⟩

/-- A statement that has been read took a token, and has blocks nested no deeper than there were levels left. -/
theorem statementAt_ok (levels : b + n = maxNesting) (inside : k ≤ s.stop) {found : List Stmt} {p : Parser}
    (read : statementAt (blocks (n + 1)) (s.state k b 0) = some (.ok found, p)) :
    k < p.position ∧ ∀ st ∈ found, st.Within n := by
  have ends := statementAt_alike (blocks_accord s.inside_any levels) k inside (Nat.le_refl _) trivial
  rw [read] at ends
  generalize ran : statement _ (Reader.blocks n) s.last.location (s.rest k) = answer at ends
  cases ends with
  | ok a fits later =>
    obtain ⟨taken, text, some⟩ := statement_takes _ _ _ _ _ _ ran
    refine ⟨Nat.lt_of_le_of_ne later ?_, fun st mem => (fits st mem).within⟩
    -- The reader took a token, so that it cannot have left what it was given.
    rintro rfl
    have none := List.self_eq_append_left.1 text
    rw [none] at some
    exact absurd some (Nat.not_succ_le_zero 0)

/-- A program is read up to the end of input. -/
theorem program_ok {p : Program} {q : Parser} (read : program (s.state 0 0 0) = some (.ok p, q)) :
    q = s.state s.stop 0 0 ∧ ∀ st ∈ p.statements, st.Within maxNesting := by
  have ends := program_sim s.inside_any 0 (Nat.zero_le _) (Nat.le_refl _) trivial
  rw [read] at ends
  generalize ran : Reader.program s.last.location (s.rest 0) = answer at ends
  cases ends with
  | ok a fits _ inside =>
    rw [Source.rest_nil inside (program_reads_all ran)]
    exact ⟨rfl, fun st mem => (fits st mem).within⟩

/-- The end of a dimension is a 64-bit integer. -/
theorem bound_ok (inside : k ≤ s.stop) {value : Int} {p : Parser}
    (read : (bound : Parse Int) (s.state k b d) = some (.ok value, p)) : Number.Int64 value := by
  have ends := Accord.Alike.bound (A := accord s.inside_any b d) k inside (Nat.le_refl _) trivial
  rw [read] at ends
  generalize (bound : Reader Int) s.last.location (s.rest k) = answer at ends
  cases ends with
  | ok _ fits => exact fits

end Parser

/-- Every list of tokens is read as a program, whose blocks and expressions are not nested too deeply, with the
cursor at the first end of input in the end; or it is refused at or before it. Nothing crashes: no rule looks beyond
the tokens, takes a counter below zero or is kept in a loop, and each of them leaves the counters as they were,
whatever comes of it. A statement takes a token or more. -/
theorem token_lists_are_read_or_refused :
    (∀ ts, ∃ s : Parser.Source, Parser.ofTokens ts = s.state 0 0 0 ∧
      ((∃ p, Parser.program (s.state 0 0 0) = some (.ok p, s.state s.stop 0 0) ∧ Program.ofTokens ts = .ok p ∧
          ∀ st ∈ p.statements, st.Within maxNesting) ∨
        ∃ e k, Parser.program (s.state 0 0 0) = some (.error e, s.state k 0 0) ∧ k ≤ s.stop ∧
          Program.ofTokens ts = .error e)) ∧
      (∀ s b d n, d + n = maxNesting → Parser.ExpressionsReturn s b d (Parser.nested (n + 1))) ∧
      (∀ s b n, b + n = maxNesting → Parser.StatementsReturn s b (Parser.blocks (n + 1)) ∧
        ∀ k found p, k ≤ s.stop → Parser.statementAt (Parser.blocks (n + 1)) (s.state k b 0) = some (.ok found, p) →
          k < p.position ∧ ∀ st ∈ found, st.Within n) ∧
      ∀ (s : Parser.Source) b d k value p, k ≤ s.stop →
        (Reader.bound : Parse Int) (s.state k b d) = some (.ok value, p) → Number.Int64 value := by
  refine ⟨fun ts => ?_, fun s b d n => Parser.expressions_return s b, fun s b n levels => ?_,
    fun s b d k value p inside => Parser.bound_ok inside⟩
  · obtain ⟨s, parser, -, -⟩ := Parser.exists_source ts
    obtain ⟨result, k, ran, -, inside⟩ :=
      Parser.Returns.of_sim (fun _ => Parser.program_sim s.inside_any) (fun _ => trivial) 0 (Nat.zero_le _)
    have found : Program.ofTokens ts = result := by rw [Program.ofTokens, parser, ran]
    refine ⟨s, parser, ?_⟩
    cases result with
    | ok p =>
      obtain ⟨last, within⟩ := Parser.program_ok ran
      exact .inl ⟨p, last ▸ ran, found, within⟩
    | error e => exact .inr ⟨e, k, ran, inside, found⟩
  · exact ⟨Parser.statements_return s levels, fun k found p inside => Parser.statementAt_ok levels inside⟩

/-- A loop without statements, and something behind the end of input. -/
def emptyLoop : Parser.Source where
  tokens := #[⟨.keyword, "REPEAT", ⟨1, 1⟩⟩, ⟨.newline, "", ⟨1, 7⟩⟩, ⟨.keyword, "UNTIL", ⟨2, 1⟩⟩,
    ⟨.identifier, "x", ⟨2, 7⟩⟩, ⟨.endOfInput, "", ⟨2, 8⟩⟩, ⟨.keyword, "ELSE", ⟨2, 8⟩⟩, ⟨.endOfInput, "", ⟨2, 12⟩⟩]
  stop := 4
  last := ⟨.endOfInput, "", ⟨2, 8⟩⟩
  found := rfl
  ends := rfl
  before := by decide

/-- What stands behind an end of input is not read. In as many blocks as there may be, the loop is refused, and the
parser is still in these blocks. -/
theorem emptyLoop_read :
    (∃ p, Parser.program (Parser.ofTokens emptyLoop.tokens.toList) = some (.ok p, emptyLoop.state 4 0 0)) ∧
      ∃ e k, Parser.statementAt (Parser.blocks 1) (emptyLoop.state 0 maxNesting 0) =
        some (.error e, emptyLoop.state k maxNesting 0) ∧ k ≤ 4 := by
  obtain ⟨lists, -, statements, -⟩ := token_lists_are_read_or_refused
  constructor
  · obtain ⟨s, parser, outcome⟩ := lists emptyLoop.tokens.toList
    have tokens : s.tokens = emptyLoop.tokens := congrArg Parser.tokens parser.symm
    rw [parser]
    rcases outcome with ⟨p, ran, -⟩ | ⟨e, k, -, -, refused⟩
    · refine ⟨p, ?_⟩
      rw [ran, Parser.Source.state, Parser.Source.stop_eq tokens, tokens]
      rfl
    · have accepted : Program.ofTokens emptyLoop.tokens.toList =
          .ok ⟨[.repeatUntil [] (.identifier "x" ⟨2, 7⟩) ⟨1, 1⟩]⟩ := (Program.ofTokens_eq _).trans rfl
      rw [accepted] at refused
      cases refused
  · obtain ⟨returns, within⟩ := statements emptyLoop maxNesting 0 rfl
    obtain ⟨result, k, ran, -, inside⟩ := returns.statement 0 (Nat.zero_le _)
    cases result with
    | error e => exact ⟨e, k, ran, inside⟩
    | ok found =>
      have refused : Parser.statementAt (Parser.blocks 1) (emptyLoop.state 0 maxNesting 0) =
          some (.error ⟨.tooDeep .block, ⟨2, 1⟩⟩, emptyLoop.state 2 maxNesting 0) := rfl
      rw [refused] at ran
      cases ran

end Pseudocode
