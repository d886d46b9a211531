import Pseudocode.Proofs.Layout.Moved
import Pseudocode.Proofs.Reading.Accord
import Pseudocode.Proofs.Reading.Fits

/-!
Two inputs that agree have the same types, expressions and statements, and these fit. Only how rules are entered one
level deeper depends on the inputs, so it is assumed of the levels inside (`Accord.OnNested`, `Accord.OnBlocks`).
-/

namespace Pseudocode

open Reader

/-- A class of operators that their places do not matter for, and that no end of a line is in. -/
structure PlainClass (operators : OperatorClass) : Prop where
  blind : ∀ t l, operators { t with location := l } = operators t
  dark : ∀ t, t.kind = .newline → operators t = none

theorem plain_product : PlainClass productOperator := ⟨fun _ _ => rfl, fun t line => by simp [productOperator, line]⟩

theorem plain_sum : PlainClass sumOperator := ⟨fun _ _ => rfl, fun t line => by simp [sumOperator, line]⟩

theorem plain_comparison : PlainClass comparisonOperator :=
  ⟨fun _ _ => rfl, fun t line => by simp [comparisonOperator, line]⟩

theorem plain_and : PlainClass andOperator :=
  ⟨fun _ _ => rfl, fun t line => by simp [andOperator, Token.isKeyword, line]⟩

theorem plain_or : PlainClass orOperator :=
  ⟨fun _ _ => rfl, fun t line => by simp [orOperator, Token.isKeyword, line]⟩

namespace Accord

variable {m m' : Type → Type} [Monad m] [LawfulMonad m] [Cursor m] [Monad m'] [LawfulMonad m'] [Cursor m']

/-- Both read an expression that is nested less than `n` deep. -/
abbrev Expression (A : Accord m m') (few n : Nat) (r : m Expr) (r' : m' Expr) : Prop :=
  A.Steady few (Expr.moved A.node) (Expr.Fits A.Inside n) r r'

/-- Both read such expressions. -/
abbrev Expressions (A : Accord m m') (few n : Nat) (r : m (List Expr)) (r' : m' (List Expr)) : Prop :=
  A.Steady few (List.map (Expr.moved A.node)) (fun es => ∀ e ∈ es, e.Fits A.Inside n) r r'

/-- Rules one level deeper that agree. -/
structure OnNested (A : Accord m m') (n : Nat) (inner : Nested m) (inner' : Nested m') : Prop where
  expression : ∀ few, A.Expression few n inner.expression inner'.expression
  negation : ∀ few, A.Expression few n inner.negation inner'.negation
  unary : ∀ few, A.Expression few n inner.unary inner'.unary
  type : ∀ few, A.Agree few inner.type inner'.type

namespace Alike

section Expressions

variable {A : Accord m m'} {few n : Nat} {inner : Nested m} {inner' : Nested m'} {start : Location}

theorem bound : A.Steady few id Number.Int64 bound bound := by
  refine A.placed.bind fun start inside => (accept (plain_isOperator _)).after fun negative => ?_
  refine A.peekThen (found.after fun _ => failAt inside _) fun t _ _ => ?_
  have refused : A.Alike few (.token t) .line id Number.Int64
      (do Reader.failAt start (.boundNotLiteral (← Reader.found)) : m Int)
      (do Reader.failAt (A.place start) (.boundNotLiteral (← Reader.found))) :=
    (found.after fun _ => failAt inside _).known t
  obtain ⟨kind, text, l⟩ := t
  cases kind with
  | number n =>
    refine ite (fun _ => A.advance nofun (pure rfl ?_)) fun _ => refused
    split
    · exact .negate (.toInt64 n)
    · exact .toInt64 n
  | _ => exact refused

theorem bounds : A.Agree few bounds bounds :=
  bound.after fun _ => (expectKind _ _ (by decide)).after fun _ => bound.after fun _ => same

theorem dimensions : A.Agree few dimensions dimensions := by
  refine acceptThen (plain_isKind (by decide)) ?_ same
  refine (commaList fun _ => bounds).bind fun dims _ => (expectKind _ _ (by decide)).after fun _ => ?_
  exact pure (List.map_id _) trivial

theorem typeClause (h : A.OnNested n inner inner') : A.Agree few (typeClause inner) (typeClause inner') := by
  refine A.placed.bind fun start inside => A.peekThen (expected _) fun t _ _ => ?_
  dsimp only
  cases scalar : if t.kind = .keyword then DataType.ofKeyword? t.text else none with
  | some type =>
    refine A.advance (fun line => ?_) same
    rw [line] at scalar
    cases scalar
  | none =>
    refine known ?_ t
    refine acceptThen (plain_isKeyword _) ?_ (acceptThen (plain_isKeyword _) ?_
      (acceptThen (plain_isOperator _) ?_ (expected _)))
    · refine dimensions.after fun dims => (expectKeyword _ _).after fun _ => (h.type _).after fun element => ?_
      exact ite (fun _ => A.failThen _ inside) fun _ => same
    · exact (expectKeyword _ _).after fun _ => (h.type _).after fun _ => same
    · exact (h.type _).after fun _ => same

theorem arguments (h : A.OnNested n inner inner') : A.Expressions few n (arguments inner) (arguments inner') := by
  refine (expectKind _ _ (by decide)).after fun _ => acceptThen (plain_isKind (by decide)) (pure rfl nofun) ?_
  exact (commaList h.expression).bind fun args fits => (expectKind _ _ (by decide)).after fun _ => pure rfl fits

theorem named (h : A.OnNested n inner inner') (name : String) (inside : A.Inside start) :
    A.Expression few (n + 1) (named inner name start) (named inner' name (A.node start)) := by
  refine (check fun _ _ => rfl).after fun _ => ite (fun _ => ?_) fun _ => ?_
  · refine (arguments h).bind fun args fits => pure ?_ (.nodes fits rfl rfl inside)
    rw [Expr.moved, Expr.movedAll_eq_map]
  · refine acceptThen (plain_isKind (by decide)) ?_ (pure rfl (.leaf rfl rfl inside))
    refine (commaList h.expression).bind fun indices fits => (expectKind _ _ (by decide)).after fun _ => ?_
    refine pure ?_ (.nodes fits rfl rfl inside)
    rw [Expr.moved, Expr.movedAll_eq_map]

theorem allocation (h : A.OnNested n inner inner') (inside : A.Inside start) :
    A.Expression few (n + 1) (allocation inner start) (allocation inner' (A.node start)) := by
  refine (expectKind _ _ (by decide)).after fun _ => (h.expression _).bind fun size fits => ?_
  have tag : A.Agree few (some <$> Reader.typeClause inner) (some <$> Reader.typeClause inner') :=
    (typeClause h).map (fun _ => rfl) fun _ _ => trivial
  refine (accept (plain_isKind (by decide))).after fun _ => join tag same fun _ _ => ?_
  exact (expectKind _ _ (by decide)).after fun _ => pure rfl (.node fits rfl rfl inside)

theorem typeSize (h : A.OnNested n inner inner') (inside : A.Inside start) :
    A.Expression few (n + 1) (typeSize inner start) (typeSize inner' (A.node start)) :=
  (expectKind _ _ (by decide)).after fun _ => (typeClause h).after fun _ =>
    (expectKind _ _ (by decide)).after fun _ => pure rfl (.leaf rfl rfl inside)

theorem endOfFile (h : A.OnNested n inner inner') (inside : A.Inside start) :
    A.Expression few (n + 1) (endOfFile inner start) (endOfFile inner' (A.node start)) :=
  (expectKind _ _ (by decide)).after fun _ => (h.expression _).bind fun _ fits =>
    (expectKind _ _ (by decide)).after fun _ => pure rfl (.node fits rfl rfl inside)

theorem reserved (h : A.OnNested n inner inner') {t : Token} (dark : t.kind ≠ .newline) (word : String)
    (inside : A.Inside start) :
    A.Alike few (.token t) .line (Expr.moved A.node) (Expr.Fits A.Inside (n + 1)) (reserved inner word start)
      (reserved inner' word (A.node start)) := by
  unfold Reader.reserved
  split
  · exact A.advance dark (pure rfl (.leaf rfl rfl inside))
  · exact A.advance dark (pure rfl (.leaf rfl rfl inside))
  · exact A.advance dark (pure rfl (.leaf rfl rfl inside))
  · exact A.advance dark (allocation h inside)
  · exact A.advance dark (typeSize h inside)
  · exact A.advance dark (endOfFile h inside)
  · exact (expected _).known t

theorem primary (h : A.OnNested n inner inner') : A.Expression few (n + 1) (primary inner) (primary inner') := by
  refine A.peekThen (expected _) fun t sure inside => ?_
  have refused : A.Alike few (.token t) .line (Expr.moved A.node) (Expr.Fits A.Inside (n + 1))
    (Reader.expected "expression") (Reader.expected "expression") := (expected _).known t
  obtain ⟨kind, text, l⟩ := t
  dsimp only
  cases kind with
  | number value =>
    rw [sure (by simp)]
    exact A.advance (by simp) (pure rfl (.leaf rfl rfl inside))
  | string | char =>
    rw [sure (by simp)]
    exact A.advance (by simp) (pure rfl (.leaf rfl rfl inside))
  | leftParen =>
    refine A.advance (by simp) ((h.expression _).bind fun _ fits => ?_)
    exact (expectKind _ _ (by decide)).after fun _ => pure rfl fits.deeper
  | identifier =>
    rw [sure (by simp)]
    exact A.advance (by simp) (named h text inside)
  | keyword =>
    rw [sure (by simp)]
    exact reserved h (by simp) text inside
  | _ => exact refused

theorem unary (h : A.OnNested n inner inner') : A.Expression few (n + 1) (unary inner) (unary inner') := by
  refine A.placeThen (fun start inside => ?_) fun t line => ?_
  · refine acceptThen (plain_isOperator _) ?_ (acceptThen (plain_isOperator _) ?_
      (acceptThen (plain_isOperator _) ?_ (primary h)))
    all_goals exact (h.unary _).bind fun _ fits => pure rfl (.node fits rfl rfl inside)
  · refine acceptThen_of_line (plain_isOperator _) line (acceptThen_of_line (plain_isOperator _) line ?_)
    exact acceptThen_of_line (plain_isOperator _) line ((primary h).known t)

theorem acceptOf {operators : OperatorClass} (plain : PlainClass operators) {β : Type} {g : β → β} {K : β → Prop}
    {Q : Spot} {f : Option (BinaryOperator × Location) → m β} {f' : Option (BinaryOperator × Location) → m' β}
    (none : A.Alike few .line Q g K (f none) (f' none))
    (some : ∀ op l, A.Inside l → A.Alike (few - 1) .line Q g K (f (some (op, l))) (f' (some (op, A.node l)))) :
    A.Alike few .line Q g K (acceptOf operators >>= f) (acceptOf operators >>= f') := by
  simp only [Reader.acceptOf, bind_assoc]
  refine A.peekThen ?_ fun t sure inside => ?_
  · simpa only [pure_bind] using none
  · simp only [plain.blind t]
    cases here : operators t with
    | none => simpa only [pure_bind] using none.known t
    | some op =>
      have dark : t.kind ≠ .newline := by
        intro line
        rw [plain.dark t line] at here
        cases here
      simp only [bind_assoc, pure_bind, sure dark]
      exact A.advance dark (some op t.location inside)

section Chains

variable {operators : OperatorClass} {operand : m Expr} {operand' : m' Expr} (plain : PlainClass operators)
  (h : ∀ few, A.Expression few n operand operand')

include plain h

theorem chainFrom (k : Nat) {left : Expr} (fits : left.Fits A.Inside n) :
    A.Expression k n (chainFrom operators operand k left) (chainFrom operators operand' k (left.moved A.node)) := by
  induction k generalizing left with
  | zero => exact A.exhausted (pure rfl fits)
  | succ k ih =>
    exact acceptOf plain (pure rfl fits) fun op l inside => (h k).bind fun right fits' =>
      ih (.binary op fits fits' inside)

theorem chain (few : Nat) : A.Expression few n (chain operators operand) (chain operators operand') :=
  (h few).bind fun _ fits => A.counted fun k => chainFrom plain h k fits

end Chains

theorem comparison (h : A.OnNested n inner inner') :
    A.Expression few (n + 1) (comparison inner) (comparison inner') := by
  have sum := chain plain_sum (chain plain_product fun _ => unary h)
  refine (sum _).bind fun left fits => acceptOf plain_comparison (pure rfl fits) fun op l inside => ?_
  refine (sum _).bind fun right fits' => (check fun _ _ => rfl).after fun chained => ?_
  exact ite (fun _ => failThen _) fun _ => pure rfl (.binary op fits fits' inside)

theorem negation (h : A.OnNested n inner inner') : A.Expression few (n + 1) (negation inner) (negation inner') := by
  refine A.placeThen (fun start inside => ?_) fun t line => ?_
  · refine acceptThen (plain_isKeyword _) ((h.negation _).bind fun _ fits => ?_) (comparison h)
    exact pure rfl (.node fits rfl rfl inside)
  · exact acceptThen_of_line (plain_isKeyword _) line ((comparison h).known t)

theorem disjunction (h : A.OnNested n inner inner') :
    A.Expression few (n + 1) (disjunction inner) (disjunction inner') :=
  chain plain_or (chain plain_and fun _ => negation h) few

end Expressions

end Alike

/-- Both read a block, and blocks are nested at most `n` deep in it. -/
abbrev Block (A : Accord m m') (few : Nat) (P : Spot) (n : Nat) (r : m (List Stmt)) (r' : m' (List Stmt)) : Prop :=
  A.Alike few P .line (Stmt.movedBlock A.node) (Stmt.BlockFits A.Inside n) r r'

/-- Both read a statement with blocks at most `n` deep. -/
abbrev Statement (A : Accord m m') (few n : Nat) (r : m Stmt) (r' : m' Stmt) : Prop :=
  A.Alike few .line .gap (Stmt.moved A.node) (Stmt.Fits A.Inside n) r r'

/-- Both read such statements. -/
abbrev Statements (A : Accord m m') (few n : Nat) (r : m (List Stmt)) (r' : m' (List Stmt)) : Prop :=
  A.Alike few .line .gap (Stmt.movedBlock A.node) (fun found => ∀ s ∈ found, s.Fits A.Inside n) r r'

/-- Rules of blocks one level deeper that agree. An empty line may stand before the first line of a block. -/
structure OnBlocks (A : Accord m m') (n : Nat) (inner : Blocks m) (inner' : Blocks m') : Prop where
  block : ∀ few closing, A.Block few .gap n (inner.block closing) (inner'.block closing)
  branch : ∀ few, A.Block few .line n inner.branch inner'.branch

namespace Alike

section Statements

variable {A : Accord m m'} {few n : Nat} {inner : Blocks m} {inner' : Blocks m'} {start : Location}

theorem closingName (counter : String) (inside : A.Inside start) :
    A.Agree few (closingName counter start) (closingName counter (A.place start)) := by
  refine A.peekThen same fun t _ _ => ite (fun name => ?_) fun _ => same.known t
  exact A.advance (name ▸ nofun) (ite (fun _ => failAt inside _) fun _ => same)

theorem labelLiteral : A.Agree few labelLiteral labelLiteral := by
  refine (accept (plain_isOperator _)).after fun negative => A.peekThen ?_ fun t _ _ => ?_
  · exact ite (fun _ => expected _) fun _ => expected _
  · dsimp only
    split
    · next number => exact A.advance (number ▸ nofun) same
    · refine ite (fun _ => (expected _).known t) fun _ => ?_
      refine ite (fun string => A.advance (string ▸ by simp) same) fun _ => ?_
      refine ite (fun char => A.advance (char ▸ by simp) same) fun _ => ?_
      refine ite (fun word => A.advance ((plain_isKeyword _).dark t word) same) fun _ => ?_
      exact ite (fun word => A.advance ((plain_isKeyword _).dark t word) same) fun _ => (expected _).known t

theorem caseLabel : A.Agree few caseLabel caseLabel :=
  labelLiteral.after fun _ => acceptThen (plain_isKeyword _) (labelLiteral.after fun _ => same) same

/-- No label starts with the end of a line. -/
theorem caseLabel_of_line {β : Type} {h : β → β} {L : β → Prop} {Q : Spot} {f : CaseLabel → m β}
    {f' : CaseLabel → m' β} {t : Token} (line : t.kind = .newline) :
    A.Alike few (.token t) Q h L (Reader.caseLabel >>= f) (Reader.caseLabel >>= f') := by
  obtain ⟨kind, text, l⟩ := t
  cases line
  simp only [Reader.caseLabel, Reader.labelLiteral, bind_assoc]
  refine acceptThen_of_line (plain_isOperator _) rfl (A.peekAt ?_)
  exact (expectedThen _).known _

theorem fileMode : A.Agree few fileMode fileMode :=
  acceptThen (plain_isKeyword _) same (acceptThen (plain_isKeyword _) same
    (acceptThen (plain_isKeyword _) same (expected _)))

/-- Both read the branches of a CASE statement and what stands behind OTHERWISE. -/
abbrev Cases (A : Accord m m') (few n : Nat) (r : m (List (CaseBranch Stmt) × Option (List Stmt)))
    (r' : m' (List (CaseBranch Stmt) × Option (List Stmt))) : Prop :=
  A.Alike few .gap .line (Prod.map (Stmt.movedBranches A.node) (Stmt.movedOther A.node))
    (fun found => Stmt.BranchesFit A.Inside n found.1 ∧ Stmt.OtherFits A.Inside n found.2) r r'

theorem caseBranches (h : A.OnBlocks n inner inner') (k : Nat) {branches : List (CaseBranch Stmt)}
    (before : Stmt.BranchesFit A.Inside n branches) :
    Cases A k n (caseBranches inner k branches) (caseBranches inner' k (Stmt.movedBranches A.node branches)) := by
  induction k generalizing branches with
  | zero => exact A.exhausted (A.skipNewlines.after fun _ => expected _)
  | succ k ih =>
    refine A.skipNewlines.after fun _ => (check fun _ _ => rfl).after fun _ => ?_
    refine ite (fun _ => pure rfl ⟨before, .none⟩) fun _ => atEnd.after fun _ => ?_
    refine ite (fun _ => expected _) fun _ => acceptThen (plain_isKeyword _) ?_ ?_
    · refine (accept (plain_isKind (by decide))).discard.after fun _ => (h.branch _).bind fun body fits => ?_
      refine A.skipNewlines.tight.after fun _ => (check fun _ _ => rfl).after fun _ => ?_
      exact ite (fun _ => pure rfl ⟨before, fits⟩) fun _ => expectedThen _
    · refine A.placeThen (fun start _ => ?_) fun t line => caseLabel_of_line line
      -- Behind a label comes a colon at least, which makes room for the next round.
      refine caseLabel.after fun label => expectThen _ _ (by decide) ((h.branch _).bind fun body fits => ?_)
      have more := ih (before.append label fits start)
      rw [Stmt.movedBranches_append] at more
      exact more.tight

theorem caseList (h : A.OnBlocks n inner inner') : Cases A few n (caseList inner) (caseList inner') :=
  A.counted fun k => caseBranches h k .none

/-- The end of a statement. -/
theorem done {s s' : Stmt} (same : s' = s.moved A.node) (fits : s.Fits A.Inside n) :
    A.Statement few n (do Reader.endOfStatement; Pure.pure s) (do Reader.endOfStatement; Pure.pure s') :=
  endOfStatement.after fun _ => pure same fits

/-- A rule of one statement. -/
theorem alone {r : m Stmt} {r' : m' Stmt} (h : A.Statement few n r r') :
    A.Statements few n (List.singleton <$> r) (List.singleton <$> r') :=
  h.map (fun _ => rfl) fun _ fits => List.forall_mem_singleton.2 fits

variable [Outermost m] [Outermost m'] (outer : A.OnNested maxNesting outermost outermost)
include outer

theorem expression : A.Expression few (maxNesting + 1) expression expression :=
  (outer.expression few).weaken fun _ => Expr.Fits.deeper

theorem type : A.Agree few type type := typeClause outer

theorem assignable : A.Expression few (maxNesting + 1) assignable assignable := by
  refine A.placed.bind fun start inside => (unary outer).bind fun target fits => ?_
  cases target with
  | identifier | element | dereference => exact pure rfl fits
  | _ => exact failAt inside _

theorem someExpression : A.Steady few (Option.map (Expr.moved A.node))
    (fun value => ∀ e ∈ value.toList, e.Fits A.Inside (maxNesting + 1)) (some <$> Reader.expression)
    (some <$> Reader.expression) :=
  (expression outer).map (fun _ => rfl) fun _ fits => List.forall_mem_singleton.2 fits

theorem parameter (params : List Param) : A.Agree few (parameter params) (parameter params) := by
  have mode : A.Agree few (passMode (params.getLast?.map (·.mode) |>.getD .byValue)) (passMode _) :=
    acceptThen (plain_isKeyword _) same (acceptThen (plain_isKeyword _) same same)
  refine mode.after fun mode => expectIdentifier.after fun name => (expectKind _ _ (by decide)).after fun _ => ?_
  exact (type outer).after fun t => ite (fun _ => failThen _) fun _ => same

theorem moreParameters (k : Nat) (params : List Param) :
    A.Agree k (moreParameters k params) (moreParameters k params) := by
  induction k generalizing params with
  | zero => exact A.exhausted same
  | succ k ih => exact acceptThen (plain_isKind (by decide)) ((parameter outer params).after ih) same

theorem parameters : A.Agree few parameters parameters := by
  refine (expectKind _ _ (by decide)).after fun _ => acceptThen (plain_isKind (by decide)) same ?_
  have list : A.Agree few parameterList parameterList :=
    (parameter outer []).after fun first => A.counted fun k => moreParameters outer k first
  exact list.after fun _ => (expectKind _ _ (by decide)).after fun _ => same

variable (inside : A.Inside start)
include inside

theorem declaration : A.Statements few n (declaration start) (declaration (A.node start)) := by
  have moved (type : DataType) (names : List String) : Stmt.movedBlock A.node (names.map (.declare · type start)) =
      names.map (.declare · type (A.node start)) := by
    induction names with
    | nil => rfl
    | cons name names ih =>
      rw [List.map_cons, Stmt.movedBlock, ih]
      rfl
  refine (commaList fun _ => expectIdentifier).bind fun names _ => (expectKind _ _ (by decide)).after fun _ => ?_
  refine (type outer).after fun t => endOfStatement.after fun _ => pure ?_ fun s mem => ?_
  · rw [List.map_id, moved]
  · obtain ⟨name, -, rfl⟩ := List.mem_map.1 mem
    exact .node .none inside

theorem constant : A.Statement few n (constant start) (constant (A.node start)) := by
  refine expectIdentifier.after fun name => ?_
  refine acceptThen (plain_isOperator _) ?_ ((expectKind _ _ (by decide)).after fun _ => ?_)
  all_goals exact (expression outer).bind fun _ fits => done rfl (.node (.one fits) inside)

theorem definition (h : A.OnBlocks n inner inner') (isFunction : Bool) :
    A.Statement few n (definition inner isFunction start) (definition inner' isFunction (A.node start)) := by
  refine expectIdentifier.after fun name => ?_
  have returns : A.Agree few (some <$> Reader.type) (some <$> Reader.type) :=
    (type outer).map (fun _ => rfl) fun _ _ => trivial
  have none : A.Agree few (Pure.pure none : m (Option DataType)) (Pure.pure none : m' (Option DataType)) := same
  refine (check fun _ _ => rfl).after fun given => join (parameters outer) same fun params _ => ?_
  refine ite (fun _ => (expectKeyword _ _).after fun _ => returns.after fun _ => ?_) fun _ => none.after fun _ => ?_
  all_goals
    refine endOfStatement.after fun _ => (h.block _ _).bind fun _ fits => (expectKeyword _ _).after fun _ => ?_
    exact done rfl (fits.node inside)

theorem output : A.Statement few n (output start) (output (A.node start)) :=
  (commaList fun _ => expression outer).bind fun _ fits => done rfl (.node (.all fits) inside)

theorem input : A.Statement few n (input start) (input (A.node start)) :=
  (assignable outer).bind fun _ fits => done rfl (.node (.one fits) inside)

theorem conditional (h : A.OnBlocks n inner inner') :
    A.Statement few n (conditional inner start) (conditional inner' (A.node start)) := by
  refine (expression outer).bind fun condition fits => A.skipNewlines.tight.after fun _ => ?_
  refine (accept (plain_isKeyword _)).discard.after fun _ => (h.block _ _).tight.bind fun body within => ?_
  have other : A.Steady few (Stmt.movedOther A.node) (Stmt.OtherFits A.Inside n) (some <$> inner.block ["ENDIF"])
      (some <$> inner'.block ["ENDIF"]) :=
    (h.block _ _).tight.map (fun _ => rfl) fun _ => id
  refine (accept (plain_isKeyword _)).after fun _ => join other (pure rfl .none) fun _ beside => ?_
  exact (expectKeyword _ _).after fun _ => done rfl (((within.both beside).expr fits).node inside)

theorem whileLoop (h : A.OnBlocks n inner inner') :
    A.Statement few n (whileLoop inner start) (whileLoop inner' (A.node start)) := by
  refine (expression outer).bind fun condition fits => (accept (plain_isKeyword _)).discard.after fun _ => ?_
  refine endOfStatement.after fun _ => (h.block _ _).bind fun body within => (expectKeyword _ _).after fun _ => ?_
  exact done rfl ((within.expr fits).node inside)

theorem repeatLoop (h : A.OnBlocks n inner inner') :
    A.Statement few n (repeatLoop inner start) (repeatLoop inner' (A.node start)) := by
  refine endOfStatement.after fun _ => (h.block _ _).bind fun body within => (expectKeyword _ _).after fun _ => ?_
  exact (expression outer).bind fun condition fits => done rfl ((within.expr fits).node inside)

theorem forLoop (h : A.OnBlocks n inner inner') :
    A.Statement few n (forLoop inner start) (forLoop inner' (A.node start)) := by
  refine expectIdentifier.after fun counter => (expectKind _ _ (by decide)).after fun _ => ?_
  refine (expression outer).bind fun first fits => (expectKeyword _ _).after fun _ => ?_
  refine (expression outer).bind fun last fits' => (accept (plain_isKeyword _)).after fun _ => ?_
  refine join (someExpression outer) (pure rfl nofun) fun _ small => endOfStatement.after fun _ => ?_
  refine (h.block _ _).bind fun body within => A.placed.bind fun next there => (expectKeyword _ _).after fun _ => ?_
  exact (closingName counter there).after fun _ =>
    done rfl ((((within.exprs small).expr fits').expr fits).node inside)

theorem caseOf (h : A.OnBlocks n inner inner') :
    A.Statement few n (caseOf inner start) (caseOf inner' (A.node start)) := by
  refine (expectKeyword _ _).after fun _ => (expression outer).bind fun subject fits => ?_
  refine endOfStatement.after fun _ => (caseList h).bind fun (branches, other) ⟨within, beside⟩ => ?_
  exact (expectKeyword _ _).after fun _ => done rfl (((within.both beside).expr fits).node inside)

theorem procedureCall : A.Statement few n (procedureCall start) (procedureCall (A.node start)) := by
  refine expectIdentifier.after fun name => (check fun _ _ => rfl).after fun _ => ?_
  exact join (arguments outer) (pure rfl nofun) fun args fits => done rfl (.one (.nodes fits rfl rfl inside))

theorem giveBack : A.Statement few n (giveBack start) (giveBack (A.node start)) := by
  refine atEnd.after fun _ => (check fun _ _ => rfl).after fun _ => ?_
  exact join (pure rfl nofun) (someExpression outer) fun _ fits => done rfl (.node (.all fits) inside)

theorem openFile : A.Statement few n (openFile start) (openFile (A.node start)) :=
  (expression outer).bind fun _ fits => (expectKeyword _ _).after fun _ => fileMode.after fun _ =>
    done rfl (.node (.one fits) inside)

theorem readFile : A.Statement few n (readFile start) (readFile (A.node start)) :=
  (expression outer).bind fun _ fits => (expectKind _ _ (by decide)).after fun _ =>
    (assignable outer).bind fun _ fits' => done rfl (.node (.expr (.one fits') fits) inside)

theorem writeFile : A.Statement few n (writeFile start) (writeFile (A.node start)) :=
  (expression outer).bind fun _ fits => (expectKind _ _ (by decide)).after fun _ =>
    (expression outer).bind fun _ fits' => done rfl (.node (.expr (.one fits') fits) inside)

theorem closeFile : A.Statement few n (closeFile start) (closeFile (A.node start)) :=
  (expression outer).bind fun _ fits => done rfl (.node (.one fits) inside)

theorem free : A.Statement few n (free start) (free (A.node start)) :=
  (expression outer).bind fun _ fits => done rfl (.node (.one fits) inside)

theorem assignment : A.Statement few n (assignment start) (assignment (A.node start)) :=
  (assignable outer).bind fun _ fits => (expectKind _ _ (by decide)).after fun _ =>
    (expression outer).bind fun _ fits' => done rfl (.node (.expr (.one fits') fits) inside)

theorem afterKeyword (h : A.OnBlocks n inner inner') (level : Reader.Level) (word : String)
    (here : A.place start = A.node start) :
    A.Statements few n (afterKeyword level inner word start) (afterKeyword level inner' word (A.node start)) := by
  have refused (complaint : Complaint) : A.Statements few n (Reader.failAt start complaint)
      (Reader.failAt (A.node start) complaint) := here ▸ failAt inside complaint
  unfold Reader.afterKeyword
  dsimp only
  split
  · exact declaration outer inside
  · exact (constant outer inside).alone
  · cases level with
    | inside => exact refused _
    | top => exact (definition outer inside h false).alone
  · cases level with
    | inside => exact refused _
    | top => exact (definition outer inside h true).alone
  · exact (output outer inside).alone
  · exact (input outer inside).alone
  · exact (conditional outer inside h).alone
  · exact (whileLoop outer inside h).alone
  · exact (repeatLoop outer inside h).alone
  · exact (forLoop outer inside h).alone
  · exact (caseOf outer inside h).alone
  · exact (procedureCall outer inside).alone
  · exact (giveBack outer inside).alone
  · exact (openFile outer inside).alone
  · exact (readFile outer inside).alone
  · exact (writeFile outer inside).alone
  · exact (closeFile outer inside).alone
  · exact (free outer inside).alone
  · exact refused _

omit inside in
theorem statement (h : A.OnBlocks n inner inner') (level : Reader.Level) :
    A.Statements few n (statement level inner) (statement level inner') := by
  refine A.peekThen (found.after fun _ => fail _) fun t sure inside => ite (fun word => ?_) fun _ => ?_
  · have dark : t.kind ≠ .newline := word ▸ nofun
    have here := sure dark
    refine A.advance dark ?_
    rw [here]
    exact afterKeyword outer inside h level t.text here
  · refine ite (fun starts => ?_) fun _ => (fail _).known t
    have dark : t.kind ≠ .newline := by
      intro line
      simp [Token.isOperator, line] at starts
    rw [sure dark]
    exact (assignment outer inside).alone.known t

end Statements

end Alike

/-- Readers of lists agree at every level. -/
theorem onNested (A : Accord Reader Reader) (n : Nat) : A.OnNested n (nested n) (nested n) := by
  induction n with
  | zero => exact ⟨fun _ => .fail _, fun _ => .fail _, fun _ => .fail _, fun _ => .fail _⟩
  | succ n ih =>
    exact ⟨fun _ => .disjunction ih, fun _ => .negation ih, fun _ => .unary ih, fun _ => .typeClause ih⟩

end Accord

end Pseudocode
