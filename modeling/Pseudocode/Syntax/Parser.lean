import Pseudocode.Syntax.Reader.Stmt

/-!
The parser: an array of tokens with a cursor, and counters of the blocks and expressions that it stands
inside of. It follows the rules of the grammar, and its state outlives an error, so each rule has to leave
the counters as it has found them.
-/

namespace Pseudocode

structure Parser where
  tokens : Array Token
  position : Nat
  blockDepth : Nat
  exprDepth : Nat
deriving DecidableEq, Repr

/-- A list that does not close with an end of input is given one where its last token stands. -/
def Parser.closing (ts : List Token) : List Token :=
  match ts.getLast? with
  | some t => if t.kind = .endOfInput then [] else [⟨.endOfInput, "", t.location⟩]
  | none => [⟨.endOfInput, "", .none⟩]

/-- Comments are dropped. -/
def Parser.ofTokens (ts : List Token) : Parser :=
  let ts := ts.filter (·.kind != .comment)
  ⟨(ts ++ closing ts).toArray, 0, 0, 0⟩

/-- What a parser does. None is a crash: a look beyond the tokens, a counter that would go below zero, or a
loop that goes on for longer than there are tokens. -/
abbrev Parse := ExceptT SyntaxError (StateT Parser Option)

namespace Parser

open Reader

def crash {α : Type} : Parse α := fun _ => none

/-- The token under the cursor. -/
def current : Parse Token := do
  let p ← get
  match p.tokens[p.position]? with
  | some t => pure t
  | none => crash

/-- The cursor stays at an end of input. -/
def advance : Parse Unit := do
  unless isKind .endOfInput (← current) do
    modify fun p => { p with position := p.position + 1 }

/-- Goes over ends of lines; `n` bounds the tokens left. -/
def skipLines : Nat → Parse Unit
  | 0 => crash
  | n + 1 => do
    if isKind .newline (← current) then
      advance
      skipLines n

/-- The tokens from the cursor to the end of input, ends of lines apart. -/
def left (p : Parser) : Nat :=
  count ((p.tokens.toList.drop p.position).takeWhile (!isKind .endOfInput ·))

instance : Cursor Parse where
  peek := do
    let t ← current
    pure (if isKind .endOfInput t then none else some t)
  finish := return (← current).location
  advance := advance
  skipNewlines := do
    let p ← get
    skipLines (p.tokens.size - p.position)
  left := return (← get).left
  exhausted next := do
    if (← get).left = 0 then next else crash
  failAt location complaint := throw ⟨complaint, location⟩

/-- What comes of a rule, be it an error. -/
def outcome {α : Type} (rule : Parse α) : Parse (Except SyntaxError α) := ExceptT.lift rule.run

/-- One expression level deeper, and back whatever comes of it. -/
def deeper {α : Type} (rule : Parse α) : Parse α := do
  if maxNesting ≤ (← get).exprDepth then fail (.tooDeep .expression)
  modify fun p => { p with exprDepth := p.exprDepth + 1 }
  let result ← outcome rule
  if (← get).exprDepth = 0 then crash
  modify fun p => { p with exprDepth := p.exprDepth - 1 }
  liftExcept result

/-- The rules of an expression that may be entered `n` times inside one another. -/
def nested : Nat → Nested Parse
  | 0 => ⟨crash, crash, crash, crash⟩
  | n + 1 =>
    let inner := nested n
    ⟨deeper (disjunction inner), deeper (negation inner), deeper (unary inner), deeper (typeClause inner)⟩

/-- The counter refuses the last level that is provided for. -/
instance : Outermost Parse := ⟨nested (maxNesting + 1)⟩

def enterBlock : Parse Unit := do
  if maxNesting ≤ (← get).blockDepth then fail (.tooDeep .block)
  modify fun p => { p with blockDepth := p.blockDepth + 1 }

def leaveBlock : Parse Unit := do
  if (← get).blockDepth = 0 then crash
  modify fun p => { p with blockDepth := p.blockDepth - 1 }

/-- A statement of a block, which is left if the statement fails. -/
def guarded {α : Type} (one : Parse α) : Parse α := do
  match ← outcome one with
  | .ok a => pure a
  | .error e =>
    leaveBlock
    throw e

/-- Statements until `stop` holds. `n` bounds the tokens left. -/
def statementsUntil (stop : Parse Bool) (one : Parse (List Stmt)) : Nat → List Stmt → Parse (List Stmt)
  | 0, done => exhausted do
    skipNewlines
    pure done
  | n + 1, done => do
    skipNewlines
    if ← stop then pure done
    else statementsUntil stop one n (done ++ (← one))

/-- Whether a block that closes with one of the words has come to its end. -/
def closes (closing : List String) : Parse Bool := do
  match ← peek with
  | some t => pure (closing.any t.isKeyword)
  | none => pure true

/-- Whether the body of a CASE branch has come to its end. -/
def closesBranch : Parse Bool := do
  match ← peek with
  | some t =>
    let p ← get
    let following := t :: p.tokens[p.position + 1]?.toList
    pure (t.isKeyword "ENDCASE" || t.isKeyword "OTHERWISE" || startsLabel following)
  | none => pure true

def block (one : Parse (List Stmt)) (closing : List String) : Parse (List Stmt) := do
  enterBlock
  let body ← statementsUntil (closes closing) (guarded one) (← Cursor.left) []
  if ← atEnd then
    leaveBlock
    expected (orList closing)
  leaveBlock
  pure body

def branchBody (one : Parse (List Stmt)) : Parse (List Stmt) := do
  enterBlock
  let body ← statementsUntil closesBranch (guarded one) (← Cursor.left) []
  leaveBlock
  pure body

/-- Definitions may stand outside blocks only. -/
def statementAt (inner : Blocks Parse) : Parse (List Stmt) := do
  statement (if (← get).blockDepth = 0 then .top else .inside) inner

/-- The rules of a block that may be entered `n` times inside one another. -/
def blocks : Nat → Blocks Parse
  | 0 => ⟨fun _ => crash, crash⟩
  | n + 1 =>
    let one := statementAt (blocks n)
    ⟨block one, branchBody one⟩

def program : Parse Program := do
  let statements ← statementsUntil atEnd (statementAt (blocks (maxNesting + 1))) (← Cursor.left) []
  pure ⟨statements⟩

end Parser

/-- Reads a program from its tokens. -/
def Program.ofTokens (ts : List Token) : Except SyntaxError Program :=
  match Parser.program (Parser.ofTokens ts) with
  | some (result, _) => result
  -- No parser crashes, see `Program.ofTokens_eq`.
  | none => .error ⟨.tokenAtStart "", .none⟩

/-- Reads a program from its source text. -/
def Program.ofSource (source : String) : Except SyntaxError Program := do
  Program.ofTokens (← tokenize source)

end Pseudocode
