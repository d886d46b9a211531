import Pseudocode.Syntax.Reader.Expr
import Pseudocode.Token.Lexer

/-!
Readers of statements, blocks and whole programs. The readers of one block level are built from
those of the level inside, as for expressions.
-/

namespace Pseudocode.Reader

/-- Readers of blocks one level deeper: one that stops before given words, and one for the body of a
CASE branch. -/
structure Blocks (m : Type → Type) where
  block : List String → m (List Stmt)
  branch : m (List Stmt)

section Rules

variable {m : Type → Type} [Monad m] [Cursor m] [Outermost m]

def declaration (start : Location) : m (List Stmt) := do
  let names ← commaList expectIdentifier
  expectKind .colon "':' after declared identifiers"
  let t ← type
  endOfStatement
  pure (names.map (.declare · t start))

def constant (start : Location) : m Stmt := do
  let name ← expectIdentifier
  unless ← acceptOperator "=" do expectKind .assign "'=' after constant name"
  let value ← expression
  endOfStatement
  pure (.constant name value start)

/-- The passing mode that a parameter states, or else the one before it. -/
def passMode (before : PassMode) : m PassMode := do
  if ← acceptKeyword "BYREF" then pure .byReference
  else if ← acceptKeyword "BYVAL" then pure .byValue
  else pure before

/-- One more parameter after `params`, whose names it must differ from. -/
def parameter (params : List Param) : m (List Param) := do
  let mode ← passMode (params.getLast?.map (·.mode) |>.getD .byValue)
  let name ← expectIdentifier
  expectKind .colon "':' after parameter name"
  let t ← type
  if params.any (·.name == name) then fail (.duplicateParameter name)
  pure (params ++ [⟨name, t, mode⟩])

/-- Parameters behind commas. `n` bounds the tokens left: when none is left, the list ends. -/
def moreParameters : Nat → List Param → m (List Param)
  | 0, params => exhausted (pure params)
  | n + 1, params => do
    if ← accept (isKind .comma) then
      moreParameters n (← parameter params)
    else pure params

def parameterList : m (List Param) := do
  let first ← parameter []
  moreParameters (← left) first

def parameters : m (List Param) := do
  expectKind .leftParen "'(' before parameter list"
  if ← accept (isKind .rightParen) then pure []
  else
    let params ← parameterList
    expectKind .rightParen "')' after parameters"
    pure params

/-- A definition; its keyword has been taken. -/
def definition (inner : Blocks m) (isFunction : Bool) (start : Location) : m Stmt := do
  let keyword := if isFunction then "FUNCTION" else "PROCEDURE"
  let closing := if isFunction then "ENDFUNCTION" else "ENDPROCEDURE"
  let name ← expectIdentifier
  let params ← if ← check (isKind .leftParen) then parameters else pure []
  let returns ←
    if isFunction then
      expectKeyword "RETURNS" "after function parameters"
      some <$> type
    else pure none
  endOfStatement
  let body ← inner.block [closing]
  expectKeyword closing s!"to close {keyword} '{name}'"
  endOfStatement
  pure (.define ⟨name, params, returns, body, start⟩)

def output (start : Location) : m Stmt := do
  let items ← commaList expression
  endOfStatement
  pure (.output items start)

def input (start : Location) : m Stmt := do
  let target ← assignable
  endOfStatement
  pure (.input target start)

def conditional (inner : Blocks m) (start : Location) : m Stmt := do
  let condition ← expression
  skipNewlines
  discard <| acceptKeyword "THEN"
  let thenBranch ← inner.block ["ELSE", "ENDIF"]
  let elseBranch ← if ← acceptKeyword "ELSE" then some <$> inner.block ["ENDIF"] else pure none
  expectKeyword "ENDIF" "to close IF"
  endOfStatement
  pure (.ifThen condition thenBranch elseBranch start)

def whileLoop (inner : Blocks m) (start : Location) : m Stmt := do
  let condition ← expression
  discard <| acceptKeyword "DO"
  endOfStatement
  let body ← inner.block ["ENDWHILE"]
  expectKeyword "ENDWHILE" "to close WHILE"
  endOfStatement
  pure (.whileDo condition body start)

def repeatLoop (inner : Blocks m) (start : Location) : m Stmt := do
  endOfStatement
  let body ← inner.block ["UNTIL"]
  expectKeyword "UNTIL" "to close REPEAT"
  let condition ← expression
  endOfStatement
  pure (.repeatUntil body condition start)

/-- The name behind NEXT may be left out. -/
def closingName (counter : String) (start : Location) : m Unit := do
  match ← peek with
  | some t =>
    if t.kind = .identifier then
      advance
      if t.text ≠ counter then failAt start (.wrongNext t.text counter)
  | none => pure ()

def forLoop (inner : Blocks m) (start : Location) : m Stmt := do
  let counter ← expectIdentifier
  expectKind .assign "'←' after FOR loop variable"
  let first ← expression
  expectKeyword "TO" "in FOR loop"
  let last ← expression
  let step ← if ← acceptKeyword "STEP" then some <$> expression else pure none
  endOfStatement
  let body ← inner.block ["NEXT"]
  let next ← place
  expectKeyword "NEXT" "to close FOR"
  closingName counter next
  endOfStatement
  pure (.forTo counter first last step body start)

/-- A literal that may stand in a label; a number may be negated. -/
def labelLiteral : m Literal := do
  let negative ← acceptOperator "-"
  match ← peek with
  | none => if negative then expected "number after '-'" else expected "a literal CASE label"
  | some t =>
    match t.kind with
    | .number n =>
      advance
      pure (.number (if negative then -n else n))
    | kind =>
      if negative then expected "number after '-'"
      else if kind = .string then
        advance
        pure (.string t.text)
      else if kind = .char then
        advance
        pure (.char (literalChar t.text))
      else if t.isKeyword "TRUE" then
        advance
        pure (.boolean true)
      else if t.isKeyword "FALSE" then
        advance
        pure (.boolean false)
      else expected "a literal CASE label"

def caseLabel : m CaseLabel := do
  let first ← labelLiteral
  if ← acceptKeyword "TO" then return .range first (← labelLiteral)
  else pure (.value first)

/-- How messages list the words that may close a block. -/
def orList (words : List String) : String := String.intercalate " or " (words.map fun word => s!"'{word}'")

/-- The tokens that a CASE label can start with. -/
def startsLabel : List Token → Bool
  | [] => false
  | t :: rest =>
    t.isNumber || t.kind = .string || t.kind = .char || t.isKeyword "TRUE" || t.isKeyword "FALSE" ||
      (t.isOperator "-" && rest.head?.any (·.isNumber))

/-- The branches of a CASE statement and what stands behind OTHERWISE. `n` bounds the tokens left.
-/
def caseBranches (inner : Blocks m) :
    Nat → List (CaseBranch Stmt) → m (List (CaseBranch Stmt) × Option (List Stmt))
  | 0, _ => exhausted do
    skipNewlines
    expected "'ENDCASE'"
  | n + 1, branches => do
    skipNewlines
    if ← check (·.isKeyword "ENDCASE") then pure (branches, none)
    else if ← atEnd then expected "'ENDCASE'"
    else if ← acceptKeyword "OTHERWISE" then
      discard <| accept (isKind .colon)
      let body ← inner.branch
      skipNewlines
      unless ← check (·.isKeyword "ENDCASE") do expected "'ENDCASE' after OTHERWISE branch"
      pure (branches, some body)
    else
      let start ← place
      let label ← caseLabel
      expectKind .colon "':' after CASE label"
      let body ← inner.branch
      caseBranches inner n (branches ++ [⟨label, body, start⟩])

def caseList (inner : Blocks m) : m (List (CaseBranch Stmt) × Option (List Stmt)) := do
  caseBranches inner (← left) []

def caseOf (inner : Blocks m) (start : Location) : m Stmt := do
  expectKeyword "OF" "after CASE"
  let subject ← expression
  endOfStatement
  let (branches, otherwise) ← caseList inner
  expectKeyword "ENDCASE" "to close CASE"
  endOfStatement
  pure (.caseOf subject branches otherwise start)

def procedureCall (start : Location) : m Stmt := do
  let name ← expectIdentifier
  let args ← if ← check (isKind .leftParen) then arguments outermost else pure []
  endOfStatement
  pure (.call name args start)

def giveBack (start : Location) : m Stmt := do
  let bare := (← atEnd) || (← check (isKind .newline))
  let value ← if bare then pure none else some <$> expression
  endOfStatement
  pure (.giveBack value start)

def fileMode : m FileMode := do
  if ← acceptKeyword "READ" then pure .read
  else if ← acceptKeyword "WRITE" then pure .write
  else if ← acceptKeyword "APPEND" then pure .append
  else expected "READ, WRITE or APPEND"

def openFile (start : Location) : m Stmt := do
  let file ← expression
  expectKeyword "FOR" "after file name in OPENFILE"
  let mode ← fileMode
  endOfStatement
  pure (.openFile file mode start)

def readFile (start : Location) : m Stmt := do
  let file ← expression
  expectKind .comma "',' after file name"
  let target ← assignable
  endOfStatement
  pure (.readFile file target start)

def writeFile (start : Location) : m Stmt := do
  let file ← expression
  expectKind .comma "',' after file name"
  let value ← expression
  endOfStatement
  pure (.writeFile file value start)

def closeFile (start : Location) : m Stmt := do
  let file ← expression
  endOfStatement
  pure (.closeFile file start)

def free (start : Location) : m Stmt := do
  let pointer ← expression
  endOfStatement
  pure (.free pointer start)

def assignment (start : Location) : m Stmt := do
  let target ← assignable
  expectKind .assign "'←' in assignment"
  let value ← expression
  endOfStatement
  pure (.assign target value start)

/-- Whether definitions may stand here. -/
inductive Level where
  | top
  | inside
deriving DecidableEq, Repr

/-- The statements behind a keyword that has been taken. A declaration of several names is several
statements. -/
def afterKeyword (level : Level) (inner : Blocks m) (word : String) (start : Location) : m (List Stmt) :=
  let define (isFunction : Bool) : m (List Stmt) :=
    match level with
    | .inside => failAt start (.nestedDefinition word)
    | .top => List.singleton <$> definition inner isFunction start
  match word with
  | "DECLARE" => declaration start
  | "CONSTANT" => List.singleton <$> constant start
  | "PROCEDURE" => define false
  | "FUNCTION" => define true
  | "OUTPUT" => List.singleton <$> output start
  | "INPUT" => List.singleton <$> input start
  | "IF" => List.singleton <$> conditional inner start
  | "WHILE" => List.singleton <$> whileLoop inner start
  | "REPEAT" => List.singleton <$> repeatLoop inner start
  | "FOR" => List.singleton <$> forLoop inner start
  | "CASE" => List.singleton <$> caseOf inner start
  | "CALL" => List.singleton <$> procedureCall start
  | "RETURN" => List.singleton <$> giveBack start
  | "OPENFILE" => List.singleton <$> openFile start
  | "READFILE" => List.singleton <$> readFile start
  | "WRITEFILE" => List.singleton <$> writeFile start
  | "CLOSEFILE" => List.singleton <$> closeFile start
  | "FREE" => List.singleton <$> free start
  | _ => failAt start (.keywordAtStart word)

/-- The statements that one statement of the text stands for. -/
def statement (level : Level) (inner : Blocks m) : m (List Stmt) := do
  match ← peek with
  | none => fail (.tokenAtStart (← found))
  | some t =>
    if t.kind = .keyword then
      advance
      afterKeyword level inner t.text t.location
    else if t.kind = .identifier || t.isOperator "*" then List.singleton <$> assignment t.location
    else fail (.tokenAtStart t.describe)

end Rules

/-- Statements until `stop` holds of the tokens left. `n` bounds their number; when none is left,
the list ends. -/
def statementsUntil (stop : List Token → Bool) (one : Reader (List Stmt)) :
    Nat → List Stmt → Reader (List Stmt)
  | 0, done => do
    skipNewlines
    pure done
  | n + 1, done => do
    skipNewlines
    if stop (← get) then pure done
    else statementsUntil stop one n (done ++ (← one))

/-- Statements until the tokens left start with one of the words. -/
def block (one : Reader (List Stmt)) (closing : List String) : Reader (List Stmt) := do
  let stop (ts : List Token) : Bool :=
    match ts with
    | [] => true
    | t :: _ => closing.any t.isKeyword
  let body ← statementsUntil stop one (← left) []
  if ← atEnd then expected (orList closing)
  pure body

/-- Statements until the next label, OTHERWISE, ENDCASE or the end of input. -/
def branchBody (one : Reader (List Stmt)) : Reader (List Stmt) := do
  let stop (ts : List Token) : Bool :=
    match ts with
    | [] => true
    | t :: _ => t.isKeyword "ENDCASE" || t.isKeyword "OTHERWISE" || startsLabel ts
  statementsUntil stop one (← left) []

/-- The block readers with `n` levels left. -/
def blocks : Nat → Blocks Reader
  | 0 => ⟨fun _ => fail (.tooDeep .block), fail (.tooDeep .block)⟩
  | n + 1 =>
    let one := statement .inside (blocks n)
    ⟨block one, branchBody one⟩

/-- All statements up to the end of input. -/
def program : Reader Program := do
  let statements ← statementsUntil List.isEmpty (statement .top (blocks maxNesting)) (← left) []
  pure ⟨statements⟩

end Pseudocode.Reader

namespace Pseudocode

/-- What a reader makes of a stream of tokens, with the tokens it left. -/
def TokenStream.read (s : TokenStream) (reader : Reader α) : Except SyntaxError (α × List Token) :=
  (reader.run s.finish).run s.tokens

end Pseudocode
