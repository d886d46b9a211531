import Pseudocode.Number
import Pseudocode.Syntax
import Pseudocode.Syntax.Reader

/-!
Readers of type clauses and expressions. From loosest to tightest the levels are OR, AND, NOT,
comparison (which does not chain), sum, product, prefix operators and primaries; operators of one
level group to the left. The readers of one nesting level are built from those of the level inside,
so the depth limit is also what ends the recursion.
-/

namespace Pseudocode.Reader

variable {m : Type → Type}

/-- Readers that may be entered one level deeper. -/
structure Nested (m : Type → Type) where
  expression : m Expr
  negation : m Expr
  unary : m Expr
  type : m DataType

section Rules

variable [Monad m] [Cursor m]

/-- One end of a dimension: a whole number literal, which may be negated. Bounds are 64-bit
integers, and a literal beyond them stands for the nearest. -/
def bound : m Int := do
  let start ← place
  let negative ← acceptOperator "-"
  match ← peek with
  | some ⟨.number n, _, _⟩ =>
    if Number.isWhole n then
      advance
      let value := Number.toInt64 n
      pure (if negative then Number.negate64 value else value)
    else failAt start (.boundNotLiteral (← found))
  | _ => failAt start (.boundNotLiteral (← found))

def bounds : m Bounds := do
  let lower ← bound
  expectKind .colon "':' between array bounds"
  let upper ← bound
  pure ⟨lower, upper⟩

/-- The bounds of an array in brackets, if they are given. -/
def dimensions : m (List Bounds) := do
  if ← accept (isKind .leftBracket) then
    let dims ← commaList bounds
    expectKind .rightBracket "']' after array bounds"
    pure dims
  else pure []

def typeClause (inner : Nested m) : m DataType := do
  let start ← place
  match ← peek with
  | none => expected "type"
  | some t =>
    match if t.kind = .keyword then DataType.ofKeyword? t.text else none with
    | some scalar =>
      advance
      pure scalar
    | none =>
      if ← acceptKeyword "ARRAY" then
        let dims ← dimensions
        expectKeyword "OF" "after array bounds"
        let element ← inner.type
        if element.isArray then failAt start .arrayOfArrays
        pure (.array dims element)
      else if ← acceptKeyword "POINTER" then
        expectKeyword "TO" "after 'POINTER'"
        return .pointer (← inner.type)
      else if ← acceptOperator "^" then
        return .pointer (← inner.type)
      else expected "type"

/-- Arguments in parentheses, possibly none. -/
def arguments (inner : Nested m) : m (List Expr) := do
  expectKind .leftParen "'(' before arguments"
  if ← accept (isKind .rightParen) then pure []
  else
    let args ← commaList inner.expression
    expectKind .rightParen "')' after arguments"
    pure args

/-- What an identifier starts: a call, an array element, or a variable. -/
def named (inner : Nested m) (name : String) (start : Location) : m Expr := do
  if ← check (isKind .leftParen) then
    return .call name (← arguments inner) start
  else if ← accept (isKind .leftBracket) then
    let indices ← commaList inner.expression
    expectKind .rightBracket "']' after array indices"
    pure (.element name indices start)
  else pure (.identifier name start)

def allocation (inner : Nested m) (start : Location) : m Expr := do
  expectKind .leftParen "'(' after MALLOC"
  let size ← inner.expression
  let tag ← if ← accept (isKind .comma) then some <$> typeClause inner else pure none
  expectKind .rightParen "')' after MALLOC arguments"
  pure (.allocate size tag start)

def typeSize (inner : Nested m) (start : Location) : m Expr := do
  expectKind .leftParen "'(' after SIZE_OF"
  let type ← typeClause inner
  expectKind .rightParen "')' after SIZE_OF type"
  pure (.sizeOf type start)

def endOfFile (inner : Nested m) (start : Location) : m Expr := do
  expectKind .leftParen "'(' after EOF"
  let file ← inner.expression
  expectKind .rightParen "')' after EOF file name"
  pure (.endOfFile file start)

/-- What a reserved word starts inside an expression; the word itself has not been taken. -/
def reserved (inner : Nested m) (word : String) (start : Location) : m Expr :=
  match word with
  | "TRUE" => do advance; pure (.literal (.boolean true) start)
  | "FALSE" => do advance; pure (.literal (.boolean false) start)
  | "NULL" => do advance; pure (.literal .null start)
  | "MALLOC" => do advance; allocation inner start
  | "SIZE_OF" => do advance; typeSize inner start
  | "EOF" => do advance; endOfFile inner start
  | _ => expected "expression"

/-- The character of a character literal. -/
def literalChar (text : String) : Char := text.toList.headD '\x00'

def primary (inner : Nested m) : m Expr := do
  match ← peek with
  | none => expected "expression"
  | some t =>
    match t.kind with
    | .number n =>
      advance
      pure (.literal (.number n) t.location)
    | .string =>
      advance
      pure (.literal (.string t.text) t.location)
    | .char =>
      advance
      pure (.literal (.char (literalChar t.text)) t.location)
    | .leftParen =>
      advance
      let e ← inner.expression
      expectKind .rightParen "')' after expression"
      pure e
    | .identifier =>
      advance
      named inner t.text t.location
    | .keyword => reserved inner t.text t.location
    | _ => expected "expression"

/-- A sign, an address or a dereference, or a primary. -/
def unary (inner : Nested m) : m Expr := do
  let start ← place
  if ← acceptOperator "-" then return .unary .negate (← inner.unary) start
  else if ← acceptOperator "&" then return .addressOf (← inner.unary) start
  else if ← acceptOperator "*" then return .dereference (← inner.unary) start
  else primary inner

/-- The operator of a level that a token stands for. -/
abbrev OperatorClass := Token → Option BinaryOperator

def productOperator : OperatorClass := fun t =>
  match t.kind, t.text with
  | .operator, "*" => some .mul
  | .operator, "/" => some .div
  | .keyword, "DIV" => some .intDiv
  | .keyword, "MOD" => some .mod
  | _, _ => none

def sumOperator : OperatorClass := fun t =>
  match t.kind, t.text with
  | .operator, "+" => some .add
  | .operator, "-" => some .sub
  | .operator, "&" => some .concat
  | _, _ => none

def comparisonOperator : OperatorClass := fun t =>
  match t.kind, t.text with
  | .operator, "=" => some .eq
  | .operator, "<>" => some .ne
  | .operator, "<" => some .lt
  | .operator, "<=" => some .le
  | .operator, ">" => some .gt
  | .operator, ">=" => some .ge
  | _, _ => none

def andOperator : OperatorClass := fun t => if t.isKeyword "AND" then some .and else none

def orOperator : OperatorClass := fun t => if t.isKeyword "OR" then some .or else none

/-- Takes an operator of a class, with its place. -/
def acceptOf (operators : OperatorClass) : m (Option (BinaryOperator × Location)) := do
  match ← peek with
  | none => pure none
  | some t =>
    match operators t with
    | none => pure none
    | some op =>
      advance
      pure (some (op, t.location))

/-- Further operands, grouped to the left. `n` bounds the tokens left: when none is left, the chain
ends. -/
def chainFrom (operators : OperatorClass) (operand : m Expr) : Nat → Expr → m Expr
  | 0, left => exhausted (pure left)
  | n + 1, left => do
    match ← acceptOf operators with
    | none => pure left
    | some (op, location) =>
      let right ← operand
      chainFrom operators operand n (.binary op left right location)

/-- Operands of one level with its operators between them. -/
def chain (operators : OperatorClass) (operand : m Expr) : m Expr := do
  let first ← operand
  chainFrom operators operand (← left) first

def product (inner : Nested m) : m Expr := chain productOperator (unary inner)

def sum (inner : Nested m) : m Expr := chain sumOperator (product inner)

/-- At most one comparison. -/
def comparison (inner : Nested m) : m Expr := do
  let left ← sum inner
  match ← acceptOf comparisonOperator with
  | none => pure left
  | some (op, location) =>
    let right ← sum inner
    if ← check fun t => (comparisonOperator t).isSome then fail .chainedComparison
    pure (.binary op left right location)

def negation (inner : Nested m) : m Expr := do
  let start ← place
  if ← acceptKeyword "NOT" then return .unary .not (← inner.negation) start
  else comparison inner

def conjunction (inner : Nested m) : m Expr := chain andOperator (negation inner)

def disjunction (inner : Nested m) : m Expr := chain orOperator (conjunction inner)

end Rules

/-- The readers with `n` levels of nesting left. -/
def nested : Nat → Nested Reader
  | 0 => ⟨fail (.tooDeep .expression), fail (.tooDeep .expression), fail (.tooDeep .expression),
      fail (.tooDeep .expression)⟩
  | n + 1 =>
    let inner := nested n
    ⟨disjunction inner, negation inner, unary inner, typeClause inner⟩

/-- The readers at the top of a statement. -/
class Outermost (m : Type → Type) where
  outermost : Nested m

export Outermost (outermost)

instance : Outermost Reader := ⟨nested maxNesting⟩

variable [Monad m] [Cursor m] [Outermost m]

def expression : m Expr := outermost.expression

def type : m DataType := typeClause outermost

/-- A variable, an array element or a dereferenced pointer. -/
def assignable : m Expr := do
  let start ← place
  let target ← unary outermost
  match target with
  | .identifier .. | .element .. | .dereference .. => pure target
  | _ => failAt start .notAssignable

end Pseudocode.Reader
