import Pseudocode.DataType
import Pseudocode.Token

/-!
Programs as trees. Every node keeps the place it was read from: that of its first token, and for a
binary operator that of the operator.
-/

namespace Pseudocode

inductive Literal where
  | number (value : Float)
  | string (value : String)
  | char (value : Char)
  | boolean (value : Bool)
  | null
deriving DecidableEq, Repr

inductive BinaryOperator where
  | add | sub | mul | div | intDiv | mod | concat
  | eq | ne | lt | le | gt | ge
  | and | or
deriving DecidableEq, Repr

def BinaryOperator.symbol : BinaryOperator → String
  | .add => "+"
  | .sub => "-"
  | .mul => "*"
  | .div => "/"
  | .intDiv => "DIV"
  | .mod => "MOD"
  | .concat => "&"
  | .eq => "="
  | .ne => "<>"
  | .lt => "<"
  | .le => "<="
  | .gt => ">"
  | .ge => ">="
  | .and => "AND"
  | .or => "OR"

inductive UnaryOperator where
  | negate
  | not
deriving DecidableEq, Repr

inductive PassMode where
  | byValue
  | byReference
deriving DecidableEq, Repr

def PassMode.keyword : PassMode → String
  | .byValue => "BYVAL"
  | .byReference => "BYREF"

inductive FileMode where
  | read
  | write
  | append
deriving DecidableEq, Repr

def FileMode.keyword : FileMode → String
  | .read => "READ"
  | .write => "WRITE"
  | .append => "APPEND"

inductive Expr where
  | literal (value : Literal) (location : Location)
  | identifier (name : String) (location : Location)
  | element (name : String) (indices : List Expr) (location : Location)
  | binary (op : BinaryOperator) (left right : Expr) (location : Location)
  | unary (op : UnaryOperator) (operand : Expr) (location : Location)
  | call (name : String) (args : List Expr) (location : Location)
  | addressOf (operand : Expr) (location : Location)
  | dereference (operand : Expr) (location : Location)
  | allocate (size : Expr) (tag : Option DataType) (location : Location)
  | sizeOf (type : DataType) (location : Location)
  | endOfFile (file : Expr) (location : Location)
deriving Repr

def Expr.location : Expr → Location
  | .literal _ l | .identifier _ l | .element _ _ l | .binary _ _ _ l | .unary _ _ l | .call _ _ l
  | .addressOf _ l | .dereference _ l | .allocate _ _ l | .sizeOf _ l | .endOfFile _ l => l

def Expr.line (e : Expr) : Nat := e.location.line

structure Param where
  name : String
  type : DataType
  mode : PassMode
deriving DecidableEq, Repr

/-- What a branch of a CASE statement selects. -/
inductive CaseLabel where
  | value (literal : Literal)
  | range (low high : Literal)
deriving DecidableEq, Repr

structure CaseBranch (σ : Type) where
  label : CaseLabel
  body : List σ
  location : Location
deriving Repr

/-- A procedure, or a function if it returns something. -/
structure Definition (σ : Type) where
  name : String
  params : List Param
  returns : Option DataType
  body : List σ
  location : Location
deriving Repr

def Definition.isFunction (d : Definition σ) : Bool := d.returns.isSome

inductive Stmt where
  | declare (name : String) (type : DataType) (location : Location)
  | constant (name : String) (value : Expr) (location : Location)
  | assign (target value : Expr) (location : Location)
  | output (items : List Expr) (location : Location)
  | input (target : Expr) (location : Location)
  | ifThen (condition : Expr) (thenBranch : List Stmt) (elseBranch : Option (List Stmt)) (location : Location)
  | whileDo (condition : Expr) (body : List Stmt) (location : Location)
  | repeatUntil (body : List Stmt) (condition : Expr) (location : Location)
  | forTo (counter : String) (start stop : Expr) (step : Option Expr) (body : List Stmt) (location : Location)
  | caseOf (subject : Expr) (branches : List (CaseBranch Stmt)) (otherwise : Option (List Stmt))
      (location : Location)
  | define (definition : Definition Stmt)
  | call (name : String) (args : List Expr) (location : Location)
  | giveBack (value : Option Expr) (location : Location)
  | openFile (file : Expr) (mode : FileMode) (location : Location)
  | readFile (file target : Expr) (location : Location)
  | writeFile (file value : Expr) (location : Location)
  | closeFile (file : Expr) (location : Location)
  | free (pointer : Expr) (location : Location)
deriving Repr

def Stmt.location : Stmt → Location
  | .declare _ _ l | .constant _ _ l | .assign _ _ l | .output _ l | .input _ l | .ifThen _ _ _ l
  | .whileDo _ _ l | .repeatUntil _ _ l | .forTo _ _ _ _ _ l | .caseOf _ _ _ l | .call _ _ l | .giveBack _ l
  | .openFile _ _ l | .readFile _ _ l | .writeFile _ _ l | .closeFile _ l | .free _ l => l
  | .define d => d.location

def Stmt.line (s : Stmt) : Nat := s.location.line

structure Program where
  statements : List Stmt
deriving Repr

/-- The procedures and functions of a program, in source order. -/
def Program.definitions (p : Program) : List (Definition Stmt) :=
  p.statements.filterMap fun
    | .define d => some d
    | _ => none

end Pseudocode
