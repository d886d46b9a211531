import Pseudocode.Grid
import Pseudocode.Number.Decimal
import Pseudocode.Syntax
import Pseudocode.Text

/-!
Values of a running program: their text, their comparison, and which declared types take them. A
value itself is always assigned; what may be unassigned holds an `Option Value`.
-/

namespace Pseudocode

/-- An address as programs print it, in at least four hexadecimal digits. -/
def addressText (a : Nat) : String := "0x" ++ Text.hex 4 a

inductive ValueKind where
  | number
  | string
  | boolean
  | array
  | pointer
deriving DecidableEq, Repr

/-- How messages name a kind of values. -/
def ValueKind.name : ValueKind → String
  | .number => "number"
  | .string => "string"
  | .boolean => "boolean"
  | .array => "array"
  | .pointer => "pointer"

inductive Value where
  | number (x : Float)
  | text (s : String)
  | boolean (b : Bool)
  | array (grid : Grid Value)
  | address (a : Nat)

namespace Value

/-- The address zero. -/
def null : Value := .address 0

def ofLiteral : Literal → Value
  | .number x => .number x
  | .string s => .text s
  | .char c => .text (String.singleton c)
  | .boolean b => .boolean b
  | .null => null

def kind : Value → ValueKind
  | .number _ => .number
  | .text _ => .string
  | .boolean _ => .boolean
  | .array _ => .array
  | .address _ => .pointer

def number? : Value → Option Float
  | .number x => some x
  | _ => none

def text? : Value → Option String
  | .text s => some s
  | _ => none

def boolean? : Value → Option Bool
  | .boolean b => some b
  | _ => none

def address? : Value → Option Nat
  | .address a => some a
  | _ => none

def isArray : Value → Bool
  | .array _ => true
  | _ => false

def isNull : Value → Bool
  | .address 0 => true
  | _ => false

/-- A number as it is, a text read as a number, an address as its number. -/
def asNumber? : Value → Option Float
  | .number x => some x
  | .text s => Number.read? (Text.trim s)
  | .address a => some (Float.ofNat a)
  | _ => none

mutual

/-- The text that a program prints for a value. -/
def display : Value → String
  | .number x => Number.display x
  | .text s => s
  | .boolean true => "TRUE"
  | .boolean false => "FALSE"
  | .address 0 => "NULL"
  | .address a => addressText a
  | .array ⟨_, _, ⟨[]⟩⟩ => "[]"
  | .array ⟨_, _, ⟨cell :: rest⟩⟩ => displayRest ("[" ++ displayCell cell) rest

/-- The text of a cell; an empty one is a question mark. -/
def displayCell : Option Value → String
  | none => "?"
  | some v => display v

/-- The text of a grid, of which `text` is the part before the cells given. -/
def displayRest (text : String) : List (Option Value) → String
  | [] => text ++ "]"
  | cell :: rest => displayRest (text ++ ", " ++ displayCell cell) rest

end

mutual

/-- Equality of values: numbers compare as numbers, so that no NaN equals itself, and grids by
dimensions, element type and cells. -/
def same : Value → Value → Bool
  | .number x, .number y => x == y
  | .text s, .text t => s == t
  | .boolean a, .boolean b => a == b
  | .address a, .address b => a == b
  | .array ⟨dims, element, ⟨cells⟩⟩, .array ⟨dims', element', ⟨cells'⟩⟩ =>
    dims == dims' && element == element' && sameCells cells cells'
  | _, _ => false

def sameCell : Option Value → Option Value → Bool
  | none, none => true
  | some v, some w => same v w
  | _, _ => false

def sameCells : List (Option Value) → List (Option Value) → Bool
  | [], [] => true
  | c :: cs, d :: ds => sameCell c d && sameCells cs ds
  | _, _ => false

end

/-- Whether something declared with a type may hold a value. An INTEGER takes whole numbers and a
CHAR single characters; an array must have the dimensions declared, if any are. -/
def conforms : DataType → Value → Bool
  | .integer, .number x => Number.isWhole x
  | .real, .number _ => true
  | .string, .text _ => true
  | .char, .text s => s.length == 1
  | .boolean, .boolean _ => true
  | .pointer _, .address _ => true
  | .array dims _, .array g => dims.isEmpty || g.dims == dims
  | _, _ => false

end Value

end Pseudocode
