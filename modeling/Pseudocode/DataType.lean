/-!
Declared types, array bounds, and how many arena slots a type takes. Sizes saturate at the largest
64-bit word.
-/

namespace Pseudocode

/-- The largest 64-bit word. -/
def wordMax : Nat := Nat.pow 2 64 - 1

/-- An inclusive range of array indices. -/
structure Bounds where
  lower : Int
  upper : Int
deriving DecidableEq, Repr

namespace Bounds

/-- How many indices there are; none if the ends are crossed. -/
def width (b : Bounds) : Nat := (b.upper - b.lower + 1).toNat

/-- The width as a 64-bit word. -/
def length (b : Bounds) : Nat := min wordMax b.width

def isEmpty (b : Bounds) : Bool := b.length == 0

def contains (b : Bounds) (index : Int) : Bool := b.lower ≤ index && index ≤ b.upper

def render (b : Bounds) : String := s!"{b.lower}:{b.upper}"

/-- The number of index tuples of a list of dimensions, as long as the products stay within a 64-bit
word. -/
def cellCount? (dims : List Bounds) : Option Nat :=
  dims.foldlM (fun count b => if count * b.length ≤ wordMax then some (count * b.length) else none) 1

end Bounds

inductive DataType where
  | integer
  | real
  | string
  | char
  | boolean
  | array (dims : List Bounds) (element : DataType)
  | pointer (target : DataType)
deriving DecidableEq, Repr

namespace DataType

/-- The scalar type a reserved word names. -/
def ofKeyword? : String → Option DataType
  | "INTEGER" => some .integer
  | "REAL" => some .real
  | "STRING" => some .string
  | "CHAR" => some .char
  | "BOOLEAN" => some .boolean
  | _ => none

/-- A type in the notation of declarations. -/
def render : DataType → String
  | .integer => "INTEGER"
  | .real => "REAL"
  | .string => "STRING"
  | .char => "CHAR"
  | .boolean => "BOOLEAN"
  | .array [] element => s!"ARRAY OF {render element}"
  | .array dims element =>
    "ARRAY[" ++ String.intercalate ", " (dims.map Bounds.render) ++ "] OF " ++ render element
  | .pointer target => s!"POINTER TO {render target}"

def isNumeric : DataType → Bool
  | .integer | .real => true
  | _ => false

def isPointer : DataType → Bool
  | .pointer _ => true
  | _ => false

def isArray : DataType → Bool
  | .array _ _ => true
  | _ => false

/-- Multiplication that stops at the largest word. -/
def saturatingMul (a b : Nat) : Nat := min wordMax (a * b)

/-- The number of arena slots a value of the type takes. -/
def size : DataType → Nat
  | .integer => 4
  | .real => 8
  | .char | .boolean => 1
  | .string => 256
  | .pointer _ => 4
  | .array dims element => dims.foldl (fun total b => saturatingMul total b.length) (size element)

end DataType

end Pseudocode
