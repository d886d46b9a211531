import Pseudocode.RuntimeError
import Pseudocode.Text.Casing

/-!
The built-in functions. Text is measured and cut in characters. The random ones are given the number
that they draw.
-/

namespace Pseudocode

inductive Builtin where
  | length | left | right | mid | upperCase | lowerCase
  | int | round | numberToString | stringToNumber | isNumber
  | code | char | rand | random
deriving DecidableEq, Repr

namespace Builtin

def all : List Builtin :=
  [.length, .left, .right, .mid, .upperCase, .lowerCase, .int, .round, .numberToString, .stringToNumber,
    .isNumber, .code, .char, .rand, .random]

def name : Builtin → String
  | .length => "LENGTH"
  | .left => "LEFT"
  | .right => "RIGHT"
  | .mid => "MID"
  | .upperCase => "UCASE"
  | .lowerCase => "LCASE"
  | .int => "INT"
  | .round => "ROUND"
  | .numberToString => "NUM_TO_STR"
  | .stringToNumber => "STR_TO_NUM"
  | .isNumber => "IS_NUM"
  | .code => "ASC"
  | .char => "CHR"
  | .rand => "RAND"
  | .random => "RANDOM"

def ofName? (name : String) : Option Builtin := all.find? (·.name == name)

def arity : Builtin → Nat
  | .random => 0
  | .left | .right | .round => 2
  | .mid => 3
  | _ => 1

/-- Whether a random number is drawn. -/
def draws : Builtin → Bool
  | .rand | .random => true
  | _ => false

def refuse (b : Builtin) (complaint : BuiltinComplaint) : Except Cause α :=
  .error (.invalidArgument (.builtin b.name complaint))

/-- The text in an argument; positions count from one. -/
def textAt (b : Builtin) (position : Nat) : Value → Except Cause String
  | .text s => .ok s
  | v => .error (.typeMismatch (.builtinArgument b.name position "STRING" v.kind))

def numberAt (b : Builtin) (position : Nat) : Value → Except Cause Float
  | .number x => .ok x
  | v => .error (.typeMismatch (.builtinArgument b.name position "number" v.kind))

/-- The whole number in an argument, as a 64-bit integer. -/
def wholeAt (b : Builtin) (position : Nat) (v : Value) : Except Cause Int := do
  let x ← b.numberAt position v
  if Number.isWhole x then pure (Number.toInt64 x) else b.refuse (.notWhole position)

/-- The number of characters in an argument, at most `max`. -/
def countAt (b : Builtin) (position max : Nat) (v : Value) : Except Cause Nat := do
  let n ← b.wholeAt position v
  if n < 0 ∨ max < n then b.refuse (.length n max) else pure n.toNat

/-- The first `n` characters. -/
def takeLeft (n : Nat) (s : String) : String := String.ofList (s.toList.take n)

/-- All but the first `n` characters. -/
def dropLeft (n : Nat) (s : String) : String := String.ofList (s.toList.drop n)

def leftOf (b : Builtin) (s n : Value) : Except Cause Value := do
  let s ← b.textAt 1 s
  let n ← b.countAt 2 s.length n
  pure (.text (takeLeft n s))

def rightOf (b : Builtin) (s n : Value) : Except Cause Value := do
  let s ← b.textAt 1 s
  let n ← b.countAt 2 s.length n
  pure (.text (dropLeft (s.length - n) s))

def midOf (b : Builtin) (s start n : Value) : Except Cause Value := do
  let s ← b.textAt 1 s
  let start ← b.wholeAt 2 start
  if start < 1 ∨ max s.length 1 < start then b.refuse (.start start s.length)
  let skipped := start.toNat - 1
  let n ← b.countAt 3 (s.length - skipped) n
  pure (.text (takeLeft n (dropLeft skipped s)))

def roundOf (b : Builtin) (x places : Value) : Except Cause Value := do
  let x ← b.numberAt 1 x
  let places ← b.wholeAt 2 places
  if places < 0 ∨ 15 < places then b.refuse (.places places)
  let factor := Number.tenPower places.toNat
  pure (.number (Number.round (x * factor) / factor))

def stringToNumberOf (b : Builtin) (s : Value) : Except Cause Value := do
  let s ← b.textAt 1 s
  match Number.read? (Text.trim s) with
  | some x => pure (.number x)
  | none => b.refuse (.notNumeric s)

def codeOf (b : Builtin) (s : Value) : Except Cause Value := do
  let s ← b.textAt 1 s
  match s.toList with
  | [c] => pure (.number (Float.ofNat c.toNat))
  | _ => b.refuse (.notSingle s)

def charOf (b : Builtin) (n : Value) : Except Cause Value := do
  let n ← b.wholeAt 1 n
  if 0 ≤ n ∧ n.toNat.isValidChar then pure (.text (String.singleton (Char.ofNat n.toNat)))
  else b.refuse (.notCode n)

/-- The part `draw` of the way from zero to the upper bound, which is not reached. -/
def randOf (b : Builtin) (draw : Float) (upper : Value) : Except Cause Value := do
  let upper ← b.numberAt 1 upper
  if upper.isFinite && 0 < upper then
    let x := draw * upper
    pure (.number (if x < upper then x else 0))
  else b.refuse (.upperBound upper)

/-- The value of a built-in function. `draw` is a random number from zero to below one. -/
def apply (b : Builtin) (draw : Float) (args : List Value) : Except Cause Value :=
  match b, args with
  | .length, [s] => do return .number (Float.ofNat (← b.textAt 1 s).length)
  | .left, [s, n] => b.leftOf s n
  | .right, [s, n] => b.rightOf s n
  | .mid, [s, start, n] => b.midOf s start n
  | .upperCase, [s] => do return .text (Text.upper (← b.textAt 1 s))
  | .lowerCase, [s] => do return .text (Text.lower (← b.textAt 1 s))
  | .int, [x] => do return .number (Number.trunc (← b.numberAt 1 x))
  | .round, [x, places] => b.roundOf x places
  | .numberToString, [x] => do return .text (Number.display (← b.numberAt 1 x))
  | .stringToNumber, [s] => b.stringToNumberOf s
  | .isNumber, [s] => do return .boolean (Number.read? (Text.trim (← b.textAt 1 s))).isSome
  | .code, [s] => b.codeOf s
  | .char, [n] => b.charOf n
  | .rand, [upper] => b.randOf draw upper
  | .random, [] => .ok (.number draw)
  | _, _ => .error (.argumentCount b.name b.arity args.length)

end Builtin

end Pseudocode
