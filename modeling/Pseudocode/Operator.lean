import Pseudocode.RuntimeError

/-!
What the operators make of their operands. Errors carry no line here; the expression knows it.
-/

namespace Pseudocode

namespace Value

/-- Equality as programs see it: a number and a text are equal if the text reads as that number. -/
def equals : Value → Value → Bool
  | .number x, .text s | .text s, .number x => (Number.read? (Text.trim s)).any (· == x)
  | v, w => same v w

/-- The order of two numbers, two texts or two addresses. Other values, and a NaN, have none. -/
def order? : Value → Value → Option Ordering
  | .number x, .number y =>
    if x < y then some .lt else if x == y then some .eq else if y < x then some .gt else none
  | .text s, .text t => some (compareOfLessAndEq s t)
  | .address a, .address b => some (compare a b)
  | _, _ => none

/-- The sum of two 128-bit integers, if it is one of them. -/
def checkedSum (i j : Int) : Option Int :=
  if -Int.pow 2 127 ≤ i + j ∧ i + j ≤ Int.pow 2 127 - 1 then some (i + j) else none

/-- An integer as an address, if it is one of the 64-bit words. -/
def toWord? (i : Int) : Option Nat := if 0 ≤ i ∧ i ≤ wordMax then some i.toNat else none

/-- The address `offset` slots further on. An offset beyond the 128-bit integers counts as the last of them on
its side, which leads out of the words as well. -/
def offsetAddress (a : Nat) (offset : Float) : Except Cause Value :=
  if !Number.isWhole offset then .error (.typeMismatch (.fractionalOffset offset))
  else
    match (checkedSum a (Number.toInt128 offset)).bind toWord? with
    | some b => .ok (.address b)
    | none => .error (.invalidArgument (.outsideAddressSpace a offset))

end Value

namespace BinaryOperator

def mismatch (op : BinaryOperator) (l r : Value) : Except Cause α :=
  .error (.typeMismatch (.operands op l.kind r.kind))

/-- An operation that takes two numbers only. -/
def arithmetic (op : BinaryOperator) (f : Float → Float → Except Cause Float) (l r : Value) :
    Except Cause Value :=
  match l, r with
  | .number x, .number y => .number <$> f x y
  | _, _ => op.mismatch l r

/-- A division, which does not take zero as its divisor. -/
def division (name : String) (f : Float → Float → Float) (x y : Float) : Except Cause Float :=
  if y == 0 then .error (.divisionByZero name) else .ok (f x y)

/-- A comparison of values that have an order. -/
def comparison (op : BinaryOperator) (test : Ordering → Bool) (l r : Value) : Except Cause Value :=
  match l.order? r with
  | some o => .ok (.boolean (test o))
  | none => op.mismatch l r

/-- The value of an operator applied to two values. DIV and the sign of MOD go toward zero. -/
def apply (op : BinaryOperator) (l r : Value) : Except Cause Value :=
  match op with
  | .add =>
    match l, r with
    | .number x, .number y => .ok (.number (x + y))
    | .address a, .number x | .number x, .address a => Value.offsetAddress a x
    | _, _ => op.mismatch l r
  | .sub =>
    match l, r with
    | .number x, .number y => .ok (.number (x - y))
    | .address a, .number x => Value.offsetAddress a (-x)
    | .address a, .address b => .ok (.number (Float.ofNat a - Float.ofNat b))
    | _, _ => op.mismatch l r
  | .mul => op.arithmetic (fun x y => .ok (x * y)) l r
  | .div => op.arithmetic (division "Division" (· / ·)) l r
  | .intDiv => op.arithmetic (division "DIV" fun x y => Number.trunc (x / y)) l r
  | .mod => op.arithmetic (division "MOD" Number.remainder) l r
  | .concat => if l.isArray || r.isArray then op.mismatch l r else .ok (.text (l.display ++ r.display))
  | .eq => .ok (.boolean (l.equals r))
  | .ne => .ok (.boolean (!l.equals r))
  | .lt => op.comparison (· == .lt) l r
  | .le => op.comparison (· != .gt) l r
  | .gt => op.comparison (· == .gt) l r
  | .ge => op.comparison (· != .lt) l r
  | .and =>
    match l, r with
    | .boolean a, .boolean b => .ok (.boolean (a && b))
    | _, _ => op.mismatch l r
  | .or =>
    match l, r with
    | .boolean a, .boolean b => .ok (.boolean (a || b))
    | _, _ => op.mismatch l r

/-- The left operand that decides AND and OR by itself. -/
def decides : BinaryOperator → Bool → Bool
  | .and, b => !b
  | .or, b => b
  | _, _ => false

def isLogical : BinaryOperator → Bool
  | .and | .or => true
  | _ => false

/-- An operand of AND or OR. -/
def logicalOperand (op : BinaryOperator) : Value → Except Cause Bool
  | .boolean b => .ok b
  | v => .error (.typeMismatch (.logical op v.kind))

end BinaryOperator

def UnaryOperator.apply : UnaryOperator → Value → Except Cause Value
  | .negate, .number x => .ok (.number (-x))
  | .not, .boolean b => .ok (.boolean (!b))
  | .negate, v => .error (.typeMismatch (.negation v.kind))
  | .not, v => .error (.typeMismatch (.complement v.kind))

/-- Whether a label of a CASE statement selects a value. A range compares numbers if all three read
as numbers, and else texts. -/
def CaseLabel.selects (label : CaseLabel) (v : Value) : Bool :=
  match label with
  | .value literal => v.equals (.ofLiteral literal)
  | .range low high =>
    let low := Value.ofLiteral low
    let high := Value.ofLiteral high
    match v.asNumber?, low.asNumber?, high.asNumber? with
    | some x, some l, some h => l ≤ x && x ≤ h
    | _, _, _ =>
      match v, low, high with
      | .text s, .text l, .text h => l ≤ s && s ≤ h
      | _, _, _ => false

end Pseudocode
