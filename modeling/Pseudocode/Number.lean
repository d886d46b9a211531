/-!
Numbers of the language are 64-bit binary floating-point values. This module reads such a value
exactly, as a sign, a mantissa and a power of two, and builds the whole-number operations on that
view: the test for whole numbers, conversion to integers, rounding to a whole number and the
remainder.
-/

namespace Pseudocode.Number

/-- A finite number `± mantissa * 2 ^ exponent`. -/
structure Parts where
  negative : Bool
  mantissa : Nat
  exponent : Int
deriving DecidableEq, Repr

/-- The exact parts of a finite number; infinities and NaN have none. -/
def parts? (x : Float) : Option Parts :=
  let bits := x.toBits.toNat
  let negative := decide (Nat.pow 2 63 ≤ bits)
  let field : Nat := bits / Nat.pow 2 52 % Nat.pow 2 11
  let fraction := bits % Nat.pow 2 52
  if field = Nat.pow 2 11 - 1 then none
  else if field = 0 then some ⟨negative, fraction, -1074⟩
  else some ⟨negative, fraction + Nat.pow 2 52, (field : Int) - 1075⟩

namespace Parts

/-- The divisor that separates the fraction bits from the whole bits. -/
def denominator (p : Parts) : Nat := Nat.pow 2 (-p.exponent).toNat

/-- The magnitude without its fraction. -/
def wholeMagnitude (p : Parts) : Nat := p.mantissa * Nat.pow 2 p.exponent.toNat / p.denominator

/-- No fraction bit is set. -/
def isWhole (p : Parts) : Bool := p.mantissa % p.denominator == 0

/-- The fraction is at least one half. -/
def halfOrMore (p : Parts) : Bool := p.denominator ≤ 2 * (p.mantissa % p.denominator)

/-- The integer next to the number on the side of zero. -/
def truncated (p : Parts) : Int :=
  if p.negative then -(p.wholeMagnitude : Int) else p.wholeMagnitude

end Parts

/-- The integer a number denotes, if it denotes one. -/
def whole? (x : Float) : Option Int :=
  match parts? x with
  | none => none
  | some p => if p.isWhole then some p.truncated else none

def isWhole (x : Float) : Bool := (whole? x).isSome

/-- Conversion to the integers between `low` and `high`: toward zero, a number beyond an end becomes
that end, and NaN becomes zero. -/
def clamp (low high : Int) (x : Float) : Int :=
  match parts? x with
  | some p => max low (min high p.truncated)
  | none => if x.isNaN then 0 else if x < 0 then low else high

/-- Signed 64-bit conversion. -/
def toInt64 (x : Float) : Int := clamp (-Int.pow 2 63) (Int.pow 2 63 - 1) x

/-- The negation of a signed 64-bit integer; that of the least one is itself. -/
def negate64 (k : Int) : Int := if k = -Int.pow 2 63 then k else -k

/-- Unsigned 64-bit conversion. -/
def toWord64 (x : Float) : Nat := (clamp 0 (Int.pow 2 64 - 1) x).toNat

/-- Signed 128-bit conversion. -/
def toInt128 (x : Float) : Int := clamp (-Int.pow 2 127) (Int.pow 2 127 - 1) x

/-- A magnitude with a sign; zero keeps its sign too. -/
def signed (negative : Bool) (magnitude : Float) : Float :=
  if negative then -magnitude else magnitude

/-- The whole number next to `x` on the side of zero. -/
def trunc (x : Float) : Float :=
  match parts? x with
  | none => x
  | some p => if p.isWhole then x else signed p.negative (Float.ofNat p.wholeMagnitude)

/-- The largest whole number not above `x`. -/
def floor (x : Float) : Float :=
  match parts? x with
  | none => x
  | some p =>
    if p.isWhole then x
    else if p.negative then -(Float.ofNat (p.wholeMagnitude + 1))
    else Float.ofNat p.wholeMagnitude

/-- The whole number nearest to `x`; a half goes away from zero. -/
def round (x : Float) : Float :=
  match parts? x with
  | none => x
  | some p =>
    if p.isWhole then x
    else if p.halfOrMore then signed p.negative (Float.ofNat (p.wholeMagnitude + 1))
    else signed p.negative (Float.ofNat p.wholeMagnitude)

/-- The number `± mantissa * 2 ^ exponent`, for a mantissa below `2 ^ 53` and an exponent from -1074
whose product is in range. -/
def ofParts (p : Parts) : Float :=
  let lead := p.mantissa.log2
  let bits : Nat :=
    if p.mantissa = 0 then 0
    else if (lead : Int) + p.exponent < -1022 then p.mantissa * Nat.pow 2 (p.exponent + 1074).toNat
    else
      let field := ((lead : Int) + p.exponent + 1023).toNat
      field * Nat.pow 2 52 + (p.mantissa * Nat.pow 2 (52 - lead) - Nat.pow 2 52)
  signed p.negative (Float.ofBits (UInt64.ofNat bits))

def notANumber : Float := 0.0 / 0.0

/-- What is left of `x` after taking away the largest multiple of `y` toward zero; it has the sign
of `x`, and is exact. -/
def remainder (x y : Float) : Float :=
  match parts? x with
  | none => notANumber
  | some p =>
    match parts? y with
    | none => if y.isNaN then notANumber else x
    | some q =>
      if q.mantissa = 0 then notANumber
      else
        let low := min p.exponent q.exponent
        let dividend := p.mantissa * Nat.pow 2 (p.exponent - low).toNat
        let divisor := q.mantissa * Nat.pow 2 (q.exponent - low).toNat
        ofParts ⟨p.negative, dividend % divisor, low⟩

/-- Ten to the power `n`, exact for `n ≤ 22`. -/
def tenPower (n : Nat) : Float := Float.ofNat (Nat.pow 10 n)

end Pseudocode.Number
