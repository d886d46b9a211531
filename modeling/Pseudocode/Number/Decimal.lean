import Pseudocode.Number

/-!
Decimal text of numbers. Writing takes the fewest digits that read back as the same number and, of
those, the nearest; an exact tie goes up. The notation is always positional. Reading accepts a sign,
digits with a point anywhere among them, an exponent, and the words for the infinities and NaN.
-/

namespace Pseudocode.Number

/-- The number `digits * 10 ^ exponent`. -/
structure Decimal where
  digits : Nat
  exponent : Int
deriving DecidableEq, Repr

namespace Decimal

/-- A positive number and the ends of the interval of reals that round to it, all in units of
`2 ^ exponent`; the ends belong to the interval iff `closed`. -/
structure Interval where
  low : Nat
  value : Nat
  high : Nat
  exponent : Int
  closed : Bool
deriving DecidableEq, Repr

/-- The rounding interval of `mantissa * 2 ^ exponent`. The gap below a power of two is half as
wide, unless it is the smallest normal number. -/
def Interval.of (p : Parts) : Interval where
  low := if p.mantissa = Nat.pow 2 52 ∧ p.exponent ≠ -1074 then 4 * p.mantissa - 1 else 4 * p.mantissa - 2
  value := 4 * p.mantissa
  high := 4 * p.mantissa + 2
  exponent := p.exponent - 2
  closed := p.mantissa % 2 == 0

/-- How many times the unit of the grid of multiples of `10 ^ place` goes into one unit of the
interval is `scale / unit`. -/
def gridScale (i : Interval) (place : Int) : Nat := Nat.pow 2 i.exponent.toNat * Nat.pow 10 (-place).toNat

def gridUnit (i : Interval) (place : Int) : Nat := Nat.pow 2 (-i.exponent).toNat * Nat.pow 10 place.toNat

/-- Whether `digits * 10 ^ place` lies in the interval. -/
def Interval.holds (i : Interval) (place : Int) (digits : Nat) : Bool :=
  let point := digits * gridUnit i place
  let low := i.low * gridScale i place
  let high := i.high * gridScale i place
  if i.closed then low ≤ point && point ≤ high else low < point && point < high

/-- The nearest point of the grid `10 ^ place` that lies in the interval; a tie goes up. -/
def nearestOn (i : Interval) (place : Int) : Option Nat :=
  let value := i.value * gridScale i place
  let unit := gridUnit i place
  let below := value / unit
  let upper := below + 1
  if i.holds place upper && (!i.holds place below || unit ≤ 2 * (value % unit)) then some upper
  else if i.holds place below then some below
  else none

/-- Tries grids from `10 ^ place` downward, each ten times finer; `tries` of them. -/
def coarsest (i : Interval) : Nat → Int → Decimal
  | 0, place => ⟨i.value * gridScale i place / gridUnit i place, place⟩
  | tries + 1, place =>
    match nearestOn i place with
    | some digits => ⟨digits, place⟩
    | none => coarsest i tries (place - 1)

/-- The shortest decimal that reads back as a positive number. The search starts above the number's
leading digit, and seventeen digits always suffice. -/
def shortest (p : Parts) : Decimal :=
  let lead := (p.mantissa.log2 : Int) + p.exponent
  coarsest (Interval.of p) 24 (lead * 30103 / 100000 + 1)

/-- Positional notation: no exponent, and no point when nothing follows it. -/
def positional (d : Decimal) : List Char :=
  let digits := Nat.toDigits 10 d.digits
  let places := (-d.exponent).toNat
  if places = 0 then digits ++ List.replicate d.exponent.toNat '0'
  else if places < digits.length then
    digits.take (digits.length - places) ++ '.' :: digits.drop (digits.length - places)
  else '0' :: '.' :: (List.replicate (places - digits.length) '0' ++ digits)

end Decimal

/-- The text of a number. -/
def text (x : Float) : String :=
  match parts? x with
  | none => if x.isNaN then "NaN" else if x < 0 then "-inf" else "inf"
  | some p =>
    let magnitude := if p.mantissa = 0 then ['0'] else (Decimal.shortest p).positional
    String.ofList (if p.negative then '-' :: magnitude else magnitude)

/-- The text of a number with its sign always written, NaN apart. -/
def signedText (x : Float) : String :=
  match parts? x with
  | some p => if p.negative then text x else "+" ++ text x
  | none => if x.isNaN ∨ x < 0 then text x else "+" ++ text x

/-- The text that output shows: whole numbers of at most fifteen digits as integers, so that zero
has no sign, and all others as they are. -/
def display (x : Float) : String :=
  match whole? x with
  | some n => if n.natAbs < Nat.pow 10 15 then toString n else text x
  | none => text x

/-- The value of a run of decimal digits. -/
def digitsValue (digits : List Char) : Nat :=
  digits.foldl (fun value c => 10 * value + (c.toNat - '0'.toNat)) 0

/-- The number nearest to `digits * 10 ^ exponent`. Exponents far outside the range of numbers are
cut off first, so that the work stays small. -/
def nearest (digits : Nat) (exponent : Int) : Float :=
  if digits = 0 then 0.0
  else
    let size := (Nat.toDigits 10 digits).length
    if 310 < (size : Int) + exponent then 1.0 / 0.0
    else if (size : Int) + exponent < -330 then 0.0
    else Float.ofScientific digits (decide (exponent < 0)) exponent.natAbs

/-- How many significant digits are read one by one. A number, and a midpoint between two
neighbours, has fewer. -/
def digitsRead : Nat := 800

/-- The number nearest to a run of digits times `10 ^ exponent`. Of the digits behind the first
`digitsRead` significant ones it only matters whether one of them is not zero. -/
def ofDigits (digits : List Char) (exponent : Int) : Float :=
  let significant := digits.dropWhile (· == '0')
  let kept := digitsValue (significant.take digitsRead)
  let dropped := significant.drop digitsRead
  if dropped.all (· == '0') then nearest kept (exponent + dropped.length)
  else nearest (10 * kept + 1) (exponent + dropped.length - 1)

/-- The value of an exponent's digits. Once it has reached `2 ^ 16`, further digits leave it as it
is. -/
def exponentValue (digits : List Char) : Nat :=
  digits.foldl
    (fun value c => if value < Nat.pow 2 16 then 10 * value + (c.toNat - '0'.toNat) else value) 0

/-- At least one digit, and nothing else. -/
def unsignedExponent (digits : List Char) : Option Int :=
  if digits ≠ [] ∧ digits.all Char.isDigit then some (exponentValue digits : Int) else none

/-- An exponent: a sign, if any, and at least one digit. -/
def readExponent : List Char → Option Int
  | '-' :: digits => (unsignedExponent digits).map (- ·)
  | '+' :: digits => unsignedExponent digits
  | digits => unsignedExponent digits

/-- Digits after the point, and the rest. -/
def readFraction : List Char → List Char × List Char
  | '.' :: rest => (rest.takeWhile Char.isDigit, rest.dropWhile Char.isDigit)
  | rest => ([], rest)

/-- A magnitude in decimal notation, or one of the words `inf`, `infinity` and `nan` in any case. -/
def readMagnitude (cs : List Char) : Option Float :=
  let word := cs.map Char.toLower
  if word = ['n', 'a', 'n'] then some notANumber
  else if word = ['i', 'n', 'f'] ∨ word = ['i', 'n', 'f', 'i', 'n', 'i', 't', 'y'] then some (1.0 / 0.0)
  else
    let whole := cs.takeWhile Char.isDigit
    let (fraction, rest) := readFraction (cs.dropWhile Char.isDigit)
    let digits := whole ++ fraction
    if whole = [] ∧ fraction = [] then none
    else
      match rest with
      | [] => some (ofDigits digits (-(fraction.length : Int)))
      | c :: rest =>
        if c = 'e' ∨ c = 'E' then
          (readExponent rest).map fun e => ofDigits digits (e - fraction.length)
        else none

/-- The number a text denotes. -/
def read? (s : String) : Option Float :=
  match s.toList with
  | '-' :: cs => (readMagnitude cs).map (- ·)
  | '+' :: cs => readMagnitude cs
  | cs => readMagnitude cs

end Pseudocode.Number
