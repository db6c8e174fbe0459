import DecisionLang.Number

/-!
# Shortest decimal text

The text of a finite number has the fewest significant digits that read back as that number, and
among those the closest to it; of two equally close ones the larger is taken. It is written
positionally: never an exponent, no fraction for a whole number.

A decimal reads back as a double when it lies in the interval between the midpoints to the two
neighbouring doubles, ends included exactly when the last bit of the double is even. For each
digit count the two neighbours of the number on that decimal grid are tried.
-/

namespace DecisionLang.Number

/-- The interval of reals that round to one double, in quarter units of the smallest double. -/
structure Interval where
  low : Nat
  high : Nat
  closed : Bool

/-- Midpoints around a positive finite double. Below a power of two the neighbour is half as far. -/
def interval (units : Nat) : Interval :=
  let spacing := Magnitude.spacing units
  let step := Nat.pow 2 spacing
  let below := if units = Nat.pow 2 (spacing + 52) && 0 < spacing then step else 2 * step
  ⟨4 * units - below, 4 * units + 2 * step, units / step % 2 == 0⟩

/-- Whether the decimal `digits * 10 ^ exponent` lies in the interval; `exponent` may be negative
and is given as a power to multiply and a power to divide by. -/
def Interval.contains (range : Interval) (digits up down : Nat) : Bool :=
  let value := digits * Nat.pow 10 up * 4 * Magnitude.unitsPerOne
  let scale := Nat.pow 10 down
  if range.closed then range.low * scale ≤ value && value ≤ range.high * scale
  else range.low * scale < value && value < range.high * scale

/-- The least power of ten above `units`, searched upwards from `start` for `fuel` steps. -/
def leastPowerAbove (units : Nat) : (fuel start : Nat) → Nat
  | 0, start => start
  | fuel + 1, start =>
    if units < Nat.pow 10 start * Magnitude.unitsPerOne then start
    else leastPowerAbove units fuel (start + 1)

/-- How many decimal zeros follow the point before the first digit of a fraction. -/
def leadingZeros (units : Nat) : (fuel zeros : Nat) → Nat
  | 0, zeros => zeros
  | fuel + 1, zeros =>
    if Magnitude.unitsPerOne ≤ units * Nat.pow 10 (zeros + 1) then zeros
    else leadingZeros units fuel (zeros + 1)

/-- The exponent `e` with `10^(e-1) ≤ value < 10^e` of a positive finite double. -/
def decimalExponent (units : Nat) : Int :=
  if Magnitude.unitsPerOne ≤ units then (leastPowerAbove units 310 1 : Int)
  else -(leadingZeros units 325 0 : Int)

/-- A decimal of `count` digits near the number that reads back as it, if there is one. The digits
are those of `digits * 10 ^ (exponent - count)`. -/
def candidate? (units : Nat) (exponent : Int) (count : Nat) : Option Nat :=
  let power := exponent - count
  let up := power.toNat
  let down := (-power).toNat
  let scaled := units * Nat.pow 10 down
  let grid := Nat.pow 10 up * Magnitude.unitsPerOne
  let lower := scaled / grid
  let upper := lower + 1
  let range := interval units
  match range.contains lower up down, range.contains upper up down with
  | true, true => some (if 2 * (scaled % grid) < grid then lower else upper)
  | true, false => some lower
  | false, true => some upper
  | false, false => none

/-- The digits of the shortest decimal, with the number of digits tried; seventeen always do. -/
def shortestFrom (units : Nat) (exponent : Int) : (fuel count : Nat) → Nat × Nat
  | 0, count => ((candidate? units exponent count).getD 0, count)
  | fuel + 1, count =>
    match candidate? units exponent count with
    | some digits => (digits, count)
    | none => shortestFrom units exponent fuel (count + 1)

/-- Positional text of `digits * 10 ^ power`. -/
def positional (digits : Nat) (power : Int) : String :=
  let text := Nat.toDigits 10 digits
  if 0 ≤ power then String.ofList (text ++ List.replicate power.toNat '0')
  else
    let places := (-power).toNat
    let padded := List.replicate (places + 1 - text.length) '0' ++ text
    let whole := padded.take (padded.length - places)
    let fraction := (padded.drop (padded.length - places)).reverse.dropWhile (· == '0')
    if fraction.isEmpty then String.ofList whole
    else String.ofList (whole ++ '.' :: fraction.reverse)

def magnitudeText : Magnitude → String
  | .infinite => "inf"
  | .finite 0 => "0"
  | .finite units =>
    let exponent := decimalExponent units
    let (digits, count) := shortestFrom units exponent 17 1
    positional digits (exponent - count)

/-- The text of a number; a negative number, negative zero included, starts with a minus. -/
def text (number : Number) : String :=
  if number.negative then "-" ++ magnitudeText number.magnitude
  else magnitudeText number.magnitude

end DecisionLang.Number
