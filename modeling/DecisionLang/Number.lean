/-!
# Numbers

A number literal denotes a double: a sign and a magnitude. A finite magnitude is a whole count of
the smallest positive double, `2^-1074`, so every double has exactly one form, equality of numbers
is equality of forms, and all arithmetic on them is arithmetic of natural numbers.

`Magnitude.nearest` rounds a ratio to the nearest double, ties to the one with an even last bit. A
run of decimal digits with at most one point and at most one leading minus is a ratio of natural
numbers; the number read is the double nearest to it.
-/

namespace DecisionLang

/-- Size of a number. -/
inductive Magnitude where
  | finite (units : Nat)
  | infinite
  deriving DecidableEq

structure Number where
  negative : Bool
  magnitude : Magnitude
  deriving DecidableEq

namespace Magnitude

/-- Units in one: the smallest positive double is `2^-1074`. -/
def unitsPerOne : Nat := Nat.pow 2 1074

/-- The first count of units past the largest double. -/
def overflow : Nat := Nat.pow 2 2098

/-- Doubles of the same binary size as `units` lie `2 ^ spacing units` units apart: a double has
53 significant bits. -/
def spacing (units : Nat) : Nat := units.log2 - 52

/-- The quotient rounded to a whole number, a half to the even neighbour. -/
def roundedQuotient (numerator denominator : Nat) : Nat :=
  let quotient := numerator / denominator
  let twice := 2 * (numerator % denominator)
  if twice < denominator then quotient
  else if denominator < twice then quotient + 1
  else if quotient % 2 = 0 then quotient else quotient + 1

/-- The double nearest to a ratio of natural numbers, `denominator` not zero. -/
def nearest (numerator denominator : Nat) : Magnitude :=
  let scaled := numerator * unitsPerOne
  let step := Nat.pow 2 (spacing (scaled / denominator))
  let units := roundedQuotient scaled (denominator * step) * step
  if units < overflow then finite units else infinite

/-- A finite magnitude without a fractional part, as a natural number. -/
def toNat? : Magnitude → Option Nat
  | finite units => if units % unitsPerOne = 0 then some (units / unitsPerOne) else none
  | infinite => none

end Magnitude

namespace Number

/-- The size of the least signed 64-bit integer; the greatest one is one less. -/
def wholeLimit : Nat := Nat.pow 2 63

/-- A whole number clamped to the range of signed 64-bit integers. -/
def toWhole? (number : Number) : Option Int :=
  number.magnitude.toNat?.map fun size =>
    if number.negative then -((min size wholeLimit : Nat) : Int)
    else ((min size (wholeLimit - 1) : Nat) : Int)

/-! ### Decimal text -/

/-- Value of a run of decimal digits. -/
def digitsValue (digits : List Char) : Nat :=
  digits.foldl (fun value c => 10 * value + (c.toNat - '0'.toNat)) 0

/-- Reads digits with an optional fraction; the leading minus, if any, is not part of `text`. -/
def magnitudeOfDecimal (text : List Char) : Magnitude :=
  let whole := text.takeWhile (· != '.')
  let fraction := (text.dropWhile (· != '.')).drop 1
  Magnitude.nearest (digitsValue (whole ++ fraction)) (Nat.pow 10 fraction.length)

/-- The number that a decimal text denotes. A minus sign is kept on zero. -/
def ofDecimal : List Char → Number
  | '-' :: text => ⟨true, magnitudeOfDecimal text⟩
  | text => ⟨false, magnitudeOfDecimal text⟩

end Number

end DecisionLang
