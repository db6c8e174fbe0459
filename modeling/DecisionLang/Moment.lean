import DecisionLang.Text.Lines

/-!
# Dates with a time of day

A date literal holds a day of the Gregorian calendar and a time of day, without a time zone:
`2024-12-18` or `2024-12-18T13:05:09`. Fields are runs of ASCII digits of any length; leading
zeros are allowed. `Moment.read` says which texts denote a moment and why the others do not.
-/

namespace DecisionLang

structure Moment where
  year : Nat
  month : Nat
  day : Nat
  hour : Nat
  minute : Nat
  second : Nat
  deriving DecidableEq

/-- Why a text denotes no moment. -/
inductive MomentFault where
  | malformed
  | month (found : Nat)
  | day (found : Nat)
  | timeOfDay
  deriving DecidableEq

namespace MomentFault

def message (text : String) : MomentFault → String
  | malformed =>
    s!"Invalid date literal '{text}'. Expected 'yyyy-MM-dd' or 'yyyy-MM-ddTHH:mm:ss'."
  | month found => s!"Invalid date literal '{text}': month {found} out of range."
  | day found => s!"Invalid date literal '{text}': day {found} out of range."
  | timeOfDay => s!"Invalid date literal '{text}': time out of range."

end MomentFault

namespace Moment

def isLeapYear (year : Nat) : Bool :=
  (year % 4 == 0 && year % 100 != 0) || year % 400 == 0

def daysInMonth (year month : Nat) : Nat :=
  match month with
  | 2 => if isLeapYear year then 29 else 28
  | 4 | 6 | 9 | 11 => 30
  | _ => 31

/-- Fields have thirty-two bits and years sixteen. -/
def fieldLimit : Nat := Nat.pow 2 32

def yearLimit : Nat := Nat.pow 2 16

/-- One field: a nonempty run of ASCII digits below the limit. -/
def field? (text : List Char) : Option Nat :=
  if text.isEmpty || !text.all Char.isDigit then none
  else
    let value := text.foldl (fun value c => 10 * value + (c.toNat - '0'.toNat)) 0
    if value < fieldLimit then some value else none

/-- Exactly three fields between separators. -/
def fields? (separator : Char) (text : List Char) : Option (Nat × Nat × Nat) :=
  match Text.splitAt separator text with
  | [first, second, third] => do
    let first ← field? first
    let second ← field? second
    let third ← field? third
    return (first, second, third)
  | _ => none

/-- The moment with the given fields, if there is one. -/
def check (year month day hour minute second : Nat) : Except MomentFault Moment :=
  if yearLimit ≤ year then .error .malformed
  else if month = 0 || 12 < month then .error (.month month)
  else if day = 0 || daysInMonth year month < day then .error (.day day)
  else if 23 < hour || 59 < minute || 59 < second then .error .timeOfDay
  else .ok ⟨year, month, day, hour, minute, second⟩

/-- Reads the text between the quotes of a date literal. The first `T` ends the date. -/
def read (text : List Char) : Except MomentFault Moment :=
  let date := text.takeWhile (· != 'T')
  match fields? '-' date with
  | none => .error .malformed
  | some (year, month, day) =>
    match text.dropWhile (· != 'T') with
    | [] => check year month day 0 0 0
    | _ :: time =>
      match fields? ':' time with
      | none => .error .malformed
      | some (hour, minute, second) => check year month day hour minute second

/-- Decimal text with leading zeros up to a width. -/
def padded (width value : Nat) : List Char :=
  let digits := Nat.toDigits 10 value
  List.replicate (width - digits.length) '0' ++ digits

/-- What stands between the quotes of the literal of a moment. -/
def content (moment : Moment) : List Char :=
  padded 4 moment.year ++ '-' :: padded 2 moment.month ++ '-' :: padded 2 moment.day ++
    'T' :: padded 2 moment.hour ++ ':' :: padded 2 moment.minute ++ ':' :: padded 2 moment.second

/-- The literal of a moment. -/
def text (moment : Moment) : String :=
  String.ofList ('d' :: '"' :: moment.content ++ ['"'])

end Moment

end DecisionLang
