/-!
# Built-in types and functions

Primitive types have names of their own. Three families of functions need no declaration. Object
functions work on whole objects. Table functions are bound to a table and have a fixed list of
arguments. Library functions have a primitive signature, and a declared function of the same name
takes precedence over them.

Functions and tables also have members without declaring them: the types of their parameters,
results and rows, and the number of rows.
-/

namespace DecisionLang

inductive Primitive where
  | number | string | boolean | date
  deriving DecidableEq

namespace Primitive

def all : List Primitive := [number, string, boolean, date]

def spelling : Primitive → String
  | number => "number"
  | string => "string"
  | boolean => "boolean"
  | date => "date"

def description : Primitive → String
  | number => "decimal number"
  | string => "text value"
  | boolean => "true or false"
  | date => "date and time of day"

def ofSpelling? (text : String) : Option Primitive :=
  all.find? fun primitive => primitive.spelling == text

end Primitive

inductive ObjectFunction where
  | new | fill | extract
  deriving DecidableEq

namespace ObjectFunction

def all : List ObjectFunction := [new, fill, extract]

def spelling : ObjectFunction → String
  | new => "new"
  | fill => "fill"
  | extract => "extract"

def usage : ObjectFunction → String
  | new => "new(Type)"
  | fill => "fill(Type)"
  | extract => "extract(variable)"

def ofSpelling? (text : String) : Option ObjectFunction :=
  all.find? fun function => function.spelling == text

end ObjectFunction

inductive TableFunction where
  | lookUp | lookUpBy | lookUpRow | lookUpRowBy
  deriving DecidableEq

namespace TableFunction

def all : List TableFunction := [lookUp, lookUpBy, lookUpRow, lookUpRowBy]

def spelling : TableFunction → String
  | lookUp => "lookUp"
  | lookUpBy => "lookUpBy"
  | lookUpRow => "lookUpRow"
  | lookUpRowBy => "lookUpRowBy"

def usage : TableFunction → String
  | lookUp => "lookUp(Table, value, Table.SearchColumn, Table.ResultColumn)"
  | lookUpBy => "lookUpBy(Table, discriminator, value, Table.DiscriminatorColumn, " ++
      "Table.SearchColumn, Table.ResultColumn)"
  | lookUpRow => "lookUpRow(Table, value, Table.SearchColumn)"
  | lookUpRowBy => "lookUpRowBy(Table, discriminator, value, Table.DiscriminatorColumn, " ++
      "Table.SearchColumn)"

/-- The result is a whole row instead of the value of one column. -/
def returnsRow : TableFunction → Bool
  | lookUp | lookUpBy => false
  | lookUpRow | lookUpRowBy => true

/-- The rows are narrowed by a discriminator column first. -/
def hasDiscriminator : TableFunction → Bool
  | lookUp | lookUpRow => false
  | lookUpBy | lookUpRowBy => true

/-- Number of arguments, the table name included. -/
def arity (function : TableFunction) : Nat :=
  3 + (if function.hasDiscriminator then 2 else 0) + (if function.returnsRow then 0 else 1)

def ofSpelling? (text : String) : Option TableFunction :=
  all.find? fun function => function.spelling == text

end TableFunction

inductive LibraryFunction where
  | abs | int | power | round | now | today
  | year | month | day | hour | minute | second
  | years | months | days | hours | minutes | seconds | milliseconds
  deriving DecidableEq

namespace LibraryFunction

def all : List LibraryFunction :=
  [abs, int, power, round, now, today, year, month, day, hour, minute, second, years, months,
    days, hours, minutes, seconds, milliseconds]

def spelling : LibraryFunction → String
  | abs => "abs"
  | int => "int"
  | power => "power"
  | round => "round"
  | now => "now"
  | today => "today"
  | year => "year"
  | month => "month"
  | day => "day"
  | hour => "hour"
  | minute => "minute"
  | second => "second"
  | years => "years"
  | months => "months"
  | days => "days"
  | hours => "hours"
  | minutes => "minutes"
  | seconds => "seconds"
  | milliseconds => "milliseconds"

def parameters : LibraryFunction → List Primitive
  | abs | int => [.number]
  | power | round => [.number, .number]
  | now | today => []
  | year | month | day | hour | minute | second => [.date]
  | years | months | days | hours | minutes | seconds | milliseconds => [.date, .date]

def result : LibraryFunction → Primitive
  | now | today => .date
  | _ => .number

def ofSpelling? (text : String) : Option LibraryFunction :=
  all.find? fun function => function.spelling == text

end LibraryFunction

/-- A type that a declaration brings along, selected from it as a member. -/
inductive GeneratedPart where
  | parameters | results | row
  deriving DecidableEq

namespace GeneratedPart

def member : GeneratedPart → String
  | parameters => "Parameters"
  | results => "Results"
  | row => "Row"

end GeneratedPart

/-- Member of a table that counts its rows. -/
def countMember : String := "Count"

end DecisionLang
