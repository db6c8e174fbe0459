import DecisionLang.Reading.Received
import DecisionLang.Tree.Document

/-!
# Lines of tables

The first line of a table is its header, the others are its rows. Every line is wrapped in table
separators, and a row has one value for each column of the header.
-/

namespace DecisionLang.TableLine

/-- Reads the cells of a row as values. -/
def row (grammar : Grammar) (line : Line) (cells : List (List Token)) (expected : Nat) :
    Numbered TableRow :=
  if cells.length ≠ expected then line.refuse (.valueCount cells.length expected)
  else do
    let values ← cells.mapM fun cell =>
      if cell.isEmpty then line.refuse .emptyCell else grammar.read line cell
    return ⟨line.start, values⟩

/-- A column of a table: a type, which cannot be left to a default value, and a name. -/
def column? (line : Line) (cell : List Token) : Option Column :=
  match cell with
  | [typeToken, nameToken] => do
    let type ← WrittenType.ofToken? typeToken
    let name ← nameToken.name?
    if type = .implicit then none else some ⟨name, type, line.tokenReference typeToken⟩
  | _ => none

def column (line : Line) (cell : List Token) : Numbered Column :=
  match column? line cell with
  | some column => return column
  | none =>
    throw ((Fault.columnHeader (Token.describe cell)).located
      (cell.head?.elim line.start line.tokenReference))

/-- A remark for every column whose name an earlier one has. -/
def repeatedColumns (seen : List String) : List Column → List Remark
  | [] => []
  | column :: columns =>
    let later := repeatedColumns (column.name :: seen) columns
    if seen.contains column.name then
      ⟨(Fault.duplicateName "column" column.name).located column.reference, none⟩ :: later
    else later

/-- A table after a line. -/
def receive (grammar : Grammar) (line : Line) (table : TableDecl) :
    Numbered (Received TableDecl) :=
  match Token.cells? line.tokens, table.header with
  | none, _ => line.refuse (.wrongForm "table row" "| value | value |")
  | some cells, some header => do
    let row ← row grammar line cells header.columns.length
    return .leaf { table with rows := table.rows ++ [row] }
  | some cells, none => do
    let columns ← cells.mapM (column line)
    return ⟨{ table with header := some ⟨line.start, columns⟩ }, .leaf, repeatedColumns [] columns⟩

/-- A column of a validation table: the name of a parameter or result, or a path into one. -/
def validationColumn? (line : Line) (cell : List Token) : Option ValidationColumn :=
  match cell with
  | [token] => do
    let path ← (token.path?.map NamePath.ofParts).or (token.name?.map NamePath.ofName)
    return ⟨path.text, line.tokenReference token⟩
  | _ => none

/-- A validation table after a line. -/
def receiveValidation (grammar : Grammar) (line : Line) (table : ValidationTable) :
    Numbered (Received ValidationTable) :=
  match Token.cells? line.tokens, table.header with
  | none, _ => line.refuse (.wrongForm "validation table row" "| value | value |")
  | some cells, some header => do
    let row ← row grammar line cells header.length
    return .leaf { table with rows := table.rows ++ [row] }
  | some cells, none =>
    match cells.mapM (validationColumn? line) with
    | some columns => return .leaf { table with header := some columns }
    | none => line.refuse (.wrongForm "validation table header" "| Name | Name |")

end DecisionLang.TableLine
