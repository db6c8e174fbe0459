/-!
# JSON text

Values laid out on lines of their own: two spaces for each level, fields in the order given, and
empty lists and records on one line.
-/

namespace DecisionLang

inductive JsonValue where
  | text (value : String)
  | list (items : List JsonValue)
  | record (fields : List (String × JsonValue))

namespace JsonValue

/-- A character between quotes. All that is not a quote, a backslash or a control character stands
for itself. -/
def escape (c : Char) : List Char :=
  if c = '"' then ['\\', '"']
  else if c = '\\' then ['\\', '\\']
  else if c = '\n' then ['\\', 'n']
  else if c = '\r' then ['\\', 'r']
  else if c = '\t' then ['\\', 't']
  else if c.toNat = 8 then ['\\', 'b']
  else if c.toNat = 12 then ['\\', 'f']
  else if c.toNat < 0x20 then
    ['\\', 'u', '0', '0', Nat.digitChar (c.toNat / 16), Nat.digitChar (c.toNat % 16)]
  else [c]

def quote (value : String) : String :=
  String.ofList ('"' :: value.toList.flatMap escape ++ ['"'])

/-- Items on lines of their own between two brackets. -/
def block (opening closing : String) (depth : Nat) (items : List String) : String :=
  let margin := String.ofList (List.replicate (2 * depth) ' ')
  if items.isEmpty then opening ++ closing
  else
    let lines := items.map fun item => margin ++ "  " ++ item
    opening ++ "\n" ++ ",\n".intercalate lines ++ "\n" ++ margin ++ closing

mutual

/-- The text of a value whose last line is indented by so many levels. -/
def layout (depth : Nat) : JsonValue → String
  | text value => quote value
  | list items => block "[" "]" depth (layoutItems (depth + 1) items)
  | record fields => block "\x7b" "\x7d" depth (layoutFields (depth + 1) fields)

def layoutItems (depth : Nat) : List JsonValue → List String
  | [] => []
  | item :: items => item.layout depth :: layoutItems depth items

def layoutFields (depth : Nat) : List (String × JsonValue) → List String
  | [] => []
  | (name, value) :: fields =>
    (quote name ++ ": " ++ value.layout depth) :: layoutFields depth fields

end

end JsonValue

end DecisionLang
