import FlowSuite.Json.Value
import FlowSuite.Decimal.Shortest
import FlowSuite.Text.Visible

/-!
# JSON text

`Json.compact` writes a value on one line without blanks; `Json.indented` gives each item and member its own line, two
blanks deeper than what holds it. Both write strings alike.
-/

namespace FlowSuite.Json

/-- How a character is written inside a string. -/
def escape (c : Char) : List Char :=
  if c = '"' then ['\\', '"']
  else if c = '\\' then ['\\', '\\']
  else if c = '\n' then ['\\', 'n']
  else if c = '\r' then ['\\', 'r']
  else if c = '\t' then ['\\', 't']
  else if c = '\x08' then ['\\', 'b']
  else if c = '\x0c' then ['\\', 'f']
  else if c.toNat < 0x20 then '\\' :: 'u' :: Text.hexDigits4 c.toNat
  else [c]

/-- A string between quotes. -/
def quote (s : String) : List Char := '"' :: s.toList.flatMap escape ++ ['"']

/-- The text of a value that holds no others. -/
def leaf : Json → List Char
  | null => ['n', 'u', 'l', 'l']
  | bool true => ['t', 'r', 'u', 'e']
  | bool false => ['f', 'a', 'l', 's', 'e']
  | int n => (toString n).toList
  | float x => x.text .data
  | str s => quote s
  | arr _ => ['[', ']']
  | obj _ => ['\x7b', '\x7d']

mutual

/-- A value on one line. -/
def compact : Json → List Char
  | arr (item :: items) => '[' :: compact item ++ compactItems items ++ [']']
  | obj ((key, value) :: members) =>
    '\x7b' :: quote key ++ ':' :: compact value ++ compactMembers members ++ ['\x7d']
  | null => leaf null
  | bool b => leaf (bool b)
  | int n => leaf (int n)
  | float x => leaf (float x)
  | str s => leaf (str s)
  | arr [] => leaf (arr [])
  | obj [] => leaf (obj [])

/-- The items after the first, each after a comma. -/
def compactItems : List Json → List Char
  | [] => []
  | item :: items => ',' :: compact item ++ compactItems items

/-- The members after the first, each after a comma. -/
def compactMembers : List (String × Json) → List Char
  | [] => []
  | (key, value) :: members => ',' :: quote key ++ ':' :: compact value ++ compactMembers members

end

/-- A new line at a depth. -/
def newLine (depth : Nat) : List Char := '\n' :: List.replicate (2 * depth) ' '

mutual

/-- A value over several lines, its first line starting at a depth. -/
def indented (depth : Nat) : Json → List Char
  | arr (item :: items) =>
    '[' :: newLine (depth + 1) ++ indented (depth + 1) item ++ indentedItems depth items ++ newLine depth ++ [']']
  | obj ((key, value) :: members) =>
    '\x7b' :: newLine (depth + 1) ++ quote key ++ [':', ' '] ++ indented (depth + 1) value ++
      indentedMembers depth members ++ newLine depth ++ ['\x7d']
  | null => leaf null
  | bool b => leaf (bool b)
  | int n => leaf (int n)
  | float x => leaf (float x)
  | str s => leaf (str s)
  | arr [] => leaf (arr [])
  | obj [] => leaf (obj [])

/-- The items after the first. -/
def indentedItems (depth : Nat) : List Json → List Char
  | [] => []
  | item :: items => ',' :: newLine (depth + 1) ++ indented (depth + 1) item ++ indentedItems depth items

/-- The members after the first. -/
def indentedMembers (depth : Nat) : List (String × Json) → List Char
  | [] => []
  | (key, value) :: members =>
    ',' :: newLine (depth + 1) ++ quote key ++ [':', ' '] ++ indented (depth + 1) value ++
      indentedMembers depth members

end

end FlowSuite.Json
