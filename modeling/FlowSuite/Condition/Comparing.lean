import FlowSuite.Condition.Basic
import FlowSuite.Condition.Error
import FlowSuite.Decimal.Reading
import FlowSuite.Decimal.Shortest
import FlowSuite.Text.Class

/-!
# Comparisons taken apart as text

A text is split at its first comparison operator that stands outside brackets and quotes. What brackets enclose is not
looked into, so a path can hold filters with operators of their own.

- `topLevel?` gives the text before the operator, the operator, and the text behind it;
- `Operand.ofText` says what one side is.
-/

namespace FlowSuite

/-- The operator that a text spells, all of it. -/
def Comparison.read (symbol : String) : Except ConditionError Comparison :=
  match Comparison.ofSymbol? symbol with
  | some op => .ok op
  | none => .error (.unsupportedOperator symbol ⟨0, symbol.utf8ByteSize⟩)

/-- One side of a comparison: a literal, or a text that starts with `$`. -/
inductive Operand where
  | literal (value : Literal)
  | runtime (expression : String)
deriving DecidableEq, Repr

namespace Operand

/-- The operand as a text, strings without their quotes. -/
def text : Operand → String
  | runtime e => e
  | literal (.int n) => toString n
  | literal (.float x) => String.ofList (x.text .plain)
  | literal (.string s) => s
  | literal (.bool b) => toString b
  | literal .null => "null"

/-- What stands between a quote at the start and the same quote at the end. -/
def unquoted? (quote : Char) : List Char → Option (List Char)
  | c :: cs => if c = quote ∧ cs.getLast? = some quote then some cs.dropLast else none
  | [] => none

/-- What a text without quotes stands for: a number where it is one, else itself. -/
def ofBare (cs : List Char) : Literal :=
  match Decimal.readInt64? cs, Decimal.readBinary64? cs with
  | some n, _ => .int n
  | none, some x => .float x
  | none, none => .string (String.ofList cs)

/-- What one side of a comparison is; blanks around it do not count. -/
def ofText (text : List Char) : Operand :=
  let cs := Text.trim text
  if cs.head? = some '$' then .runtime (String.ofList cs)
  else if cs = "true".toList then .literal (.bool true)
  else if cs = "false".toList then .literal (.bool false)
  else if cs = "null".toList then .literal .null
  else
    match unquoted? '\'' cs, unquoted? '"' cs with
    | some inner, _ => .literal (.string (String.ofList inner))
    | none, some inner => .literal (.string (String.ofList inner))
    | none, none => .literal (ofBare cs)

end Operand

/-- A comparison with its sides. -/
structure FlatComparison where
  left : Operand
  operator : Comparison
  right : Operand
deriving DecidableEq, Repr

namespace FlatComparison

/-- Where in a text a scan is: outside quotes at some depth of brackets, or inside quotes of a kind, right behind a
backslash or not. -/
inductive Place where
  | outside (depth : Nat)
  | quoted (depth : Nat) (quote : Char) (escaped : Bool)
deriving DecidableEq, Repr

/-- The place behind a character. A closing bracket where none is open counts for nothing. -/
def Place.step : Place → Char → Place
  | outside depth, c =>
    if c = '\'' ∨ c = '"' then quoted depth c false
    else if c ∈ ['(', '[', '\x7b'] then outside (depth + 1)
    else if c ∈ [')', ']', '\x7d'] then outside (depth - 1)
    else outside depth
  | quoted depth quote true, _ => quoted depth quote false
  | quoted depth quote false, c =>
    if c = '\\' then quoted depth quote true
    else if c = quote then outside depth
    else quoted depth quote false

/-- The longest operator at the start of a text. -/
def operatorAt? (cs : List Char) : Option Comparison :=
  Comparison.all.find? fun op => op.symbol.toList.isPrefixOf cs

/-- Splits what is left of a text at the first operator outside brackets and quotes. -/
def splitFrom : Place → List Char → Option (List Char × Comparison × List Char)
  | _, [] => none
  | place, c :: cs =>
    match place, operatorAt? (c :: cs) with
    | .outside 0, some op => some ([], op, (c :: cs).drop op.symbol.length)
    | _, _ => (splitFrom (place.step c) cs).map fun (before, found) => (c :: before, found)

/-- The text before the first operator outside brackets and quotes, the operator, and the text behind it. -/
def topLevel? (text : List Char) : Option (List Char × Comparison × List Char) := splitFrom (.outside 0) text

/-- The first operator outside brackets and quotes, and where it stands. -/
def find? (text : List Char) : Option (Comparison × Span) :=
  (topLevel? text).map fun (before, op, _) =>
    (op, ⟨Text.byteCount before, Text.byteCount before + op.symbol.utf8ByteSize⟩)

/-- The comparison that a text writes. -/
def parse (text : String) : Except ConditionError FlatComparison :=
  match topLevel? text.toList with
  | none => .error (.missingComparison text ⟨0, text.utf8ByteSize⟩)
  | some (before, op, behind) =>
    let start := Text.byteCount before
    let span : Span := ⟨start, start + op.symbol.utf8ByteSize⟩
    if (Text.trim before).isEmpty then .error (.missingOperand .left op.symbol span)
    else if (Text.trim behind).isEmpty then .error (.missingOperand .right op.symbol span)
    else .ok ⟨.ofText before, op, .ofText behind⟩

end FlatComparison

end FlowSuite
