import FlowSuite.Decimal.Shortest
import FlowSuite.Script.Syntax
import FlowSuite.Text.Visible

/-!
# The text of programs

Every level of indentation is two blanks. Entries of objects and statements of functions stand on lines of their own,
everything else on the line of what holds it. Operands that are operators themselves, awaited or constructed values
and functions stand in parentheses.
-/

namespace FlowSuite.Script

/-- The blanks of a level. -/
def indentation (level : Nat) : List Char := List.replicate (2 * level) ' '

/-- A control character. -/
def isControl (c : Char) : Bool := c.toNat < 0x20 || (0x7f ≤ c.toNat && c.toNat < 0xa0)

/-- How a character is written inside a string. -/
def escapeInString (c : Char) : List Char :=
  if c = '"' then ['\\', '"']
  else if c = '\\' then ['\\', '\\']
  else if c = '\n' then ['\\', 'n']
  else if c = '\t' then ['\\', 't']
  else if c = '\r' then ['\\', 'r']
  else if isControl c then '\\' :: 'u' :: Text.hexDigits4 c.toNat
  else [c]

/-- A string between quotes. -/
def quote (s : String) : List Char := '"' :: s.toList.flatMap escapeInString ++ ['"']

/-- Text inside a template, where a backslash, a backtick and the start of a slot are escaped. -/
def escapeInTemplate : List Char → List Char
  | [] => []
  | '\\' :: cs => '\\' :: '\\' :: escapeInTemplate cs
  | '\x60' :: cs => '\\' :: '\x60' :: escapeInTemplate cs
  | '$' :: '\x7b' :: cs => '\\' :: '$' :: '\x7b' :: escapeInTemplate cs
  | c :: cs => c :: escapeInTemplate cs

/-- The escape of a line terminator, without its backslash. -/
def lineTerminator? (c : Char) : Option (List Char) :=
  if c = '\n' then some ['n']
  else if c = '\r' then some ['r']
  else if c = '\u2028' then some ['u', '2', '0', '2', '8']
  else if c = '\u2029' then some ['u', '2', '0', '2', '9']
  else none

/-- A pattern inside a regular expression literal: slashes outside classes and line terminators are escaped where they
are not already. -/
def escapeInRegex : (escaped inClass : Bool) → List Char → List Char
  | _, _, [] => []
  | escaped, inClass, c :: cs =>
    match lineTerminator? c with
    | some spelling => (if escaped then spelling else '\\' :: spelling) ++ escapeInRegex false inClass cs
    | none =>
      if escaped then c :: escapeInRegex false inClass cs
      else if c = '\\' then c :: escapeInRegex true inClass cs
      else if c = '[' then c :: escapeInRegex false true cs
      else if c = ']' then c :: escapeInRegex false false cs
      else if c = '/' ∧ ¬inClass then '\\' :: c :: escapeInRegex false inClass cs
      else c :: escapeInRegex false inClass cs

/-- A regular expression literal. -/
def regexText (pattern flags : String) : List Char :=
  '/' :: escapeInRegex false false pattern.toList ++ '/' :: flags.toList

namespace Value

/-- The text of a value. -/
def text : Value → List Char
  | int n => (toString n).toList
  | float x => x.text .plain
  | string s => quote s
  | bool b => (toString b).toList
  | null => "null".toList
  | undefined => "undefined".toList

end Value

namespace Key

/-- The text of a key. -/
def text : Key → List Char
  | bare n => n.toList
  | quoted n => quote n

end Key

namespace Expr

/-- Stands in parentheses as an operand. -/
def needsParens : Expr → Bool
  | binary .. | not _ | await _ | arrow .. | construct .. => true
  | _ => false

/-- A text, in parentheses where the expression needs them as an operand. -/
def enclose (e : Expr) (text : List Char) : List Char := if e.needsParens then '(' :: text ++ [')'] else text

end Expr

mutual

/-- The text of an expression that starts on a line of the given level. -/
def Expr.text (level : Nat) : Expr → List Char
  | .ident name => name.toList
  | .value v => v.text
  | .property object name => object.enclose (object.text level) ++ '.' :: name.toList
  | .element object index => object.enclose (object.text level) ++ '[' :: index.text level ++ [']']
  | .call callee args => callee.enclose (callee.text level) ++ '(' :: textOfList level args ++ [')']
  | .construct callee args =>
    "new ".toList ++ callee.enclose (callee.text level) ++ '(' :: textOfList level args ++ [')']
  | .await operand => "await ".toList ++ operand.enclose (operand.text level)
  | .template head slots => '\x60' :: escapeInTemplate head.toList ++ textOfSlots level slots ++ ['\x60']
  | .object [] => ['\x7b', '\x7d']
  | .object (entry :: entries) =>
    '\x7b' :: '\n' :: textOfEntries (level + 1) (entry :: entries) ++ indentation level ++ ['\x7d']
  | .array items => '[' :: textOfList level items ++ [']']
  | .regex pattern flags => regexText pattern flags
  | .binary op left right =>
    left.enclose (left.text level) ++ ' ' :: op.symbol.toList ++ ' ' :: right.enclose (right.text level)
  | .not operand => '!' :: operand.enclose (operand.text level)
  | .arrow isAsync params body =>
    (if isAsync then "async ".toList else []) ++ '(' :: (", ".intercalate params).toList ++ ") => ".toList ++
      match body with
      | [] => ['\x7b', '\x7d']
      | stmt :: stmts => '\x7b' :: '\n' :: textOfBody (level + 1) (stmt :: stmts) ++ indentation level ++ ['\x7d']

/-- Expressions with commas between them. -/
def textOfList (level : Nat) : List Expr → List Char
  | [] => []
  | [e] => e.text level
  | e :: es => e.text level ++ ',' :: ' ' :: textOfList level es

/-- The slots of a template. -/
def textOfSlots (level : Nat) : List (Expr × String) → List Char
  | [] => []
  | (e, tail) :: slots =>
    '$' :: '\x7b' :: e.text level ++ '\x7d' :: escapeInTemplate tail.toList ++ textOfSlots level slots

/-- The entries of an object, each with its line and a comma. -/
def textOfEntries (level : Nat) : List (Key × Expr) → List Char
  | [] => []
  | (key, e) :: entries =>
    indentation level ++ key.text ++ ':' :: ' ' :: e.text level ++ ',' :: '\n' :: textOfEntries level entries

/-- The statements of a function, each with its line. -/
def textOfBody (level : Nat) : List Stmt → List Char
  | [] => []
  | stmt :: stmts => stmt.text level ++ '\n' :: textOfBody level stmts

/-- The text of a statement on a line of the given level. -/
def Stmt.text (level : Nat) : Stmt → List Char
  | .const name type init =>
    indentation level ++ "const ".toList ++ name.toList ++ (type.map fun t => ':' :: ' ' :: t.toList).getD [] ++
      " = ".toList ++ init.text level ++ [';']
  | .assign target value => indentation level ++ target.text level ++ " = ".toList ++ value.text level ++ [';']
  | .expr e => indentation level ++ e.text level ++ [';']
  | .empty => []

end

/-- One entry of an object on a line of the given level. -/
def entryText (level : Nat) (key : Key) (e : Expr) : List Char :=
  indentation level ++ key.text ++ ':' :: ' ' :: e.text level

namespace Import

/-- The text of an import. -/
def text (level : Nat) (i : Import) : List Char :=
  indentation level ++ "import ".toList ++
    (if i.names.isEmpty then [] else "\x7b ".toList ++ (", ".intercalate i.names).toList ++ " \x7d from ".toList) ++
    quote i.module ++ [';']

end Import

/-- The lines of a text, without the line feed or the carriage return and line feed that ends each of them. -/
def lines : List Char → List (List Char)
  | [] => []
  | '\n' :: cs => [] :: lines cs
  | '\r' :: '\n' :: cs => [] :: lines cs
  | c :: cs =>
    match lines cs with
    | [] => [[c]]
    | line :: more => (c :: line) :: more

namespace Program

/-- The comment at the start of a program. -/
def headerText (level : Nat) (header : String) : List Char :=
  let comment (line : List Char) : List Char := if line.isEmpty then " *\n".toList else " * ".toList ++ line ++ ['\n']
  indentation level ++ "/**\n".toList ++
    (lines header.toList).flatMap (fun line => indentation level ++ comment line) ++
    indentation level ++ " */\n".toList

/-- The statements of a program, with a blank line between each two. -/
def bodyText (level : Nat) (body : List Stmt) : List Char := List.intercalate ['\n', '\n'] (body.map (Stmt.text level))

/-- The text of a program. -/
def text (level : Nat) (p : Program) : List Char :=
  let body := bodyText level p.body
  (p.header.map (headerText level)).getD [] ++
    p.imports.flatMap (fun i => i.text level ++ ['\n']) ++
    (if p.imports.isEmpty ∨ p.body.isEmpty then [] else ['\n']) ++
    body ++ (if body.isEmpty then [] else ['\n'])

end Program

end FlowSuite.Script
