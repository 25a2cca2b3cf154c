import FlowSuite.Decimal.Binary64
import FlowSuite.Script.Identifier

/-!
# Generated test programs

The small part of the script language that generated tests are made of: constants, assignments, calls, accesses,
templates, object literals and functions.
-/

namespace FlowSuite.Script

/-- The values that can be written down. -/
inductive Value where
  | int (value : Int)
  | float (value : Binary64)
  | string (value : String)
  | bool (value : Bool)
  | null
  /-- Also stands for what could not be resolved. -/
  | undefined
deriving DecidableEq, Repr

/-- The binary operators. -/
inductive BinaryOp where
  | strictEq
  | strictNe
  | lt
  | le
  | gt
  | ge
  | and
  | or
deriving DecidableEq, Repr

/-- The key of an entry of an object, bare or between quotes. -/
inductive Key where
  | bare (name : String)
  | quoted (name : String)
deriving DecidableEq, Repr

mutual

/-- An expression. A template is its first text and its slots, each with the text behind it. -/
inductive Expr where
  | ident (name : String)
  | value (value : Value)
  | property (object : Expr) (name : String)
  | element (object index : Expr)
  | call (callee : Expr) (args : List Expr)
  | construct (callee : Expr) (args : List Expr)
  | await (operand : Expr)
  | template (head : String) (slots : List (Expr × String))
  | object (entries : List (Key × Expr))
  | array (items : List Expr)
  | regex (pattern flags : String)
  | binary (op : BinaryOp) (left right : Expr)
  | not (operand : Expr)
  | arrow (isAsync : Bool) (params : List String) (body : List Stmt)

/-- A statement. -/
inductive Stmt where
  /-- Binds a constant; the type is written as it stands. -/
  | const (name : String) (type : Option String) (init : Expr)
  | assign (target value : Expr)
  | expr (expr : Expr)
  /-- A blank line. -/
  | empty

end

instance : Inhabited Expr := ⟨.value .undefined⟩

instance : Inhabited Stmt := ⟨.empty⟩

namespace BinaryOp

/-- The spelling of an operator. -/
def symbol : BinaryOp → String
  | strictEq => "==="
  | strictNe => "!=="
  | lt => "<"
  | le => "<="
  | gt => ">"
  | ge => ">="
  | and => "&&"
  | or => "||"

end BinaryOp

namespace Key

/-- A key that is quoted only where it has to be. -/
def ofName (name : String) : Key := if isIdentifier name.toList then bare name else quoted name

/-- The name that a key stands for. -/
def name : Key → String
  | bare n | quoted n => n

end Key

namespace Expr

def string (s : String) : Expr := value (.string s)

def int (n : Int) : Expr := value (.int n)

def bool (b : Bool) : Expr := value (.bool b)

def null : Expr := value .null

def undefined : Expr := value .undefined

/-- The access to a member: by name where the name is an identifier, else by index. -/
def member (object : Expr) (name : String) : Expr :=
  if isIdentifier name.toList then property object name else element object (string name)

end Expr

/-- The text of a template before its slots, and the slots with the text behind each. -/
structure Template where
  head : String
  slots : List (Expr × String)

namespace Template

/-- A template without slots. -/
def ofText (text : String) : Template := ⟨text, []⟩

/-- Adds a slot and the text behind it. -/
def push (t : Template) (slot : Expr) (tail : String) : Template := { t with slots := t.slots ++ [(slot, tail)] }

/-- Adds text behind the last of the slots. -/
def appendTail (text : String) : List (Expr × String) → List (Expr × String)
  | [] => []
  | [(slot, tail)] => [(slot, tail ++ text)]
  | slot :: more => slot :: appendTail text more

/-- Adds text at the end. -/
def pushText (t : Template) (text : String) : Template :=
  if t.slots.isEmpty then { t with head := t.head ++ text } else { t with slots := appendTail text t.slots }

/-- The template as an expression. -/
def toExpr (t : Template) : Expr := .template t.head t.slots

end Template

/-- An import of names from a module, or of the module alone. -/
structure Import where
  names : List String
  module : String
deriving DecidableEq, Repr

/-- A test module. -/
structure Program where
  /-- The comment at its start. -/
  header : Option String
  imports : List Import
  body : List Stmt

end FlowSuite.Script
