import FlowSuite.Assertion.Kind
import FlowSuite.Decimal.Binary64
import FlowSuite.Text.Span

/-!
# Conditions

A condition is a tree of literals and runtime expressions under accessors, negations, connectives and comparisons.
Every node knows the part of the text it was read from. `Condition.conjuncts` takes a chain of `&&` apart.
-/

namespace FlowSuite

/-- The values that can be written in a condition; bare words are strings. -/
inductive Literal where
  | int (value : Int)
  | float (value : Binary64)
  | string (value : String)
  | bool (value : Bool)
  | null
deriving DecidableEq, Repr

/-- The comparison operators. -/
inductive Comparison where
  | eq
  | ne
  | lt
  | le
  | gt
  | ge
deriving DecidableEq, Repr

namespace Comparison

/-- All operators, those with two characters first, so that the first one that fits is the longest. -/
def all : List Comparison := [eq, ne, le, ge, lt, gt]

/-- The spelling of an operator. -/
def symbol : Comparison → String
  | eq => "=="
  | ne => "!="
  | lt => "<"
  | le => "<="
  | gt => ">"
  | ge => ">="

/-- The operator with a spelling. -/
def ofSymbol? (symbol : String) : Option Comparison := all.find? (·.symbol = symbol)

theorem ofSymbol?_symbol (c : Comparison) : ofSymbol? c.symbol = some c := by
  cases c <;> decide

/-- The kind of assertion that checks a comparison. -/
def assertionKind : Comparison → AssertionKind
  | eq => .equals
  | ne => .notEquals
  | lt => .less
  | le => .lessOrEqual
  | gt => .greater
  | ge => .greaterOrEqual

end Comparison

/-- The connectives. -/
inductive Connective where
  | and
  | or
deriving DecidableEq, Repr

/-- A condition; a comparison also keeps the whole text it stood in, which is shown when it fails. -/
inductive Condition where
  | literal (span : Span) (value : Literal)
  | runtime (span : Span) (expression : String)
  | index (span : Span) (object index : Condition)
  | property (span : Span) (object : Condition) (name : String)
  | not (span : Span) (operand : Condition)
  | logical (span : Span) (connective : Connective) (left right : Condition)
  | comparison (span : Span) (operator : Comparison) (left right : Condition) (message : String)
deriving DecidableEq, Repr

namespace Condition

/-- The part of the text a condition was read from. -/
def span : Condition → Span
  | literal s _ | runtime s _ | index s _ _ | property s _ _ | not s _ | logical s _ _ _ | comparison s _ _ _ _ => s

/-- The same condition read from another part of the text. -/
def withSpan (s : Span) : Condition → Condition
  | literal _ v => literal s v
  | runtime _ e => runtime s e
  | index _ o i => index s o i
  | property _ o n => property s o n
  | not _ c => not s c
  | logical _ k l r => logical s k l r
  | comparison _ o l r m => comparison s o l r m

@[simp] theorem span_withSpan (s : Span) (c : Condition) : (c.withSpan s).span = s := by
  cases c <;> rfl

/-- Is a comparison. -/
def isComparison : Condition → Bool
  | comparison .. => true
  | _ => false

/-- The parts that `&&` joins at the top, from left to right. -/
def conjuncts : Condition → List Condition
  | logical _ .and l r => l.conjuncts ++ r.conjuncts
  | c => [c]

end Condition

end FlowSuite
