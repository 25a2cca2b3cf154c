/-!
# Kinds of assertions

Each kind of check is made by one function of the assertion library that generated tests import.
-/

namespace FlowSuite

/-- What an assertion checks. -/
inductive AssertionKind where
  /-- That a value counts as true. -/
  | truthy
  | equals
  | notEquals
  | less
  | lessOrEqual
  | greater
  | greaterOrEqual
  /-- That a text matches a regular expression. -/
  | matches
deriving DecidableEq, Repr

namespace AssertionKind

/-- All kinds in their order. -/
def all : List AssertionKind :=
  [truthy, equals, notEquals, less, lessOrEqual, greater, greaterOrEqual, .matches]

theorem mem_all (k : AssertionKind) : k ∈ all := by cases k <;> decide

/-- The function that makes the check. -/
def function : AssertionKind → String
  | truthy => "assert"
  | equals => "assertEquals"
  | notEquals => "assertNotEquals"
  | less => "assertLess"
  | lessOrEqual => "assertLessOrEqual"
  | greater => "assertGreater"
  | greaterOrEqual => "assertGreaterOrEqual"
  | .matches => "assertMatch"

/-- The name of a kind in reports. -/
def name : AssertionKind → String
  | truthy => "truthy"
  | equals => "equals"
  | notEquals => "not-equals"
  | less => "less"
  | lessOrEqual => "less-or-equal"
  | greater => "greater"
  | greaterOrEqual => "greater-or-equal"
  | .matches => "match"

end AssertionKind

end FlowSuite
