import FlowSuite.Assertion.Kind
import FlowSuite.Script.Syntax

/-!
# Assertions

An assertion becomes one call of the function of its kind. `UsedKinds` collects the kinds that a program calls, in
their order, for its imports.
-/

namespace FlowSuite

/-- A check on a value, with the text shown where it fails. -/
structure Assertion where
  kind : AssertionKind
  actual : Script.Expr
  /-- What the value is compared with, except for truth. -/
  expected : Option Script.Expr
  message : String

namespace Assertion

/-- The call that makes the check. -/
def call (a : Assertion) : Script.Expr :=
  .call (.ident a.kind.function) (a.actual :: a.expected.toList ++ [.string a.message])

/-- The statement that makes the check. -/
def toStmt (a : Assertion) : Script.Stmt := .expr a.call

end Assertion

/-- The kinds of assertions that were made, each once and in their order. -/
structure UsedKinds where
  kinds : List AssertionKind
deriving DecidableEq, Repr

namespace UsedKinds

def empty : UsedKinds := ⟨[]⟩

/-- Adds a kind. -/
def insert (used : UsedKinds) (kind : AssertionKind) : UsedKinds :=
  ⟨AssertionKind.all.filter fun k => k = kind ∨ k ∈ used.kinds⟩

/-- Adds the kinds of assertions. -/
def addAll (used : UsedKinds) (assertions : List Assertion) : UsedKinds :=
  assertions.foldl (fun used a => used.insert a.kind) used

@[simp] theorem mem_insert (used : UsedKinds) (kind k : AssertionKind) :
    k ∈ (used.insert kind).kinds ↔ k = kind ∨ k ∈ used.kinds := by
  simp [insert, AssertionKind.mem_all]

theorem mem_addAll (used : UsedKinds) (assertions : List Assertion) (k : AssertionKind) :
    k ∈ (used.addAll assertions).kinds ↔ k ∈ used.kinds ∨ ∃ a ∈ assertions, a.kind = k := by
  unfold addAll
  induction assertions generalizing used with
  | nil => simp
  | cons a assertions ih =>
    rw [List.foldl_cons, ih, mem_insert]
    simp only [List.mem_cons, exists_eq_or_imp]
    rw [or_assoc, or_left_comm, eq_comm (a := k)]

/-- The functions to import, in the order of their names. -/
def functions (used : UsedKinds) : List String :=
  (used.kinds.map AssertionKind.function).mergeSort fun a b => a ≤ b

end UsedKinds

end FlowSuite
