import FlowSuite.TestCase.Scope

/-!
# What expressions mean

An `Interpretation` is a domain of values with what the operators need of it. Everything in it is free but for one
law: the truth of a boolean is the boolean. Leaves, accesses and comparisons may throw.

- `eval` gives the value of an expression; `&&` and `||` look at their right operand only where they need it, and give
  one of their operands back;
- a conjunction is true where both of its parts are (`isTrue_and`), and a comparison where it holds (`isTrue_compare`).
-/

namespace FlowSuite.Script

universe u v

/-- A domain of values. -/
structure Interpretation (V : Type u) (E : Type v) where
  /-- The value of an expression that no operator stands at the top of. -/
  leaf : Expr → Except E V
  property : V → String → Except E V
  element : V → V → Except E V
  compare : Comparison → V → V → Except E Bool
  ofBool : Bool → V
  truthy : V → Bool
  truthy_ofBool : ∀ b, truthy (ofBool b) = b

namespace Interpretation

variable {V : Type u} {E : Type v}

/-- The outcome of a comparison, as a value. -/
def compared (I : Interpretation V E) (c : Comparison) (x : V) (right : Except E V) : Except E V := do
  let y ← right
  match I.compare c x y with
  | .ok b => return I.ofBool b
  | .error e => .error e

/-- What an operator makes of its operands; the right one counts only where it is evaluated. -/
def binary (I : Interpretation V E) (op : BinaryOp) (left right : Except E V) : Except E V := do
  let x ← left
  match op with
  | .and => if I.truthy x then right else return x
  | .or => if I.truthy x then return x else right
  | .strictEq => I.compared .eq x right
  | .strictNe => I.compared .ne x right
  | .lt => I.compared .lt x right
  | .le => I.compared .le x right
  | .gt => I.compared .gt x right
  | .ge => I.compared .ge x right

/-- The value of an expression. -/
def eval (I : Interpretation V E) : Expr → Except E V
  | .property object name => do I.property (← I.eval object) name
  | .element object index => do
    let o ← I.eval object
    let i ← I.eval index
    I.element o i
  | .not operand => do return I.ofBool !I.truthy (← I.eval operand)
  | .binary op left right => I.binary op (I.eval left) (I.eval right)
  | e => I.leaf e

/-- Has a value, and one that counts as true. -/
def IsTrue (I : Interpretation V E) (e : Expr) : Prop := ∃ x, I.eval e = .ok x ∧ I.truthy x = true

/-- Both expressions have values, and they compare. -/
def Holds (I : Interpretation V E) (c : Comparison) (left right : Expr) : Prop :=
  ∃ x y, I.eval left = .ok x ∧ I.eval right = .ok y ∧ I.compare c x y = .ok true

/-- The interpretation of what can be written down. All other leaves are undefined, and nothing has parts. -/
def literals : Interpretation Value Unit where
  leaf
    | .value x => .ok x
    | _ => .ok .undefined
  property _ _ := .error ()
  element _ _ := .error ()
  compare
    | .eq, x, y => .ok (x = y)
    | .ne, x, y => .ok (x ≠ y)
    | .lt, .int m, .int n => .ok (m < n)
    | .le, .int m, .int n => .ok (m ≤ n)
    | .gt, .int m, .int n => .ok (n < m)
    | .ge, .int m, .int n => .ok (n ≤ m)
    | _, _, _ => .ok false
  ofBool := .bool
  truthy
    | .int n => n ≠ 0
    | .float x => x.mantissa ≠ 0
    | .string t => t ≠ ""
    | .bool b => b
    | .null | .undefined => false
  truthy_ofBool := fun _ => rfl

variable (I : Interpretation V E) (left right : Expr)

theorem isTrue_and : I.IsTrue (.binary .and left right) ↔ I.IsTrue left ∧ I.IsTrue right := by
  simp only [IsTrue, eval, binary]
  cases I.eval left with
  | error e => simp [bind, Except.bind]
  | ok x => cases hx : I.truthy x <;> simp [bind, Except.bind, pure, Except.pure, hx]

/-- A comparison evaluates both of its sides before it compares. -/
theorem eval_compare (c : Comparison) : I.eval (.binary c.binaryOp left right) = (do
    let x ← I.eval left
    I.compared c x (I.eval right)) := by
  cases c <;> rfl

theorem isTrue_compare (c : Comparison) :
    I.IsTrue (.binary c.binaryOp left right) ↔ I.Holds c left right := by
  simp only [IsTrue, Holds, eval_compare, compared]
  cases I.eval left with
  | error e => simp [bind, Except.bind]
  | ok x =>
    cases I.eval right with
    | error e => simp [bind, Except.bind]
    | ok y =>
      cases hc : I.compare c x y <;> simp [bind, Except.bind, pure, Except.pure, hc, I.truthy_ofBool]

end Interpretation

end FlowSuite.Script
