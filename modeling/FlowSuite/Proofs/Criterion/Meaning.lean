import FlowSuite.Criterion.Compile
import FlowSuite.Proofs.Script.Meaning

/-!
# Assertions mean what their condition means

A simple criterion becomes one assertion for each part of its chain of `&&`, while `Condition.lower` makes one
expression of the whole condition. All assertions pass exactly where that expression is true, and both leave the same
scope (`compileSimple_passes_iff`). The induction is on the condition: a chain is taken apart at its `&&`
(`assertions_append`), and what is left is a comparison or is checked by its truth (`passes_assertion_iff`).
-/

namespace FlowSuite

open Script (Interpretation)

universe u v

variable {V : Type u} {E : Type v}

/-- The comparison that a kind of assertion makes. -/
def AssertionKind.comparison? (kind : AssertionKind) : Option Comparison :=
  Comparison.all.find? (·.assertionKind = kind)

theorem comparison?_assertionKind (c : Comparison) : c.assertionKind.comparison? = some c := by
  cases c <;> rfl

/-- An assertion on truth passes where its value counts as true, one that compares where its sides compare. The other
kinds are not about values alone and do not pass. -/
def Assertion.Passes (I : Interpretation V E) (a : Assertion) : Prop :=
  match a.kind.comparison?, a.expected with
  | some c, some expected => I.Holds c a.actual expected
  | _, _ => a.kind = .truthy ∧ I.IsTrue a.actual

variable (I : Interpretation V E) (text : String)

theorem passes_compare_iff (c : Comparison) (left right : Script.Expr) (message : String) :
    Assertion.Passes I ⟨c.assertionKind, left, some right, message⟩ ↔ I.Holds c left right := by
  simp only [Assertion.Passes, comparison?_assertionKind]

theorem passes_truthy_iff (e : Script.Expr) (message : String) :
    Assertion.Passes I ⟨.truthy, e, none, message⟩ ↔ I.IsTrue e := by
  have h : AssertionKind.truthy.comparison? = none := by decide
  simp only [Assertion.Passes, h, true_and]

/-- One assertion passes where the expression of its condition is true. -/
theorem passes_assertion_iff (c : Condition) (s : Scope) :
    (c.assertion text s).1.Passes I ↔ I.IsTrue (c.lower s).1 := by
  cases c with
  | comparison _ operator left right message =>
    simp only [Condition.assertion, Condition.lower]
    rw [passes_compare_iff, Interpretation.isTrue_compare]
  | _ => simp only [Condition.assertion, passes_truthy_iff]

/-- One assertion leaves the scope that the expression of its condition leaves. -/
theorem assertion_scope (c : Condition) (s : Scope) : (c.assertion text s).2 = (c.lower s).2 := by
  cases c <;> rfl

theorem assertions_singleton (c : Condition) (s : Scope) :
    Condition.assertions text [c] s = ([(c.assertion text s).1], (c.assertion text s).2) := rfl

/-- A longer list of conditions starts where the first part of it ends. -/
theorem assertions_append (cs ds : List Condition) (s : Scope) :
    Condition.assertions text (cs ++ ds) s =
      ((Condition.assertions text cs s).1 ++
          (Condition.assertions text ds (Condition.assertions text cs s).2).1,
        (Condition.assertions text ds (Condition.assertions text cs s).2).2) := by
  induction cs generalizing s with
  | nil => rfl
  | cons c cs ih => simp only [List.cons_append, Condition.assertions, ih]

/-- Taking a condition apart keeps its meaning and its scope, in every scope it is met in. -/
theorem assertions_conjuncts (c : Condition) (s : Scope) :
    ((∀ a ∈ (Condition.assertions text c.conjuncts s).1, a.Passes I) ↔ I.IsTrue (c.lower s).1) ∧
      (Condition.assertions text c.conjuncts s).2 = (c.lower s).2 := by
  induction c generalizing s with
  | logical span connective left right ihl ihr =>
    cases connective with
    | and =>
      obtain ⟨hl, hls⟩ := ihl s
      obtain ⟨hr, hrs⟩ := ihr (left.lower s).2
      simp only [Condition.conjuncts, assertions_append, Condition.lower, Connective.binaryOp, hls]
      refine ⟨?_, hrs⟩
      rw [Interpretation.isTrue_and, ← hl, ← hr, List.forall_mem_append]
    | or =>
      simp only [Condition.conjuncts, assertions_singleton, List.forall_mem_singleton]
      exact ⟨passes_assertion_iff I text _ s, assertion_scope text _ s⟩
  | _ =>
    simp only [Condition.conjuncts, assertions_singleton, List.forall_mem_singleton]
    exact ⟨passes_assertion_iff I text _ s, assertion_scope text _ s⟩

/-- **Compilation of simple criteria preserves meaning**: all assertions pass where the whole condition is true, and the
log of the scope is that of the whole condition. -/
theorem compileSimple_passes_iff {text : String} {s s' : Scope} {as : List Assertion}
    (h : compileSimple text s = (.ok as, s')) :
    ∃ tree, Condition.parse text = .ok tree ∧
      ((∀ a ∈ as, a.Passes I) ↔ I.IsTrue (tree.lower s).1) ∧ s' = (tree.lower s).2 := by
  unfold compileSimple at h
  cases hp : Condition.parse text with
  | error e => simp [hp] at h
  | ok tree =>
    simp only [hp] at h
    split at h
    · obtain ⟨has, hs⟩ := Prod.mk.inj h
      obtain ⟨hm, hsc⟩ := assertions_conjuncts I text tree s
      cases has
      exact ⟨tree, rfl, hm, by rw [← hs, hsc]⟩
    · cases (Prod.mk.inj h).1

set_option maxRecDepth 8000 in
/-- A chain in parentheses, with a bare operand, a disjunction and a read of the context in it. -/
theorem compileSimple_passes_iff_nested :
    ∃ as s', compileSimple "(1 < 2 && a) && (!0 || $steps.a.outputs.b == 1)" .detached = (.ok as, s') ∧
      ∃ tree, Condition.parse "(1 < 2 && a) && (!0 || $steps.a.outputs.b == 1)" = .ok tree ∧
        ((∀ a ∈ as, a.Passes Interpretation.literals) ↔ Interpretation.literals.IsTrue (tree.lower .detached).1) ∧
        s' = (tree.lower .detached).2 := by
  have h : ∃ as s', compileSimple "(1 < 2 && a) && (!0 || $steps.a.outputs.b == 1)" .detached = (.ok as, s') :=
    ⟨_, _, rfl⟩
  obtain ⟨as, s', h⟩ := h
  exact ⟨as, s', h, compileSimple_passes_iff Interpretation.literals h⟩

end FlowSuite
