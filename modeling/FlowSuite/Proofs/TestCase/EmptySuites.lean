import FlowSuite.Proofs.TestCase.Imports
import FlowSuite.Proofs.TestCase.Layout

/-!
# Suites without a program

A suite is no program exactly if nothing is checked in it. A criterion that compiles makes an assertion
(`Criterion.ne_nil_of_ok`), and the kinds on record are all that the suite looks at; so there is no program exactly if
no criterion compiles in any step whose operation is found (`used_eq_nil_iff`). The reports are those of all
workflows in any case, and a program has one test for each workflow (`program?_eq_none_iff_compiles`).
-/

namespace FlowSuite

open Script

/-! ## What compiles is checked -/

theorem Condition.conjuncts_ne_nil (c : Condition) : c.conjuncts ≠ [] := by
  fun_induction Condition.conjuncts c with
  | case1 _ l r ihl _ => exact List.append_ne_nil_of_left_ne_nil ihl _
  | case2 => exact List.cons_ne_nil _ _

theorem Condition.assertions_ne_nil (text : String) {cs : List Condition} (h : cs ≠ []) (s : Scope) :
    (Condition.assertions text cs s).1 ≠ [] := by
  cases cs with
  | nil => exact absurd rfl h
  | cons c cs => exact List.cons_ne_nil _ _

/-- A criterion that compiles makes an assertion. -/
theorem Criterion.ne_nil_of_ok {c : Criterion} {context : String} {s : Scope} {as : List Assertion}
    (h : (c.assertions context s).1 = .ok as) : as ≠ [] := by
  rcases c.ok_cases h with ⟨tree, _, hc⟩ | ⟨regex, _, rfl, _⟩ | ⟨kind, path, right, _, rfl, _⟩
  · have hne := Condition.assertions_ne_nil c.condition tree.conjuncts_ne_nil s
    rwa [hc] at hne
  · exact List.cons_ne_nil _ _
  · exact List.cons_ne_nil _ _

/-! ## Suites -/

namespace Suite

theorem program?_eq_none_iff {s : Suite} : s.program? = none ↔ s.used.kinds = [] := by
  unfold program?
  split
  · next h => exact iff_of_true rfl (List.isEmpty_iff.mp h)
  · next h => exact iff_of_false (by simp) fun hnil => h (List.isEmpty_iff.mpr hnil)

section

variable (document : WorkflowDocument) (api : ApiDocument) (options : Options)

/-- No kind is used exactly if no criterion compiles in a step whose operation is found. -/
theorem used_eq_nil_iff : (generate document api options).used.kinds = [] ↔
    ∀ w ∈ document.workflows, ∀ step ∈ w.steps, ((Setting.ofDocument api options).endpoint? step).isSome →
      ∀ c ∈ step.successCriteria, ∃ e, (c.assertions options.defaultContext step.scope).1 = .error e := by
  rw [List.eq_nil_iff_forall_not_mem]
  constructor
  · intro hnone w hw step hstep hfound c hc
    cases hresult : (c.assertions options.defaultContext step.scope).1 with
    | error e => exact ⟨e, rfl⟩
    | ok as =>
      obtain ⟨a, ha⟩ := List.exists_mem_of_ne_nil as (c.ne_nil_of_ok hresult)
      exact absurd (mem_used_iff_compiles.mpr ⟨w, hw, step, hstep, hfound, c, hc, as, hresult, a, ha, rfl⟩)
        (hnone a.kind)
  · intro hfail k hk
    obtain ⟨w, hw, step, hstep, hfound, c, hc, as, hresult, _⟩ := mem_used_iff_compiles.mp hk
    obtain ⟨e, he⟩ := hfail w hw step hstep hfound c hc
    cases hresult.symm.trans he

/-- No kind is used exactly if the statements of the suite call no function of assertions. -/
theorem used_eq_nil_iff_called : (generate document api options).used.kinds = [] ↔
    ∀ k : AssertionKind, k.function ∉ called (bodyParts (generate document api options).body) := by
  rw [List.eq_nil_iff_forall_not_mem]
  exact forall_congr' fun k => not_congr mem_used_iff_called

end

end Suite

/-- **A document gives no program exactly if no criterion compiles in any step whose operation is found**, in other
words if nothing in the statements of its steps calls a function of assertions. Then no kind of assertion is used, and
the reports are, as in any case, those on all steps of all workflows. A program has one test for each workflow, in the
order of the document. -/
theorem program?_eq_none_iff_compiles (document : WorkflowDocument) (api : ApiDocument) (options : Options)
    (used : UsedKinds) :
    ((Suite.generate document api options).program? = none ↔
      ∀ w ∈ document.workflows, ∀ step ∈ w.steps, ((Setting.ofDocument api options).endpoint? step).isSome →
        ∀ c ∈ step.successCriteria, ∃ e, (c.compileIn options.defaultContext
          (.ofStep step.stepId step.payload.isSome) used).result = .error e) ∧
      ((Suite.generate document api options).program? = none ↔
        ∀ k : AssertionKind, k.function ∉ called (bodyParts (Suite.generate document api options).body)) ∧
      ((Suite.generate document api options).program? = none → (Suite.generate document api options).used = .empty) ∧
      (Suite.generate document api options).diagnostics = (document.workflows.flatMap fun w =>
        ((Setting.ofDocument api options).outcomes w.workflowId .empty w.steps).flatMap StepOutcome.diagnostics) ∧
      ∀ program, (Suite.generate document api options).program? = some program →
        program.body = document.workflows.map fun w => .expr (.call (.property (.ident "Deno") "test")
          [.string w.title, .arrow true ["test"] (WorkflowTest.environment (.ofDocument api options) ++
            (((Setting.ofDocument api options).workflowTest w).steps.map StepTest.toStmt).intersperse .empty)]) := by
  have hresult (step : Step) (c : Criterion) : (c.compileIn options.defaultContext
      (.ofStep step.stepId step.payload.isSome) used).result = (c.assertions options.defaultContext step.scope).1 :=
    c.result_compileIn options.defaultContext used step.hasPayload_scope
  simp only [Suite.program?_eq_none_iff, hresult]
  refine ⟨Suite.used_eq_nil_iff document api options, Suite.used_eq_nil_iff_called document api options,
    congrArg UsedKinds.mk, ?_, fun program h => ?_⟩
  · rw [Suite.diagnostics, Suite.emission_generate, Suite.tests_generate, List.flatMap_map, List.flatMap_map]
    rfl
  · rw [(Suite.program?_eq_some h).1, Suite.body, Suite.tests_generate]
    exact List.map_map

/-- Two workflows on one operation; the first has a criterion, the second has none. -/
def ordersDocument (condition : String) : WorkflowDocument where
  version := "1.0.0"
  info := ⟨"Orders", "1", none⟩
  sourceDescriptions := []
  workflows :=
    [ ⟨"checked", none, none, none,
        [⟨"list", none, some "listOrders", [], none, [⟨condition, none, none⟩], []⟩], []⟩,
      ⟨"unchecked", none, none, none, [⟨"list", none, some "listOrders", [], none, [], []⟩], []⟩ ]
  components := none

/-- With a broken criterion there is no program, but a report; with a good one there is a test for both workflows. -/
theorem program?_eq_none_iff_compiles_orders :
    (Suite.generate (ordersDocument "$statusCode ==") orderApi .default).program? = none ∧
      (Suite.generate (ordersDocument "$statusCode ==") orderApi .default).diagnostics.map Diagnostic.code =
        [some "E-COND-008"] ∧
      ∃ program, (Suite.generate (ordersDocument "$statusCode == 200") orderApi .default).program? = some program ∧
        program.body.length = 2 := by
  obtain ⟨hcompiles, -, -, hdiagnostics, -⟩ :=
    program?_eq_none_iff_compiles (ordersDocument "$statusCode ==") orderApi .default .empty
  refine ⟨hcompiles.mpr ?_, ?_, ?_⟩
  · intro w hw step hstep _ c hc
    simp only [ordersDocument, List.mem_cons, List.not_mem_nil, or_false] at hw
    rcases hw with rfl | rfl
    · obtain rfl := List.mem_singleton.mp hstep
      obtain rfl := List.mem_singleton.mp hc
      exact ⟨_, rfl⟩
    · obtain rfl := List.mem_singleton.mp hstep
      cases hc
  · rw [hdiagnostics]
    rfl
  · have hprogram : (Suite.generate (ordersDocument "$statusCode == 200") orderApi .default).program?.isSome = true :=
      rfl
    obtain ⟨program, h⟩ := Option.isSome_iff_exists.mp hprogram
    obtain ⟨-, -, -, -, hbody⟩ :=
      program?_eq_none_iff_compiles (ordersDocument "$statusCode == 200") orderApi .default .empty
    refine ⟨program, h, ?_⟩
    rw [hbody program h, List.length_map]
    rfl

end FlowSuite
