import Mathlib.Data.List.Forall2
import FlowSuite.Proofs.TestCase.EarlyReads

/-!
# The statements of a step

The test of a step is made of parts that do not depend on each other, in a fixed order:

* one constant for each path or query parameter (`constants_bindParameters`), the body that is sent, the request and the
  answer decoded;
* the assertions of each criterion that compiles (`assertions_compileChecks`);
* one assignment for each output (`assignments_lowerOutputs`).

Each part is what it is by itself, in a scope where nothing was logged. The errors among the reports of the step are
those of the criteria that do not compile (`errors_testOf`). `layout_testOf?` says all of it.
-/

namespace FlowSuite

open Script (Expr Stmt)

/-! ## Parts of a step by themselves -/

/-- The statements that a criterion makes: those of its assertions, none where it does not compile. -/
def Criterion.statements (c : Criterion) (context : String) (s : Scope) (used : UsedKinds) : List Stmt :=
  match (c.compileIn context s used).result with
  | .ok as => as.map Assertion.toStmt
  | .error _ => []

/-- The report on a criterion that does not compile: an error with its code and span, on the text of its condition. -/
def Criterion.report? (c : Criterion) (context : String) (s : Scope) (used : UsedKinds) (workflowId stepId : String) :
    Option Diagnostic :=
  match (c.compileIn context s used).result with
  | .ok _ => none
  | .error e => some
    { severity := .error
      code := some e.code
      workflowId
      stepId := some stepId
      message := e.message
      source := some c.condition
      span := e.span? }

/-- What a criterion is compiled to depends on whether the step sends a body only. -/
theorem Criterion.result_compileIn (c : Criterion) (context : String) {s alone : Scope} (used : UsedKinds)
    (h : s.hasPayload = alone.hasPayload) :
    (c.compileIn context alone used).result = (c.assertions context s).1 := by
  have halone : (c.compileIn context alone used).result = (c.assertions context alone).1 := by
    unfold compileIn
    split <;> next hc => rw [hc]
  rw [halone]
  exact (c.appendsOnly_assertions context).fst_eq_of_hasPayload h.symm

section

variable (alone : Scope) {s : Scope}

/-- Path and query parameters are bound to constants, each to one and in their order. -/
theorem constants_bindParameters (ps : List Parameter) (taken : List String) (hs : s.hasPayload = alone.hasPayload) :
    List.Forall₂ (fun p stmt => ∃ name, stmt = .const name none (p.value.lowerValue alone).1)
      (ps.filter fun p => p.location = some .path ∨ p.location = some .query)
      (bindParameters ps taken s).1.constants := by
  obtain ⟨named, hnamed⟩ := exists_named alone ps taken hs
  rw [← hnamed.parameters, hnamed.constants, List.forall₂_map_left_iff, List.forall₂_map_right_iff, List.forall₂_same]
  exact fun q _ => ⟨q.2, rfl⟩

/-- The assertions of criteria are those of each criterion by itself. -/
theorem assertions_compileChecks (context : String) (cs : List Criterion) (emission : Emission) (used : UsedKinds)
    (hs : s.hasPayload = alone.hasPayload) :
    ((compileChecks context cs emission s).1.1.flatMap Check.assertions).map Assertion.toStmt =
      cs.flatMap fun c => c.statements context alone used := by
  rw [compileChecks_fst, List.flatMap_map, List.map_flatMap]
  refine congrArg cs.flatMap (funext fun c => ?_)
  simp only [Criterion.statements, c.result_compileIn context used hs, Check.assertions]
  cases (c.assertions context s).1 <;> rfl

/-- The errors of criteria are those of each criterion by itself. -/
theorem reports_compileChecks (context : String) (cs : List Criterion) (emission : Emission) (used : UsedKinds)
    (workflowId stepId : String) (hs : s.hasPayload = alone.hasPayload) :
    (compileChecks context cs emission s).1.1.filterMap (Check.diagnostic? workflowId stepId) =
      cs.filterMap fun c => c.report? context alone used workflowId stepId := by
  rw [compileChecks_fst, List.filterMap_map]
  refine congrArg (cs.filterMap ·) (funext fun c => ?_)
  simp only [Criterion.report?, c.result_compileIn context used hs, Function.comp_apply, Check.diagnostic?]
  cases (c.assertions context s).1 <;> rfl

/-- Every output is assigned to its key. -/
theorem assignments_lowerOutputs (stepId : String) : ∀ (outputs : List (String × String)) {s : Scope},
    s.hasPayload = alone.hasPayload →
      (lowerOutputs stepId outputs s).1.map ContextWrite.toStmt =
        outputs.map fun o => .assign (.contextAt (outputKey stepId o.1)) (lowerRuntime o.2 alone).1
  | [], _, _ => rfl
  | (name, expression) :: outputs, s, hs => by
    have hvalue : (lowerRuntime expression s).1 = (lowerRuntime expression alone).1 :=
      (appendsOnly_lowerRuntime expression).fst_eq_of_hasPayload hs
    have hmore := assignments_lowerOutputs stepId outputs (s := (lowerRuntime expression s).2)
      (by rw [hasPayload_lowerRuntime, hs])
    rw [List.map_cons, ← hmore, ← hvalue]
    rfl

end

/-! ## Whole steps -/

section

variable {setting : Setting} {workflowId : String} {written : ContextStore} {step : Step} {e : Endpoint}

/-- Of the reports on a step those on criteria are errors, and all others are warnings. -/
theorem errors_testOf : (setting.testOf workflowId written step e).diagnostics.filter Diagnostic.isError =
    (setting.testOf workflowId written step e).checks.filterMap (Check.diagnostic? workflowId step.stepId) := by
  have hwarnings {α : Type} (xs : List α) {warn : α → Diagnostic} (hwarn : ∀ x, (warn x).severity = .warning) :
      (xs.map warn).filter Diagnostic.isError = [] := by
    simp [Diagnostic.isError, hwarn]
  have herrors (d : Diagnostic) (hd : d ∈ (setting.testOf workflowId written step e).checks.filterMap
      (Check.diagnostic? workflowId step.stepId)) : d.isError = true := by
    obtain ⟨check, _, hcheck⟩ := List.mem_filterMap.mp hd
    exact decide_eq_true (Check.severity_of_diagnostic? hcheck)
  rw [← List.filter_eq_self.mpr herrors]
  simp only [Setting.testOf, Setting.emit, List.filter_append]
  rw [hwarnings, hwarnings, hwarnings, hwarnings, List.nil_append, List.nil_append, List.append_nil, List.append_nil]
  all_goals exact fun _ => rfl

end

/-- **The statements of a step** whose operation is found are, in this order: a constant for each path or query
parameter, the body that is sent if there is one, the request and the answer decoded, the assertions of each criterion
by itself, and an assignment to the key of each output. The errors among its reports are those of its criteria by
themselves. What the fresh scope is named and which kinds were used before makes no difference. -/
theorem layout_testOf? (setting : Setting) (workflowId : String) (written : ContextStore) (step : Step)
    (hfound : (setting.endpoint? step).isSome) (stepId : String) (used : UsedKinds) :
    ∃ t constants request, setting.testOf? workflowId written step = .ok t ∧
      List.Forall₂
        (fun p stmt => ∃ name, stmt = .const name none (p.value.lowerValue (.ofStep stepId step.payload.isSome)).1)
        (step.parameters.filter fun p => p.location = some .path ∨ p.location = some .query) constants ∧
      t.body = constants ++
        (step.payload.map fun v => Stmt.const "payload" none v.lower).toList ++
        [ .const "response" none (.await (.call (.ident "fetch") request)),
          .const "data" none (.await (.call (.property (.ident "response") "json") [])) ] ++
        (step.successCriteria.flatMap fun c =>
          c.statements setting.defaultContext (.ofStep stepId step.payload.isSome) used) ++
        (step.outputs.map fun o => .assign (.contextAt (step.stepId ++ ".outputs." ++ o.1))
          (lowerRuntime o.2 (.ofStep stepId step.payload.isSome)).1) ∧
      t.diagnostics.filter Diagnostic.isError = step.successCriteria.filterMap fun c =>
        c.report? setting.defaultContext (.ofStep stepId step.payload.isSome) used workflowId step.stepId := by
  obtain ⟨e, he⟩ := Option.isSome_iff_exists.mp hfound
  have hscope := step.hasPayload_scope
  have hfinal : (compileChecks setting.defaultContext step.successCriteria .empty step.scope).2.hasPayload =
      step.payload.isSome :=
    ((appendsOnly_compileChecks setting.defaultContext step.successCriteria .empty).hasPayload_snd step.scope).trans
      hscope
  have hpayload : (setting.testOf workflowId written step e).payload.map (Stmt.const "payload" none) =
      step.payload.map fun v => Stmt.const "payload" none v.lower := Option.map_map _ _ _
  have hassertions : (setting.testOf workflowId written step e).assertions.map Assertion.toStmt =
      step.successCriteria.flatMap fun c =>
        c.statements setting.defaultContext (.ofStep stepId step.payload.isSome) used :=
    assertions_compileChecks _ setting.defaultContext step.successCriteria .empty used hscope
  have hwrites : (setting.testOf workflowId written step e).writes.map ContextWrite.toStmt =
      step.outputs.map fun o => .assign (.contextAt (step.stepId ++ ".outputs." ++ o.1))
        (lowerRuntime o.2 (.ofStep stepId step.payload.isSome)).1 :=
    assignments_lowerOutputs (.ofStep stepId step.payload.isSome) step.stepId step.outputs hfinal
  obtain ⟨request, hrequest⟩ : ∃ args, (setting.testOf workflowId written step e).request =
      .await (.call (.ident "fetch") args) := ⟨_, rfl⟩
  have hconstants := constants_bindParameters (.ofStep stepId step.payload.isSome) step.parameters stepLocals
    (s := .ofStep step.stepId step.payload.isSome) rfl
  refine ⟨_, _, request, testOf?_eq_ok_iff.mpr ⟨e, he, rfl⟩, hconstants, ?_, ?_⟩
  · rw [StepTest.body, hpayload, hrequest, hassertions, hwrites]
    rfl
  · rw [errors_testOf]
    exact reports_compileChecks _ setting.defaultContext step.successCriteria .empty used workflowId step.stepId hscope

/-- A step with parameters of three kinds, a body, two criteria, the second one of them broken, and an output. -/
def orderStep : Step where
  stepId := "order"
  description := none
  operationId := some "shipOrder"
  parameters := [⟨"id", some .path, .str "$steps.create.outputs.id"⟩, ⟨"session", some .cookie, .str "s1"⟩,
    ⟨"limit", some .query, .int 5⟩]
  requestBody := some ⟨none, some (.obj [("count", .int 2)])⟩
  successCriteria := [⟨"$statusCode == 201 && $response.body#/id", none, none⟩, ⟨"$statusCode ==", none, none⟩]
  outputs := [("order", "$response.body#/id")]

/-- Two constants, the body, the request and the answer, two assertions of the first criterion and one assignment; and
an error for the second criterion. -/
theorem layout_testOf?_orderStep : (shippingSetting.endpoint? orderStep).isSome ∧ ∃ t,
    shippingSetting.testOf? "shipping" .empty orderStep = .ok t ∧ t.body.length = 8 ∧
      (t.diagnostics.filter Diagnostic.isError).map (fun d => (d.code, d.source, d.span)) =
        [(some "E-COND-008", some "$statusCode ==", some ⟨12, 14⟩)] := by
  have hfound : (shippingSetting.endpoint? orderStep).isSome := rfl
  obtain ⟨t, constants, request, ht, hconstants, hbody, herrors⟩ :=
    layout_testOf? shippingSetting "shipping" .empty orderStep hfound "" .empty
  refine ⟨hfound, t, ht, ?_, ?_⟩
  · have htwo : constants.length = 2 := hconstants.length_eq.symm
    rw [hbody]
    simp only [List.length_append, htwo]
    rfl
  · rw [herrors]
    rfl

end FlowSuite
