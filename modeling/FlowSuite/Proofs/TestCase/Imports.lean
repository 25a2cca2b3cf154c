import FlowSuite.Proofs.Script.Parts
import FlowSuite.Proofs.TestCase.Outcomes

/-!
# Imports match use

The imports of a program are chosen from what is on record once all tests are emitted, not from its text. Yet they are
what the text calls:

* an assertion calls the function of its kind, and of the other imported functions `JSONPath` alone, exactly where its
  criterion is a path query (`Criterion.mem_called_iff`);
* nothing else in the test of a step mentions an imported function, and no constant has the name of one
  (`called_body_testOf_iff`);
* what is on record are the assertions of all tests (`Suite.mem_used`, `Suite.queriesPath_iff`), so a program imports
  exactly what it calls, each function once and in order (`imports_generate`).
-/

namespace FlowSuite

open Script

/-! ## Imported functions -/

/-- The functions that a program can import. -/
def importable : List String := "JSONPath" :: AssertionKind.all.map AssertionKind.function

theorem importable_subset : ∀ f ∈ importable, f ∈ stepLocals := by decide

theorem not_mem_scopeNames_of_importable (hasPayload : Bool) : ∀ f ∈ importable, f ∉ scopeNames hasPayload := by
  cases hasPayload <;> decide

namespace AssertionKind

theorem function_injective : Function.Injective function := by
  intro k l h
  cases k <;> cases l <;> first | rfl | exact absurd h (by decide)

theorem function_mem_importable (k : AssertionKind) : k.function ∈ importable :=
  List.mem_cons_of_mem _ (List.mem_map_of_mem k.mem_all)

theorem function_ne_path (k : AssertionKind) : k.function ≠ "JSONPath" := by
  cases k <;> decide

end AssertionKind

namespace UsedKinds

theorem nodup_addAll (assertions : List Assertion) : ∀ used : UsedKinds, used.kinds.Nodup →
    (used.addAll assertions).kinds.Nodup := by
  induction assertions with
  | nil => exact fun _ h => h
  | cons a assertions ih => exact fun used _ => ih (used.insert a.kind) (List.Nodup.filter _ (by decide))

theorem mem_functions {used : UsedKinds} {f : String} : f ∈ used.functions ↔ ∃ k ∈ used.kinds, k.function = f := by
  simp [functions]

theorem nodup_functions {used : UsedKinds} (h : used.kinds.Nodup) : used.functions.Nodup :=
  (List.mergeSort_perm _ _).nodup_iff.mpr (h.map AssertionKind.function_injective)

theorem pairwise_functions (used : UsedKinds) : used.functions.Pairwise (· ≤ ·) := by
  have htrans : ∀ a b c : String, decide (a ≤ b) = true → decide (b ≤ c) = true → decide (a ≤ c) = true := by
    intro a b c hab hbc
    exact decide_eq_true (String.le_trans (of_decide_eq_true hab) (of_decide_eq_true hbc))
  have htotal : ∀ a b : String, (decide (a ≤ b) || decide (b ≤ a)) = true := by
    intro a b
    simpa using String.le_total a b
  exact (List.pairwise_mergeSort htrans htotal _).imp of_decide_eq_true

end UsedKinds

/-! ## Assertions -/

/-- An expression over the scope of a step calls no imported function. -/
theorem Script.Expr.InScope.not_mem_called {hasPayload : Bool} {e : Expr} (h : e.InScope hasPayload) {f : String}
    (hf : f ∈ importable) : f ∉ called e.parts :=
  fun hcall => not_mem_scopeNames_of_importable hasPayload f hf (h f (mem_names_of_mem_called hcall))

namespace Assertion

theorem called_call (a : Assertion) : called a.call.parts =
    a.kind.function :: (called a.actual.parts ++ called (argParts a.expected.toList)) := by
  cases h : a.expected with
  | none => simp [call, h, Expr.parts, called_cons, Expr.callee?, Expr.string]
  | some e => simp [call, h, Expr.parts, called_cons, Expr.callee?, Expr.string]

theorem mem_called_call_iff {a : Assertion} {f : String} (hexpected : ∀ e ∈ a.expected, f ∉ called e.parts) :
    f ∈ called a.call.parts ↔ f = a.kind.function ∨ f ∈ called a.actual.parts := by
  have hargs : f ∉ called (argParts a.expected.toList) := by
    cases h : a.expected with
    | none => simp [called]
    | some e => simpa [Expr.parts] using hexpected e h
  rw [called_call, List.mem_cons, List.mem_append, or_iff_left hargs]

theorem Plain.mem_called_iff {hasPayload : Bool} {a : Assertion} (h : a.Plain hasPayload) {f : String}
    (hf : f ∈ importable) : f ∈ called a.call.parts ↔ f = a.kind.function := by
  rw [mem_called_call_iff fun e he => (h.2 e he).not_mem_called hf, or_iff_left (h.1.not_mem_called hf)]

end Assertion

theorem called_pathQuery (path : String) (json : Expr) :
    called (pathQuery path json).parts = "JSONPath" :: called json.parts := by
  simp [pathQuery, Expr.parts, called_cons, Expr.callee?, Expr.string, Expr.bool]

/-- The assertion on a path query calls its own function and `JSONPath`. -/
theorem mem_called_query {kind : AssertionKind} {path message : String} {json expected : Expr} {hasPayload : Bool}
    (hjson : json.InScope hasPayload) (hexpected : expected.InScope hasPayload) {f : String} (hf : f ∈ importable) :
    f ∈ called (Assertion.call ⟨kind, pathQuery path json, some expected, message⟩).parts ↔
      f = kind.function ∨ f = "JSONPath" := by
  have hplain : ∀ e ∈ some expected, f ∉ called e.parts := by
    rintro _ ⟨⟩
    exact hexpected.not_mem_called hf
  rw [Assertion.mem_called_call_iff hplain, called_pathQuery, List.mem_cons, or_iff_left (hjson.not_mem_called hf)]

namespace Criterion

variable {c : Criterion} {context : String} {s : Scope} {as : List Assertion}

/-- **Of the functions that can be imported** an assertion calls that of its kind, and `JSONPath` exactly where its
criterion is a path query. -/
theorem mem_called_iff (h : (c.assertions context s).1 = .ok as) {a : Assertion} (ha : a ∈ as) {f : String}
    (hf : f ∈ importable) :
    f ∈ called a.call.parts ↔ f = a.kind.function ∨ f = "JSONPath" ∧ c.kind? = some .jsonPath := by
  have hcontext := inScope_lowerRuntime (c.context.getD context) s
  rcases c.ok_cases h with ⟨tree, hk, hc⟩ | ⟨regex, hk, rfl, _⟩ | ⟨kind, path, right, hk, rfl, _⟩
  · have hplain := Condition.plain_assertions c.condition tree.conjuncts s
    rw [hc] at hplain
    simpa [hk] using (hplain a ha).mem_called_iff hf
  · obtain rfl := List.mem_singleton.mp ha
    have hliteral : called (Expr.construct (.ident "RegExp") [regex.toExpr]).parts = [] := rfl
    rw [Assertion.mem_called_call_iff (by simp [hliteral]), or_iff_left (hcontext.not_mem_called hf)]
    simp [hk]
  · obtain rfl := List.mem_singleton.mp ha
    have hright := right.inScope_lower (lowerRuntime (c.context.getD context) s).2
    rw [hasPayload_lowerRuntime] at hright
    simpa [hk] using mem_called_query hcontext hright hf

theorem exists_mem_of_jsonPath (h : (c.assertions context s).1 = .ok as) (hk : c.kind? = some .jsonPath) :
    ∃ a, a ∈ as := by
  rcases c.ok_cases h with ⟨_, hk', _⟩ | ⟨_, hk', _⟩ | ⟨kind, path, right, _, rfl, _⟩
  · simp [hk] at hk'
  · simp [hk] at hk'
  · exact ⟨_, List.mem_singleton_self _⟩

end Criterion

/-! ## Steps -/

namespace Check

theorem mem_assertions {c : Check} {a : Assertion} : a ∈ c.assertions ↔ ∃ as, c.result = .ok as ∧ a ∈ as := by
  unfold assertions
  cases c.result <;> simp

theorem queriesPath_iff {c : Check} : c.queriesPath = true ↔
    (∃ as, c.result = .ok as) ∧ c.criterion.kind? = some .jsonPath := by
  unfold queriesPath
  cases c.result <;> simp

end Check

/-- A function that is mentioned neither in front of the assertions nor behind them is called by assertions only. -/
theorem StepTest.mem_called_body_iff_of_not_mem {t : StepTest} {f : String}
    (hexchange : f ∉ bodyNames (t.constants ++ (t.payloadBody ++ t.exchange)))
    (hwrites : f ∉ bodyNames (t.writes.map ContextWrite.toStmt)) :
    f ∈ called (bodyParts t.body) ↔ ∃ a ∈ t.assertions, f ∈ called a.call.parts := by
  have hbody : t.body = (t.constants ++ (t.payloadBody ++ t.exchange)) ++
      (t.assertions.map Assertion.toStmt ++ t.writes.map ContextWrite.toStmt) := by
    simp only [body_eq, checksAndWrites, List.append_assoc]
  rw [hbody, mem_called_bodyParts_append, or_iff_right fun hcall => hexchange (mem_bodyNames_of_mem_called hcall),
    mem_called_bodyParts_append, or_iff_left fun hcall => hwrites (mem_bodyNames_of_mem_called hcall),
    mem_called_bodyParts]
  simp only [List.mem_map, exists_exists_and_eq_and]
  rfl

section

variable {setting : Setting} {workflowId : String} {written : ContextStore} {step : Step} {e : Endpoint}

theorem mem_assertions_testOf {a : Assertion} : a ∈ (setting.testOf workflowId written step e).assertions ↔
    ∃ c ∈ step.successCriteria, ∃ as, (c.assertions setting.defaultContext step.scope).1 = .ok as ∧ a ∈ as := by
  simp only [StepTest.assertions, List.mem_flatMap, Check.mem_assertions, checks_testOf, List.mem_map,
    exists_exists_and_eq_and]

theorem queriesPath_testOf_iff : (setting.testOf workflowId written step e).checks.any Check.queriesPath = true ↔
    ∃ c ∈ step.successCriteria,
      (∃ as, (c.assertions setting.defaultContext step.scope).1 = .ok as) ∧ c.kind? = some .jsonPath := by
  simp only [List.any_eq_true, Check.queriesPath_iff, checks_testOf, List.mem_map, exists_exists_and_eq_and]

/-- The assertions of a step call their own functions, and `JSONPath` exactly where one of them is on a path query. -/
theorem mem_called_assertions_iff {f : String} (hf : f ∈ importable) :
    (∃ a ∈ (setting.testOf workflowId written step e).assertions, f ∈ called a.call.parts) ↔
      (∃ a ∈ (setting.testOf workflowId written step e).assertions, a.kind.function = f) ∨
        f = "JSONPath" ∧ (setting.testOf workflowId written step e).checks.any Check.queriesPath = true := by
  rw [queriesPath_testOf_iff]
  constructor
  · rintro ⟨a, ha, hcall⟩
    obtain ⟨c, hc, as, hok, has⟩ := mem_assertions_testOf.mp ha
    rcases (c.mem_called_iff hok has hf).mp hcall with rfl | ⟨rfl, hkind⟩
    · exact .inl ⟨a, ha, rfl⟩
    · exact .inr ⟨rfl, c, hc, ⟨as, hok⟩, hkind⟩
  · rintro (⟨a, ha, rfl⟩ | ⟨rfl, c, hc, ⟨as, hok⟩, hkind⟩)
    · obtain ⟨c, _, as, hok, has⟩ := mem_assertions_testOf.mp ha
      exact ⟨a, ha, (c.mem_called_iff hok has hf).mpr (.inl rfl)⟩
    · obtain ⟨a, has⟩ := c.exists_mem_of_jsonPath hok hkind
      exact ⟨a, mem_assertions_testOf.mpr ⟨c, hc, as, hok, has⟩, (c.mem_called_iff hok has hf).mpr (.inr ⟨rfl, hkind⟩)⟩

theorem not_mem_request {f : String} (hf : f ∈ importable) :
    f ∉ (setting.testOf workflowId written step e).request.names := by
  have hfixed : ∀ f ∈ importable, f ∉ ["fetch", "serverUrl", "encodeURIComponent", "String", "apiKey"] ∧
      ¬(f = "JSON" ∨ f = "payload") ∧ f ≠ "String" := by decide
  obtain ⟨hcall, hbody, hstring⟩ := hfixed f hf
  intro hmem
  rcases mem_names_request hmem with hx | hbound | hheaders | ⟨_, hx⟩
  · exact hcall hx
  · exact step.not_mem_bound (importable_subset f hf) hbound
  · obtain ⟨p, _, _, hname⟩ := (step.boundParameters_spec.headers f hstring).mp hheaders
    exact not_mem_scopeNames_of_importable _ f hf (Json.name?_mem hname)
  · exact hbody hx

/-- In front of the assertions no imported function is mentioned. -/
theorem not_mem_names_exchange {f : String} (hf : f ∈ importable) :
    f ∉ bodyNames ((setting.testOf workflowId written step e).constants ++
      ((setting.testOf workflowId written step e).payloadBody ++
        (setting.testOf workflowId written step e).exchange)) := by
  rw [mem_bodyNames_append, mem_bodyNames_append]
  rintro (hmem | hmem | hmem)
  · obtain ⟨p, _, _, hname⟩ := (step.boundParameters_spec.constants f).mp hmem
    exact not_mem_scopeNames_of_importable _ f hf (Json.name?_mem hname)
  · rw [(StepTest.inOrder_payloadBody names_payload).2] at hmem
    cases hmem
  · have hmem : f ∈ (setting.testOf workflowId written step e).request.names ++ ["response"] := hmem
    rcases List.mem_append.mp hmem with hmem | hmem
    · exact not_mem_request hf hmem
    · exact not_mem_scopeNames_of_importable false f hf (by simp [scopeNames, List.mem_singleton.mp hmem])

/-- Behind them neither. -/
theorem not_mem_names_writes {f : String} (hf : f ∈ importable) :
    f ∉ bodyNames ((setting.testOf workflowId written step e).writes.map ContextWrite.toStmt) := by
  intro hmem
  obtain ⟨_, hstmt, hx⟩ := mem_bodyNames.mp hmem
  obtain ⟨w, hw, rfl⟩ := List.mem_map.mp hstmt
  have hscope := lowerOutputs_inScope step.stepId step.outputs
    (compileChecks setting.defaultContext step.successCriteria .empty step.scope).2 w hw f
  have hx : f ∈ ["context"] ++ w.value.names := hx
  rcases List.mem_append.mp hx with hx | hx
  · exact not_mem_scopeNames_of_importable false f hf (by simp [scopeNames, List.mem_singleton.mp hx])
  · exact not_mem_scopeNames_of_importable _ f hf (hscope hx)

/-- **In the test of a step** only assertions call imported functions. -/
theorem called_body_testOf_iff {f : String} (hf : f ∈ importable) :
    f ∈ called (bodyParts (setting.testOf workflowId written step e).body) ↔
      ∃ a ∈ (setting.testOf workflowId written step e).assertions, f ∈ called a.call.parts :=
  StepTest.mem_called_body_iff_of_not_mem (not_mem_names_exchange hf) (not_mem_names_writes hf)

/-- No constant of a step hides an imported function. -/
theorem not_mem_bound_testOf {f : String} (hf : f ∈ importable) :
    f ∉ bound (setting.testOf workflowId written step e).body := by
  have hlate : ∀ f ∈ importable, ∀ hasPayload : Bool,
      f ∉ (if hasPayload then ["payload"] else []) ++ ["response", "data"] := by decide
  rw [bound_testOf, List.mem_append, not_or]
  exact ⟨step.not_mem_bound (importable_subset f hf), hlate f hf _⟩

end

/-! ## Programs -/

theorem StepTest.called_toStmt (t : StepTest) : called t.toStmt.parts = called (bodyParts t.body) := by
  simp [StepTest.toStmt, called_cons, Expr.callee?, Expr.string]

theorem WorkflowTest.mem_called_toStmt {setting : Setting} {t : WorkflowTest} {f : String} :
    f ∈ called (t.toStmt setting).parts ↔ ∃ s ∈ t.steps, f ∈ called (bodyParts s.body) := by
  have henvironment : called (bodyParts (environment setting)) = [] := rfl
  have hparts : called (t.toStmt setting).parts = called (bodyParts (t.steps.map StepTest.toStmt)) := by
    simp [toStmt, called_cons, Expr.callee?, Expr.string, bodyParts_append, bodyParts_intersperse, henvironment]
  rw [hparts, mem_called_bodyParts]
  simp only [List.mem_map, exists_exists_and_eq_and, StepTest.called_toStmt]

namespace Suite

/-- The statements of a suite, and of its program if it has one. -/
def body (s : Suite) : List Stmt := s.tests.map (WorkflowTest.toStmt s.setting)

theorem program?_eq_some {s : Suite} {program : Program} (h : s.program? = some program) :
    program.body = s.body ∧ program.imports = s.imports := by
  unfold program? at h
  split at h
  · cases h
  · cases h
    exact ⟨rfl, rfl⟩

theorem mem_called_body {s : Suite} {f : String} : f ∈ called (bodyParts s.body) ↔
    ∃ w ∈ s.tests, ∃ t ∈ w.steps, f ∈ called (bodyParts t.body) := by
  rw [mem_called_bodyParts, body]
  simp only [List.mem_map, exists_exists_and_eq_and, WorkflowTest.mem_called_toStmt]

section

variable {document : WorkflowDocument} {api : ApiDocument} {options : Options}

theorem mem_used {k : AssertionKind} : k ∈ (generate document api options).used.kinds ↔
    ∃ w ∈ (generate document api options).tests, ∃ t ∈ w.steps, ∃ a ∈ t.assertions, a.kind = k := by
  rw [used, emission_generate]
  simp only [Emission.record, Emission.empty, UsedKinds.mem_addAll, UsedKinds.empty, List.not_mem_nil, false_or,
    List.mem_flatMap, WorkflowTest.checks_eq, StepTest.assertions]
  constructor
  · rintro ⟨a, ⟨check, ⟨w, hw, t, ht, hcheck⟩, ha⟩, hk⟩
    exact ⟨w, hw, t, ht, a, ⟨check, hcheck, ha⟩, hk⟩
  · rintro ⟨w, hw, t, ht, a, ⟨check, hcheck, ha⟩, hk⟩
    exact ⟨a, ⟨check, ⟨w, hw, t, ht, hcheck⟩, ha⟩, hk⟩

theorem queriesPath_iff : (generate document api options).queriesPath = true ↔
    ∃ w ∈ (generate document api options).tests, ∃ t ∈ w.steps, t.checks.any Check.queriesPath = true := by
  rw [queriesPath, emission_generate]
  simp only [Emission.record, Emission.empty, Bool.false_or, List.any_flatMap, List.any_eq_true,
    WorkflowTest.checks_eq]

theorem nodup_used : (generate document api options).used.kinds.Nodup := by
  rw [used, emission_generate]
  exact UsedKinds.nodup_addAll _ .empty List.nodup_nil

theorem exists_testOf {w : WorkflowTest} {t : StepTest} (hw : w ∈ (generate document api options).tests)
    (ht : t ∈ w.steps) :
    ∃ workflowId written step e, (Setting.ofDocument api options).testOf workflowId written step e = t := by
  rw [tests_generate] at hw
  obtain ⟨workflow, _, rfl⟩ := List.mem_map.mp hw
  obtain ⟨_, step, _, e, _, ht⟩ := mem_steps_iff.mp ht
  exact ⟨_, _, step, e, ht⟩

/-- The statements of a suite call the functions of the kinds it uses, and `JSONPath` exactly if it queries a path. -/
theorem mem_called_body_iff {f : String} (hf : f ∈ importable) :
    f ∈ called (bodyParts (generate document api options).body) ↔
      (∃ k ∈ (generate document api options).used.kinds, k.function = f) ∨
        f = "JSONPath" ∧ (generate document api options).queriesPath = true := by
  rw [mem_called_body, queriesPath_iff]
  simp only [mem_used]
  constructor
  · rintro ⟨w, hw, t, ht, hcall⟩
    obtain ⟨workflowId, written, step, e, rfl⟩ := exists_testOf hw ht
    rcases (mem_called_assertions_iff hf).mp ((called_body_testOf_iff hf).mp hcall) with
      ⟨a, ha, rfl⟩ | ⟨rfl, hquery⟩
    · exact .inl ⟨a.kind, ⟨w, hw, _, ht, a, ha, rfl⟩, rfl⟩
    · exact .inr ⟨rfl, w, hw, _, ht, hquery⟩
  · rintro (⟨_, ⟨w, hw, t, ht, a, ha, rfl⟩, rfl⟩ | ⟨rfl, w, hw, t, ht, hquery⟩)
    · obtain ⟨workflowId, written, step, e, rfl⟩ := exists_testOf hw ht
      exact ⟨w, hw, _, ht, (called_body_testOf_iff hf).mpr
        ((mem_called_assertions_iff hf).mpr (.inl ⟨a, ha, rfl⟩))⟩
    · obtain ⟨workflowId, written, step, e, rfl⟩ := exists_testOf hw ht
      exact ⟨w, hw, _, ht, (called_body_testOf_iff hf).mpr
        ((mem_called_assertions_iff hf).mpr (.inr ⟨rfl, hquery⟩))⟩

theorem mem_used_iff_called {k : AssertionKind} : k ∈ (generate document api options).used.kinds ↔
    k.function ∈ called (bodyParts (generate document api options).body) := by
  rw [mem_called_body_iff k.function_mem_importable, or_iff_left fun h => k.function_ne_path h.1]
  simp only [AssertionKind.function_injective.eq_iff, exists_eq_right]

theorem queriesPath_iff_called : (generate document api options).queriesPath = true ↔
    "JSONPath" ∈ called (bodyParts (generate document api options).body) := by
  rw [mem_called_body_iff (by decide), or_iff_right]
  · simp
  · rintro ⟨k, _, hk⟩
    exact k.function_ne_path hk

/-- The kinds that are used are those of the assertions of the criteria that compile, in the steps whose operation is
found. -/
theorem mem_used_iff_compiles {k : AssertionKind} : k ∈ (generate document api options).used.kinds ↔
    ∃ w ∈ document.workflows, ∃ step ∈ w.steps, ((Setting.ofDocument api options).endpoint? step).isSome ∧
      ∃ c ∈ step.successCriteria, ∃ as, (c.assertions options.defaultContext step.scope).1 = .ok as ∧
        ∃ a ∈ as, a.kind = k := by
  rw [mem_used, tests_generate]
  constructor
  · rintro ⟨_, htest, t, ht, a, ha, hk⟩
    obtain ⟨w, hw, rfl⟩ := List.mem_map.mp htest
    obtain ⟨i, step, hstep, e, he, rfl⟩ := mem_steps_iff.mp ht
    obtain ⟨c, hc, as, hok, has⟩ := mem_assertions_testOf.mp ha
    exact ⟨w, hw, step, List.mem_of_getElem? hstep, Option.isSome_of_eq_some he, c, hc, as, hok, a, has, hk⟩
  · rintro ⟨w, hw, step, hstep, hfound, c, hc, as, hok, a, ha, hk⟩
    obtain ⟨i, hi⟩ := List.mem_iff_getElem?.mp hstep
    obtain ⟨e, he⟩ := Option.isSome_iff_exists.mp hfound
    exact ⟨_, List.mem_map_of_mem hw, _, mem_steps_iff.mpr ⟨i, step, hi, e, he, rfl⟩, a,
      mem_assertions_testOf.mpr ⟨c, hc, as, hok, ha⟩, hk⟩

end

end Suite

/-- **A program imports exactly what it calls:** the module of the environment, `JSONPath` exactly if it is called, and
the functions of assertions that are called, each once and in order. The kinds that a suite uses are those of the
functions it calls, and those of the criteria that compile in steps whose operation is found; and no constant of a test
has the name of an imported function. -/
theorem imports_generate (document : WorkflowDocument) (api : ApiDocument) (options : Options) :
    (∀ program, (Suite.generate document api options).program? = some program →
      ∃ functions : List String,
        program.imports = ⟨[], Suite.environmentModule⟩ ::
          ((if "JSONPath" ∈ called (bodyParts program.body) then [⟨["JSONPath"], Suite.pathModule⟩] else []) ++
            [⟨functions, Suite.assertionModule⟩]) ∧
        functions.Pairwise (· ≤ ·) ∧ functions.Nodup ∧
        ∀ f, f ∈ functions ↔ (∃ k : AssertionKind, k.function = f) ∧ f ∈ called (bodyParts program.body)) ∧
      (∀ k, (k ∈ (Suite.generate document api options).used.kinds ↔
          k.function ∈ called (bodyParts (Suite.generate document api options).body)) ∧
        (k ∈ (Suite.generate document api options).used.kinds ↔
          ∃ w ∈ document.workflows, ∃ step ∈ w.steps, ((Setting.ofDocument api options).endpoint? step).isSome ∧
            ∃ c ∈ step.successCriteria, ∃ as, (c.assertions options.defaultContext step.scope).1 = .ok as ∧
              ∃ a ∈ as, a.kind = k)) ∧
      ∀ w ∈ (Suite.generate document api options).tests, ∀ t ∈ w.steps, ∀ f ∈ importable,
        f ∉ bound (WorkflowTest.environment (Setting.ofDocument api options) ++ t.body) := by
  refine ⟨fun program h => ?_, fun k => ⟨Suite.mem_used_iff_called, Suite.mem_used_iff_compiles⟩, ?_⟩
  · obtain ⟨hbody, himports⟩ := Suite.program?_eq_some h
    refine ⟨(Suite.generate document api options).used.functions, ?_, UsedKinds.pairwise_functions _,
      UsedKinds.nodup_functions Suite.nodup_used, fun f => ?_⟩
    · rw [hbody, himports, Suite.imports]
      simp only [Suite.queriesPath_iff_called]
      rfl
    · rw [UsedKinds.mem_functions, hbody]
      constructor
      · rintro ⟨k, hk, rfl⟩
        exact ⟨⟨k, rfl⟩, Suite.mem_used_iff_called.mp hk⟩
      · rintro ⟨⟨k, rfl⟩, hcall⟩
        exact ⟨k, Suite.mem_used_iff_called.mpr hcall, rfl⟩
  · intro w hw t ht f hf
    have henvironment : ∀ f ∈ importable, f ∉ ["serverUrl", "apiKey", "context"] := by decide
    obtain ⟨workflowId, written, step, e, rfl⟩ := Suite.exists_testOf hw ht
    rw [bound_append, List.mem_append, not_or]
    exact ⟨henvironment f hf, not_mem_bound_testOf hf⟩

/-- An API with one operation. -/
def orderApi : ApiDocument where
  version := "3.1.0"
  servers := ["https://shop.example"]
  paths := [("/orders", ⟨fun | .get => some ⟨some "listOrders", none⟩ | _ => none⟩)]
  securitySchemes := []

/-- A step that queries a path in its answer, with a broken criterion beside, behind a step without an operation. -/
def orderDocument : WorkflowDocument where
  version := "1.0.0"
  info := ⟨"Orders", "1", none⟩
  sourceDescriptions := []
  workflows := [⟨"list", none, none, none,
    [⟨"lost", none, none, [], none, [⟨"^2", some "$statusCode", some (.name "regex")⟩], []⟩,
      ⟨"list", none, some "listOrders", [], none,
        [⟨"$statusCode <", none, none⟩, ⟨"$.total", none, some (.name "jsonpath")⟩], []⟩], []⟩]
  components := none

/-- The functions that the lost step and the broken criterion would call are not imported. -/
theorem imports_generate_order : ∃ program,
    (Suite.generate orderDocument orderApi .default).program? = some program ∧
      ∃ functions, program.imports =
        [⟨[], Suite.environmentModule⟩, ⟨["JSONPath"], Suite.pathModule⟩, ⟨functions, Suite.assertionModule⟩] ∧
        ∀ f, f ∈ functions ↔ f = "assertEquals" := by
  have hprogram : (Suite.generate orderDocument orderApi .default).program?.isSome = true := rfl
  obtain ⟨program, h⟩ := Option.isSome_iff_exists.mp hprogram
  have hcalled : called (bodyParts program.body) = ["fetch", "assertEquals", "JSONPath"] := by
    rw [(Suite.program?_eq_some h).1]
    decide +kernel
  obtain ⟨functions, himports, -, -, hfunctions⟩ := (imports_generate orderDocument orderApi .default).1 program h
  rw [hcalled] at himports hfunctions
  refine ⟨program, h, functions, himports, fun f => (hfunctions f).trans ⟨?_, ?_⟩⟩
  · rintro ⟨⟨k, rfl⟩, hmem⟩
    revert hmem
    cases k <;> decide
  · rintro rfl
    exact ⟨⟨.equals, rfl⟩, by decide⟩

end FlowSuite
