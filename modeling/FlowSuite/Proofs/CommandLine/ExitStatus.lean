import FlowSuite.CommandLine.Run
import FlowSuite.Proofs.TestCase.EmptySuites

/-!
# Exit status of generation

A criterion that is checked, one of a step whose operation is found, compiles to assertions or to an error (`Checked`):

* a suite has errors exactly if such a criterion does not compile (`hasErrors_iff`), and it is a program exactly if one
  does (`isSome_text?_iff`);
* a program is written, and then the status tells whether there were errors; without a program nothing is written, and
  the status is 0 whatever is reported (`status_generate`).

How the text of a document is read makes no difference to this, so it is left open.
-/

namespace FlowSuite

/-! ## Errors of a suite -/

section

variable {setting : Setting} {workflowId : String} {written : ContextStore} {step : Step}

/-- A step without a test has no operation and a warning. -/
theorem testOf?_eq_error {d : Diagnostic} (h : setting.testOf? workflowId written step = .error d) :
    setting.endpoint? step = none ∧ d.isError = false := by
  unfold Setting.testOf? Setting.emitStep at h
  unfold Setting.endpoint?
  cases hid : step.operationId with
  | none =>
    simp only [hid] at h
    cases h
    exact ⟨rfl, rfl⟩
  | some id =>
    cases hlost : setting.operations.get? id with
    | none =>
      simp only [hid, hlost] at h
      cases h
      exact ⟨hlost, rfl⟩
    | some e => simp [hid, hlost] at h

theorem Check.diagnostic?_eq_none_iff {c : Check} :
    c.diagnostic? workflowId step.stepId = none ↔ ¬∃ e, c.result = .error e := by
  unfold diagnostic?
  cases c.result <;> simp

/-- There is an error among the reports on a step exactly if its operation is found and a criterion does not compile. -/
theorem any_isError_testOf? :
    (StepOutcome.diagnostics (setting.testOf? workflowId written step)).any Diagnostic.isError = true ↔
      (setting.endpoint? step).isSome ∧
        ∃ c ∈ step.successCriteria, ∃ e, (c.assertions setting.defaultContext step.scope).1 = .error e := by
  cases houtcome : setting.testOf? workflowId written step with
  | error d =>
    obtain ⟨hlost, hwarning⟩ := testOf?_eq_error houtcome
    simp [StepOutcome.diagnostics, hlost, hwarning]
  | ok t =>
    obtain ⟨e, hfound, rfl⟩ := testOf?_eq_ok_iff.mp houtcome
    have hany : (setting.testOf workflowId written step e).diagnostics.any Diagnostic.isError = true ↔
        (setting.testOf workflowId written step e).diagnostics.filter Diagnostic.isError ≠ [] := by
      simp [List.filter_eq_nil_iff]
    rw [StepOutcome.diagnostics, hany, errors_testOf, checks_testOf, Ne, List.filterMap_eq_nil_iff, List.forall_mem_map,
      hfound]
    simp only [Check.diagnostic?_eq_none_iff, Option.isSome_some, true_and, not_forall, not_not, exists_prop]

/-- There is an error among the reports on a workflow exactly if a criterion of a step whose operation is found does
not compile. -/
theorem any_isError_outcomes (steps : List Step) :
    ((setting.outcomes workflowId written steps).flatMap StepOutcome.diagnostics).any Diagnostic.isError = true ↔
      ∃ step ∈ steps, (setting.endpoint? step).isSome ∧
        ∃ c ∈ step.successCriteria, ∃ e, (c.assertions setting.defaultContext step.scope).1 = .error e := by
  induction steps generalizing written with
  | nil => simp [Setting.outcomes_nil]
  | cons step steps ih =>
    rw [Setting.outcomes_cons, List.flatMap_cons, List.any_append, Bool.or_eq_true, any_isError_testOf?, ih]
    simp only [List.mem_cons, exists_eq_or_imp]

end

/-- A criterion of a step whose operation is found compiles to this result. -/
def Checked (document : WorkflowDocument) (api : ApiDocument) (options : Options)
    (result : Except CompileError (List Assertion)) : Prop :=
  ∃ w ∈ document.workflows, ∃ step ∈ w.steps, ((Setting.ofDocument api options).endpoint? step).isSome ∧
    ∃ c ∈ step.successCriteria,
      (c.compileIn options.defaultContext (.ofStep step.stepId step.payload.isSome) .empty).result = result

/-- What is logged in front of a criterion makes no difference to what it compiles to. -/
theorem checked_iff {document : WorkflowDocument} {api : ApiDocument} {options : Options}
    {result : Except CompileError (List Assertion)} : Checked document api options result ↔
      ∃ w ∈ document.workflows, ∃ step ∈ w.steps, ((Setting.ofDocument api options).endpoint? step).isSome ∧
        ∃ c ∈ step.successCriteria, (c.assertions options.defaultContext step.scope).1 = result := by
  have hresult (step : Step) (c : Criterion) : (c.compileIn options.defaultContext
      (.ofStep step.stepId step.payload.isSome) .empty).result = (c.assertions options.defaultContext step.scope).1 :=
    c.result_compileIn options.defaultContext .empty step.hasPayload_scope
  simp only [Checked, hresult]

namespace Suite

variable (document : WorkflowDocument) (api : ApiDocument) (options : Options)

/-- **A suite has errors** exactly if a criterion that is checked does not compile. -/
theorem hasErrors_iff : (generate document api options).hasErrors = true ↔
    ∃ e, Checked document api options (.error e) := by
  have hany : (generate document api options).hasErrors = document.workflows.any fun w =>
      (((Setting.ofDocument api options).outcomes w.workflowId .empty w.steps).flatMap StepOutcome.diagnostics).any
        Diagnostic.isError := by
    rw [hasErrors, diagnostics, emission_generate, tests_generate]
    exact List.any_flatMap.trans List.any_map
  rw [hany, List.any_eq_true]
  simp only [any_isError_outcomes, checked_iff]
  constructor
  · rintro ⟨w, hw, step, hstep, hfound, c, hc, e, he⟩
    exact ⟨e, w, hw, step, hstep, hfound, c, hc, he⟩
  · rintro ⟨e, w, hw, step, hstep, hfound, c, hc, he⟩
    exact ⟨w, hw, step, hstep, hfound, c, hc, e, he⟩

/-- **A suite is a program** exactly if a criterion that is checked compiles. -/
theorem isSome_text?_iff : (generate document api options).text?.isSome = true ↔
    ∃ as, Checked document api options (.ok as) := by
  rw [text?, Option.isSome_map, Option.isSome_iff_ne_none, Ne, program?_eq_none_iff, used_eq_nil_iff]
  simp only [checked_iff]
  constructor
  · intro h
    by_contra hnone
    refine h fun w hw step hstep hfound c hc => ?_
    cases hresult : (c.assertions options.defaultContext step.scope).1 with
    | error e => exact ⟨e, rfl⟩
    | ok as => exact absurd ⟨as, w, hw, step, hstep, hfound, c, hc, hresult⟩ hnone
  · rintro ⟨as, w, hw, step, hstep, hfound, c, hc, hresult⟩ hfail
    obtain ⟨e, he⟩ := hfail w hw step hstep hfound c hc
    cases hresult.symm.trans he

end Suite

/-! ## The command -/

section

variable {τ World : Type} [DataTree τ] {parse? : String → Option τ} {storage : Storage (StateM World)}
variable {input output : String} {options : Options} {world loaded : World} {sources : Sources}

/-- Where documents load, the command is generation from them. -/
theorem run_generate (h : (Sources.load parse? storage input).run world = (.ok sources, loaded)) :
    (generate parse? storage input output options).run world =
      (sources.generate storage input output options).run loaded := by
  have hload : (Sources.load parse? storage input).run world = pure (.ok sources, loaded) := h
  simp only [generate, StateT.run_bind]
  rw [hload]
  simp only [pure_bind]

/-- Without a program nothing happens. -/
theorem run_generate_none (h : (Suite.generate sources.document sources.api options).text? = none) :
    (sources.generate storage input output options).run world =
      ((Suite.generate sources.document sources.api options).nothingWritten input, world) := by
  simp only [Sources.generate, h]
  rfl

/-- A program is written, and the outcome is that of its suite. -/
theorem run_generate_some {text : String} (h : (Suite.generate sources.document sources.api options).text? = some text)
    (hsave : ((storage.save output text).run world).1 = .ok ()) :
    (sources.generate storage input output options).run world =
      ((Suite.generate sources.document sources.api options).written output,
        ((storage.save output text).run world).2) := by
  have hrun : (storage.save output text).run world = pure (.ok (), ((storage.save output text).run world).2) :=
    Prod.ext hsave rfl
  simp only [Sources.generate, h, StateT.run_bind]
  rw [hrun]
  simp only [pure_bind]
  rfl

end

/-- **The status of generation.** Where documents load and the program, if there is one, can be written, all reports on
the suite come out, and there is an error among them exactly if a criterion that is checked does not compile.

* If one does compile, the program is written, and the status is 1 exactly if there is an error, else 0.
* If none does, nothing is written, and the status is 0. -/
theorem status_generate {τ World : Type} [DataTree τ] (parse? : String → Option τ) (storage : Storage (StateM World))
    (input output : String) (options : Options) (world : World) {sources : Sources} {loaded : World}
    (hload : (Sources.load parse? storage input).run world = (.ok sources, loaded))
    (hsave : ∀ text, (Suite.generate sources.document sources.api options).text? = some text →
      ((storage.save output text).run loaded).1 = .ok ()) :
    ∃ outcome after, (generate parse? storage input output options).run world = (outcome, after) ∧
      outcome.report = (Suite.generate sources.document sources.api options).notices ∧
      ((Suite.generate sources.document sources.api options).hasErrors = true ↔
        ∃ e, Checked sources.document sources.api options (.error e)) ∧
      ((∃ as, Checked sources.document sources.api options (.ok as)) →
        (∃ text, (Suite.generate sources.document sources.api options).text? = some text ∧
          after = ((storage.save output text).run loaded).2) ∧
        outcome.status =
          if (Suite.generate sources.document sources.api options).hasErrors then 1 else 0) ∧
      ((¬∃ as, Checked sources.document sources.api options (.ok as)) → after = loaded ∧ outcome.status = 0) := by
  rw [run_generate hload, ← Suite.isSome_text?_iff]
  cases htext : (Suite.generate sources.document sources.api options).text? with
  | none =>
    refine ⟨_, _, run_generate_none htext, rfl, Suite.hasErrors_iff _ _ _, fun hsome => ?_, fun _ => ⟨rfl, rfl⟩⟩
    cases hsome
  | some text =>
    exact ⟨_, _, run_generate_some htext (hsave text htext), rfl, Suite.hasErrors_iff _ _ _,
      fun _ => ⟨⟨text, rfl, rfl⟩, rfl⟩, fun hnone => absurd rfl hnone⟩

/-! ## Documents in a tree -/

namespace FileTree

variable {τ : Type} [DataTree τ] {parse? : String → Option τ} {t : FileTree}

/-- Documents load where both files can be read, and reading changes nothing. -/
theorem run_load {path text apiPath apiText : String} {document : WorkflowDocument} {api : ApiDocument}
    (hread : t.read path = .ok text)
    (hdocument : documentOfText parse? WorkflowDocument.read path text = .ok document)
    (hsource : document.sourcePath path = .ok apiPath) (hreadApi : t.read apiPath = .ok apiText)
    (hapi : documentOfText parse? ApiDocument.read apiPath apiText = .ok api) :
    (Sources.load parse? storage path).run t = (.ok ⟨document, api, apiPath⟩, t) := by
  have hone {α : Type} {read : τ → Option α} {path text : String} {d : α} (h : t.read path = .ok text)
      (hd : documentOfText parse? read path text = .ok d) :
      (Sources.readDocument parse? storage read path).run t = pure (.ok d, t) := by
    have hrun : (storage.read path).run t = pure (.ok text, t) := congrArg (·, t) h
    simp only [Sources.readDocument, StateT.run_bind, hrun, pure_bind, hd, StateT.run_pure]
  simp only [Sources.load, StateT.run_bind, hone hread hdocument, hsource, hone hreadApi hapi, pure_bind,
    StateT.run_pure]
  rfl

/-- A file in the current folder can be written, whatever the text. -/
theorem run_save {path : String} {p : Place} (hparent : Pathname.parent? path = some "")
    (hpath : path.isEmpty = false) (hlocate : t.locate path = .ok p) (hfile : meansFolder path = false)
    (hp : t.lookup? p ≠ some .folder) (text : String) : ((storage.save path text).run t).1 = .ok () := by
  have hwrite : t.write path text = .ok (t.setFile p text) := by
    simp only [write, hpath, hlocate, hfile, Bool.false_eq_true, false_or, if_false]
    exact if_neg hp
  have hrun : (storage.write path text).run t = pure (.ok (), t.setFile p text) := by
    change attempt (fun t => t.write path text) t = _
    rw [attempt, hwrite]
    rfl
  have hempty : "".isEmpty = true := rfl
  simp only [Storage.save, hparent, Option.getD_some, hempty, if_true, pure_bind, StateT.run_bind, hrun,
    StateT.run_pure]
  rfl

end FileTree

/-- A workflow document with a broken criterion and another one. -/
def ordersText (condition : String) : String :=
  "arazzo: 1.0.0\n" ++
  "info:\n" ++
  "  title: Orders\n" ++
  "  version: '1'\n" ++
  "sourceDescriptions:\n" ++
  "- name: orders\n" ++
  "  url: api.yaml\n" ++
  "workflows:\n" ++
  "- workflowId: list\n" ++
  "  steps:\n" ++
  "  - stepId: list\n" ++
  "    operationId: listOrders\n" ++
  "    successCriteria:\n" ++
  "    - condition: $url ==\n" ++
  "    - condition: " ++ condition

/-- The description of its API. -/
def orderApiText : String :=
  "openapi: 3.1.0\n" ++
  "paths:\n" ++
  "  /orders:\n" ++
  "    get:\n" ++
  "      operationId: listOrders\n"

/-- What the workflow document says. -/
def ordersData (condition : String) : Json :=
  .obj [("arazzo", .str "1.0.0"), ("info", .obj [("title", .str "Orders"), ("version", .str "1")]),
    ("sourceDescriptions", .arr [.obj [("name", .str "orders"), ("url", .str "api.yaml")]]),
    ("workflows", .arr [.obj [("workflowId", .str "list"),
      ("steps", .arr [.obj [("stepId", .str "list"), ("operationId", .str "listOrders"),
        ("successCriteria", .arr [.obj [("condition", .str "$url ==")], .obj [("condition", .str condition)]])]])]])]

/-- What the description of its API says. -/
def orderApiData : Json :=
  .obj [("openapi", .str "3.1.0"),
    ("paths", .obj [("/orders", .obj [("get", .obj [("operationId", .str "listOrders")])])])]

/-- Reads these two texts. -/
def readOrders? (condition text : String) : Option Json :=
  if text = ordersText condition then some (ordersData condition)
  else if text = orderApiText then some orderApiData
  else none

theorem readOrders?_ordersText (condition : String) :
    readOrders? condition (ordersText condition) = some (ordersData condition) := if_pos rfl

theorem readOrders?_orderApiText {condition : String} (h : orderApiText ≠ ordersText condition) :
    readOrders? condition orderApiText = some orderApiData := by
  rw [readOrders?, if_neg h, if_pos rfl]

/-- Both in files. -/
def ordersTree (condition : String) : FileTree :=
  .ofFiles [("a.yaml", ordersText condition), ("api.yaml", orderApiText)]

/-- What becomes of the document: it names its API, has errors, is a program. -/
def ordersSummary (condition : String) : Option (Bool × Bool × Bool) := do
  let document ← WorkflowDocument.read (ordersData condition)
  let api ← ApiDocument.read orderApiData
  let suite := Suite.generate document api .default
  return (document.sourcePath "a.yaml" = .ok "api.yaml", suite.hasErrors, suite.text?.isSome)

theorem exists_load_orders {condition : String} {hasErrors isProgram : Bool}
    (hne : orderApiText ≠ ordersText condition) (h : ordersSummary condition = some (true, hasErrors, isProgram)) :
    ∃ sources : Sources,
      (Sources.load (readOrders? condition) FileTree.storage "a.yaml").run (ordersTree condition) =
        (.ok sources, ordersTree condition) ∧
      (∀ text, ((FileTree.storage.save "o.ts" text).run (ordersTree condition)).1 = .ok ()) ∧
      (Suite.generate sources.document sources.api .default).hasErrors = hasErrors ∧
      (Suite.generate sources.document sources.api .default).text?.isSome = isProgram := by
  unfold ordersSummary at h
  simp only [Option.bind_eq_bind, Option.bind_eq_some_iff, Option.pure_def, Option.some.injEq, Prod.mk.injEq,
    decide_eq_true_eq] at h
  obtain ⟨document, hdocument, api, hapi, hsource, herrors, hprogram⟩ := h
  have hread : (ordersTree condition).read "a.yaml" = .ok (ordersText condition) := rfl
  have hreadApi : (ordersTree condition).read "api.yaml" = .ok orderApiText := rfl
  have hload : (Sources.load (readOrders? condition) FileTree.storage "a.yaml").run (ordersTree condition) =
      (.ok ⟨document, api, "api.yaml"⟩, ordersTree condition) :=
    FileTree.run_load hread (by rw [documentOfText, readOrders?_ordersText, Option.bind_some, hdocument]) hsource
      hreadApi (by rw [documentOfText, readOrders?_orderApiText hne, Option.bind_some, hapi])
  refine ⟨_, hload, FileTree.run_save rfl rfl (p := ["o.ts"]) rfl rfl ?_, herrors, hprogram⟩
  exact ne_of_eq_of_ne (b := none) rfl nofun

/-- With a good criterion beside the broken one the program is written, and the status is 1. -/
theorem status_generate_halfBroken : ∃ sources,
    (Sources.load (readOrders? "$statusCode == 200") FileTree.storage "a.yaml").run (ordersTree "$statusCode == 200") =
        (.ok sources, ordersTree "$statusCode == 200") ∧
      (∀ text, ((FileTree.storage.save "o.ts" text).run (ordersTree "$statusCode == 200")).1 = .ok ()) ∧
      ((generate (readOrders? "$statusCode == 200") FileTree.storage "a.yaml" "o.ts" .default).run
        (ordersTree "$statusCode == 200")).1.status = 1 := by
  have hsummary : ordersSummary "$statusCode == 200" = some (true, true, true) := by decide +kernel
  obtain ⟨sources, hload, hsave, herrors, hprogram⟩ := exists_load_orders (by decide +kernel) hsummary
  obtain ⟨outcome, after, hrun, -, -, hwritten, -⟩ := status_generate (readOrders? "$statusCode == 200")
    FileTree.storage "a.yaml" "o.ts" .default (ordersTree "$statusCode == 200") hload fun text _ => hsave text
  refine ⟨sources, hload, hsave, ?_⟩
  rw [hrun]
  rw [(hwritten ((Suite.isSome_text?_iff _ _ _).mp hprogram)).2, herrors]
  rfl

/-- With broken criteria only there are errors, and the status is 0. -/
theorem not_status_of_hasErrors_allBroken : ∃ sources,
    (Sources.load (readOrders? "$statusCode ==") FileTree.storage "a.yaml").run (ordersTree "$statusCode ==") =
        (.ok sources, ordersTree "$statusCode ==") ∧
      (∀ text, ((FileTree.storage.save "o.ts" text).run (ordersTree "$statusCode ==")).1 = .ok ()) ∧
      (Suite.generate sources.document sources.api .default).hasErrors = true ∧
      (∃ e, Checked sources.document sources.api .default (.error e)) ∧
      ((generate (readOrders? "$statusCode ==") FileTree.storage "a.yaml" "o.ts" .default).run
        (ordersTree "$statusCode ==")).1.status = 0 := by
  have hsummary : ordersSummary "$statusCode ==" = some (true, true, false) := by decide +kernel
  obtain ⟨sources, hload, hsave, herrors, hprogram⟩ := exists_load_orders (by decide +kernel) hsummary
  refine ⟨sources, hload, hsave, herrors, (Suite.hasErrors_iff _ _ _).mp herrors, ?_⟩
  rw [run_generate hload, run_generate_none (Option.isNone_iff_eq_none.mp (Option.isSome_eq_false_iff.mp hprogram))]
  rfl

end FlowSuite
