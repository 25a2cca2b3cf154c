import FlowSuite.Proofs.TestCase.LoggedReads

/-!
# Reads in front of all writes

While tests run, `context` holds what earlier steps wrote. A step warns of the keys in its log that no earlier step of
its workflow is known to write.

* The keys that count as written are those that the tests in front assign to (`mem_writtenBy_iff`): a step that is
  skipped writes nothing, and neither does a step for itself.
* No other warning says the same (`warns_testOf_iff`).
* So a step warns of a key that its statements read exactly if no test in front of it assigns to that key
  (`warns_iff_not_assigned`); of other keys it warns only where a broken path query looks at them (`warns_iff`).
-/

namespace FlowSuite

open Script

/-! ## Parameters -/

/-- Says that a parameter is not sent. -/
def TellsSkipped (message : String) : Prop := ∃ name,
  message = "cookie parameter '" ++ name ++ "' is not supported, skipped" ∨
    message = "parameter '" ++ name ++ "' has no location, skipped"

/-- Parameters make constants and warnings of parameters that are not sent, and no other statements and warnings. -/
theorem bindParameters_shape : ∀ (ps : List Parameter) (taken : List String) (s : Scope),
    (∀ stmt ∈ (bindParameters ps taken s).1.constants, ∃ name value, stmt = .const name none value) ∧
      ∀ message ∈ (bindParameters ps taken s).1.warnings, TellsSkipped message
  | [], _, _ => by simp [bindParameters]
  | p :: ps, taken, s => by
    unfold bindParameters
    cases p.location with
    | none =>
      obtain ⟨hconstants, hwarnings⟩ := bindParameters_shape ps taken s
      exact ⟨hconstants, List.forall_mem_cons.mpr ⟨⟨_, .inr rfl⟩, hwarnings⟩⟩
    | some location =>
      cases location with
      | path =>
        obtain ⟨hconstants, hwarnings⟩ :=
          bindParameters_shape ps (bindingName p.name taken :: taken) (p.value.lowerValue s).2
        exact ⟨List.forall_mem_cons.mpr ⟨⟨_, _, rfl⟩, hconstants⟩, hwarnings⟩
      | query =>
        obtain ⟨hconstants, hwarnings⟩ :=
          bindParameters_shape ps (bindingName p.name taken :: taken) (p.value.lowerValue s).2
        exact ⟨List.forall_mem_cons.mpr ⟨⟨_, _, rfl⟩, hconstants⟩, hwarnings⟩
      | header => exact bindParameters_shape ps taken (headerValue p.value s).2
      | cookie =>
        obtain ⟨hconstants, hwarnings⟩ := bindParameters_shape ps taken s
        exact ⟨hconstants, List.forall_mem_cons.mpr ⟨⟨_, .inl rfl⟩, hwarnings⟩⟩

/-! ## Assignments -/

/-- The statements of a test assign to the keys that it writes. -/
theorem StepTest.assigns_iff {t : StepTest} {key : String}
    (hconstants : ∀ stmt ∈ t.constants, ∃ name value, stmt = .const name none value) :
    (∃ value, .assign (.contextAt key) value ∈ t.body) ↔ key ∈ t.writes.map ContextWrite.key := by
  constructor
  · rintro ⟨value, hmem⟩
    simp only [StepTest.body, List.mem_append] at hmem
    rcases hmem with (((hmem | hmem) | hmem) | hmem) | hmem
    · obtain ⟨_, _, hconst⟩ := hconstants _ hmem
      cases hconst
    · simp at hmem
    · simp at hmem
    · obtain ⟨a, _, ha⟩ := List.mem_map.mp hmem
      cases ha
    · obtain ⟨w, hw, hassign⟩ := List.mem_map.mp hmem
      simp only [ContextWrite.toStmt, Expr.contextAt, Expr.string, Stmt.assign.injEq, Expr.element.injEq,
        Expr.value.injEq, Value.string.injEq, true_and] at hassign
      exact List.mem_map.mpr ⟨w, hw, hassign.1⟩
  · intro hmem
    obtain ⟨w, hw, rfl⟩ := List.mem_map.mp hmem
    exact ⟨w.value, List.mem_append_right _ (List.mem_map.mpr ⟨w, hw, rfl⟩)⟩

/-! ## Warnings -/

/-- How a step warns of a key that no earlier step writes. -/
def readEarly (key : String) : String := "context key '" ++ key ++ "' is read before any earlier step writes it"

theorem readEarly_injective : Function.Injective readEarly := by
  intro k l h
  exact (String.append_right_inj _).mp ((String.append_left_inj _).mp h)

/-- A message whose lead differs from that of the warning in a letter is not the warning. -/
theorem readEarly_ne_append {lead rest key : String} {n : Nat} {c d : Char} (hlead : lead.toList[n]? = some c)
    (hwarning : "context key '".toList[n]? = some d) (hcd : c ≠ d) : lead ++ rest ≠ readEarly key := by
  have happend {l : List Char} {x : Char} (more : List Char) (h : l[n]? = some x) : (l ++ more)[n]? = some x := by
    rw [List.getElem?_append_left (List.getElem?_eq_some_iff.mp h).1, h]
  intro h
  have hchars := happend rest.toList hlead
  rw [← String.toList_append, h, readEarly, String.append_assoc, String.toList_append, happend _ hwarning] at hchars
  exact hcd (Option.some.inj hchars).symm

theorem readEarly_ne_of_tellsSkipped {message key : String} (h : TellsSkipped message) : message ≠ readEarly key := by
  obtain ⟨name, rfl | rfl⟩ := h
  · rw [String.append_assoc]
    exact readEarly_ne_append (n := 2) (c := 'o') (d := 'n') rfl rfl (by decide)
  · rw [String.append_assoc]
    exact readEarly_ne_append (n := 0) (c := 'p') (d := 'c') rfl rfl (by decide)

theorem Check.severity_of_diagnostic? {workflowId stepId : String} {c : Check} {d : Diagnostic}
    (h : c.diagnostic? workflowId stepId = some d) : d.severity = .error := by
  unfold diagnostic? at h
  split at h
  · cases h
  · cases h
    rfl

/-- Warns with a message. -/
def StepTest.Warns (t : StepTest) (message : String) : Prop :=
  ∃ d ∈ t.diagnostics, d.severity = .warning ∧ d.message = message

/-- **A step warns** of the keys in its log that count as not written, and says so of no others. -/
theorem warns_testOf_iff {setting : Setting} {workflowId : String} {written : ContextStore} {step : Step} {e : Endpoint}
    {key : String} : (setting.testOf workflowId written step e).Warns (readEarly key) ↔
      key ∈ (step.finalScope setting.defaultContext).reads ∧ ¬written.isWritten key := by
  constructor
  · rintro ⟨d, hd, hseverity, hmessage⟩
    simp only [Setting.testOf, Setting.emit, List.mem_append] at hd
    rcases hd with (((hd | hd) | hd) | hd) | hd
    · obtain ⟨message, hmem, rfl⟩ := List.mem_map.mp hd
      exact absurd hmessage (readEarly_ne_of_tellsSkipped ((bindParameters_shape _ _ _).2 message hmem))
    · obtain ⟨name, _, rfl⟩ := List.mem_map.mp hd
      have hplaceholder : "path placeholder '\x7b" ++ name ++ "\x7d' has no matching parameter" ≠ readEarly key := by
        rw [String.append_assoc]
        exact readEarly_ne_append (n := 0) (c := 'p') (d := 'c') rfl rfl (by decide)
      exact absurd hmessage hplaceholder
    · obtain ⟨check, _, hcheck⟩ := List.mem_filterMap.mp hd
      rw [Check.severity_of_diagnostic? hcheck] at hseverity
      cases hseverity
    · obtain ⟨other, hmem, rfl⟩ := List.mem_map.mp hd
      obtain rfl := readEarly_injective hmessage
      exact ⟨(List.mem_filter.mp hmem).1, by simpa using (List.mem_filter.mp hmem).2⟩
    · obtain ⟨u, _, rfl⟩ := List.mem_map.mp hd
      have hundefined : "'" ++ u.expression ++ "' resolved to undefined: " ++ u.reason ≠ readEarly key := by
        rw [String.append_assoc, String.append_assoc]
        exact readEarly_ne_append (n := 0) (c := '\x27') (d := 'c') rfl rfl (by decide)
      exact absurd hmessage hundefined
  · rintro ⟨hread, hwritten⟩
    have hmem : key ∈ (step.finalScope setting.defaultContext).reads.filter (!written.isWritten ·) :=
      List.mem_filter.mpr ⟨hread, by simpa using hwritten⟩
    refine ⟨.warning workflowId step.stepId (readEarly key), ?_, rfl, rfl⟩
    exact List.mem_append_left _ (List.mem_append_right _ (List.mem_map.mpr ⟨key, hmem, rfl⟩))

/-! ## Workflows -/

section

variable {setting : Setting} {w : Workflow} {i : Nat} {t : StepTest} {key : String}

/-- A test in front assigns to the key. -/
def WorkflowTest.AssignsBefore (w : WorkflowTest) (i : Nat) (key : String) : Prop :=
  ∃ j < i, ∃ t, w.outcomes[j]? = some (.ok t) ∧ ∃ value, .assign (.contextAt key) value ∈ t.body

theorem mem_writtenBy_iff : key ∈ writtenBy ((setting.workflowTest w).outcomes.take i) ↔
    (setting.workflowTest w).AssignsBefore i key := by
  have hassigns {j : Nat} {t : StepTest} (ht : (setting.workflowTest w).outcomes[j]? = some (.ok t)) :
      (∃ value, .assign (.contextAt key) value ∈ t.body) ↔ key ∈ StepOutcome.writes (.ok t) := by
    obtain ⟨step, _, e, _, rfl⟩ := getElem?_outcomes_eq_ok_iff.mp ht
    exact StepTest.assigns_iff (bindParameters_shape step.parameters stepLocals _).1
  have htake (o : StepOutcome) : o ∈ (setting.workflowTest w).outcomes.take i ↔
      ∃ j < i, (setting.workflowTest w).outcomes[j]? = some o := by
    simp only [List.mem_iff_getElem?, List.getElem?_take, Option.ite_none_right_eq_some]
  constructor
  · intro hmem
    obtain ⟨o, ho, hkey⟩ := List.mem_flatMap.mp hmem
    obtain ⟨j, hj, hjo⟩ := (htake o).mp ho
    cases o with
    | error d => cases hkey
    | ok t => exact ⟨j, hj, t, hjo, (hassigns hjo).mpr hkey⟩
  · rintro ⟨j, hj, t, ht, hassign⟩
    exact List.mem_flatMap.mpr ⟨.ok t, (htake _).mpr ⟨j, hj, ht⟩, (hassigns ht).mp hassign⟩

/-- A step warns of a key exactly if no test in front assigns to it, and it is read by a statement or looked at by a
path query that does not compile. -/
theorem warns_iff (ht : (setting.workflowTest w).outcomes[i]? = some (.ok t)) : t.Warns (readEarly key) ↔
    ¬(setting.workflowTest w).AssignsBefore i key ∧
      (key ∈ contextKeys (bodyParts t.body) ∨ ∃ check ∈ t.checks, ∃ err, check.result = .error err ∧
        check.criterion.strayKey? setting.defaultContext = some key) := by
  obtain ⟨step, _, e, _, rfl⟩ := getElem?_outcomes_eq_ok_iff.mp ht
  have hwritten : (ContextStore.recordAll .empty (writtenBy ((setting.workflowTest w).outcomes.take i))).isWritten key =
      true ↔ (setting.workflowTest w).AssignsBefore i key := by
    rw [ContextStore.isWritten_recordAll, mem_writtenBy_iff]
    simp
  rw [warns_testOf_iff, hwritten, and_comm]
  exact and_congr_right' mem_reads_testOf_iff

end

/-- **A step warns of a key that its statements read exactly if no test in front of it, in the same workflow, assigns to
that key.** -/
theorem warns_iff_not_assigned (setting : Setting) (w : Workflow) (i : Nat) (t : StepTest) (key : String)
    (ht : (setting.workflowTest w).outcomes[i]? = some (.ok t)) (hkey : key ∈ contextKeys (bodyParts t.body)) :
    t.Warns (readEarly key) ↔ ¬(setting.workflowTest w).AssignsBefore i key := by
  rw [warns_iff ht]
  exact and_iff_left (.inl hkey)

/-- An API with one operation. -/
def shippingSetting : Setting where
  operations := ⟨[("shipOrder", ⟨"/shipments", .post, ⟨some "shipOrder", none⟩⟩)]⟩
  security := ⟨"Authorization", ""⟩
  serverUrl := "https://shop.example"
  apiKeyEnv := Options.defaultApiKeyEnv
  defaultContext := defaultContext

/-- A step that keeps what the step in front of it would have kept. -/
def shippingStep : Step :=
  ⟨"ship", none, some "shipOrder", [], none, [], [("order", "$steps.create.outputs.order")]⟩

/-- A workflow whose first step has no operation. -/
def shippingWorkflow : Workflow :=
  ⟨"shipping", none, none, none,
    [⟨"create", none, none, [], none, [], [("order", "$response.body")]⟩, shippingStep], []⟩

/-- The step that is skipped writes nothing, so the one behind it warns. -/
theorem warns_iff_not_assigned_skipped : ∃ t,
    (shippingSetting.workflowTest shippingWorkflow).outcomes[1]? = some (Except.ok t) ∧
      "create.outputs.order" ∈ contextKeys (bodyParts t.body) ∧ t.Warns (readEarly "create.outputs.order") := by
  obtain ⟨t, ht⟩ : ∃ t, (shippingSetting.workflowTest shippingWorkflow).outcomes[1]? = some (Except.ok t) :=
    ⟨_, getElem?_outcomes_eq_ok_iff.mpr ⟨shippingStep, rfl, _, rfl, rfl⟩⟩
  have hkey : "create.outputs.order" ∈ contextKeys (bodyParts t.body) := by
    obtain ⟨step, hstep, e, _, rfl⟩ := getElem?_outcomes_eq_ok_iff.mp ht
    obtain rfl : shippingStep = step := Option.some.inj hstep
    have hreads : (shippingStep.finalScope defaultContext).reads = ["create.outputs.order"] := rfl
    have hread : "create.outputs.order" ∈ (shippingStep.finalScope defaultContext).reads := by
      rw [hreads]
      exact List.mem_singleton_self _
    refine (mem_reads_testOf_iff.mp hread).resolve_right ?_
    rintro ⟨check, hcheck, _⟩
    cases hcheck
  refine ⟨t, ht, hkey, (warns_iff_not_assigned shippingSetting shippingWorkflow 1 t _ ht hkey).mpr ?_⟩
  rintro ⟨j, hj, other, hother, _⟩
  obtain rfl : j = 0 := by omega
  obtain ⟨step, hstep, e, he, _⟩ := getElem?_outcomes_eq_ok_iff.mp hother
  cases hstep
  cases he

end FlowSuite
