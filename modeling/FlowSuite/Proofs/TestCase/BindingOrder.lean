import FlowSuite.Proofs.TestCase.Parameters

/-!
# Constants of a step are bound before they are used

The test of a step binds a constant for every path and query parameter, then `payload`, `response` and `data`. All of
them have different names, so the order in which they are bound is all that matters.

* `StepTest.inOrder_body_iff`: that order is kept exactly if no constant mentions `payload`, `response` or `data`, and
  the request mentions neither `response` nor `data`.
* `definedBeforeUse_testOf_iff`: so it is kept exactly if every parameter is timely. The value of a path or query
  parameter is read before the request is made, and the value of a header while it is made. A value that is read from
  the answer comes too late for all of them, and one that is read from the body that is sent comes too late for path and
  query.
-/

namespace FlowSuite

open Script

/-! ## The body -/

namespace StepTest

/-- The statement that binds the body that is sent. -/
def payloadBody (t : StepTest) : List Stmt := (t.payload.map (Stmt.const "payload" none)).toList

theorem bound_payloadBody (t : StepTest) : bound t.payloadBody = if t.payload.isSome then ["payload"] else [] := by
  unfold payloadBody
  cases t.payload <;> rfl

theorem bound_assertions (as : List Assertion) : bound (as.map Assertion.toStmt) = [] := by
  simp [bound, Assertion.toStmt, Stmt.binds]

theorem bound_writes (ws : List ContextWrite) : bound (ws.map ContextWrite.toStmt) = [] := by
  simp [bound, ContextWrite.toStmt, Stmt.binds]

/-- What is done with the answer. -/
def checksAndWrites (t : StepTest) : List Stmt := t.assertions.map Assertion.toStmt ++ t.writes.map ContextWrite.toStmt

theorem bound_checksAndWrites (t : StepTest) : bound t.checksAndWrites = [] := by
  rw [checksAndWrites, bound_append, bound_assertions, bound_writes, List.nil_append]

/-- The request, and the answer decoded. -/
def exchange (t : StepTest) : List Stmt :=
  [ .const "response" none t.request,
    .const "data" none (.await (.call (.property (.ident "response") "json") [])) ]

theorem body_eq (t : StepTest) : t.body = t.constants ++ (t.payloadBody ++ (t.exchange ++ t.checksAndWrites)) := by
  simp only [body, payloadBody, exchange, checksAndWrites, List.append_assoc]

theorem bound_body (t : StepTest) :
    bound t.body = bound t.constants ++ (bound t.payloadBody ++ ["response", "data"]) := by
  rw [body_eq, bound_append, bound_append, bound_append, bound_checksAndWrites, List.append_nil]
  rfl

theorem inOrder_payloadBody {t : StepTest} (hpayload : ∀ e ∈ t.payload, e.names = []) :
    InOrder t.payloadBody ∧ bodyNames t.payloadBody = [] := by
  unfold payloadBody
  cases hp : t.payload with
  | none => exact ⟨trivial, rfl⟩
  | some e => simp [InOrder, hpayload e hp]

theorem inOrder_exchange_iff (t : StepTest) :
    InOrder t.exchange ↔ ∀ x ∈ t.request.names, x ∉ ["response", "data"] := by
  unfold exchange
  simp [InOrder, Stmt.binds]

/-- **The order is kept exactly if no constant mentions what is bound behind the constants, and the request does not
mention its answer.** -/
theorem inOrder_body_iff {t : StepTest} (hconstants : InOrder t.constants) (hpayload : ∀ e ∈ t.payload, e.names = []) :
    InOrder t.body ↔ (∀ x ∈ bodyNames t.constants, x ∉ bound t.payloadBody ++ ["response", "data"]) ∧
      ∀ x ∈ t.request.names, x ∉ ["response", "data"] := by
  obtain ⟨horder, hnames⟩ := inOrder_payloadBody hpayload
  have hbound : bound (t.payloadBody ++ (t.exchange ++ t.checksAndWrites)) =
      bound t.payloadBody ++ ["response", "data"] := by
    rw [bound_append, bound_append, bound_checksAndWrites, List.append_nil]
    rfl
  have hlast : InOrder t.checksAndWrites := inOrder_of_forall_not_mem fun x _ => by simp [bound_checksAndWrites]
  rw [body_eq, inOrder_append, inOrder_append, inOrder_append, inOrder_exchange_iff, hbound, hnames,
    bound_checksAndWrites]
  simp only [hconstants, horder, hlast, List.not_mem_nil, not_false_eq_true, implies_true, IsEmpty.forall_iff, and_true,
    true_and]
  exact and_comm

end StepTest

/-! ## Steps -/

/-- Reads nothing that is bound later than its value is used. -/
def Parameter.Timely (hasPayload : Bool) (p : Parameter) : Prop :=
  match p.location with
  | some .path | some .query => ∀ x ∈ p.value.name? hasPayload, x = "context"
  | some .header => ∀ x ∈ p.value.name? hasPayload, x = "context" ∨ x = "payload"
  | some .cookie | none => True

theorem Parameter.timely_iff {hasPayload : Bool} {p : Parameter} : p.Timely hasPayload ↔
    (p.IsBound → ∀ x ∈ p.value.name? hasPayload, x = "context") ∧
      (p.location = some .header → ∀ x ∈ p.value.name? hasPayload, x = "context" ∨ x = "payload") := by
  unfold Timely IsBound
  cases p.location with
  | none => simp
  | some location => cases location <;> simp

theorem Json.name?_mem {v : Json} {hasPayload : Bool} {x : String} (h : v.name? hasPayload = some x) :
    x ∈ scopeNames hasPayload := by
  obtain ⟨e, _, hx⟩ := Option.bind_eq_some_iff.mp h
  exact Access.name?_mem hx

/-- What becomes of the parameters of a step. -/
def Step.boundParameters (step : Step) : BoundParameters :=
  (bindParameters step.parameters stepLocals (.ofStep step.stepId step.payload.isSome)).1

theorem Step.boundParameters_spec (step : Step) :
    BoundParameters.Spec step.parameters stepLocals step.payload.isSome step.boundParameters :=
  bindParameters_spec step.parameters stepLocals (.ofStep step.stepId step.payload.isSome)

/-- The address of a request mentions constants of the step besides. -/
theorem Step.mem_names_url {step : Step} {path x : String} (h : x ∈ (addQuery "?" step.boundParameters.query
      (Path.fill path step.boundParameters.path ((Template.ofText "").push (.ident "serverUrl") "")).1).names) :
    x ∈ ["serverUrl", "encodeURIComponent", "String"] ∨ x ∈ bound step.boundParameters.constants := by
  have hbindings := step.boundParameters_spec.bindings
  rcases mem_names_addQuery _ _ _ h with hpath | hx | ⟨binding, hmem, rfl⟩
  · rcases mem_names_fillPieces _ _ _ hpath with ht | ⟨binding, hmem, rfl⟩
    · rcases (Template.mem_names_push _ _ _).mp ht with ht | hx
      · cases ht
      · obtain rfl := List.mem_singleton.mp hx
        exact .inl (by decide)
    · exact .inr (hbindings binding (List.mem_append_left _ hmem))
  · exact .inl (List.mem_cons_of_mem _ hx)
  · exact .inr (hbindings binding (List.mem_append_right _ hmem))

section

variable {setting : Setting} {workflowId : String} {written : ContextStore} {step : Step} {e : Endpoint}

theorem mem_names_request {x : String} : x ∈ (setting.testOf workflowId written step e).request.names →
    x ∈ ["fetch", "serverUrl", "encodeURIComponent", "String", "apiKey"] ∨
      x ∈ bound step.boundParameters.constants ∨ x ∈ entryNames step.boundParameters.headers ∨
      step.payload.isSome ∧ (x = "JSON" ∨ x = "payload") := by
  intro hx
  rcases mem_names_requestCall.mp hx with rfl | hurl | hheaders | hbody
  · exact .inl (by decide)
  · rcases step.mem_names_url hurl with hx | hbound
    · exact .inl (List.mem_cons_of_mem _ (List.mem_append_left ["apiKey"] hx))
    · exact .inr (.inl hbound)
  · rcases mem_entryNames_append.mp hheaders with hcommon | hheaders
    · have hx : x ∈ ["apiKey"] := hcommon
      obtain rfl := List.mem_singleton.mp hx
      exact .inl (by decide)
    · exact .inr (.inr (.inl hheaders))
  · exact .inr (.inr (.inr hbody))

/-- Names that steps use are names of constants for no parameter. -/
theorem Step.not_mem_bound {x : String} (hx : x ∈ stepLocals) : x ∉ bound step.boundParameters.constants :=
  fun hmem => step.boundParameters_spec.free x hmem hx

theorem scopeNames_subset (hasPayload : Bool) : ∀ x ∈ scopeNames hasPayload, x ∈ stepLocals := by
  cases hasPayload <;> decide

theorem late_subset (hasPayload : Bool) :
    ∀ x ∈ (if hasPayload then ["payload"] else []) ++ ["response", "data"], x ∈ stepLocals := by
  cases hasPayload <;> decide

/-- The request mentions the answer exactly if a header does. -/
theorem answer_mem_request_iff {x : String} (hx : x ∈ ["response", "data"]) :
    x ∈ (setting.testOf workflowId written step e).request.names ↔
      ∃ p ∈ step.parameters, p.location = some .header ∧ p.value.name? step.payload.isSome = some x := by
  have hstring : x ≠ "String" := by
    rintro rfl
    exact absurd hx (by decide)
  rw [← step.boundParameters_spec.headers x hstring]
  constructor
  · intro hmem
    rcases mem_names_request hmem with hx' | hbound | hheaders | ⟨_, hx'⟩
    · simp only [List.mem_cons, List.not_mem_nil, or_false] at hx
      rcases hx with rfl | rfl <;> exact absurd hx' (by decide)
    · exact absurd hbound (step.not_mem_bound (late_subset false x hx))
    · exact hheaders
    · rcases hx' with rfl | rfl <;> exact absurd hx (by decide)
  · intro hmem
    exact mem_names_requestCall.mpr (.inr (.inr (.inl (mem_entryNames_append.mpr (.inr hmem)))))

/-- All names of the scope but that of the context are bound behind the constants. -/
theorem not_mem_late_iff (hasPayload : Bool) : ∀ x ∈ scopeNames hasPayload,
    (x ∉ (if hasPayload then ["payload"] else []) ++ ["response", "data"] ↔ x = "context") := by
  cases hasPayload <;> decide

/-- Of the names of the scope those of the answer are bound behind the request. -/
theorem not_mem_answer_iff (hasPayload : Bool) : ∀ x ∈ scopeNames hasPayload,
    (x ∉ ["response", "data"] ↔ x = "context" ∨ x = "payload") := by
  cases hasPayload <;> decide

theorem Step.inOrder_constants : InOrder step.boundParameters.constants := by
  refine inOrder_of_forall_not_mem fun x hx => step.not_mem_bound ?_
  obtain ⟨p, _, _, hname⟩ := (step.boundParameters_spec.constants x).mp hx
  exact scopeNames_subset _ x (Json.name?_mem hname)

theorem isSome_payload : (setting.testOf workflowId written step e).payload.isSome = step.payload.isSome :=
  Option.isSome_map

theorem bound_testOf : bound (setting.testOf workflowId written step e).body =
    bound step.boundParameters.constants ++
      ((if step.payload.isSome then ["payload"] else []) ++ ["response", "data"]) := by
  rw [StepTest.bound_body, StepTest.bound_payloadBody, isSome_payload]
  rfl

/-- All constants of a step have different names. -/
theorem nodup_bound_testOf : (bound (setting.testOf workflowId written step e).body).Nodup := by
  rw [bound_testOf, List.nodup_append]
  refine ⟨step.boundParameters_spec.nodup, by split <;> decide, ?_⟩
  rintro x hx _ hlate rfl
  exact absurd hx (step.not_mem_bound (late_subset _ x hlate))

/-- The body that is sent mentions nothing. -/
theorem names_payload : ∀ v ∈ (setting.testOf workflowId written step e).payload, v.names = [] := by
  intro v hv
  obtain ⟨j, _, rfl⟩ := Option.map_eq_some_iff.mp hv
  exact j.names_lower

/-- **The constants of a step are in order exactly if all its parameters are timely.** -/
theorem inOrder_testOf_iff : InOrder (setting.testOf workflowId written step e).body ↔
    ∀ p ∈ step.parameters, p.Timely step.payload.isSome := by
  rw [StepTest.inOrder_body_iff step.inOrder_constants names_payload, StepTest.bound_payloadBody, isSome_payload]
  constructor
  · rintro ⟨hconstants, hrequest⟩ p hp
    refine Parameter.timely_iff.mpr ⟨fun hbound x hx => ?_, fun hheader x hx => ?_⟩
    · have hmem : x ∈ bodyNames step.boundParameters.constants :=
        (step.boundParameters_spec.constants x).mpr ⟨p, hp, hbound, hx⟩
      exact (not_mem_late_iff _ x (Json.name?_mem hx)).mp (hconstants x hmem)
    · refine (not_mem_answer_iff _ x (Json.name?_mem hx)).mp fun hanswer => ?_
      exact hrequest x ((answer_mem_request_iff hanswer).mpr ⟨p, hp, hheader, hx⟩) hanswer
  · intro htimely
    constructor
    · intro x hx
      obtain ⟨p, hp, hbound, hname⟩ := (step.boundParameters_spec.constants x).mp hx
      exact (not_mem_late_iff _ x (Json.name?_mem hname)).mpr
        ((Parameter.timely_iff.mp (htimely p hp)).1 hbound x hname)
    · intro x hx hanswer
      obtain ⟨p, hp, hheader, hname⟩ := (answer_mem_request_iff hanswer).mp hx
      exact (not_mem_answer_iff _ x (Json.name?_mem hname)).mpr
        ((Parameter.timely_iff.mp (htimely p hp)).2 hheader x hname) hanswer

/-! ## What is mentioned is bound -/

/-- The scope of a step behind its parameters. -/
def Step.scope (step : Step) : Scope :=
  (bindParameters step.parameters stepLocals (.ofStep step.stepId step.payload.isSome)).2

theorem Step.hasPayload_scope : step.scope.hasPayload = step.payload.isSome :=
  (appendsOnly_bindParameters step.parameters stepLocals).hasPayload_snd (.ofStep step.stepId step.payload.isSome)

theorem payload_mem_request (h : "payload" ∈ (setting.testOf workflowId written step e).request.names) :
    step.payload.isSome := by
  rcases mem_names_request h with hx | hbound | hheaders | ⟨hbody, _⟩
  · exact absurd hx (by decide)
  · exact absurd hbound (step.not_mem_bound (by decide))
  · obtain ⟨p, _, _, hname⟩ := (step.boundParameters_spec.headers "payload" (by decide)).mp hheaders
    exact payload_mem_scopeNames.mp (Json.name?_mem hname)
  · exact hbody

theorem payload_mem_checksAndWrites
    (h : "payload" ∈ bodyNames (setting.testOf workflowId written step e).checksAndWrites) : step.payload.isSome := by
  have hscope := step.hasPayload_scope
  obtain ⟨hchecks, hpassed⟩ := compileChecks_inScope setting.defaultContext step.successCriteria .empty step.scope
  rcases mem_bodyNames_append.mp h with h | h
  · obtain ⟨_, hstmt, hx⟩ := mem_bodyNames.mp h
    obtain ⟨a, ha, rfl⟩ := List.mem_map.mp hstmt
    obtain ⟨check, hcheck, ha⟩ := List.mem_flatMap.mp ha
    rcases hchecks check hcheck a ha "payload" hx with hlibrary | hname
    · exact absurd hlibrary (by decide)
    · rw [hscope] at hname
      exact payload_mem_scopeNames.mp hname
  · obtain ⟨_, hstmt, hx⟩ := mem_bodyNames.mp h
    obtain ⟨w, hw, rfl⟩ := List.mem_map.mp hstmt
    have hname := lowerOutputs_inScope step.stepId step.outputs
      (compileChecks setting.defaultContext step.successCriteria .empty step.scope).2 w hw "payload"
      (by simpa [ContextWrite.toStmt] using hx)
    rw [hpassed, hscope] at hname
    exact payload_mem_scopeNames.mp hname

/-- A body that is mentioned is sent. -/
theorem payload_mem_testOf (h : "payload" ∈ bodyNames (setting.testOf workflowId written step e).body) :
    step.payload.isSome := by
  rw [StepTest.body_eq] at h
  rcases mem_bodyNames_append.mp h with h | h
  · obtain ⟨p, _, _, hname⟩ := (step.boundParameters_spec.constants "payload").mp h
    exact payload_mem_scopeNames.mp (Json.name?_mem hname)
  rcases mem_bodyNames_append.mp h with h | h
  · rw [(StepTest.inOrder_payloadBody names_payload).2] at h
    cases h
  rcases mem_bodyNames_append.mp h with h | h
  · have h : "payload" ∈ (setting.testOf workflowId written step e).request.names ++ ["response"] := h
    rcases List.mem_append.mp h with h | h
    · exact payload_mem_request h
    · exact absurd h (by decide)
  · exact payload_mem_checksAndWrites h

end

/-- **In the test of a step every constant has a name of its own, the body that is sent, the answer and its data are
bound wherever they are mentioned, and every constant is bound in front of the statements that mention it exactly if all
parameters are timely.** -/
theorem definedBeforeUse_testOf_iff (setting : Setting) (workflowId : String) (written : ContextStore) (step : Step)
    (e : Endpoint) :
    (bound (setting.testOf workflowId written step e).body).Nodup ∧
      (∀ x ∈ bodyNames (setting.testOf workflowId written step e).body, x ∈ ["response", "data", "payload"] →
        x ∈ bound (setting.testOf workflowId written step e).body) ∧
      (DefinedBeforeUse (setting.testOf workflowId written step e).body ↔
        ∀ p ∈ step.parameters, p.Timely step.payload.isSome) := by
  have hnodup : (bound (setting.testOf workflowId written step e).body).Nodup := nodup_bound_testOf
  refine ⟨hnodup, fun x hx hlocal => ?_, ?_⟩
  · rw [bound_testOf, List.mem_append, List.mem_append]
    simp only [List.mem_cons, List.not_mem_nil, or_false] at hlocal
    rcases hlocal with rfl | rfl | rfl
    · exact .inr (.inr (by decide))
    · exact .inr (.inr (by decide))
    · rw [payload_mem_testOf hx]
      exact .inr (.inl (by decide))
  · rw [definedBeforeUse_iff_inOrder hnodup]
    exact inOrder_testOf_iff

/-- A step that sends a part of its answer in the path of its request. -/
def earlyStep : Step where
  stepId := "update"
  description := none
  operationId := some "updatePart"
  parameters := [⟨"id", some .path, .str "$response.body#/id"⟩]
  requestBody := none
  successCriteria := []
  outputs := []

/-- The constant for a part of the answer is bound before the answer is. -/
theorem not_definedBeforeUse_earlyStep :
    ¬DefinedBeforeUse ((Setting.mk ⟨[]⟩ ⟨"x-api-key", ""⟩ "" "KEY" defaultContext).testOf "w" .empty earlyStep
      ⟨"/parts", .get, ⟨some "updatePart", none⟩⟩).body := by
  intro h
  have horder := (definedBeforeUse_iff_inOrder nodup_bound_testOf).mp h
  have htimely := inOrder_testOf_iff.mp horder _ List.mem_cons_self
  exact absurd (htimely "data" rfl) (by decide)

end FlowSuite
