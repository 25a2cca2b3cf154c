import FlowSuite.Proofs.Criterion.Atomicity
import FlowSuite.Proofs.Script.Parts
import FlowSuite.Proofs.TestCase.Outcomes

/-!
# The log of reads tells what is read

Lowering logs the keys of the context that the expressions it makes read, in the order in which they stand there
(`Access.reads_lower`, `Condition.reads_lower`). So does the compilation of a criterion; one that does not compile
makes nothing, and can still leave one stray key behind (`Criterion.strayKey?`). In the end the log of a step holds the
keys that its statements read, the stray ones, and no others (`mem_reads_testOf_iff`).
-/

namespace FlowSuite

open Script

/-! ## Expressions -/

/-- Only the context itself is read under a key, so what other objects are asked for is no key of it. -/
theorem contextKey?_element {o i : Expr} (h : o ≠ .ident "context") : (Expr.element o i).contextKey? = none := by
  rw [Option.eq_none_iff_forall_ne_some]
  intro key hkey
  have helement := contextKey?_eq_some_iff.mp hkey
  rw [Expr.contextAt, Expr.element.injEq] at helement
  exact h helement.1

theorem contextKeys_parts {e : Expr} (h : e.contextKey? = none) : contextKeys e.parts = contextKeys e.inner := by
  rw [Expr.parts, contextKeys_cons, h]
  rfl

theorem contextKeys_element {o : Expr} (i : Expr) (h : o ≠ .ident "context") :
    contextKeys (Expr.element o i).parts = contextKeys o.parts ++ contextKeys i.parts := by
  rw [contextKeys_parts (contextKey?_element h), Expr.inner, contextKeys_append]
  rfl

theorem contextKeys_member {o : Expr} (name : String) (h : o ≠ .ident "context") :
    contextKeys (o.member name).parts = contextKeys o.parts := by
  unfold Expr.member
  split
  · exact contextKeys_parts rfl
  · rw [contextKeys_element _ h]
    exact List.append_nil _

theorem contextKeys_binary (op : BinaryOp) (l r : Expr) :
    contextKeys (Expr.binary op l r).parts = contextKeys l.parts ++ contextKeys r.parts := by
  rw [contextKeys_parts rfl, Expr.inner, contextKeys_append]
  rfl

theorem contextKeys_args (arg : Expr) (args : List Expr) :
    contextKeys (argParts (arg :: args)) = contextKeys arg.parts ++ contextKeys (argParts args) :=
  contextKeys_append _ _

theorem contextKeys_call (f : String) (args : List Expr) :
    contextKeys (Expr.call (.ident f) args).parts = contextKeys (argParts args) := by
  rw [contextKeys_parts rfl, Expr.inner, contextKeys_append]
  rfl

theorem contextKeys_entries (name : Key) (value : Expr) (entries : List (Key × Expr)) :
    contextKeys (entryParts ((name, value) :: entries)) = contextKeys value.parts ++ contextKeys (entryParts entries) :=
  contextKeys_append _ _

theorem contextKeys_object (entries : List (Key × Expr)) :
    contextKeys (Expr.object entries).parts = contextKeys (entryParts entries) :=
  contextKeys_parts rfl

theorem contextKeys_await (e : Expr) : contextKeys (Expr.await e).parts = contextKeys e.parts :=
  contextKeys_parts rfl

theorem member_ne_ident (o : Expr) (name x : String) : o.member name ≠ .ident x := by
  unfold Expr.member
  split <;> exact fun h => by cases h

theorem along_ne_ident {base : Expr} {x : String} (h : base ≠ .ident x) (path : List String) :
    base.along path ≠ .ident x := by
  unfold Expr.along
  induction path generalizing base with
  | nil => exact h
  | cons name path ih => exact ih (member_ne_ident base name x)

namespace Access

/-- The context is never taken as a whole. -/
theorem lower_ne_context (expression : String) (a : Access) (s : Scope) :
    (a.lower expression s).1 ≠ .ident "context" := by
  cases a with
  | statusCode | url | responseHeader | context | unresolved => exact fun h => by cases h
  | body side path =>
    cases side with
    | response => exact along_ne_ident (by simp) path
    | request =>
      simp only [Access.lower]
      split
      · exact along_ne_ident (by simp) path
      · exact fun h => by cases h

theorem contextKeys_lower (expression : String) (a : Access) (s : Scope) :
    contextKeys (a.lower expression s).1.parts = a.contextKey?.toList := by
  cases a with
  | statusCode | url | responseHeader | context | unresolved => rfl
  | body side path =>
    refine contextKeys_eq_nil ?_
    rw [Access.names_lower]
    cases side with
    | response => simp [Access.name?]
    | request => cases s.hasPayload <;> simp [Access.name?]

theorem reads_lower (expression : String) (a : Access) (s : Scope) :
    (a.lower expression s).2.reads = s.reads ++ contextKeys (a.lower expression s).1.parts := by
  rw [contextKeys_lower]
  cases a with
  | context => rfl
  | body side path =>
    cases side with
    | response => exact (List.append_nil _).symm
    | request =>
      simp only [Access.lower]
      split <;> exact (List.append_nil _).symm
  | statusCode | url | responseHeader | unresolved => exact (List.append_nil _).symm

end Access

theorem reads_lowerRuntime (expression : String) (s : Scope) :
    (lowerRuntime expression s).2.reads = s.reads ++ contextKeys (lowerRuntime expression s).1.parts :=
  Access.reads_lower expression _ s

theorem contextKeys_literal (v : Literal) : contextKeys v.lower.parts = [] :=
  contextKeys_eq_nil (by simp [names_lower_literal])

theorem Operand.reads_lower (o : Operand) (s : Scope) :
    (o.lower s).2.reads = s.reads ++ contextKeys (o.lower s).1.parts := by
  cases o with
  | literal v => exact (by rw [Operand.lower, contextKeys_literal, List.append_nil])
  | runtime e => exact reads_lowerRuntime e s

theorem Json.reads_lowerValue (v : Json) (s : Scope) :
    (v.lowerValue s).2.reads = s.reads ++ contextKeys (v.lowerValue s).1.parts := by
  unfold Json.lowerValue
  cases v.runtimeText? with
  | none => exact (by rw [contextKeys_eq_nil (by simp [Json.names_lower]), List.append_nil])
  | some e => exact reads_lowerRuntime e s

namespace Condition

theorem lower_ne_context (c : Condition) (s : Scope) : (c.lower s).1 ≠ .ident "context" := by
  cases c with
  | literal _ v => cases v <;> exact fun h => by cases h
  | runtime _ e => exact Access.lower_ne_context e _ s
  | property _ o name => exact member_ne_ident _ name _
  | index | not | logical | comparison => exact fun h => by cases h

/-- **A condition logs the keys that it reads**, from left to right. -/
theorem reads_lower : ∀ (c : Condition) (s : Scope),
    (c.lower s).2.reads = s.reads ++ contextKeys (c.lower s).1.parts
  | literal _ v, s => by rw [Condition.lower, contextKeys_literal, List.append_nil]
  | runtime _ e, s => reads_lowerRuntime e s
  | index _ o i, s => by
    have ho := lower_ne_context o s
    simp only [Condition.lower]
    rw [contextKeys_element _ ho, reads_lower i, reads_lower o, List.append_assoc]
  | property _ o name, s => by
    have ho := lower_ne_context o s
    simp only [Condition.lower]
    rw [contextKeys_member name ho, reads_lower o]
  | not _ c, s => by
    simp only [Condition.lower]
    rw [contextKeys_parts rfl, reads_lower c]
    rfl
  | logical _ k l r, s => by
    simp only [Condition.lower]
    rw [contextKeys_binary, reads_lower r, reads_lower l, List.append_assoc]
  | comparison _ k l r _, s => by
    simp only [Condition.lower]
    rw [contextKeys_binary, reads_lower r, reads_lower l, List.append_assoc]

end Condition

/-! ## Criteria -/

theorem contextKeys_assertion (a : Assertion) : contextKeys a.call.parts =
    contextKeys a.actual.parts ++ contextKeys (argParts a.expected.toList) := by
  have hmessage : contextKeys (argParts [Expr.string a.message]) = [] := rfl
  rw [Assertion.call, contextKeys_call, List.cons_append, contextKeys_args]
  cases a.expected with
  | none => rfl
  | some e =>
    rw [Option.toList_some, List.singleton_append, contextKeys_args, hmessage, contextKeys_args]
    rfl

theorem contextKeys_pathQuery (path : String) (json : Expr) :
    contextKeys (pathQuery path json).parts = contextKeys json.parts := by
  have hfixed (b : Bool) (text : String) :
      contextKeys (Expr.bool b).parts = [] ∧ contextKeys (Expr.string text).parts = [] := ⟨rfl, rfl⟩
  rw [pathQuery, contextKeys_call, contextKeys_args, contextKeys_object]
  simp only [contextKeys_entries, hfixed false path, List.nil_append]
  exact (List.append_nil _).trans (List.append_nil _)

/-- The keys that assertions read. -/
def readKeys (as : List Assertion) : List String := contextKeys (bodyParts (as.map Assertion.toStmt))

theorem readKeys_cons (a : Assertion) (as : List Assertion) :
    readKeys (a :: as) = contextKeys a.call.parts ++ readKeys as :=
  contextKeys_append _ _

theorem readKeys_singleton (a : Assertion) : readKeys [a] = contextKeys a.call.parts := by
  rw [readKeys_cons]
  exact List.append_nil _

namespace Condition

theorem reads_assertion (text : String) (c : Condition) (s : Scope) :
    (c.assertion text s).2.reads = s.reads ++ contextKeys (c.assertion text s).1.call.parts := by
  cases hc : c.isComparison with
  | false =>
    rw [assertion_of_not_isComparison hc, contextKeys_assertion]
    simpa using c.reads_lower s
  | true =>
    cases c with
    | comparison _ operator l r message =>
      simp only [Condition.assertion]
      rw [contextKeys_assertion, reads_lower r, reads_lower l, List.append_assoc]
      simp [Expr.parts]
    | _ => cases hc

theorem reads_assertions (text : String) : ∀ (cs : List Condition) (s : Scope),
    (Condition.assertions text cs s).2.reads = s.reads ++ readKeys (Condition.assertions text cs s).1
  | [], s => (List.append_nil _).symm
  | c :: cs, s => by
    simp only [Condition.assertions]
    rw [readKeys_cons, reads_assertions text cs, reads_assertion, List.append_assoc]

end Condition

namespace Criterion

/-- The key that is logged for a criterion which does not compile. -/
def strayKey? (c : Criterion) (context : String) : Option String :=
  if c.kind? = some .jsonPath then (Access.ofText (c.context.getD context)).contextKey? else none

theorem reads_failedScope (c : Criterion) (context : String) (s : Scope) :
    (c.failedScope context s).reads = s.reads ++ (c.strayKey? context).toList := by
  unfold failedScope strayKey?
  split
  · rw [reads_lowerRuntime]
    exact congrArg (s.reads ++ ·) (Access.contextKeys_lower _ _ s)
  · exact (List.append_nil _).symm

/-- **A criterion that compiles logs the keys that its assertions read.** -/
theorem reads_of_ok {c : Criterion} {context : String} {s : Scope} {as : List Assertion}
    (h : (c.assertions context s).1 = .ok as) : (c.assertions context s).2.reads = s.reads ++ readKeys as := by
  rcases c.ok_cases h with ⟨tree, _, hc⟩ | ⟨regex, _, rfl, hc⟩ | ⟨kind, path, right, _, rfl, hc⟩
  · have hreads := Condition.reads_assertions c.condition tree.conjuncts s
    rwa [hc] at hreads
  · have hpattern : contextKeys (argParts [Expr.construct (.ident "RegExp") [regex.toExpr]]) = [] := rfl
    rw [hc, readKeys_singleton, contextKeys_assertion, reads_lowerRuntime, Option.toList_some, hpattern,
      List.append_nil]
  · have hexpected (e : Expr) : contextKeys (argParts (some e).toList) = contextKeys e.parts :=
      (contextKeys_args e []).trans (List.append_nil _)
    rw [hc, readKeys_singleton, contextKeys_assertion, contextKeys_pathQuery, hexpected, Operand.reads_lower,
      reads_lowerRuntime, List.append_assoc]

end Criterion

/-- The keys that are logged for a check: those that its assertions read, or else the stray one. -/
def Check.loggedKeys (context : String) (c : Check) : List String :=
  match c.result with
  | .ok as => readKeys as
  | .error _ => (c.criterion.strayKey? context).toList

theorem Criterion.reads_assertions (c : Criterion) (context : String) (s : Scope) :
    (c.assertions context s).2.reads = s.reads ++ Check.loggedKeys context ⟨c, (c.assertions context s).1⟩ := by
  unfold Check.loggedKeys
  cases h : (c.assertions context s).1 with
  | ok as => exact reads_of_ok h
  | error e => rw [scope_of_error h, reads_failedScope]

/-! ## Whole steps -/

theorem reads_compileChecks (context : String) : ∀ (cs : List Criterion) (emission : Emission) (s : Scope),
    (compileChecks context cs emission s).2.reads =
      s.reads ++ (compileChecks context cs emission s).1.1.flatMap (Check.loggedKeys context)
  | [], _, s => (List.append_nil _).symm
  | c :: cs, emission, s => by
    rw [compileChecks_cons]
    dsimp only
    rw [List.flatMap_cons, reads_compileChecks context cs, c.reads_assertions, List.append_assoc]

theorem reads_lowerOutputs (stepId : String) : ∀ (outputs : List (String × String)) (s : Scope),
    (lowerOutputs stepId outputs s).2.reads =
      s.reads ++ contextKeys (bodyParts ((lowerOutputs stepId outputs s).1.map ContextWrite.toStmt))
  | [], s => (List.append_nil _).symm
  | (name, expression) :: outputs, s => by
    have hwrite (key : String) (value : Expr) :
        contextKeys (ContextWrite.toStmt ⟨key, value⟩).parts = contextKeys value.parts := rfl
    simp only [lowerOutputs]
    rw [List.map_cons, bodyParts, contextKeys_append, hwrite, reads_lowerOutputs stepId outputs, reads_lowerRuntime,
      List.append_assoc]

theorem reads_headerValue (v : Json) (s : Scope) :
    (headerValue v s).2.reads = s.reads ++ contextKeys (headerValue v s).1.parts := by
  unfold headerValue
  split
  · exact (List.append_nil _).symm
  · rw [contextKeys_call, contextKeys_args, Json.reads_lowerValue]
    exact congrArg (s.reads ++ ·) (List.append_nil _).symm

/-- The log behind parameters holds what it held in front of them, and the keys that constants and headers read. -/
theorem mem_reads_bindParameters {key : String} : ∀ (ps : List Parameter) (taken : List String) (s : Scope),
    key ∈ (bindParameters ps taken s).2.reads ↔ key ∈ s.reads ∨
      key ∈ contextKeys (bodyParts (bindParameters ps taken s).1.constants) ∨
        key ∈ contextKeys (entryParts (bindParameters ps taken s).1.headers)
  | [], taken, s => by simp [bindParameters]
  | p :: ps, taken, s => by
    have hconst (constant : String) (value : Expr) (body : List Stmt) :
        contextKeys (bodyParts (.const constant none value :: body)) =
          contextKeys value.parts ++ contextKeys (bodyParts body) :=
      contextKeys_append _ _
    unfold bindParameters
    cases p.location with
    | none => exact mem_reads_bindParameters ps taken s
    | some location =>
      cases location with
      | cookie => exact mem_reads_bindParameters ps taken s
      | path =>
        simp only [hconst, mem_reads_bindParameters ps, p.value.reads_lowerValue s, List.mem_append, or_assoc]
      | query =>
        simp only [hconst, mem_reads_bindParameters ps, p.value.reads_lowerValue s, List.mem_append, or_assoc]
      | header =>
        simp only [contextKeys_entries, mem_reads_bindParameters ps, reads_headerValue p.value s, List.mem_append,
          or_assoc, or_left_comm]

theorem readKeys_append (as more : List Assertion) : readKeys (as ++ more) = readKeys as ++ readKeys more := by
  rw [readKeys, List.map_append, bodyParts_append, contextKeys_append]
  rfl

theorem mem_loggedKeys {context key : String} {checks : List Check} :
    key ∈ checks.flatMap (Check.loggedKeys context) ↔ key ∈ readKeys (checks.flatMap Check.assertions) ∨
      ∃ check ∈ checks, ∃ e, check.result = .error e ∧ check.criterion.strayKey? context = some key := by
  induction checks with
  | nil => simp [readKeys]
  | cons check checks ih =>
    rw [List.flatMap_cons, List.mem_append, ih, List.flatMap_cons, readKeys_append, List.mem_append,
      List.exists_mem_cons_iff]
    cases h : check.result with
    | ok as => simp [Check.loggedKeys, Check.assertions, h, or_assoc]
    | error e => simp [Check.loggedKeys, Check.assertions, h, readKeys, or_left_comm]

/-- A request whose address does not mention the context reads what its headers read. -/
theorem contextKeys_requestCall (method : HttpMethod) {url : Template} (headers : List (Key × Expr))
    (hasPayload : Bool) (hurl : "context" ∉ url.names) :
    contextKeys (requestCall method url headers hasPayload).parts = contextKeys (entryParts headers) := by
  have haddress : contextKeys url.toExpr.parts = [] := contextKeys_eq_nil hurl
  have hbody : contextKeys (requestBody hasPayload).parts = [] := by
    cases hasPayload <;> rfl
  rw [requestCall, contextKeys_await, contextKeys_call, contextKeys_args, haddress, contextKeys_args,
    contextKeys_object, contextKeys_entries, contextKeys_entries, contextKeys_entries, contextKeys_object, hbody]
  exact (List.append_nil _).trans (List.append_nil _)

section

variable {setting : Setting} {workflowId : String} {written : ContextStore} {step : Step} {e : Endpoint}

theorem contextKeys_request : contextKeys (setting.testOf workflowId written step e).request.parts =
    contextKeys (entryParts step.boundParameters.headers) := by
  have hurl : "context" ∉ (addQuery "?" step.boundParameters.query (Path.fill e.path step.boundParameters.path
      ((Template.ofText "").push (.ident "serverUrl") "")).1).names := by
    intro h
    rcases step.mem_names_url h with hx | hbound
    · exact absurd hx (by decide)
    · exact step.not_mem_bound (by decide) hbound
  refine (contextKeys_requestCall e.method (commonHeaders setting.security ++ step.boundParameters.headers)
    step.payload.isSome hurl).trans ?_
  rw [entryParts_append, contextKeys_append]
  rfl

/-- The keys that the statements of a step read. -/
theorem contextKeys_body_testOf : contextKeys (bodyParts (setting.testOf workflowId written step e).body) =
    contextKeys (bodyParts step.boundParameters.constants) ++
      (contextKeys (entryParts step.boundParameters.headers) ++
        (readKeys (setting.testOf workflowId written step e).assertions ++
          contextKeys (bodyParts ((setting.testOf workflowId written step e).writes.map ContextWrite.toStmt)))) := by
  have hpayload : contextKeys (bodyParts (setting.testOf workflowId written step e).payloadBody) = [] :=
    contextKeys_bodyParts_eq_nil (by simp [(StepTest.inOrder_payloadBody names_payload).2])
  have hexchange : contextKeys (bodyParts (setting.testOf workflowId written step e).exchange) =
      contextKeys (entryParts step.boundParameters.headers) := by
    rw [StepTest.exchange, bodyParts, contextKeys_append, ← contextKeys_request]
    exact List.append_nil _
  rw [StepTest.body_eq, StepTest.checksAndWrites]
  simp only [bodyParts_append, contextKeys_append, hpayload, hexchange, List.nil_append]
  rfl

/-- The scope of a step behind all its parts. -/
def Step.finalScope (step : Step) (context : String) : Scope :=
  (lowerOutputs step.stepId step.outputs (compileChecks context step.successCriteria .empty step.scope).2).2

/-- **The log of a step** holds the keys that its statements read, and those of broken path queries. -/
theorem mem_reads_testOf_iff {key : String} : key ∈ (step.finalScope setting.defaultContext).reads ↔
    key ∈ contextKeys (bodyParts (setting.testOf workflowId written step e).body) ∨
      ∃ check ∈ (setting.testOf workflowId written step e).checks, ∃ err, check.result = .error err ∧
        check.criterion.strayKey? setting.defaultContext = some key := by
  have hparameters : key ∈ step.scope.reads ↔ key ∈ contextKeys (bodyParts step.boundParameters.constants) ∨
      key ∈ contextKeys (entryParts step.boundParameters.headers) :=
    (mem_reads_bindParameters step.parameters stepLocals _).trans (or_iff_right List.not_mem_nil)
  have hfinal : (step.finalScope setting.defaultContext).reads =
      step.scope.reads ++ (setting.testOf workflowId written step e).checks.flatMap
          (Check.loggedKeys setting.defaultContext) ++
        contextKeys (bodyParts ((setting.testOf workflowId written step e).writes.map ContextWrite.toStmt)) := by
    rw [Step.finalScope, reads_lowerOutputs, reads_compileChecks]
    rfl
  rw [hfinal, contextKeys_body_testOf, List.mem_append, List.mem_append, hparameters, mem_loggedKeys]
  simp only [List.mem_append]
  grind [StepTest.assertions]

end

end FlowSuite
