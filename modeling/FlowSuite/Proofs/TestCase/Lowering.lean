import FlowSuite.Proofs.Script.Names
import FlowSuite.Proofs.TestCase.Recording

/-!
# What lowered expressions mention

A runtime expression becomes an expression over one name at most (`Access.name?`, `Access.names_lower`), and a JSON
value mentions nothing (`Json.names_lower`). So all that is made of conditions, criteria and outputs mentions the names
of the scope and the functions of tests only (`scopeNames`, `testLibrary`); `payload` is one of them where the step
sends a body. No lowering changes whether it does.
-/

namespace FlowSuite

open Script

/-! ## Runtime expressions and JSON values -/

/-- The name that the value of an access is read from, in a step that sends a body or none. -/
def Access.name? (hasPayload : Bool) : Access → Option String
  | .statusCode | .url | .responseHeader _ => some "response"
  | .body .response _ => some "data"
  | .body .request _ => if hasPayload then some "payload" else none
  | .context .. => some "context"
  | .unresolved .. => none

theorem names_along (base : Expr) (path : List String) : (base.along path).names = base.names := by
  unfold Expr.along
  induction path generalizing base with
  | nil => rfl
  | cons key path ih => rw [List.foldl_cons, ih, names_member]

theorem Access.names_lower (expression : String) (a : Access) (s : Scope) :
    (a.lower expression s).1.names = (a.name? s.hasPayload).toList := by
  cases a with
  | statusCode | url | responseHeader | context | unresolved => rfl
  | body side path =>
    cases side with
    | response => exact names_along _ path
    | request =>
      simp only [Access.lower, Access.name?]
      split
      · exact names_along _ path
      · rfl

@[simp] theorem Access.hasPayload_lower (expression : String) (a : Access) (s : Scope) :
    (a.lower expression s).2.hasPayload = s.hasPayload :=
  (a.appendsOnly_lower expression).hasPayload_snd s

mutual

theorem Json.names_lower : ∀ v : Json, v.lower.names = []
  | .null | .bool _ | .int _ | .float _ | .str _ => rfl
  | .arr items => argNames_lowerItems items
  | .obj members => entryNames_lowerMembers members

theorem argNames_lowerItems : ∀ items : List Json, argNames (lowerItems items) = []
  | [] => rfl
  | item :: items => by rw [lowerItems, argNames, Json.names_lower item, argNames_lowerItems items, List.append_nil]

theorem entryNames_lowerMembers : ∀ members : List (String × Json), entryNames (lowerMembers members) = []
  | [] => rfl
  | (key, value) :: members => by
    rw [lowerMembers, entryNames, Json.names_lower value, entryNames_lowerMembers members, List.append_nil]

end

/-- The name that a value is read from where it is a runtime expression. -/
def Json.name? (hasPayload : Bool) (v : Json) : Option String :=
  v.runtimeText?.bind fun e => (Access.ofText e).name? hasPayload

theorem Json.names_lowerValue (v : Json) (s : Scope) : (v.lowerValue s).1.names = (v.name? s.hasPayload).toList := by
  unfold Json.lowerValue Json.name?
  cases v.runtimeText? with
  | none => exact v.names_lower
  | some e => exact Access.names_lower e _ s

@[simp] theorem Json.hasPayload_lowerValue (v : Json) (s : Scope) : (v.lowerValue s).2.hasPayload = s.hasPayload :=
  v.appendsOnly_lowerValue.hasPayload_snd s

/-! ## Conditions -/

/-- The names that runtime expressions are lowered to. -/
def scopeNames (hasPayload : Bool) : List String :=
  ["context", "response", "data"] ++ if hasPayload then ["payload"] else []

theorem payload_mem_scopeNames {hasPayload : Bool} : "payload" ∈ scopeNames hasPayload ↔ hasPayload := by
  cases hasPayload <;> decide

theorem Access.name?_mem {a : Access} {hasPayload : Bool} {x : String} (h : a.name? hasPayload = some x) :
    x ∈ scopeNames hasPayload := by
  unfold Access.name? at h
  split at h
  case h_5 =>
    split at h
    · next hp => cases h; exact payload_mem_scopeNames.mpr hp
    · cases h
  case h_7 => cases h
  all_goals cases h; simp [scopeNames]

/-- Mentions names of the scope only. -/
def Script.Expr.InScope (hasPayload : Bool) (e : Expr) : Prop := ∀ x ∈ e.names, x ∈ scopeNames hasPayload

theorem inScope_lowerRuntime (expression : String) (s : Scope) :
    (lowerRuntime expression s).1.InScope s.hasPayload := by
  intro x hx
  unfold lowerRuntime at hx
  rw [Access.names_lower, Option.mem_toList] at hx
  exact Access.name?_mem hx

@[simp] theorem hasPayload_lowerRuntime (expression : String) (s : Scope) :
    (lowerRuntime expression s).2.hasPayload = s.hasPayload :=
  (appendsOnly_lowerRuntime expression).hasPayload_snd s

theorem names_lower_literal (v : Literal) : v.lower.names = [] := by
  cases v <;> rfl

/-- An expression over two others mentions what they do. -/
theorem inScope_of_names_eq {hasPayload : Bool} {e l r : Expr} (h : e.names = l.names ++ r.names)
    (hl : l.InScope hasPayload) (hr : r.InScope hasPayload) : e.InScope hasPayload := by
  intro x hx
  rw [h, List.mem_append] at hx
  exact hx.elim (hl x) (hr x)

theorem Operand.inScope_lower (o : Operand) (s : Scope) : (o.lower s).1.InScope s.hasPayload := by
  cases o with
  | literal v =>
    intro x hx
    rw [Operand.lower, names_lower_literal] at hx
    cases hx
  | runtime e => exact inScope_lowerRuntime e s

namespace Condition

@[simp] theorem hasPayload_lower (c : Condition) (s : Scope) : (c.lower s).2.hasPayload = s.hasPayload :=
  c.appendsOnly_lower.hasPayload_snd s

/-- What a condition is lowered to mentions names of the scope only. -/
theorem inScope_lower : ∀ (c : Condition) (s : Scope), (c.lower s).1.InScope s.hasPayload
  | literal _ v, s => by
    intro x hx
    rw [Condition.lower, names_lower_literal] at hx
    cases hx
  | runtime _ e, s => inScope_lowerRuntime e s
  | index _ o i, s => by
    have hi := inScope_lower i (o.lower s).2
    rw [hasPayload_lower] at hi
    exact inScope_of_names_eq rfl (inScope_lower o s) hi
  | property _ o name, s => by
    intro x hx
    rw [Condition.lower, names_member] at hx
    exact inScope_lower o s x hx
  | not _ c, s => inScope_lower c s
  | logical _ _ l r, s => by
    have hr := inScope_lower r (l.lower s).2
    rw [hasPayload_lower] at hr
    exact inScope_of_names_eq rfl (inScope_lower l s) hr
  | comparison _ _ l r _, s => by
    have hr := inScope_lower r (l.lower s).2
    rw [hasPayload_lower] at hr
    exact inScope_of_names_eq rfl (inScope_lower l s) hr

end Condition

/-! ## Criteria -/

/-- The functions of tests that assertions call. -/
def testLibrary : List String := ["RegExp", "JSONPath"] ++ AssertionKind.all.map AssertionKind.function

/-- Calls functions of tests, and else mentions names of the scope only. -/
def Assertion.InScope (hasPayload : Bool) (a : Assertion) : Prop :=
  ∀ x ∈ a.call.names, x ∈ testLibrary ∨ x ∈ scopeNames hasPayload

theorem Assertion.inScope_mk {hasPayload : Bool} {kind : AssertionKind} {actual : Expr} {expected : Option Expr}
    {message : String} (hactual : ∀ x ∈ actual.names, x ∈ testLibrary ∨ x ∈ scopeNames hasPayload)
    (hexpected : ∀ e ∈ expected, ∀ x ∈ e.names, x ∈ testLibrary ∨ x ∈ scopeNames hasPayload) :
    Assertion.InScope hasPayload ⟨kind, actual, expected, message⟩ := by
  intro x hx
  simp only [Assertion.call, Expr.names, List.cons_append, argNames, List.nil_append, List.mem_cons,
    List.mem_append] at hx
  rcases hx with rfl | hx | hx
  · exact .inl (List.mem_append_right _ (List.mem_map_of_mem (AssertionKind.mem_all kind)))
  · exact hactual x hx
  · cases expected with
    | none => simp at hx
    | some e => exact hexpected e rfl x (by simpa using hx)

/-- Compares expressions over the scope of a step. -/
def Assertion.Plain (hasPayload : Bool) (a : Assertion) : Prop :=
  a.actual.InScope hasPayload ∧ ∀ e ∈ a.expected, e.InScope hasPayload

theorem Assertion.Plain.inScope {hasPayload : Bool} {a : Assertion} (h : a.Plain hasPayload) : a.InScope hasPayload :=
  Assertion.inScope_mk (fun x hx => .inr (h.1 x hx)) fun e he x hx => .inr (h.2 e he x hx)

namespace Condition

theorem plain_assertion (text : String) (c : Condition) (s : Scope) :
    (c.assertion text s).1.Plain s.hasPayload := by
  cases hc : c.isComparison with
  | false =>
    rw [assertion_of_not_isComparison hc]
    exact ⟨c.inScope_lower s, by simp⟩
  | true =>
    cases c with
    | comparison _ operator l r message =>
      refine ⟨l.inScope_lower s, ?_⟩
      rintro _ ⟨⟩
      exact l.hasPayload_lower s ▸ r.inScope_lower (l.lower s).2
    | _ => cases hc

theorem plain_assertions (text : String) : ∀ (cs : List Condition) (s : Scope),
    ∀ a ∈ (Condition.assertions text cs s).1, a.Plain s.hasPayload
  | [], _, a, ha => by cases ha
  | c :: cs, s, a, ha => by
    have hscope := (c.appendsOnly_assertion text).hasPayload_snd s
    rcases List.mem_cons.mp ha with rfl | ha
    · exact plain_assertion text c s
    · exact hscope ▸ plain_assertions text cs (c.assertion text s).2 a ha

end Condition

theorem names_pathQuery (path : String) (json : Expr) : (pathQuery path json).names = "JSONPath" :: json.names := by
  simp [pathQuery, Expr.bool]

/-- What is to come of compiling in a scope: assertions over that scope, if any, and a scope that sends a body if that
one does. -/
structure Keeps (s : Scope) (out : Except CompileError (List Assertion) × Scope) : Prop where
  inScope : ∀ as, out.1 = .ok as → ∀ a ∈ as, a.InScope s.hasPayload
  hasPayload : out.2.hasPayload = s.hasPayload

theorem Criterion.keeps_assertions (c : Criterion) (context : String) (s : Scope) :
    Keeps s (c.assertions context s) := by
  refine ⟨fun as h a ha => ?_, (c.appendsOnly_assertions context).hasPayload_snd s⟩
  have hcontext := inScope_lowerRuntime (c.context.getD context) s
  rcases c.ok_cases h with ⟨tree, _, hc⟩ | ⟨regex, _, rfl, _⟩ | ⟨kind, path, right, _, rfl, _⟩
  · have hplain := Condition.plain_assertions c.condition tree.conjuncts s
    rw [hc] at hplain
    exact (hplain a ha).inScope
  · obtain rfl := List.mem_singleton.mp ha
    refine Assertion.inScope_mk (fun x hx => .inr (hcontext x hx)) ?_
    rintro _ ⟨⟩ x hx
    left
    simpa [Regex.toExpr, testLibrary] using Or.inl hx
  · obtain rfl := List.mem_singleton.mp ha
    have hright := right.inScope_lower (lowerRuntime (c.context.getD context) s).2
    rw [hasPayload_lowerRuntime] at hright
    refine Assertion.inScope_mk (fun x hx => ?_) ?_
    · rw [names_pathQuery] at hx
      rcases List.mem_cons.mp hx with rfl | hx
      · exact .inl (by decide)
      · exact .inr (hcontext x hx)
    · rintro _ ⟨⟩ x hx
      exact .inr (hright x hx)

/-! ## Whole steps -/

theorem compileChecks_inScope (context : String) (cs : List Criterion) (emission : Emission) (s : Scope) :
    (∀ c ∈ (compileChecks context cs emission s).1.1, ∀ a ∈ c.assertions, a.InScope s.hasPayload) ∧
      (compileChecks context cs emission s).2.hasPayload = s.hasPayload := by
  refine ⟨fun check hcheck a ha => ?_, (appendsOnly_compileChecks context cs emission).hasPayload_snd s⟩
  rw [compileChecks_fst] at hcheck
  obtain ⟨c, _, rfl⟩ := List.mem_map.mp hcheck
  unfold Check.assertions at ha
  split at ha
  · next as has => exact (c.keeps_assertions context s).inScope as has a ha
  · cases ha

theorem lowerOutputs_inScope (stepId : String) : ∀ (outputs : List (String × String)) (s : Scope),
    ∀ w ∈ (lowerOutputs stepId outputs s).1, w.value.InScope s.hasPayload
  | [], _ => by simp [lowerOutputs]
  | (name, expression) :: outputs, s => by
    have hmore := lowerOutputs_inScope stepId outputs (lowerRuntime expression s).2
    rw [hasPayload_lowerRuntime] at hmore
    intro w hw
    rcases List.mem_cons.mp hw with rfl | hw
    · exact inScope_lowerRuntime expression s
    · exact hmore w hw

end FlowSuite
