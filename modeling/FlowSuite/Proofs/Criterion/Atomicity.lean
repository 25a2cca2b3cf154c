import FlowSuite.Proofs.TestCase.Logging

/-!
# What compiling a criterion leaves behind

A criterion that compiles adds the kinds of its assertions to the used ones and its reads to the end of the log. One
that does not compile adds no kind. It logs nothing either, unless it is a path query: its context is lowered in front
of the check of its comparison, and what that logs stays (`Criterion.compileIn_atomic_iff`). So a broken path query on a
value of an earlier step leaves a read behind, for which no assertion is made (`not_atomic_halfQuery`).
-/

namespace FlowSuite

/-! ## Logged accesses -/

/-- Is logged where it is lowered, in a step that sends a body or none. -/
def Access.isLogged (hasPayload : Bool) : Access → Bool
  | .context .. | .unresolved .. => true
  | .body .request _ => !hasPayload
  | .statusCode | .url | .body .response _ | .responseHeader _ => false

theorem Scope.read_ne (s : Scope) (key : String) : s.read key ≠ s := by
  intro h
  have hlength := congrArg (fun t => t.reads.length) h
  simp [Scope.read] at hlength

theorem Scope.giveUp_ne (s : Scope) (expression reason : String) : s.giveUp expression reason ≠ s := by
  intro h
  have hlength := congrArg (fun t => t.unresolved.length) h
  simp [Scope.giveUp] at hlength

/-- Lowering leaves the scope as it was exactly where the access is not logged. -/
theorem Access.lower_scope_eq_iff (expression : String) (a : Access) (s : Scope) :
    (a.lower expression s).2 = s ↔ a.isLogged s.hasPayload = false := by
  cases a with
  | statusCode | url | responseHeader => simp [Access.lower, isLogged]
  | context => simp [Access.lower, isLogged, Scope.read_ne]
  | unresolved => simp [Access.lower, isLogged, Scope.giveUp_ne]
  | body side path =>
    cases side with
    | response => simp [Access.lower, isLogged]
    | request => cases hp : s.hasPayload <;> simp [Access.lower, isLogged, hp, Scope.giveUp_ne]

/-! ## Criteria -/

namespace Criterion

/-- The scope that a criterion leaves which does not compile. -/
def failedScope (c : Criterion) (context : String) (s : Scope) : Scope :=
  if c.kind? = some .jsonPath then (lowerRuntime (c.context.getD context) s).2 else s

/-- Simple criteria and regular expressions fail in front of all lowering, path queries behind that of their context. -/
theorem scope_of_error {c : Criterion} {context : String} {s : Scope} {e : CompileError}
    (h : (c.assertions context s).1 = .error e) : (c.assertions context s).2 = c.failedScope context s := by
  unfold Criterion.assertions at h ⊢
  unfold failedScope
  cases hk : c.kind? with
  | none => simp
  | some kind =>
    rw [hk] at h
    cases kind with
    | simple =>
      rcases compileSimple_cases c.condition with ⟨e', hc⟩ | ⟨tree, _, hc⟩
      · simp [hc]
      · simp [hc] at h
    | regex =>
      rcases compileRegex_cases c.condition with ⟨e', hc⟩ | ⟨regex, hc⟩
      · simp [hc]
      · simp [hc] at h
    | jsonPath =>
      rcases compilePath_cases c.condition with ⟨e', hc⟩ | ⟨kind, path, right, hc⟩
      · simp [hc]
      · simp [hc] at h

/-- A failure is atomic but for path queries on a context that is logged. -/
theorem failedScope_eq_iff (c : Criterion) (context : String) (s : Scope) :
    c.failedScope context s = s ↔
      ¬(c.kind? = some .jsonPath ∧ (Access.ofText (c.context.getD context)).isLogged s.hasPayload) := by
  unfold failedScope
  split
  · next hk => simp [hk, lowerRuntime, Access.lower_scope_eq_iff]
  · next hk => simp [hk]

theorem compileIn_of_error {c : Criterion} {context : String} {s : Scope} {used : UsedKinds} {e : CompileError}
    (h : (c.compileIn context s used).result = .error e) :
    c.compileIn context s used = ⟨.error e, c.failedScope context s, used⟩ := by
  unfold compileIn at h ⊢
  split at h
  · cases h
  · next e' s' heq =>
    cases h
    have hscope : (c.assertions context s).2 = c.failedScope context s := scope_of_error (congrArg Prod.fst heq)
    rw [heq] at hscope
    rw [← hscope]

theorem compileIn_of_ok {c : Criterion} {context : String} {s : Scope} {used : UsedKinds} {as : List Assertion}
    (h : (c.compileIn context s used).result = .ok as) :
    c.compileIn context s used = ⟨.ok as, (c.assertions context s).2, used.addAll as⟩ := by
  unfold compileIn at h ⊢
  split at h
  · next as' s' heq =>
    cases h
    rw [heq]
  · cases h

/-- **A criterion that compiles adds the kinds of its assertions, and its log at the end; one that does not compile adds
no kind, and leaves the scope as it was exactly if it is no path query on a context that is logged.** -/
theorem compileIn_atomic_iff (c : Criterion) (context : String) (s : Scope) (used : UsedKinds) :
    (∀ e, (c.compileIn context s used).result = .error e →
      (c.compileIn context s used).used = used ∧
        (c.compileIn context s used).scope = c.failedScope context s ∧
        ((c.compileIn context s used).scope = s ↔
          ¬(c.kind? = some .jsonPath ∧ (Access.ofText (c.context.getD context)).isLogged s.hasPayload))) ∧
      ∀ as, (c.compileIn context s used).result = .ok as →
        (∀ k, k ∈ (c.compileIn context s used).used.kinds ↔ k ∈ used.kinds ∨ ∃ a ∈ as, a.kind = k) ∧
          ∃ reads unresolved, (c.compileIn context s used).scope =
            { s with reads := s.reads ++ reads, unresolved := s.unresolved ++ unresolved } := by
  refine ⟨fun e h => ?_, fun as h => ?_⟩
  · rw [compileIn_of_error h]
    exact ⟨rfl, rfl, c.failedScope_eq_iff context s⟩
  · rw [compileIn_of_ok h]
    exact ⟨fun k => used.mem_addAll as k, (c.appendsOnly_assertions context).exists_append s⟩

end Criterion

/-- A path query on a value of an earlier step, compared with nothing. -/
def halfQuery : Criterion := ⟨"$.total ==", some "$steps.create.outputs.order", some (.name "jsonpath")⟩

/-- It does not compile, and its read of the context stays in the log. -/
theorem not_atomic_halfQuery :
    ∃ e, (halfQuery.compileIn defaultContext (.ofStep "ship" false) .empty).result = .error e ∧
      (halfQuery.compileIn defaultContext (.ofStep "ship" false) .empty).scope.reads = ["create.outputs.order"] ∧
      (halfQuery.compileIn defaultContext (.ofStep "ship" false) .empty).scope ≠ .ofStep "ship" false := by
  have hreads : (halfQuery.compileIn defaultContext (.ofStep "ship" false) .empty).scope.reads =
      ["create.outputs.order"] := rfl
  refine ⟨_, rfl, hreads, fun h => ?_⟩
  rw [h] at hreads
  cases hreads

end FlowSuite
