import FlowSuite.TestCase.Step

/-!
# The log of a scope is only added to

What is made of expressions, criteria, parameters and outputs depends on whether the step sends a body, never on its
name or on what was logged before, and whatever is logged goes to the end of the log. `AppendsOnly` says all of this of
a computation over scopes: it does in any scope what it does in a scope without a name and with an empty log.
Computations in sequence keep it (`AppendsOnly.bind`), so it is proved once for each construct, up to the parameters and
outputs of a whole step.

On the way the three compilers of criteria are opened once: `compileSimple_cases`, `compileRegex_cases` and
`compilePath_cases` say where each of them fails, and `Criterion.ok_cases` says what is made where they do not.
-/

namespace FlowSuite

open Script (Expr)

/-! ## Logs -/

namespace Scope

/-- The scope of a step without a name that sends a body if this one does, with an empty log. -/
def fresh (s : Scope) : Scope := .ofStep "" s.hasPayload

/-- A scope with the log of another one behind its own. -/
def follow (s t : Scope) : Scope := { s with reads := s.reads ++ t.reads, unresolved := s.unresolved ++ t.unresolved }

@[simp] theorem fresh_follow (s t : Scope) : (s.follow t).fresh = s.fresh := rfl

@[simp] theorem follow_fresh (s : Scope) : s.follow s.fresh = s := by
  simp [follow, fresh, ofStep]

theorem follow_assoc (s t u : Scope) : (s.follow t).follow u = s.follow (t.follow u) := by
  simp [follow]

end Scope

universe u v

variable {α : Type u} {β : Type v}

/-- Does in any scope what it does in a fresh scope, and adds to the log what it logs there. -/
def AppendsOnly (f : Scope → α × Scope) : Prop := ∀ s, f s = ((f s.fresh).1, s.follow (f s.fresh).2)

namespace AppendsOnly

variable {f : Scope → α × Scope} {g : α → Scope → β × Scope}

theorem fresh_snd (hf : AppendsOnly f) (s : Scope) : (f s).2.fresh = s.fresh := by
  rw [hf s, Scope.fresh_follow]

/-- Scopes that differ in their names and logs only give the same. -/
theorem fst_congr (hf : AppendsOnly f) {s t : Scope} (h : s.fresh = t.fresh) : (f s).1 = (f t).1 := by
  rw [hf s, hf t, h]

theorem hasPayload_snd (hf : AppendsOnly f) (s : Scope) : (f s).2.hasPayload = s.hasPayload := by
  rw [hf s]
  rfl

/-- What is made depends on whether the step sends a body only. -/
theorem fst_eq_of_hasPayload (hf : AppendsOnly f) {s t : Scope} (h : s.hasPayload = t.hasPayload) : (f s).1 = (f t).1 :=
  hf.fst_congr (congrArg (Scope.ofStep "") h)

/-- Both parts of the log keep what they hold at their front. -/
theorem exists_append (hf : AppendsOnly f) (s : Scope) : ∃ reads unresolved,
    (f s).2 = { s with reads := s.reads ++ reads, unresolved := s.unresolved ++ unresolved } :=
  ⟨(f s.fresh).2.reads, (f s.fresh).2.unresolved, congrArg Prod.snd (hf s)⟩

theorem pure (a : α) : AppendsOnly fun s => (a, s) := fun s => by rw [Scope.follow_fresh]

theorem read (a : α) (key : String) : AppendsOnly fun s => (a, s.read key) := fun s => by
  simp [Scope.read, Scope.follow, Scope.fresh, Scope.ofStep]

theorem giveUp (a : α) (expression reason : String) :
    AppendsOnly fun s => (a, s.giveUp expression reason) := fun s => by
  simp [Scope.giveUp, Scope.follow, Scope.fresh, Scope.ofStep]

/-- **One computation behind another.** -/
theorem bind (hf : AppendsOnly f) (hg : ∀ a, AppendsOnly (g a)) : AppendsOnly fun s => g (f s).1 (f s).2 := by
  intro s
  have hfresh : (f s.fresh).2.fresh = s.fresh := hf.fresh_snd s.fresh
  calc g (f s).1 (f s).2
      = g (f s.fresh).1 (s.follow (f s.fresh).2) := by rw [hf s]
    _ = ((g (f s.fresh).1 s.fresh).1, (s.follow (f s.fresh).2).follow (g (f s.fresh).1 s.fresh).2) := hg _ _
    _ = ((g (f s.fresh).1 (f s.fresh).2).1, s.follow (g (f s.fresh).1 (f s.fresh).2).2) := by
      rw [hg (f s.fresh).1 (f s.fresh).2, hfresh, Scope.follow_assoc]

theorem map (hf : AppendsOnly f) (h : α → β) : AppendsOnly fun s => (h (f s).1, (f s).2) :=
  hf.bind fun a => .pure (h a)

end AppendsOnly

/-! ## Expressions and conditions -/

theorem Access.appendsOnly_lower (expression : String) : ∀ a : Access, AppendsOnly (a.lower expression)
  | .statusCode | .url | .body .response _ | .responseHeader _ => .pure _
  | .context .. => .read _ _
  | .unresolved .. => .giveUp _ _ _
  | .body .request path => by
    intro s
    cases hp : s.hasPayload with
    | true =>
      have hfresh : s.fresh.hasPayload = true := hp
      simp [Access.lower, hp, hfresh]
    | false =>
      have hfresh : s.fresh.hasPayload = false := hp
      simp only [Access.lower, hp, hfresh]
      exact AppendsOnly.giveUp _ _ _ s

theorem appendsOnly_lowerRuntime (expression : String) : AppendsOnly (lowerRuntime expression) :=
  Access.appendsOnly_lower expression _

theorem Operand.appendsOnly_lower : ∀ o : Operand, AppendsOnly o.lower
  | .literal _ => .pure _
  | .runtime e => appendsOnly_lowerRuntime e

theorem Condition.appendsOnly_lower : ∀ c : Condition, AppendsOnly c.lower
  | literal .. => .pure _
  | runtime _ e => appendsOnly_lowerRuntime e
  | index _ o i => o.appendsOnly_lower.bind fun e => i.appendsOnly_lower.map (Expr.element e)
  | property _ o name => o.appendsOnly_lower.map fun e => e.member name
  | not _ c => c.appendsOnly_lower.map Expr.not
  | logical _ k l r => l.appendsOnly_lower.bind fun e => r.appendsOnly_lower.map (Expr.binary k.binaryOp e)
  | comparison _ k l r _ => l.appendsOnly_lower.bind fun e => r.appendsOnly_lower.map (Expr.binary k.binaryOp e)

theorem Json.appendsOnly_lowerValue (v : Json) : AppendsOnly v.lowerValue := by
  unfold Json.lowerValue
  cases v.runtimeText? with
  | none => exact .pure _
  | some e => exact appendsOnly_lowerRuntime e

/-! ## Criteria -/

/-- What is no comparison is checked by its truth. -/
theorem Condition.assertion_of_not_isComparison {c : Condition} (h : c.isComparison = false) (text : String) :
    c.assertion text = fun s => (⟨.truthy, (c.lower s).1, none, text⟩, (c.lower s).2) := by
  cases c with
  | comparison => cases h
  | _ => rfl

theorem Condition.appendsOnly_assertion (text : String) (c : Condition) : AppendsOnly (c.assertion text) := by
  cases hc : c.isComparison with
  | false =>
    rw [assertion_of_not_isComparison hc]
    exact c.appendsOnly_lower.map fun e => Assertion.mk .truthy e none text
  | true =>
    cases c with
    | comparison _ operator l r message =>
      exact l.appendsOnly_lower.bind fun e => r.appendsOnly_lower.map fun e' =>
        Assertion.mk operator.assertionKind e (some e') message
    | _ => cases hc

theorem Condition.appendsOnly_assertions (text : String) : ∀ cs : List Condition,
    AppendsOnly (Condition.assertions text cs)
  | [] => .pure _
  | c :: cs => (c.appendsOnly_assertion text).bind fun a => (Condition.appendsOnly_assertions text cs).map (a :: ·)

/-- A simple criterion fails in front of all lowering or not at all. -/
theorem compileSimple_cases (text : String) :
    (∃ e, compileSimple text = fun s => (.error e, s)) ∨
      ∃ tree, Condition.parse text = .ok tree ∧ compileSimple text = fun s =>
        (.ok (Condition.assertions text tree.conjuncts s).1, (Condition.assertions text tree.conjuncts s).2) := by
  unfold compileSimple
  cases Condition.parse text with
  | error e => exact .inl ⟨_, rfl⟩
  | ok tree =>
    dsimp only
    cases tree.isCheck with
    | true => exact .inr ⟨tree, rfl, rfl⟩
    | false => exact .inl ⟨_, rfl⟩

/-- So does a regular expression. -/
theorem compileRegex_cases (text : String) :
    (∃ e, ∀ context, compileRegex text context = fun s => (.error e, s)) ∨
      ∃ regex : Regex, ∀ context, compileRegex text context = fun s =>
        (.ok [⟨.matches, (lowerRuntime context s).1, some (.construct (.ident "RegExp") [regex.toExpr]), text⟩],
          (lowerRuntime context s).2) := by
  unfold compileRegex
  cases Regex.ofText text with
  | error e => exact .inl ⟨e, fun _ => rfl⟩
  | ok regex => exact .inr ⟨regex, fun _ => rfl⟩

/-- A path query fails behind the lowering of its context. Where nothing is compared, it is compared with `true`. -/
theorem compilePath_cases (text : String) :
    (∃ e, ∀ context, compilePath text context = fun s => (.error e, (lowerRuntime context s).2)) ∨
    ∃ (kind : AssertionKind) (path : String) (right : Operand), ∀ context, compilePath text context = fun s =>
      (.ok [⟨kind, pathQuery path (lowerRuntime context s).1, some (right.lower (lowerRuntime context s).2).1, text⟩],
        (right.lower (lowerRuntime context s).2).2) := by
  unfold compilePath
  cases (FlatComparison.topLevel? text.toList).isNone with
  | true => exact .inr ⟨.equals, text, .literal (.bool true), fun _ => rfl⟩
  | false =>
    cases FlatComparison.parse text with
    | error e => exact .inl ⟨_, fun _ => rfl⟩
    | ok c => exact .inr ⟨c.operator.assertionKind, c.left.text, c.right, fun _ => rfl⟩

theorem appendsOnly_compileSimple (text : String) : AppendsOnly (compileSimple text) := by
  rcases compileSimple_cases text with ⟨e, h⟩ | ⟨tree, _, h⟩
  · rw [h]
    exact .pure _
  · rw [h]
    exact (Condition.appendsOnly_assertions text tree.conjuncts).map Except.ok

theorem appendsOnly_compileRegex (text context : String) : AppendsOnly (compileRegex text context) := by
  rcases compileRegex_cases text with ⟨e, h⟩ | ⟨regex, h⟩
  · rw [h]
    exact .pure _
  · rw [h]
    exact (appendsOnly_lowerRuntime context).map fun actual =>
      Except.ok [Assertion.mk .matches actual (some (.construct (.ident "RegExp") [regex.toExpr])) text]

theorem appendsOnly_compilePath (text context : String) : AppendsOnly (compilePath text context) := by
  rcases compilePath_cases text with ⟨e, h⟩ | ⟨kind, path, right, h⟩
  · rw [h]
    exact (appendsOnly_lowerRuntime context).map fun _ => Except.error e
  · rw [h]
    exact (appendsOnly_lowerRuntime context).bind fun json => right.appendsOnly_lower.map fun expected =>
      Except.ok [Assertion.mk kind (pathQuery path json) (some expected) text]

theorem Criterion.appendsOnly_assertions (c : Criterion) (context : String) : AppendsOnly (c.assertions context) := by
  unfold Criterion.assertions
  cases c.kind? with
  | none => exact .pure _
  | some kind =>
    cases kind with
    | simple => exact appendsOnly_compileSimple _
    | regex => exact appendsOnly_compileRegex _ _
    | jsonPath => exact appendsOnly_compilePath _ _

/-- What a criterion that compiles is made into. -/
theorem Criterion.ok_cases {c : Criterion} {context : String} {s : Scope} {as : List Assertion}
    (h : (c.assertions context s).1 = .ok as) :
    (∃ tree : Condition, c.kind? = some .simple ∧
      Condition.assertions c.condition tree.conjuncts s = (as, (c.assertions context s).2)) ∨
    (∃ regex : Regex, c.kind? = some .regex ∧
      as = [⟨.matches, (lowerRuntime (c.context.getD context) s).1,
        some (.construct (.ident "RegExp") [regex.toExpr]), c.condition⟩] ∧
      (c.assertions context s).2 = (lowerRuntime (c.context.getD context) s).2) ∨
    ∃ (kind : AssertionKind) (path : String) (right : Operand), c.kind? = some .jsonPath ∧
      as = [⟨kind, pathQuery path (lowerRuntime (c.context.getD context) s).1,
        some (right.lower (lowerRuntime (c.context.getD context) s).2).1, c.condition⟩] ∧
      (c.assertions context s).2 = (right.lower (lowerRuntime (c.context.getD context) s).2).2 := by
  unfold Criterion.assertions at h ⊢
  cases hk : c.kind? with
  | none => simp [hk] at h
  | some kind =>
    simp only [hk] at h ⊢
    cases kind with
    | simple =>
      rcases compileSimple_cases c.condition with ⟨e, hc⟩ | ⟨tree, _, hc⟩
      · simp [hc] at h
      · simp only [hc, Except.ok.injEq, true_and] at h ⊢
        exact .inl ⟨tree, Prod.ext h rfl⟩
    | regex =>
      rcases compileRegex_cases c.condition with ⟨e, hc⟩ | ⟨regex, hc⟩
      · simp [hc] at h
      · simp only [hc, Except.ok.injEq, true_and, and_true] at h ⊢
        exact .inr (.inl ⟨regex, h.symm⟩)
    | jsonPath =>
      rcases compilePath_cases c.condition with ⟨e, hc⟩ | ⟨kind, path, right, hc⟩
      · simp [hc] at h
      · simp only [hc, Except.ok.injEq, true_and] at h ⊢
        exact .inr (.inr ⟨kind, path, right, h.symm, rfl⟩)

/-! ## Whole steps -/

theorem appendsOnly_lowerOutputs (stepId : String) : ∀ outputs : List (String × String),
    AppendsOnly (lowerOutputs stepId outputs)
  | [] => .pure _
  | (name, expression) :: outputs => (appendsOnly_lowerRuntime expression).bind fun value =>
      (appendsOnly_lowerOutputs stepId outputs).map (ContextWrite.mk (outputKey stepId name) value :: ·)

theorem appendsOnly_headerValue (v : Json) : AppendsOnly (headerValue v) := by
  have hcall : AppendsOnly fun s => (Expr.call (.ident "String") [(v.lowerValue s).1], (v.lowerValue s).2) :=
    v.appendsOnly_lowerValue.map fun e => Expr.call (.ident "String") [e]
  unfold headerValue
  cases hv : v.runtimeText? with
  | some e => exact hcall
  | none =>
    cases v with
    | str text => exact .pure _
    | _ => exact hcall

theorem appendsOnly_bindParameters : ∀ (ps : List Parameter) (taken : List String),
    AppendsOnly (bindParameters ps taken)
  | [], _ => .pure _
  | p :: ps, taken => by
    change AppendsOnly fun s => bindParameters (p :: ps) taken s
    unfold bindParameters
    cases p.location with
    | none => exact (appendsOnly_bindParameters ps taken).map fun b =>
        { b with warnings := ("parameter '" ++ p.name ++ "' has no location, skipped") :: b.warnings }
    | some location =>
      cases location with
      | path => exact p.value.appendsOnly_lowerValue.bind fun value =>
          (appendsOnly_bindParameters ps (bindingName p.name taken :: taken)).map fun b =>
            { b with
              constants := .const (bindingName p.name taken) none value :: b.constants
              path := ⟨p.name, bindingName p.name taken⟩ :: b.path }
      | query => exact p.value.appendsOnly_lowerValue.bind fun value =>
          (appendsOnly_bindParameters ps (bindingName p.name taken :: taken)).map fun b =>
            { b with
              constants := .const (bindingName p.name taken) none value :: b.constants
              query := ⟨p.name, bindingName p.name taken⟩ :: b.query }
      | header => exact (appendsOnly_headerValue p.value).bind fun value =>
          (appendsOnly_bindParameters ps taken).map fun b =>
            { b with headers := (.quoted p.name, value) :: b.headers }
      | cookie => exact (appendsOnly_bindParameters ps taken).map fun b =>
          { b with warnings := ("cookie parameter '" ++ p.name ++ "' is not supported, skipped") :: b.warnings }

end FlowSuite
