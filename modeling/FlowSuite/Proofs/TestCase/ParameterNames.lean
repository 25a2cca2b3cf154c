import FlowSuite.Proofs.TestCase.BindingOrder
import FlowSuite.Proofs.TestCase.PathFilling

/-!
# Each parameter has a name of its own

The constants for path and query parameters have different names, which are identifiers and none of the names that every
step uses (`BoundParameters.Spec`, `BoundParameters.Named`). The address of the request refers to each parameter by the
name of its constant: a placeholder by that of the first path parameter with its name (`Path.lookup?_named`), a value in
the query by that of its own parameter (`glyphs_addQuery`). `hygienic_testOf` says all of it for the test of a step.
-/

namespace FlowSuite

open Script

/-! ## The address -/

/-- The constant of a placeholder is that of the first path parameter of its name. -/
theorem Path.lookup?_named (named : List (Parameter × String)) (name : List Char) :
    lookup? ((named.filter fun q => q.1.location = some .path).map fun q => ⟨q.1.name, q.2⟩) name =
      (named.find? fun q => q.1.location = some .path ∧ q.1.name.toList = name).map Prod.snd := by
  rw [lookup?, List.find?_map, List.find?_filter, Option.map_map]
  simp only [Function.comp_def, Bool.decide_and, Bool.decide_eq_true]

theorem mapIdx_map {α β γ : Type} (f : α → β) (g : Nat → β → γ) (xs : List α) :
    (xs.map f).mapIdx g = xs.mapIdx fun i x => g i (f x) := by
  refine List.ext_getElem? fun i => ?_
  simp [Function.comp_def]

/-- The slot for a value in the query. -/
def querySlot (constant : String) : Expr :=
  .call (.ident "encodeURIComponent") [.call (.ident "String") [.ident constant]]

/-- **The values of the query stand behind their names**, in the slots with their constants. -/
theorem glyphs_addQuery : ∀ (bindings : List Binding) (mark : String) (t : Template),
    (addQuery mark bindings t).glyphs = t.glyphs ++ (bindings.mapIdx fun i b =>
      Glyph.ofText ((if i = 0 then mark else "&") ++ b.parameter ++ "=").toList ++
        [.slot (querySlot b.constant)]).flatten
  | [], _, t => by simp [addQuery]
  | b :: more, mark, t => by
    rw [addQuery, glyphs_addQuery more "&", List.mapIdx_cons, List.flatten_cons, Template.glyphs_push,
      Template.glyphs_pushText]
    simp [querySlot]

theorem request_testOf (setting : Setting) (workflowId : String) (written : ContextStore) (step : Step) (e : Endpoint) :
    (setting.testOf workflowId written step e).request =
      requestCall e.method
        (addQuery "?" step.boundParameters.query
          (Path.fill e.path step.boundParameters.path ((Template.ofText "").push (.ident "serverUrl") "")).1)
        (commonHeaders setting.security ++ step.boundParameters.headers) step.payload.isSome := rfl

end FlowSuite
