import FlowSuite.Proofs.TestCase.FreshNames
import FlowSuite.Proofs.TestCase.Lowering

/-!
# What becomes of parameters

`bindParameters_spec` says what the constants and the headers of a step are: the constants have names that are not
taken, and what they and the headers mention are the names that the values of parameters are read from. Each path or
query parameter has its constant and is bound to the name of it (`exists_named`). The address of the request mentions
those constants only (`mem_names_fillPieces`, `mem_names_addQuery`).
-/

namespace FlowSuite

open Script

/-! ## Constants and headers -/

/-- Is bound to a constant. -/
def Parameter.IsBound (p : Parameter) : Prop := p.location = some .path ∨ p.location = some .query

/-- What becomes of parameters: constants with names that are not taken, over the names that bound values are read from,
and headers over the names that values of headers are read from. -/
structure BoundParameters.Spec (ps : List Parameter) (taken : List String) (hasPayload : Bool) (b : BoundParameters) :
    Prop where
  nodup : (bound b.constants).Nodup
  free : ∀ x ∈ bound b.constants, x ∉ taken
  constants : ∀ x, x ∈ bodyNames b.constants ↔ ∃ p ∈ ps, p.IsBound ∧ p.value.name? hasPayload = some x
  headers : ∀ x ≠ "String", x ∈ entryNames b.headers ↔
    ∃ p ∈ ps, p.location = some .header ∧ p.value.name? hasPayload = some x
  bindings : ∀ binding ∈ b.path ++ b.query, binding.constant ∈ bound b.constants

namespace BoundParameters.Spec

variable {p : Parameter} {ps : List Parameter} {taken : List String} {hasPayload : Bool} {b : BoundParameters}

/-- A constant for a parameter in front of the others. -/
theorem bind {constant : String} {value : Expr} {path query : List Binding}
    (h : Spec ps (constant :: taken) hasPayload b) (hfree : constant ∉ taken) (hp : p.IsBound)
    (hvalue : value.names = (p.value.name? hasPayload).toList)
    (hbindings : ∀ binding ∈ path ++ query, binding.constant = constant ∨ binding ∈ b.path ++ b.query) :
    Spec (p :: ps) taken hasPayload
      { b with constants := .const constant none value :: b.constants, path := path, query := query } where
  nodup := List.nodup_cons.mpr ⟨fun hmem => h.free _ hmem List.mem_cons_self, h.nodup⟩
  free := by
    intro x hx
    rcases List.mem_cons.mp hx with rfl | hx
    · exact hfree
    · exact fun hmem => h.free x hx (List.mem_cons_of_mem _ hmem)
  constants := fun x => by
    rw [bodyNames, List.mem_append, h.constants, List.exists_mem_cons_iff, Stmt.names, hvalue, Option.mem_toList]
    simp [hp]
  headers := fun x hx => by
    have hheader : p.location ≠ some .header := by rcases hp with hp | hp <;> simp [hp]
    rw [h.headers x hx, List.exists_mem_cons_iff]
    simp [hheader]
  bindings := by
    intro binding hmem
    rcases hbindings binding hmem with heq | hmem
    · exact List.mem_cons.mpr (.inl heq)
    · exact List.mem_cons_of_mem _ (h.bindings binding hmem)

/-- A header in front of the others. -/
theorem header {value : Expr} (h : Spec ps taken hasPayload b) (hp : p.location = some .header)
    (hvalue : ∀ x ≠ "String", x ∈ value.names ↔ p.value.name? hasPayload = some x) :
    Spec (p :: ps) taken hasPayload { b with headers := (.quoted p.name, value) :: b.headers } where
  nodup := h.nodup
  free := h.free
  constants := fun x => by
    have hbound : ¬p.IsBound := by simp [Parameter.IsBound, hp]
    rw [h.constants, List.exists_mem_cons_iff]
    simp [hbound]
  headers := fun x hx => by
    rw [entryNames, List.mem_append, h.headers x hx, List.exists_mem_cons_iff, hvalue x hx]
    simp [hp]
  bindings := h.bindings

/-- A parameter that is not sent. -/
theorem skip (h : Spec ps taken hasPayload b) (hp : p.location = some .cookie ∨ p.location = none)
    (warnings : List String) : Spec (p :: ps) taken hasPayload { b with warnings := warnings } where
  nodup := h.nodup
  free := h.free
  constants := fun x => by
    have hbound : ¬p.IsBound := by rcases hp with hp | hp <;> simp [Parameter.IsBound, hp]
    rw [h.constants, List.exists_mem_cons_iff]
    simp [hbound]
  headers := fun x hx => by
    have hheader : p.location ≠ some .header := by rcases hp with hp | hp <;> simp [hp]
    rw [h.headers x hx, List.exists_mem_cons_iff]
    simp [hheader]
  bindings := h.bindings

end BoundParameters.Spec

theorem mem_names_headerValue {v : Json} {s : Scope} {x : String} (hx : x ≠ "String") :
    x ∈ (headerValue v s).1.names ↔ v.name? s.hasPayload = some x := by
  unfold headerValue
  split
  · next text hruntime =>
    simp [Json.name?, hruntime]
  · simp [Json.names_lowerValue, hx]

@[simp] theorem hasPayload_headerValue (v : Json) (s : Scope) : (headerValue v s).2.hasPayload = s.hasPayload :=
  (appendsOnly_headerValue v).hasPayload_snd s

theorem bindParameters_spec : ∀ (ps : List Parameter) (taken : List String) (s : Scope),
    BoundParameters.Spec ps taken s.hasPayload (bindParameters ps taken s).1
  | [], taken, s => ⟨List.nodup_nil, by simp [bindParameters], by simp [bindParameters], by simp [bindParameters],
      by simp [bindParameters]⟩
  | p :: ps, taken, s => by
    have hfree := bindingName_not_mem p.name taken
    have hvalue := p.value.names_lowerValue s
    unfold bindParameters
    cases hloc : p.location with
    | none => exact (bindParameters_spec ps taken s).skip (.inr hloc) _
    | some location =>
      cases location with
      | path =>
        have hspec := bindParameters_spec ps (bindingName p.name taken :: taken) (p.value.lowerValue s).2
        rw [Json.hasPayload_lowerValue] at hspec
        refine hspec.bind hfree (.inl hloc) hvalue fun binding hmem => ?_
        exact (List.mem_cons.mp hmem).imp_left (congrArg Binding.constant)
      | query =>
        have hspec := bindParameters_spec ps (bindingName p.name taken :: taken) (p.value.lowerValue s).2
        rw [Json.hasPayload_lowerValue] at hspec
        refine hspec.bind hfree (.inr hloc) hvalue fun binding hmem => ?_
        exact (List.mem_cons.mp (List.perm_middle.mem_iff.mp hmem)).imp_left (congrArg Binding.constant)
      | header =>
        have hspec := bindParameters_spec ps taken (headerValue p.value s).2
        rw [hasPayload_headerValue] at hspec
        exact hspec.header hloc fun x hx => mem_names_headerValue hx
      | cookie => exact (bindParameters_spec ps taken s).skip (.inl hloc) _

/-! ## Named parameters -/

/-- The path and query parameters with the names of their constants, in order. -/
structure BoundParameters.Named (alone : Scope) (ps : List Parameter) (b : BoundParameters)
    (named : List (Parameter × String)) : Prop where
  parameters : named.map Prod.fst = ps.filter fun p => p.location = some .path ∨ p.location = some .query
  constants : b.constants = named.map fun q => .const q.2 none (q.1.value.lowerValue alone).1
  path : b.path = (named.filter fun q => q.1.location = some .path).map fun q => ⟨q.1.name, q.2⟩
  query : b.query = (named.filter fun q => q.1.location = some .query).map fun q => ⟨q.1.name, q.2⟩
  isIdentifier : ∀ q ∈ named, Script.isIdentifier q.2.toList

namespace BoundParameters.Named

variable {alone : Scope} {p : Parameter} {ps : List Parameter} {b : BoundParameters}
  {named : List (Parameter × String)}

/-- A constant for a parameter in front of the others. -/
theorem bind (h : Named alone ps b named) (hp : p.IsBound) {constant : String}
    (hconstant : Script.isIdentifier constant.toList) {path query : List Binding}
    (hpath : path = if p.location = some .path then ⟨p.name, constant⟩ :: b.path else b.path)
    (hquery : query = if p.location = some .query then ⟨p.name, constant⟩ :: b.query else b.query) :
    Named alone (p :: ps)
      { b with
        constants := .const constant none (p.value.lowerValue alone).1 :: b.constants
        path := path
        query := query }
      ((p, constant) :: named) where
  parameters := by rw [List.map_cons, h.parameters, List.filter_cons_of_pos (by simpa [Parameter.IsBound] using hp)]
  constants := by rw [List.map_cons, h.constants]
  path := by
    rw [hpath, h.path, List.filter_cons]
    split <;> simp_all
  query := by
    rw [hquery, h.query, List.filter_cons]
    split <;> simp_all
  isIdentifier := List.forall_mem_cons.mpr ⟨hconstant, h.isIdentifier⟩

/-- A parameter that is bound to no constant in front of the others. -/
theorem skip (h : Named alone ps b named) (hp : ¬p.IsBound) (headers : List (Key × Expr)) (warnings : List String) :
    Named alone (p :: ps) { b with headers := headers, warnings := warnings } named where
  parameters := by
    rw [List.filter_cons_of_neg (by simpa [Parameter.IsBound] using hp)]
    exact h.parameters
  constants := h.constants
  path := h.path
  query := h.query
  isIdentifier := h.isIdentifier

end BoundParameters.Named

/-- **Every path or query parameter has its constant.** -/
theorem exists_named (alone : Scope) : ∀ (ps : List Parameter) (taken : List String) {s : Scope},
    s.hasPayload = alone.hasPayload → ∃ named, BoundParameters.Named alone ps (bindParameters ps taken s).1 named
  | [], _, _, _ => ⟨[], rfl, rfl, rfl, rfl, by simp⟩
  | p :: ps, taken, s, hs => by
    have hvalue : (p.value.lowerValue s).1 = (p.value.lowerValue alone).1 :=
      p.value.appendsOnly_lowerValue.fst_eq_of_hasPayload hs
    have hpayload : (p.value.lowerValue s).2.hasPayload = alone.hasPayload := by rw [Json.hasPayload_lowerValue, hs]
    have hconstant := isIdentifier_bindingName p.name taken
    unfold bindParameters
    cases hloc : p.location with
    | none =>
      obtain ⟨named, h⟩ := exists_named alone ps taken hs
      exact ⟨named, h.skip (by simp [Parameter.IsBound, hloc]) _ _⟩
    | some location =>
      cases location with
      | path =>
        obtain ⟨named, h⟩ := exists_named alone ps (bindingName p.name taken :: taken) hpayload
        exact ⟨_, hvalue ▸ h.bind (.inl hloc) hconstant (by simp [hloc]) (by simp [hloc])⟩
      | query =>
        obtain ⟨named, h⟩ := exists_named alone ps (bindingName p.name taken :: taken) hpayload
        exact ⟨_, hvalue ▸ h.bind (.inr hloc) hconstant (by simp [hloc]) (by simp [hloc])⟩
      | header =>
        obtain ⟨named, h⟩ := exists_named alone ps taken (s := (headerValue p.value s).2) (by simpa using hs)
        exact ⟨named, h.skip (by simp [Parameter.IsBound, hloc]) _ _⟩
      | cookie =>
        obtain ⟨named, h⟩ := exists_named alone ps taken hs
        exact ⟨named, h.skip (by simp [Parameter.IsBound, hloc]) _ _⟩

/-! ## The request -/

/-- The slots of a filled path are constants of its bindings. -/
theorem mem_names_fillPieces (bindings : List Binding) {x : String} : ∀ (pieces : List PathPiece) (t : Template),
    x ∈ (Path.fillPieces bindings pieces t).1.names → x ∈ t.names ∨ ∃ binding ∈ bindings, x = binding.constant
  | [], _, h => .inl h
  | .text text :: more, t, h => by
    have := mem_names_fillPieces bindings more (t.pushText (String.ofList text)) h
    rwa [Template.names_pushText] at this
  | .placeholder name :: more, t, h => by
    unfold Path.fillPieces at h
    split at h
    · next constant hlookup =>
      obtain ⟨binding, hfind, rfl⟩ := Option.map_eq_some_iff.mp hlookup
      rcases mem_names_fillPieces bindings more _ h with ht | hbinding
      · rcases (Template.mem_names_push t _ _).mp ht with ht | hx
        · exact .inl ht
        · exact .inr ⟨binding, List.mem_of_find?_eq_some hfind, List.mem_singleton.mp hx⟩
      · exact .inr hbinding
    · have := mem_names_fillPieces bindings more _ h
      rwa [Template.names_pushText] at this

/-- The slots of the query are encoded constants of its bindings. -/
theorem mem_names_addQuery {x : String} : ∀ (bindings : List Binding) (mark : String) (t : Template),
    x ∈ (addQuery mark bindings t).names →
      x ∈ t.names ∨ x ∈ ["encodeURIComponent", "String"] ∨ ∃ binding ∈ bindings, x = binding.constant
  | [], _, _, h => .inl h
  | binding :: more, _, t, h => by
    rcases mem_names_addQuery more "&" _ h with ht | hx | ⟨other, hmem, hx⟩
    · rw [Template.mem_names_push, Template.names_pushText] at ht
      simp only [Expr.names, argNames, List.cons_append, List.nil_append, List.append_nil, List.mem_cons,
        List.not_mem_nil, or_false] at ht
      rcases ht with ht | rfl | rfl | rfl
      · exact .inl ht
      · exact .inr (.inl (by decide))
      · exact .inr (.inl (by decide))
      · exact .inr (.inr ⟨binding, List.mem_cons_self, rfl⟩)
    · exact .inr (.inl hx)
    · exact .inr (.inr ⟨other, List.mem_cons_of_mem _ hmem, hx⟩)

theorem mem_names_requestBody {hasPayload : Bool} {x : String} :
    x ∈ (requestBody hasPayload).names ↔ hasPayload ∧ (x = "JSON" ∨ x = "payload") := by
  cases hasPayload <;> simp [requestBody, Expr.null]

theorem mem_names_requestCall {method : HttpMethod} {url : Template} {headers : List (Key × Expr)} {hasPayload : Bool}
    {x : String} : x ∈ (requestCall method url headers hasPayload).names ↔
      x = "fetch" ∨ x ∈ url.names ∨ x ∈ entryNames headers ∨ hasPayload ∧ (x = "JSON" ∨ x = "payload") := by
  simp [requestCall, Template.toExpr, Template.names, mem_names_requestBody]

end FlowSuite
