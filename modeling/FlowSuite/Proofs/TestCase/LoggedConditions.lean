import FlowSuite.Proofs.Condition.Placement
import FlowSuite.Proofs.Script.Places
import FlowSuite.Proofs.TestCase.LoggedReads
import Mathlib.Data.List.Forall2

/-!
# The log of a condition mirrors its expression

A runtime expression is left undefined exactly where it has a gap (`Access.gap?`), and then it is logged with the
reason; what is made of it otherwise is undefined nowhere. An operator of a condition becomes an operator over the same
operands in the same order, so a runtime expression and what is made of it have one place in both trees.

* `Condition.Mirrors`: what is logged stands for the places where the expression is undefined, one entry for each of
  them and from left to right, and names what the condition has there. Every kind of condition keeps this
  (`Mirrors.one`, `Mirrors.two`), and so do all conditions (`Condition.mirrors_lower`).
* `Condition.scope_lower`: the scope behind a condition, with the keys that are read as well.
-/

namespace FlowSuite

open Script (Expr contextKeys)

/-! ## Runtime expressions -/

/-- Why a value cannot be read in a step that sends a body, or in one that sends none. -/
def Access.gap? (hasPayload : Bool) : Access → Option String
  | .unresolved _ reason => some reason
  | .body .request _ => if hasPayload then none else some "the step sends no request body"
  | .statusCode | .url | .body .response _ | .responseHeader _ | .context .. => none

variable {s : Scope} {reason : String} {a : Access}

/-- What cannot be read is left undefined, and logged. -/
theorem Access.lower_of_gap?_eq_some (expression : String) (h : a.gap? s.hasPayload = some reason) :
    a.lower expression s = (.undefined, s.giveUp expression reason) := by
  cases a with
  | statusCode | url | responseHeader | context => cases h
  | unresolved => cases h; rfl
  | body side path =>
    cases side with
    | response => cases h
    | request =>
      cases hp : s.hasPayload with
      | true => simp [gap?, hp] at h
      | false =>
        obtain rfl : "the step sends no request body" = reason := by simpa [gap?, hp] using h
        simp [Access.lower, hp]

theorem undefinedAt_along {base : Expr} (h : base.UndefinedAt []) (path : List String) :
    (base.along path).UndefinedAt [] := by
  unfold Expr.along
  induction path generalizing base with
  | nil => exact h
  | cons name path ih => exact ih (h.member name)

/-- What can be read is undefined nowhere, and nothing of that kind is logged. -/
theorem Access.lower_of_gap?_eq_none (expression : String) (h : a.gap? s.hasPayload = none) :
    (a.lower expression s).1.UndefinedAt [] ∧ (a.lower expression s).2.unresolved = s.unresolved := by
  have hident (name : String) : (Expr.ident name).UndefinedAt [] := .none nofun nofun
  have hresponse (name : String) : (Expr.property (.ident "response") name).UndefinedAt [] :=
    (hident "response").property name
  cases a with
  | statusCode => exact ⟨hresponse "status", rfl⟩
  | url => exact ⟨hresponse "url", rfl⟩
  | responseHeader name =>
    have hget : (Expr.property (.property (.ident "response") "headers") "get").UndefinedAt [] :=
      (hresponse "headers").property "get"
    have hparts : ∀ d ∈ [Expr.property (.property (.ident "response") "headers") "get", .string name],
        d.UndefinedAt [] :=
      List.forall_mem_cons.mpr ⟨hget, List.forall_mem_singleton.mpr (Expr.undefinedAt_string name)⟩
    exact ⟨.none nofun hparts, rfl⟩
  | context => exact ⟨(hident "context").element (Expr.undefinedAt_string _), rfl⟩
  | unresolved => cases h
  | body side path =>
    cases side with
    | response => exact ⟨undefinedAt_along (hident "data") path, rfl⟩
    | request =>
      cases hp : s.hasPayload with
      | true =>
        simp only [Access.lower, hp]
        exact ⟨undefinedAt_along (hident "payload") path, rfl⟩
      | false => simp [gap?, hp] at h

/-! ## Conditions -/

namespace Condition

/-- The condition at a place. -/
def at? (c : Condition) (place : List Nat) : Option Condition := partAt? children c place

/-- An entry of the log names the runtime expression at a place, and says why it cannot be read. -/
structure LoggedAt (c : Condition) (hasPayload : Bool) (place : List Nat) (entry : Unresolved) : Prop where
  named : ∃ span, c.at? place = some (.runtime span entry.expression)
  reason_eq : (Access.ofText entry.expression).gap? hasPayload = some entry.reason

/-- What is logged while a condition is lowered in a scope are entries for the places where its expression is
undefined, one for each of them and from left to right. -/
def Mirrors (c : Condition) (s : Scope) (made : Expr × Scope) : Prop :=
  ∃ entries places, made.2.unresolved = s.unresolved ++ entries ∧ made.1.UndefinedAt places ∧
    List.Forall₂ (c.LoggedAt s.hasPayload) places entries

variable {c a b : Condition} {e d d' : Expr}

/-- What is logged for a child is logged for the condition, with the number of the child in front of the place. -/
theorem forall₂_loggedAt {hasPayload : Bool} {i : Nat} {places : List (List Nat)} {entries : List Unresolved}
    (hchild : c.children[i]? = some a) (h : List.Forall₂ (a.LoggedAt hasPayload) places entries) :
    List.Forall₂ (c.LoggedAt hasPayload) (places.map (i :: ·)) entries := by
  refine List.forall₂_map_left_iff.mpr (h.imp fun place entry hplace => ⟨?_, hplace.reason_eq⟩)
  obtain ⟨span, hat⟩ := hplace.named
  exact ⟨span, by rw [at?, partAt?, hchild]; exact hat⟩

theorem mirrors_of_defined (c : Condition) {s s' : Scope} (hs : s'.unresolved = s.unresolved) (he : e.UndefinedAt []) :
    c.Mirrors s (e, s') :=
  ⟨[], [], by rw [hs, List.append_nil], he, .nil⟩

/-- A condition over one other logs what that one logs. -/
theorem Mirrors.one {s s' : Scope} (h : a.Mirrors s (d, s')) (hc : c.children = [a])
    (he : ∀ places, d.UndefinedAt places → e.UndefinedAt (places.map (0 :: ·))) : c.Mirrors s (e, s') := by
  obtain ⟨entries, places, hlog, hd, hentries⟩ := h
  exact ⟨entries, _, hlog, he places hd, forall₂_loggedAt (by rw [hc]; rfl) hentries⟩

/-- A condition over two others logs what they log, the left one first. -/
theorem Mirrors.two {s s' s'' : Scope} (h : a.Mirrors s (d, s')) (h' : b.Mirrors s' (d', s''))
    (hs : s'.hasPayload = s.hasPayload) (hc : c.children = [a, b]) (hne : e ≠ .undefined) (he : e.children = [d, d']) :
    c.Mirrors s (e, s'') := by
  obtain ⟨entries, places, hlog, hd, hentries⟩ := h
  obtain ⟨more, places', hlog', hd', hmore⟩ := h'
  rw [hs] at hmore
  -- the right operand is lowered in the scope that the left one leaves, so its entries come behind
  refine ⟨entries ++ more, _, ?_, .two hne he hd hd', List.rel_append (forall₂_loggedAt (by rw [hc]; rfl) hentries)
    (forall₂_loggedAt (by rw [hc]; rfl) hmore)⟩
  rw [hlog', hlog, List.append_assoc]

theorem mirrors_runtime (span : Span) (expression : String) (s : Scope) :
    (runtime span expression).Mirrors s (lowerRuntime expression s) := by
  cases hgap : (Access.ofText expression).gap? s.hasPayload with
  | none =>
    obtain ⟨hdefined, hlog⟩ := Access.lower_of_gap?_eq_none expression hgap
    exact mirrors_of_defined _ hlog hdefined
  | some reason =>
    have hlower : lowerRuntime expression s = (.undefined, s.giveUp expression reason) :=
      Access.lower_of_gap?_eq_some expression hgap
    rw [hlower]
    exact ⟨[⟨expression, reason⟩], [[]], rfl, Expr.undefinedAt_undefined, .cons ⟨⟨span, rfl⟩, hgap⟩ .nil⟩

/-- **A condition logs what it leaves undefined**, from left to right. -/
theorem mirrors_lower (c : Condition) (s : Scope) : c.Mirrors s (c.lower s) := by
  induction c generalizing s with
  | literal span v =>
    refine mirrors_of_defined _ rfl ?_
    cases v <;> exact .none nofun nofun
  | runtime span expression => exact mirrors_runtime span expression s
  | property _ o name ih => exact (ih s).one rfl fun _ h => h.member name
  | not _ c ih => exact (ih s).one rfl fun _ h => h.one nofun rfl
  | index _ o i iho ihi => exact (iho s).two (ihi _) (o.hasPayload_lower s) rfl nofun rfl
  | logical _ _ l r ihl ihr | comparison _ _ l r _ ihl ihr =>
    exact (ihl s).two (ihr _) (l.hasPayload_lower s) rfl nofun rfl

/-- **The log of a condition mirrors its expression.** The keys that are logged are those under which the expression
reads the context, from left to right. The expressions that are logged as unresolved are, one for one and from left to
right, those that the condition has where `undefined` stands in the expression. Nothing else changes in the scope, and
the expression is the same whatever was logged before. -/
theorem scope_lower (c : Condition) (s : Scope) :
    (∃ entries, (c.lower s).2 =
        { s with
          reads := s.reads ++ contextKeys (c.lower s).1.parts
          unresolved := s.unresolved ++ entries } ∧
      ∃ places, (c.lower s).1.UndefinedAt places ∧ List.Forall₂ (c.LoggedAt s.hasPayload) places entries) ∧
    ∀ stepId reads unresolved, (c.lower { s with stepId, reads, unresolved }).1 = (c.lower s).1 := by
  constructor
  · obtain ⟨entries, places, hlog, hundefined, hentries⟩ := c.mirrors_lower s
    obtain ⟨reads, unresolved, hscope⟩ := c.appendsOnly_lower.exists_append s
    refine ⟨entries, ?_, places, hundefined, hentries⟩
    rw [← hlog, ← c.reads_lower s, hscope]
  · exact fun _ _ _ => c.appendsOnly_lower.fst_eq_of_hasPayload rfl

/-- Two gaps, one in the object of an index and one on the other side of a comparison, and a read between them. -/
example (s : Span) :
    let find : Condition := .runtime s "$steps.find.outputs.at"
    let made := lower (.comparison s .eq (.index s (.runtime s "$inputs.parts") find) (.runtime s "$message.id") "")
      .detached
    made.2.reads = ["find.outputs.at"] ∧ made.2.unresolved.map (·.expression) = ["$inputs.parts", "$message.id"] ∧
      made.1.at? [0, 0] = some .undefined ∧ made.1.at? [1] = some .undefined := ⟨rfl, rfl, rfl, rfl⟩

end Condition

end FlowSuite
