import FlowSuite.Script.Syntax

/-!
# Places in expressions

A part of a tree is found at its place: the numbers of the children on the way to it (`partAt?`). Places are in the
order of dictionaries, which is the order from left to right. `Expr.UndefinedAt` gives the places of an expression where
`undefined` stands, all of them and in this order. They are those in its children, one child behind the other
(`Expr.UndefinedAt.node`).
-/

namespace FlowSuite

/-- The part of a tree at a place. -/
def partAt? {α : Type} (children : α → List α) : α → List Nat → Option α
  | a, [] => some a
  | a, i :: place => (children a)[i]?.bind fun b => partAt? children b place

namespace Script

/-- The expressions right under a statement. -/
def Stmt.children : Stmt → List Expr
  | .const _ _ init => [init]
  | .assign target value => [target, value]
  | .expr e => [e]
  | .empty => []

/-- The expressions right under an expression, from left to right. -/
def Expr.children : Expr → List Expr
  | .ident _ | .value _ | .regex .. => []
  | .property inner _ | .await inner | .not inner => [inner]
  | .element inner index => [inner, index]
  | .call callee args | .construct callee args => callee :: args
  | .template _ slots => slots.map Prod.fst
  | .object entries => entries.map Prod.snd
  | .array items => items
  | .binary _ left right => [left, right]
  | .arrow _ _ body => body.flatMap Stmt.children

namespace Expr

/-- The expression at a place. -/
def at? (e : Expr) (place : List Nat) : Option Expr := partAt? children e place

/-- The places where `undefined` stands, all of them and from left to right. -/
structure UndefinedAt (e : Expr) (places : List (List Nat)) : Prop where
  sorted : places.Pairwise (· < ·)
  mem_iff : ∀ place, place ∈ places ↔ e.at? place = some .undefined

theorem undefinedAt_undefined : undefined.UndefinedAt [[]] := by
  refine ⟨List.pairwise_singleton _ _, fun place => ?_⟩
  cases place with
  | nil => simp [at?, partAt?]
  | cons i place => simp [at?, partAt?, undefined, children]

variable {e d d' : Expr}

/-- **`undefined` stands where it stands in the children**, but for an expression that is `undefined` itself. -/
theorem UndefinedAt.node {p : Nat → List (List Nat)} (hne : e ≠ .undefined)
    (h : ∀ (i : Nat) (d : Expr), e.children[i]? = some d → d.UndefinedAt (p i)) :
    e.UndefinedAt ((List.range e.children.length).flatMap fun i => (p i).map (i :: ·)) := by
  have hchild {i : Nat} (hi : i < e.children.length) : (e.children[i]).UndefinedAt (p i) :=
    h i _ (List.getElem?_eq_getElem hi)
  constructor
  -- inside one child the places are sorted already, and between two children their numbers decide
  · refine List.pairwise_flatMap.mpr ⟨fun i hi => ?_, List.pairwise_lt_range.imp fun hlt => ?_⟩
    · exact List.pairwise_map.mpr ((hchild (List.mem_range.mp hi)).sorted.imp fun hlt =>
        List.cons_lt_cons_iff.mpr (.inr ⟨rfl, hlt⟩))
    · intro place hplace other hother
      obtain ⟨inner, -, rfl⟩ := List.mem_map.mp hplace
      obtain ⟨inner', -, rfl⟩ := List.mem_map.mp hother
      exact List.cons_lt_cons_iff.mpr (.inl hlt)
  · intro place
    simp only [List.mem_flatMap, List.mem_range, List.mem_map]
    cases place with
    | nil => simp [at?, partAt?, hne]
    | cons i place =>
      rw [at?, partAt?, Option.bind_eq_some_iff]
      constructor
      · rintro ⟨j, hj, inner, hinner, heq⟩
        obtain ⟨rfl, rfl⟩ := List.cons.inj heq
        exact ⟨_, List.getElem?_eq_getElem hj, ((hchild hj).mem_iff inner).mp hinner⟩
      · rintro ⟨d, hd, hplace⟩
        exact ⟨i, (List.getElem?_eq_some_iff.mp hd).1, place, ((h i d hd).mem_iff place).mpr hplace, rfl⟩

/-- Nothing is undefined where the children are undefined nowhere. -/
theorem UndefinedAt.none (hne : e ≠ .undefined) (h : ∀ d ∈ e.children, d.UndefinedAt []) : e.UndefinedAt [] := by
  have hnode := UndefinedAt.node (p := fun _ => []) hne fun i d hd => h d (List.mem_of_getElem? hd)
  have hnil : ((List.range e.children.length).flatMap fun i => ([] : List (List Nat)).map (i :: ·)) = [] :=
    List.flatMap_eq_nil_iff.mpr fun _ _ => rfl
  rwa [hnil] at hnode

/-- An expression over one other. -/
theorem UndefinedAt.one {ps : List (List Nat)} (hne : e ≠ .undefined) (hchildren : e.children = [d])
    (h : d.UndefinedAt ps) : e.UndefinedAt (ps.map (0 :: ·)) := by
  have hnode := UndefinedAt.node (p := fun _ => ps) hne fun i c hc => by
    rw [hchildren] at hc
    rwa [← List.mem_singleton.mp (List.mem_of_getElem? hc)] at h
  simpa [hchildren] using hnode

/-- An expression over two others. -/
theorem UndefinedAt.two {ps qs : List (List Nat)} (hne : e ≠ .undefined) (hchildren : e.children = [d, d'])
    (h : d.UndefinedAt ps) (h' : d'.UndefinedAt qs) : e.UndefinedAt (ps.map (0 :: ·) ++ qs.map (1 :: ·)) := by
  have hnode := UndefinedAt.node (p := fun i => if i = 0 then ps else qs) hne fun i c hc => by
    rw [hchildren] at hc
    match i, hc with
    | 0, hc => exact Option.some.inj hc ▸ h
    | 1, hc => exact Option.some.inj hc ▸ h'
  simpa [hchildren, List.range_succ] using hnode

theorem UndefinedAt.property {ps : List (List Nat)} (h : e.UndefinedAt ps) (name : String) :
    (Expr.property e name).UndefinedAt (ps.map (0 :: ·)) :=
  .one nofun rfl h

theorem UndefinedAt.element {ps qs : List (List Nat)} (h : e.UndefinedAt ps) (h' : d.UndefinedAt qs) :
    (Expr.element e d).UndefinedAt (ps.map (0 :: ·) ++ qs.map (1 :: ·)) :=
  .two nofun rfl h h'

theorem undefinedAt_string (s : String) : (string s).UndefinedAt [] := .none nofun nofun

/-- A member is undefined where its object is. -/
theorem UndefinedAt.member {ps : List (List Nat)} (h : e.UndefinedAt ps) (name : String) :
    (e.member name).UndefinedAt (ps.map (0 :: ·)) := by
  unfold Expr.member
  split
  · exact h.property name
  · simpa using h.element (undefinedAt_string name)

end Expr

end Script

end FlowSuite
