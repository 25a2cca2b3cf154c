import FlowSuite.Script.Syntax

/-!
# Names in programs

* `Expr.names` and `Stmt.names`: the identifiers that are mentioned, in order.
* `bound`: the constants that a list of statements binds, in order.
* `DefinedBeforeUse`: the constants of a list of statements are mentioned only behind the statements that bind them.
* `InOrder`: the same from the front of the list, which fits appended lists (`inOrder_append`). With constants of
  different names the two are one (`definedBeforeUse_iff_inOrder`).
-/

namespace FlowSuite.Script

/-! ## Mentioned names -/

mutual

/-- The identifiers that an expression mentions. -/
@[simp] def Expr.names : Expr → List String
  | .ident name => [name]
  | .value _ | .regex .. => []
  | .property object _ => object.names
  | .element object index => object.names ++ index.names
  | .call callee args | .construct callee args => callee.names ++ argNames args
  | .await operand | .not operand => operand.names
  | .template _ slots => slotNames slots
  | .object entries => entryNames entries
  | .array items => argNames items
  | .binary _ left right => left.names ++ right.names
  | .arrow _ _ body => bodyNames body

/-- The identifiers that arguments mention. -/
@[simp] def argNames : List Expr → List String
  | [] => []
  | arg :: args => arg.names ++ argNames args

/-- The identifiers that the slots of a template mention. -/
@[simp] def slotNames : List (Expr × String) → List String
  | [] => []
  | (slot, _) :: slots => slot.names ++ slotNames slots

/-- The identifiers that the entries of an object mention. -/
@[simp] def entryNames : List (Key × Expr) → List String
  | [] => []
  | (_, value) :: entries => value.names ++ entryNames entries

/-- The identifiers that a statement mentions; the name that it binds is not among them. -/
@[simp] def Stmt.names : Stmt → List String
  | .const _ _ init => init.names
  | .assign target value => target.names ++ value.names
  | .expr e => e.names
  | .empty => []

/-- The identifiers that statements mention. -/
@[simp] def bodyNames : List Stmt → List String
  | [] => []
  | stmt :: body => stmt.names ++ bodyNames body

end

@[simp] theorem names_string (s : String) : (Expr.string s).names = [] := rfl

@[simp] theorem names_member (object : Expr) (name : String) : (object.member name).names = object.names := by
  unfold Expr.member
  split <;> simp

theorem mem_slotNames_append {x : String} {slots more : List (Expr × String)} :
    x ∈ slotNames (slots ++ more) ↔ x ∈ slotNames slots ∨ x ∈ slotNames more := by
  induction slots with
  | nil => simp
  | cons slot slots ih => simp [ih, or_assoc]

theorem mem_entryNames_append {x : String} {entries more : List (Key × Expr)} :
    x ∈ entryNames (entries ++ more) ↔ x ∈ entryNames entries ∨ x ∈ entryNames more := by
  induction entries with
  | nil => simp
  | cons entry entries ih => simp [ih, or_assoc]

theorem mem_bodyNames_append {x : String} {body more : List Stmt} :
    x ∈ bodyNames (body ++ more) ↔ x ∈ bodyNames body ∨ x ∈ bodyNames more := by
  induction body with
  | nil => simp
  | cons stmt body ih => simp [ih, or_assoc]

theorem mem_bodyNames {x : String} {body : List Stmt} : x ∈ bodyNames body ↔ ∃ stmt ∈ body, x ∈ stmt.names := by
  induction body with
  | nil => simp
  | cons stmt body ih => simp [ih]

/-! ## Templates -/

namespace Template

/-- The identifiers that a template mentions. -/
def names (t : Template) : List String := slotNames t.slots

@[simp] theorem mem_names_push {x : String} (t : Template) (slot : Expr) (tail : String) :
    x ∈ (t.push slot tail).names ↔ x ∈ t.names ∨ x ∈ slot.names := by
  simp [names, push, mem_slotNames_append]

theorem slotNames_appendTail (text : String) : ∀ slots, slotNames (appendTail text slots) = slotNames slots
  | [] => rfl
  | [_] => rfl
  | slot :: next :: more => by
    rw [appendTail, slotNames, slotNames, slotNames_appendTail text (next :: more)]
    simp

@[simp] theorem names_pushText (t : Template) (text : String) : (t.pushText text).names = t.names := by
  unfold pushText names
  split
  · rfl
  · exact slotNames_appendTail text t.slots

end Template

/-! ## Bound names -/

/-- The constant that a statement binds. -/
def Stmt.binds : Stmt → List String
  | .const name _ _ => [name]
  | _ => []

/-- The constants that statements bind. -/
def bound (body : List Stmt) : List String := body.flatMap Stmt.binds

@[simp] theorem bound_append (body more : List Stmt) : bound (body ++ more) = bound body ++ bound more :=
  List.flatMap_append

@[simp] theorem bound_cons (stmt : Stmt) (body : List Stmt) : bound (stmt :: body) = stmt.binds ++ bound body := rfl

@[simp] theorem bound_nil : bound [] = [] := rfl

/-- Every constant of the list that a statement mentions is bound by a statement in front of it. -/
def DefinedBeforeUse (body : List Stmt) : Prop :=
  ∀ before stmt after, body = before ++ stmt :: after → ∀ x ∈ stmt.names, x ∈ bound body → x ∈ bound before

/-- No statement mentions what it binds itself or what a statement behind it binds. -/
def InOrder : List Stmt → Prop
  | [] => True
  | stmt :: after => (∀ x ∈ stmt.names, x ∉ bound (stmt :: after)) ∧ InOrder after

theorem inOrder_append {body more : List Stmt} :
    InOrder (body ++ more) ↔ InOrder body ∧ InOrder more ∧ ∀ x ∈ bodyNames body, x ∉ bound more := by
  induction body with
  | nil => simp [InOrder]
  | cons stmt body ih =>
    simp only [List.cons_append, InOrder, ih, bound_cons, bound_append, bodyNames, List.mem_append, not_or]
    constructor
    · rintro ⟨hstmt, hbody, hmore, hnames⟩
      refine ⟨⟨fun x hx => ⟨(hstmt x hx).1, (hstmt x hx).2.1⟩, hbody⟩, hmore, ?_⟩
      rintro x (hx | hx)
      · exact (hstmt x hx).2.2
      · exact hnames x hx
    · rintro ⟨⟨hstmt, hbody⟩, hmore, hnames⟩
      exact ⟨fun x hx => ⟨(hstmt x hx).1, (hstmt x hx).2, hnames x (.inl hx)⟩, hbody, hmore,
        fun x hx => hnames x (.inr hx)⟩

/-- Statements that mention nothing they bind are in order. -/
theorem inOrder_of_forall_not_mem {body : List Stmt} (h : ∀ x ∈ bodyNames body, x ∉ bound body) : InOrder body := by
  induction body with
  | nil => trivial
  | cons stmt body ih =>
    refine ⟨fun x hx => h x (List.mem_append_left _ hx), ih fun x hx hbound => ?_⟩
    exact h x (List.mem_append_right _ hx) (List.mem_append_right _ hbound)

/-- A statement inside a list that is in order mentions nothing that is bound from there on. -/
theorem InOrder.not_mem {before after : List Stmt} {stmt : Stmt} (h : InOrder (before ++ stmt :: after)) :
    ∀ x ∈ stmt.names, x ∉ bound (stmt :: after) :=
  (inOrder_append.mp h).2.1.1

theorem definedBeforeUse_iff_inOrder {body : List Stmt} (hnodup : (bound body).Nodup) :
    DefinedBeforeUse body ↔ InOrder body := by
  constructor
  · intro h
    suffices ∀ after before, body = before ++ after → InOrder after from this body [] rfl
    intro after
    induction after with
    | nil => exact fun _ _ => trivial
    | cons stmt after ih =>
      intro before hbody
      refine ⟨fun x hx hbound => ?_, ih (before ++ [stmt]) (by simp [hbody])⟩
      have hbefore := h before stmt after hbody x hx (by rw [hbody, bound_append]; exact List.mem_append_right _ hbound)
      rw [hbody, bound_append] at hnodup
      exact (List.nodup_append.mp hnodup).2.2 x hbefore x hbound rfl
  · rintro h before stmt after rfl x hx hbound
    rw [bound_append, List.mem_append] at hbound
    exact hbound.resolve_right (h.not_mem x hx)

end FlowSuite.Script
