import FlowSuite.Proofs.Script.Names

/-!
# Parts of programs

* `Expr.parts` and `Stmt.parts`: the expressions that are evaluated, each in front of those it is made of, from left to
  right.
* `called` and `contextKeys`: the functions that are called by name in them, and the keys of the context they read.
* What a part mentions is mentioned by the whole (`mem_bodyNames_of_mem_bodyParts`), so statements call no function
  and read no context that they do not mention.
-/

namespace FlowSuite.Script

/-! ## Parts -/

mutual

/-- The expressions that are evaluated for the value of an expression, without itself. -/
@[simp] def Expr.inner : Expr → List Expr
  | .ident _ | .value _ | .regex .. => []
  | .property object _ => object :: object.inner
  | .element object index => (object :: object.inner) ++ (index :: index.inner)
  | .call callee args | .construct callee args => (callee :: callee.inner) ++ argParts args
  | .await operand | .not operand => operand :: operand.inner
  | .template _ slots => slotParts slots
  | .object entries => entryParts entries
  | .array items => argParts items
  | .binary _ left right => (left :: left.inner) ++ (right :: right.inner)
  | .arrow _ _ body => bodyParts body

/-- The parts of arguments. -/
@[simp] def argParts : List Expr → List Expr
  | [] => []
  | arg :: args => (arg :: arg.inner) ++ argParts args

/-- The parts of the slots of a template. -/
@[simp] def slotParts : List (Expr × String) → List Expr
  | [] => []
  | (slot, _) :: slots => (slot :: slot.inner) ++ slotParts slots

/-- The parts of the entries of an object. -/
@[simp] def entryParts : List (Key × Expr) → List Expr
  | [] => []
  | (_, value) :: entries => (value :: value.inner) ++ entryParts entries

/-- The parts of a statement. The target of an assignment is written to and not evaluated; what it is made of is. -/
@[simp] def Stmt.parts : Stmt → List Expr
  | .const _ _ init => init :: init.inner
  | .assign target value => target.inner ++ (value :: value.inner)
  | .expr e => e :: e.inner
  | .empty => []

/-- The parts of statements. -/
@[simp] def bodyParts : List Stmt → List Expr
  | [] => []
  | stmt :: body => stmt.parts ++ bodyParts body

end

/-- The expressions that are evaluated for the value of an expression, itself first. -/
def Expr.parts (e : Expr) : List Expr := e :: e.inner

theorem bodyParts_append (body more : List Stmt) : bodyParts (body ++ more) = bodyParts body ++ bodyParts more := by
  induction body with
  | nil => rfl
  | cons stmt body ih => rw [List.cons_append, bodyParts, bodyParts, ih, List.append_assoc]

/-- Blank lines between statements are no parts. -/
theorem bodyParts_intersperse : ∀ body : List Stmt, bodyParts (body.intersperse .empty) = bodyParts body
  | [] | [_] => rfl
  | stmt :: next :: body => by
    rw [List.intersperse_cons_cons, bodyParts, bodyParts, bodyParts_intersperse (next :: body), bodyParts]
    rfl

theorem entryParts_append (entries more : List (Key × Expr)) :
    entryParts (entries ++ more) = entryParts entries ++ entryParts more := by
  induction entries with
  | nil => rfl
  | cons entry entries ih => rw [List.cons_append, entryParts, entryParts, ih, List.append_assoc]

theorem mem_bodyParts {p : Expr} {body : List Stmt} : p ∈ bodyParts body ↔ ∃ stmt ∈ body, p ∈ stmt.parts := by
  induction body with
  | nil => simp
  | cons stmt body ih => simp [ih]

/-! ## Mentioned names -/

section

variable {p : Expr} {x : String}

/-- Inside an expression or the expression itself, where the inside is settled already. -/
theorem mem_names_of_cons {e : Expr} (hx : x ∈ p.names) (hinner : p ∈ e.inner → x ∈ e.names)
    (h : p ∈ e :: e.inner) : x ∈ e.names := by
  rcases List.mem_cons.mp h with rfl | h
  · exact hx
  · exact hinner h

mutual

theorem mem_names_of_mem_inner (hx : x ∈ p.names) : ∀ e : Expr, p ∈ e.inner → x ∈ e.names
  | .ident _, h | .value _, h | .regex .., h => by cases h
  | .property object _, h => mem_names_of_cons (e := object) hx (mem_names_of_mem_inner hx object) h
  | .await operand, h | .not operand, h => mem_names_of_cons (e := operand) hx (mem_names_of_mem_inner hx operand) h
  | .element object index, h => by
    rw [Expr.names, List.mem_append]
    exact (List.mem_append.mp h).imp (mem_names_of_cons hx (mem_names_of_mem_inner hx object))
      (mem_names_of_cons hx (mem_names_of_mem_inner hx index))
  | .binary _ left right, h => by
    rw [Expr.names, List.mem_append]
    exact (List.mem_append.mp h).imp (mem_names_of_cons hx (mem_names_of_mem_inner hx left))
      (mem_names_of_cons hx (mem_names_of_mem_inner hx right))
  | .call callee args, h | .construct callee args, h => by
    rw [Expr.names, List.mem_append]
    exact (List.mem_append.mp h).imp (mem_names_of_cons hx (mem_names_of_mem_inner hx callee))
      (mem_argNames_of_mem_argParts hx args)
  | .template _ slots, h => mem_slotNames_of_mem_slotParts hx slots h
  | .object entries, h => mem_entryNames_of_mem_entryParts hx entries h
  | .array items, h => mem_argNames_of_mem_argParts hx items h
  | .arrow _ _ body, h => mem_bodyNames_of_mem_bodyParts hx body h

theorem mem_argNames_of_mem_argParts (hx : x ∈ p.names) : ∀ args : List Expr, p ∈ argParts args → x ∈ argNames args
  | [], h => by cases h
  | arg :: args, h => by
    rw [argNames, List.mem_append]
    exact (List.mem_append.mp h).imp (mem_names_of_cons hx (mem_names_of_mem_inner hx arg))
      (mem_argNames_of_mem_argParts hx args)

theorem mem_slotNames_of_mem_slotParts (hx : x ∈ p.names) :
    ∀ slots : List (Expr × String), p ∈ slotParts slots → x ∈ slotNames slots
  | [], h => by cases h
  | (slot, _) :: slots, h => by
    rw [slotNames, List.mem_append]
    exact (List.mem_append.mp h).imp (mem_names_of_cons hx (mem_names_of_mem_inner hx slot))
      (mem_slotNames_of_mem_slotParts hx slots)

theorem mem_entryNames_of_mem_entryParts (hx : x ∈ p.names) :
    ∀ entries : List (Key × Expr), p ∈ entryParts entries → x ∈ entryNames entries
  | [], h => by cases h
  | (_, value) :: entries, h => by
    rw [entryNames, List.mem_append]
    exact (List.mem_append.mp h).imp (mem_names_of_cons hx (mem_names_of_mem_inner hx value))
      (mem_entryNames_of_mem_entryParts hx entries)

theorem mem_names_of_mem_stmt_parts (hx : x ∈ p.names) : ∀ stmt : Stmt, p ∈ stmt.parts → x ∈ stmt.names
  | .const _ _ init, h => mem_names_of_cons hx (mem_names_of_mem_inner hx init) h
  | .expr e, h => mem_names_of_cons hx (mem_names_of_mem_inner hx e) h
  | .empty, h => by cases h
  | .assign target value, h => by
    rw [Stmt.names, List.mem_append]
    exact (List.mem_append.mp h).imp (mem_names_of_mem_inner hx target)
      (mem_names_of_cons hx (mem_names_of_mem_inner hx value))

/-- **What a part of statements mentions, the statements mention.** -/
theorem mem_bodyNames_of_mem_bodyParts (hx : x ∈ p.names) :
    ∀ body : List Stmt, p ∈ bodyParts body → x ∈ bodyNames body
  | [], h => by cases h
  | stmt :: body, h => by
    rw [bodyNames, List.mem_append]
    exact (List.mem_append.mp h).imp (mem_names_of_mem_stmt_parts hx stmt)
      (mem_bodyNames_of_mem_bodyParts hx body)

end

theorem mem_names_of_mem_parts {e : Expr} (hx : x ∈ p.names) (h : p ∈ e.parts) : x ∈ e.names :=
  mem_names_of_cons hx (mem_names_of_mem_inner hx e) h

end

/-! ## Calls -/

/-- The function that an expression calls by name. -/
def Expr.callee? : Expr → Option String
  | .call (.ident name) _ => some name
  | _ => none

/-- The functions that expressions call by name. -/
def called (parts : List Expr) : List String := parts.filterMap Expr.callee?

theorem callee?_eq_some_iff {e : Expr} {f : String} : e.callee? = some f ↔ ∃ args, e = .call (.ident f) args := by
  constructor
  · intro h
    unfold Expr.callee? at h
    split at h
    · cases h
      exact ⟨_, rfl⟩
    · cases h
  · rintro ⟨args, rfl⟩
    rfl

theorem mem_called {parts : List Expr} {f : String} : f ∈ called parts ↔ ∃ args, .call (.ident f) args ∈ parts := by
  simp only [called, List.mem_filterMap, callee?_eq_some_iff]
  constructor
  · rintro ⟨_, hmem, args, rfl⟩
    exact ⟨args, hmem⟩
  · rintro ⟨args, hmem⟩
    exact ⟨_, hmem, args, rfl⟩

@[simp] theorem called_nil : called [] = [] := rfl

@[simp] theorem called_append (parts more : List Expr) : called (parts ++ more) = called parts ++ called more :=
  List.filterMap_append

theorem called_cons (e : Expr) (parts : List Expr) : called (e :: parts) = e.callee?.toList ++ called parts := by
  cases h : e.callee? <;> simp [called, h]

theorem mem_called_bodyParts {body : List Stmt} {f : String} :
    f ∈ called (bodyParts body) ↔ ∃ stmt ∈ body, f ∈ called stmt.parts := by
  simp only [mem_called, mem_bodyParts]
  constructor
  · rintro ⟨args, stmt, hmem, hcall⟩
    exact ⟨stmt, hmem, args, hcall⟩
  · rintro ⟨stmt, hmem, args, hcall⟩
    exact ⟨args, stmt, hmem, hcall⟩

theorem mem_called_bodyParts_append {body more : List Stmt} {f : String} :
    f ∈ called (bodyParts (body ++ more)) ↔ f ∈ called (bodyParts body) ∨ f ∈ called (bodyParts more) := by
  rw [bodyParts_append, called_append, List.mem_append]

/-- Statements mention the functions they call. -/
theorem mem_bodyNames_of_mem_called {body : List Stmt} {f : String} (h : f ∈ called (bodyParts body)) :
    f ∈ bodyNames body := by
  obtain ⟨args, hcall⟩ := mem_called.mp h
  exact mem_bodyNames_of_mem_bodyParts (by simp) body hcall

/-- Expressions mention the functions they call. -/
theorem mem_names_of_mem_called {e : Expr} {f : String} (h : f ∈ called e.parts) : f ∈ e.names := by
  obtain ⟨args, hcall⟩ := mem_called.mp h
  exact mem_names_of_mem_parts (by simp) hcall

/-! ## Reads of the context -/

/-- The key under which an expression reads the context. -/
def Expr.contextKey? : Expr → Option String
  | .element (.ident name) (.value (.string key)) => if name = "context" then some key else none
  | _ => none

/-- The keys under which expressions read the context. -/
def contextKeys (parts : List Expr) : List String := parts.filterMap Expr.contextKey?

/-- The entry of the context under a key. -/
def Expr.contextAt (key : String) : Expr := .element (.ident "context") (.string key)

theorem contextKey?_eq_some_iff {e : Expr} {key : String} : e.contextKey? = some key ↔ e = .contextAt key := by
  constructor
  · intro h
    unfold Expr.contextKey? at h
    split at h
    · split at h
      · next hname =>
        cases h
        rw [hname]
        rfl
      · cases h
    · cases h
  · rintro rfl
    rfl

theorem mem_contextKeys {parts : List Expr} {key : String} :
    key ∈ contextKeys parts ↔ .contextAt key ∈ parts := by
  simp only [contextKeys, List.mem_filterMap, contextKey?_eq_some_iff]
  constructor
  · rintro ⟨_, hmem, rfl⟩
    exact hmem
  · exact fun hmem => ⟨_, hmem, rfl⟩

@[simp] theorem contextKeys_nil : contextKeys [] = [] := rfl

@[simp] theorem contextKeys_append (parts more : List Expr) :
    contextKeys (parts ++ more) = contextKeys parts ++ contextKeys more :=
  List.filterMap_append

theorem contextKeys_cons (e : Expr) (parts : List Expr) :
    contextKeys (e :: parts) = e.contextKey?.toList ++ contextKeys parts := by
  cases h : e.contextKey? <;> simp [contextKeys, h]

/-- An expression that does not mention the context does not read it. -/
theorem contextKeys_eq_nil {e : Expr} (h : "context" ∉ e.names) : contextKeys e.parts = [] := by
  rw [List.eq_nil_iff_forall_not_mem]
  intro key hkey
  exact h (mem_names_of_mem_parts (by simp [Expr.contextAt]) (mem_contextKeys.mp hkey))

/-- Neither do statements. -/
theorem contextKeys_bodyParts_eq_nil {body : List Stmt} (h : "context" ∉ bodyNames body) :
    contextKeys (bodyParts body) = [] := by
  rw [List.eq_nil_iff_forall_not_mem]
  intro key hkey
  exact h (mem_bodyNames_of_mem_bodyParts (by simp [Expr.contextAt]) body (mem_contextKeys.mp hkey))

end FlowSuite.Script
