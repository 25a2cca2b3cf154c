import Mathlib.Data.List.Induction
import FlowSuite.Proofs.RuntimeExpr.RoundTrip
import FlowSuite.Proofs.Script.Printed
import FlowSuite.TestCase.Scope

/-!
# Pointers into bodies

`$response.body#` or `$request.body#` with a pointer behind it names a part of a body. Such a reference is lowered to a
chain of member accesses from the constant that holds the body, one access for each key and in their order
(`lowerRuntime_bodyReference`). A key is any text: escaping keeps its slashes and tildes inside, so it never becomes two
keys or none, and it is accessed by name exactly if it is an identifier.

Nothing is lost on the way: the keys are read off the chain again (`Chain.readBack_eq`), and the chain off its printed
text (`Chain.read_printed`).
-/

namespace FlowSuite

open Script (Expr isIdentifier)

/-! ## Chains of accesses -/

namespace Script.Expr

/-- An expression accesses the members of a base by keys, one after the other: by name where the key is an identifier,
and by index with the key as a string where it is none. -/
inductive Chain (base : Expr) : List String → Expr → Prop
  | base : Chain base [] base
  | name {keys : List String} {object : Expr} {key : String} : Chain base keys object → isIdentifier key.toList →
      Chain base (keys ++ [key]) (.property object key)
  | index {keys : List String} {object : Expr} {key : String} : Chain base keys object → ¬isIdentifier key.toList →
      Chain base (keys ++ [key]) (.element object (.string key))

/-- What the accesses of an expression begin with, and their keys in order. -/
def readBack : Expr → Expr × List String
  | property o key => (o.readBack.1, o.readBack.2 ++ [key])
  | element o (value (.string key)) => (o.readBack.1, o.readBack.2 ++ [key])
  | e => (e, [])

variable {base e : Expr} {keys : List String}

theorem along_concat (base : Expr) (keys : List String) (key : String) :
    base.along (keys ++ [key]) = (base.along keys).member key := by
  rw [along, List.foldl_append, List.foldl_cons, List.foldl_nil, along]

theorem Chain.member (h : Chain base keys e) (key : String) : Chain base (keys ++ [key]) (e.member key) := by
  unfold Expr.member
  split
  · next hkey => exact h.name hkey
  · next hkey => exact h.index hkey

/-- There is one chain along a path. -/
theorem chain_iff : Chain base keys e ↔ e = base.along keys := by
  constructor
  · intro h
    induction h with
    | base => rfl
    | name _ hkey ih => rw [along_concat, ← ih, Expr.member, if_pos hkey]
    | index _ hkey ih => rw [along_concat, ← ih, Expr.member, if_neg hkey]
  · rintro rfl
    induction keys using List.reverseRecOn with
    | nil => exact .base
    | append_singleton keys key ih =>
      rw [along_concat]
      exact ih.member key

/-- **The keys are read off a chain**, each of them once and in its place. -/
theorem Chain.readBack_eq (h : Chain base keys e) : e.readBack = (base.readBack.1, base.readBack.2 ++ keys) := by
  induction h with
  | base => rw [List.append_nil]
  | name _ _ ih => rw [readBack, ih, List.append_assoc]
  | index _ _ ih => rw [Expr.string, readBack, ih, List.append_assoc]

/-- What is printed for a chain on a constant is read as that chain. -/
theorem Chain.read_printed {name : String} (h : Chain (.ident name) keys e) (hname : Plain (.ident name))
    (level : Nat) : read (e.text level) = some e := by
  have hplain : e.Plain ∧ ¬e.isInt ∧ ¬e.isNegative := by
    induction h with
    | base => exact ⟨hname, by simp [isInt], by simp [isNegative]⟩
    | name _ hkey ih => exact ⟨.property ih.1 ih.2.1 hkey, by simp [isInt], by simp [isNegative]⟩
    | index _ _ ih => exact ⟨.element ih.1 ih.2.2 (.string _), by simp [isInt], by simp [isNegative]⟩
  exact hplain.1.read_eq level

end Script.Expr

/-! ## References to bodies -/

namespace BodySide

/-- The message that a body belongs to. -/
def message : BodySide → Message
  | request => .request
  | response => .response

/-- The constant of a step that holds a body. -/
def constant : BodySide → String
  | request => "payload"
  | response => "data"

/-- The keywords of a reference to a part of a body, with the hash sign. -/
def keywords : BodySide → String
  | request => "$request.body#"
  | response => "$response.body#"

/-- The reference to a part of a body: each key has a slash in front of it, and inside of a key the tilde is written
`~0` and the slash `~1`. -/
def reference (side : BodySide) (keys : List String) : String :=
  side.keywords ++ String.ofList (keys.flatMap fun key => '/' :: Pointer.encodeKey key.toList)

/-- A reference is the canonical spelling of the expression for that part. -/
theorem toList_reference (side : BodySide) (keys : List String) :
    (side.reference keys).toList = (RuntimeExpr.ofMessage side.message (.body (some ⟨keys⟩))).render := by
  have hkeys : (⟨keys⟩ : Pointer).render = keys.flatMap fun key => '/' :: Pointer.encodeKey key.toList :=
    List.flatMap_map ..
  have hkeywords : side.keywords.toList = side.message.keyword.toList ++ "body".toList ++ ['#'] := by
    cases side <;> rfl
  rw [reference, String.toList_append, String.toList_ofList, ← hkeys, hkeywords, List.append_assoc]
  rfl

end BodySide

theorem Access.ofText_bodyReference (side : BodySide) (keys : List String) :
    ofText (side.reference keys) = .body side keys := by
  have hparse : RuntimeExpr.parse (side.reference keys).toList =
      .ok (.ofMessage side.message (.body (some ⟨keys⟩))) := by
    rw [BodySide.toList_reference]
    exact RuntimeExpr.parse_render_inverse.1 _ trivial
  rw [ofText, hparse]
  cases side <;> rfl

theorem plain_constant (side : BodySide) : (Expr.ident side.constant).Plain := by
  cases side <;> exact .ident (by decide) (by decide) (by decide)

/-- **A reference to a part of a body is lowered to the chain of its keys**, in a step that sends a body where one is
referred to, and nothing is logged. The chain begins with the constant of the body, the keys are read off it as they
were, and it is what is read of its printed text. -/
theorem lowerRuntime_bodyReference (side : BodySide) (keys : List String) (s : Scope)
    (h : side = .request → s.hasPayload) :
    ∃ e, lowerRuntime (side.reference keys) s = (e, s) ∧ (Expr.ident side.constant).Chain keys e ∧
      e.readBack = (.ident side.constant, keys) ∧ ∀ level, Expr.read (e.text level) = some e := by
  have hchain : (Expr.ident side.constant).Chain keys ((Expr.ident side.constant).along keys) :=
    Expr.chain_iff.mpr rfl
  refine ⟨_, ?_, hchain, ?_, hchain.read_printed (plain_constant side)⟩
  · rw [lowerRuntime, Access.ofText_bodyReference]
    cases side with
    | response => rfl
    | request => rw [Access.lower, if_pos (h rfl), BodySide.constant]
  · rw [hchain.readBack_eq]
    rfl

/-- Keys that look like two, like none, like an escape, like a number or like a word of the language. -/
theorem lowerRuntime_bodyReference_oddKeys :
    BodySide.request.reference ["", "a/b", "~1", "0", "class", "say \"é\"\n"] =
        "$request.body#//a~1b/~01/0/class/say \"é\"\n" ∧
      ∃ e, lowerRuntime "$request.body#//a~1b/~01/0/class/say \"é\"\n" (.ofStep "pay" true) =
          (e, .ofStep "pay" true) ∧
        e.readBack = (.ident "payload", ["", "a/b", "~1", "0", "class", "say \"é\"\n"]) := by
  have hreference : BodySide.request.reference ["", "a/b", "~1", "0", "class", "say \"é\"\n"] =
      "$request.body#//a~1b/~01/0/class/say \"é\"\n" := by decide
  obtain ⟨e, hlower, -, hback, -⟩ := lowerRuntime_bodyReference .request
    ["", "a/b", "~1", "0", "class", "say \"é\"\n"] (.ofStep "pay" true) fun _ => rfl
  rw [hreference] at hlower
  exact ⟨hreference, e, hlower, hback⟩

end FlowSuite
