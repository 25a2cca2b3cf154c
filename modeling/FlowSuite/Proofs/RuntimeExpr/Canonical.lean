import FlowSuite.RuntimeExpr.Grammar

/-!
# Canonical spellings of runtime expressions

An expression is written as its keywords, in any case, and a content that stands for itself.

* `RuntimeExpr.render`: the canonical spelling, with the keywords in the case they are listed in.
* `RuntimeExpr.Spells`: the texts that differ from the canonical spelling in the case of the keywords only.
* `RuntimeExpr.WellFormed`: the expressions that can be written at all.
-/

namespace FlowSuite

/-! ## Keywords -/

/-- The same characters up to the case of letters. -/
def SameLetters (cs ds : List Char) : Prop := cs.map Char.toLower = ds.map Char.toLower

/-- A text has a keyword in front, in any case. -/
def BeginsWith (keyword text : List Char) : Prop := keyword.map Char.toLower <+: text.map Char.toLower

instance (keyword text : List Char) : Decidable (BeginsWith keyword text) :=
  inferInstanceAs (Decidable (_ <+: _))

theorem sameLetters_append_iff {cs ds es : List Char} :
    SameLetters cs (ds ++ es) ↔ ∃ as bs, cs = as ++ bs ∧ SameLetters as ds ∧ SameLetters bs es := by
  unfold SameLetters
  rw [List.map_append, List.map_eq_append_iff]

theorem SameLetters.append {as bs ds es : List Char} (h : SameLetters as ds) (h' : SameLetters bs es) :
    SameLetters (as ++ bs) (ds ++ es) :=
  sameLetters_append_iff.mpr ⟨as, bs, rfl, h, h'⟩

theorem beginsWith_iff {keyword text : List Char} :
    BeginsWith keyword text ↔ ∃ as rest, text = as ++ rest ∧ SameLetters as keyword := by
  constructor
  · rintro ⟨rest, h⟩
    obtain ⟨as, bs, rfl, has, _⟩ := List.map_eq_append_iff.mp h.symm
    exact ⟨as, bs, rfl, has⟩
  · rintro ⟨as, rest, rfl, has⟩
    refine ⟨rest.map Char.toLower, ?_⟩
    rw [List.map_append, has]

/-- Two keywords cannot both be in front of a text unless one of them is in front of the other. -/
theorem BeginsWith.not {keyword other text : List Char} (h : BeginsWith other text) (hk : ¬BeginsWith keyword other)
    (ho : ¬BeginsWith other keyword) : ¬BeginsWith keyword text := by
  intro h'
  rcases List.prefix_or_prefix_of_prefix h h' with hp | hp
  · exact ho hp
  · exact hk hp

/-- The case of a text makes no difference for the keywords in front of it. -/
theorem SameLetters.beginsWith_iff {cs ds keyword : List Char} (h : SameLetters cs ds) :
    BeginsWith keyword cs ↔ BeginsWith keyword ds := by
  unfold BeginsWith
  rw [h]

/-! ## Pointers -/

namespace Pointer

/-- Keys as they are written: a slash in front of every key, and the keys escaped. -/
def renderKeys (keys : List (List Char)) : List Char := keys.flatMap fun key => '/' :: encodeKey key

/-- A pointer as it is written. -/
def render (p : Pointer) : List Char := renderKeys (p.keys.map String.toList)

@[simp] theorem renderKeys_cons (key : List Char) (keys : List (List Char)) :
    renderKeys (key :: keys) = '/' :: (encodeKey key ++ renderKeys keys) := rfl

@[simp] theorem encodeKey_tilde (cs : List Char) : encodeKey ('~' :: cs) = '~' :: '0' :: encodeKey cs := rfl

@[simp] theorem encodeKey_slash (cs : List Char) : encodeKey ('/' :: cs) = '~' :: '1' :: encodeKey cs := rfl

theorem encodeKey_cons {c : Char} (htilde : c ≠ '~') (hslash : c ≠ '/') (cs : List Char) :
    encodeKey (c :: cs) = c :: encodeKey cs := by
  rw [encodeKey, if_neg htilde, if_neg hslash]

end Pointer

/-! ## Expressions -/

/-- One or more characters of a class. -/
def Word (inClass : Char → Bool) (word : String) : Prop := word.toList ≠ [] ∧ ∀ c ∈ word.toList, inClass c

namespace MessagePart

/-- The keyword in front of a part of a message, with its point. -/
def opening : MessagePart → String
  | header _ => "header."
  | query _ => "query."
  | path _ => "path."
  | body _ => "body"

/-- What is written behind the keyword. -/
def content : MessagePart → List Char
  | header name | query name | path name => name.toList
  | body none => []
  | body (some p) => '#' :: p.render

/-- A text is the keyword of a part of a message, in any case, with its content behind it. -/
def Spells (part : MessagePart) (text : List Char) : Prop :=
  ∃ as, text = as ++ part.content ∧ SameLetters as part.opening.toList

/-- Can be written. -/
def WellFormed : MessagePart → Prop
  | header name => Word RuntimeExpr.isTokenChar name
  | query name | path name => Word RuntimeExpr.isNameChar name
  | body _ => True

end MessagePart

namespace RuntimeExpr

/-- The keywords of an expression in their canonical case. -/
def keywords : RuntimeExpr → List Char
  | ofMessage m part => m.keyword.toList ++ part.opening.toList
  | e => e.root.toList

/-- What is written behind the keywords. -/
def content : RuntimeExpr → List Char
  | url | method | statusCode => []
  | ofMessage _ part => part.content
  | named _ name => name.toList

/-- The canonical spelling of an expression. -/
def render (e : RuntimeExpr) : List Char := e.keywords ++ e.content

/-- A text is the canonical spelling of an expression but for the case of the keywords. -/
def Spells (e : RuntimeExpr) (text : List Char) : Prop := ∃ as, text = as ++ e.content ∧ SameLetters as e.keywords

/-- Can be written: names are words, and the name of a component does not make its keyword that of parameters. -/
def WellFormed : RuntimeExpr → Prop
  | url | method | statusCode => True
  | ofMessage _ part => part.WellFormed
  | named space name => Word isNameChar name ∧
      (space = .components → ¬BeginsWith Namespace.componentParameters.keyword.toList (named space name).render)

theorem spells_render (e : RuntimeExpr) : e.Spells e.render := ⟨_, rfl, rfl⟩

theorem Spells.beginsWith_iff {e : RuntimeExpr} {text keyword : List Char} (h : e.Spells text) :
    BeginsWith keyword text ↔ BeginsWith keyword e.render := by
  obtain ⟨as, rfl, has⟩ := h
  exact (has.append rfl).beginsWith_iff

end RuntimeExpr

end FlowSuite
