/-!
# Identifiers of the script language

- `isIdentifier` says which names can be written bare, as a property or as the key of an object;
- `bindable` turns any name into one that starts with a letter, `_` or `$`, goes on with these and digits, and is no
  reserved word (`bindable_isIdentifier`).
-/

namespace FlowSuite.Script

/-- Can stand inside an identifier. -/
def isIdentifierChar (c : Char) : Bool := c.isAlphanum || c = '_' || c = '$'

/-- Can start an identifier. -/
def isIdentifierStart (c : Char) : Bool := c.isAlpha || c = '_' || c = '$'

/-- Can be written bare. -/
def isIdentifier : List Char → Bool
  | [] => false
  | c :: cs => isIdentifierStart c && cs.all isIdentifierChar

/-- The words of the language that cannot name a constant. -/
def reservedWords : List String :=
  [ "await", "break", "case", "catch", "class", "const", "continue", "debugger", "default", "delete", "do", "else",
    "enum", "export", "extends", "false", "finally", "for", "function", "if", "import", "in", "instanceof", "let",
    "new", "null", "return", "super", "switch", "this", "throw", "true", "try", "typeof", "var", "void", "while",
    "with", "yield" ]

/-- A name with `_` for every character that cannot stand in an identifier. -/
def masked (name : List Char) : List Char := name.map fun c => if isIdentifierChar c then c else '_'

/-- A name with `_` in front where nothing or a digit stands first. -/
def started : List Char → List Char
  | [] => ['_']
  | c :: cs => if c.isDigit then '_' :: c :: cs else c :: cs

/-- The name under which a parameter of any name can be bound to a constant. -/
def bindable (name : List Char) : List Char :=
  let word := started (masked name)
  if String.ofList word ∈ reservedWords then '_' :: word else word

theorem isIdentifierChar_masked {name : List Char} : ∀ c ∈ masked name, isIdentifierChar c := by
  intro c hc
  obtain ⟨d, _, rfl⟩ := List.mem_map.mp hc
  split
  · assumption
  · decide

theorem isIdentifier_underscore {cs : List Char} (h : cs.all isIdentifierChar) : isIdentifier ('_' :: cs) := by
  simp only [isIdentifier, Bool.and_eq_true]
  exact ⟨by decide, h⟩

theorem isIdentifierStart_of_not_isDigit {c : Char} (h : isIdentifierChar c) (hd : c.isDigit = false) :
    isIdentifierStart c := by
  simp_all [isIdentifierChar, isIdentifierStart, Char.isAlphanum]

theorem isIdentifier_started {word : List Char} (h : ∀ c ∈ word, isIdentifierChar c) :
    isIdentifier (started word) := by
  cases word with
  | nil => decide
  | cons c cs =>
    have hall : (c :: cs).all isIdentifierChar := List.all_eq_true.mpr h
    simp only [started]
    split
    · exact isIdentifier_underscore hall
    · simp only [List.all_cons, Bool.and_eq_true] at hall
      simp only [isIdentifier, Bool.and_eq_true]
      exact ⟨isIdentifierStart_of_not_isDigit hall.1 (by simp_all), hall.2⟩

theorem all_isIdentifierChar {word : List Char} (h : isIdentifier word) : word.all isIdentifierChar := by
  cases word with
  | nil => rfl
  | cons c cs =>
    simp only [isIdentifier, Bool.and_eq_true, isIdentifierStart, Bool.or_eq_true] at h
    simp only [List.all_cons, Bool.and_eq_true, isIdentifierChar, Char.isAlphanum, Bool.or_eq_true]
    refine ⟨?_, h.2⟩
    rcases h.1 with (h | h) | h <;> simp [h]

theorem bindable_isIdentifier (name : List Char) : isIdentifier (bindable name) := by
  have h : isIdentifier (started (masked name)) := isIdentifier_started isIdentifierChar_masked
  simp only [bindable]
  split
  · exact isIdentifier_underscore (all_isIdentifierChar h)
  · exact h

end FlowSuite.Script
