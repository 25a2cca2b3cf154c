import FlowSuite.Decimal.Reading
import FlowSuite.Script.Printer
import FlowSuite.Text.Class

/-!
# Lexemes of expressions

`next?` gives the lexeme at the start of a text and the text behind it. What a program is printed with is read back by
it: names and numbers where nothing follows that they could go on with (`next?_word`, `next?_number`), strings
whatever follows (`next?_quote`), operators between blanks (`next?_operator`), and marks (`next?_mark`, `next?_bang`).
So nothing inside a string ends it: the characters that could are escaped (`stringRest_escape`).

Of the escapes in strings those of a single character and those with two or four hexadecimal digits are read. Halves of
surrogate pairs are no characters.
-/

namespace FlowSuite.Script

/-- The smallest parts that expressions are made of. -/
inductive Lexeme where
  | word (name : String)
  | number (value : Nat)
  | string (content : String)
  | operator (op : BinaryOp)
  | mark (symbol : Char)
deriving DecidableEq, Repr

namespace Lexeme

/-- The characters between lexemes. -/
def isBlank (c : Char) : Bool := c ∈ [' ', '\t', '\n', '\r']

/-- The characters that are lexemes by themselves. -/
def marks : List Char := ['(', ')', '[', ']', '\x7b', '\x7d', ',', ':', '.', '!', '-']

/-- The operators, the longer ones first. -/
def operators : List BinaryOp := [.strictEq, .strictNe, .le, .ge, .and, .or, .lt, .gt]

/-- The number at the start of a text that begins with a digit. No zero stands in front, and neither a point nor a name
follows. -/
def number? (cs : List Char) : Option (Nat × List Char) :=
  let digits := cs.takeWhile Char.isDigit
  let rest := cs.dropWhile Char.isDigit
  if digits.head? = some '0' ∧ digits ≠ ['0'] then none
  else if rest.head?.any fun c => isIdentifierChar c || c = '.' then none
  else some (Nat.ofDigitChars 10 digits 0, rest)

/-- The character with a code in hexadecimal digits. -/
def hexChar? (digits : List Char) : Option Char :=
  match Decimal.readNat? 16 digits with
  | some n => if n.isValidChar then some (Char.ofNat n) else none
  | none => none

/-- The character that a single character behind a backslash stands for; digits and line breaks stand for none. -/
def escaped? (c : Char) : Option Char :=
  if c = 'n' then some '\n'
  else if c = 't' then some '\t'
  else if c = 'r' then some '\r'
  else if c = 'b' then some '\x08'
  else if c = 'f' then some '\x0c'
  else if c = 'v' then some '\x0b'
  else if c.isDigit ∨ c ∈ ['x', 'u', '\n', '\r', '\u2028', '\u2029'] then none
  else some c

/-- Puts a character in front of what is read behind it. -/
def before : Option Char → Option (List Char × List Char) → Option (List Char × List Char)
  | some c, some (content, rest) => some (c :: content, rest)
  | _, _ => none

/-- The content of a string up to its closing quote, and the text behind that. No line ends inside a string. -/
def stringRest : List Char → Option (List Char × List Char)
  | '"' :: cs => some ([], cs)
  | '\\' :: 'u' :: a :: b :: c :: d :: cs => before (hexChar? [a, b, c, d]) (stringRest cs)
  | '\\' :: 'x' :: a :: b :: cs => before (hexChar? [a, b]) (stringRest cs)
  | '\\' :: c :: cs => before (escaped? c) (stringRest cs)
  | c :: cs => if c ∈ ['\\', '\n', '\r'] then none else before (some c) (stringRest cs)
  | [] => none

/-- The lexeme at the start of a text, and the text behind it. -/
def next? (cs : List Char) : Option (Lexeme × List Char) :=
  match cs.dropWhile isBlank with
  | [] => none
  | c :: cs =>
    if isIdentifierStart c then
      some (.word (String.ofList (c :: cs.takeWhile isIdentifierChar)), cs.dropWhile isIdentifierChar)
    else if c.isDigit then (number? (c :: cs)).map fun (n, rest) => (.number n, rest)
    else if c = '"' then (stringRest cs).map fun (content, rest) => (.string (String.ofList content), rest)
    else
      match operators.find? fun op => op.symbol.toList.isPrefixOf (c :: cs) with
      | some op => some (.operator op, (c :: cs).drop op.symbol.length)
      | none => if c ∈ marks then some (.mark c, cs) else none

/-! ## Blanks, marks and operators -/

theorem next?_blank {c : Char} (h : isBlank c) (cs : List Char) : next? (c :: cs) = next? cs := by
  rw [next?, List.dropWhile_cons_of_pos h, ← next?]

theorem next?_blanks {bs : List Char} (h : ∀ c ∈ bs, isBlank c) (cs : List Char) : next? (bs ++ cs) = next? cs := by
  rw [next?, List.dropWhile_append_of_pos h, ← next?]

/-- A mark is read, whatever follows. -/
theorem next?_mark {c : Char} (h : c ∈ marks) (hbang : c ≠ '!') (cs : List Char) :
    next? (c :: cs) = some (.mark c, cs) := by
  simp only [marks, List.mem_cons, List.not_mem_nil, or_false] at h
  rcases h with rfl | rfl | rfl | rfl | rfl | rfl | rfl | rfl | rfl | rfl | rfl
  case inr.inr.inr.inr.inr.inr.inr.inr.inr.inl => exact absurd rfl hbang
  all_goals rfl

/-- An exclamation mark is a lexeme where no equals sign follows. -/
theorem next?_bang {cs : List Char} (h : cs.head? ≠ some '=') : next? ('!' :: cs) = some (.mark '!', cs) := by
  cases cs with
  | nil => rfl
  | cons c cs =>
    have hc : c ≠ '=' := fun hc => h (by simp [hc])
    simp [next?, isBlank, isIdentifierStart, operators, BinaryOp.symbol, List.isPrefixOf, marks, Ne.symm hc]

/-- **An operator between blanks is read.** -/
theorem next?_operator (op : BinaryOp) (cs : List Char) :
    next? (' ' :: op.symbol.toList ++ ' ' :: cs) = some (.operator op, ' ' :: cs) := by
  cases op <;> rfl

/-! ## Names -/

section Runs

variable {p : Char → Bool} {cs rest : List Char}

theorem takeWhile_append_of_head? (hcs : ∀ c ∈ cs, p c) (hrest : ∀ c ∈ rest.head?, ¬p c) :
    (cs ++ rest).takeWhile p = cs := by
  rw [List.takeWhile_append_of_pos hcs]
  cases rest with
  | nil => simp
  | cons d rest => rw [List.takeWhile_cons_of_neg (hrest d rfl), List.append_nil]

theorem dropWhile_append_of_head? (hcs : ∀ c ∈ cs, p c) (hrest : ∀ c ∈ rest.head?, ¬p c) :
    (cs ++ rest).dropWhile p = rest := by
  rw [List.dropWhile_append_of_pos hcs]
  cases rest with
  | nil => rfl
  | cons d rest => rw [List.dropWhile_cons_of_neg (hrest d rfl)]

end Runs

theorem not_isBlank_of_isIdentifierChar {c : Char} (h : isIdentifierChar c) : ¬isBlank c := by
  intro hb
  simp only [isBlank, List.mem_cons, List.not_mem_nil, or_false, decide_eq_true_eq] at hb
  rcases hb with rfl | rfl | rfl | rfl <;> exact absurd h (by decide)

theorem isIdentifierChar_of_isIdentifierStart {c : Char} (h : isIdentifierStart c) : isIdentifierChar c := by
  simp only [isIdentifierStart, Bool.or_eq_true] at h
  rcases h with (h | h) | h <;> simp [isIdentifierChar, Char.isAlphanum, h]

theorem not_isIdentifierStart_of_isDigit {c : Char} (h : c.isDigit) : ¬isIdentifierStart c := by
  simp only [isIdentifierStart, Bool.or_eq_true, decide_eq_true_eq]
  rintro ((hc | rfl) | rfl)
  · exact Text.not_isDigit_of_isAlpha hc h
  · exact absurd h (by decide)
  · exact absurd h (by decide)

/-- **A name is read where no character of names follows.** -/
theorem next?_word {name : String} (h : isIdentifier name.toList) {rest : List Char}
    (hrest : ∀ c ∈ rest.head?, ¬isIdentifierChar c) : next? (name.toList ++ rest) = some (.word name, rest) := by
  generalize hname : name.toList = cs at h
  cases cs with
  | nil => cases h
  | cons c cs =>
    simp only [isIdentifier, Bool.and_eq_true, List.all_eq_true] at h
    obtain ⟨hc, hcs⟩ := h
    have htake : (cs ++ rest).takeWhile isIdentifierChar = cs := takeWhile_append_of_head? hcs hrest
    have hdrop : (cs ++ rest).dropWhile isIdentifierChar = rest := dropWhile_append_of_head? hcs hrest
    have hblank := not_isBlank_of_isIdentifierChar (isIdentifierChar_of_isIdentifierStart hc)
    rw [List.cons_append, next?, List.dropWhile_cons_of_neg hblank]
    simp only [if_pos hc, htake, hdrop]
    rw [← hname, String.ofList_toList]

/-! ## Numbers -/

/-- Only the number zero begins with a zero. -/
theorem toDigits_eq_of_head? (n : Nat) (h : (Nat.toDigits 10 n).head? = some '0') : Nat.toDigits 10 n = ['0'] := by
  induction n using Nat.strongRecOn with
  | ind n ih =>
    rw [Nat.toDigits_eq_if (by decide)] at h ⊢
    split at h
    · next hn => rw [if_pos hn, Option.some.inj h]
    · next hn =>
      have hfront : (Nat.toDigits 10 (n / 10)).head? = some '0' := by
        obtain ⟨d, ds, hds⟩ := List.exists_cons_of_ne_nil (Nat.toDigits_ne_nil (n := n / 10) (b := 10))
        rw [hds] at h ⊢
        exact h
      have hzero := ih (n / 10) (by omega) hfront
      have hvalue : Nat.ofDigitChars 10 (Nat.toDigits 10 (n / 10)) 0 = n / 10 := Nat.ofDigitChars_ten_toDigits
      rw [hzero] at hvalue
      have : n / 10 = 0 := hvalue.symm
      omega

/-- **A number is read where neither a point nor a character of names follows.** -/
theorem next?_number (n : Nat) {rest : List Char} (hrest : ∀ c ∈ rest.head?, ¬isIdentifierChar c ∧ c ≠ '.') :
    next? ((toString n).toList ++ rest) = some (.number n, rest) := by
  have hdigits : ∀ c ∈ Nat.toDigits 10 n, c.isDigit := fun c hc =>
    Nat.isDigit_of_mem_toDigits (by decide) (by decide) hc
  have hend : ∀ c ∈ rest.head?, ¬c.isDigit := fun c hc hd =>
    (hrest c hc).1 (by simp [isIdentifierChar, Char.isAlphanum, hd])
  have htake : (Nat.toDigits 10 n ++ rest).takeWhile Char.isDigit = Nat.toDigits 10 n :=
    takeWhile_append_of_head? hdigits hend
  have hdrop : (Nat.toDigits 10 n ++ rest).dropWhile Char.isDigit = rest := dropWhile_append_of_head? hdigits hend
  have hnumber : number? (Nat.toDigits 10 n ++ rest) = some (n, rest) := by
    have hzero : ¬((Nat.toDigits 10 n).head? = some '0' ∧ Nat.toDigits 10 n ≠ ['0']) := fun h =>
      h.2 (toDigits_eq_of_head? n h.1)
    have hfollow : ¬rest.head?.any fun c => isIdentifierChar c || c = '.' := by
      cases rest with
      | nil => simp
      | cons d rest => simpa using hrest d rfl
    rw [number?, htake, hdrop, if_neg hzero, if_neg hfollow, Nat.ofDigitChars_ten_toDigits]
  rw [Nat.toString_eq_ofList_toDigits, String.toList_ofList]
  obtain ⟨d, ds, hds⟩ := List.exists_cons_of_ne_nil (Nat.toDigits_ne_nil (n := n) (b := 10))
  have hd : d.isDigit := hdigits d (by simp [hds])
  have hchar : isIdentifierChar d := by simp [isIdentifierChar, Char.isAlphanum, hd]
  rw [hds, List.cons_append] at hnumber ⊢
  rw [next?, List.dropWhile_cons_of_neg (not_isBlank_of_isIdentifierChar hchar)]
  simp only [if_neg (not_isIdentifierStart_of_isDigit hd), if_pos hd, hnumber, Option.map_some]

/-! ## Strings -/

/-- All control characters have codes below `0xa0`. -/
theorem hexChar?_of_lt : ∀ n < 0xa0, hexChar? (Text.hexDigits4 n) = some (Char.ofNat n) ∧
    (Text.hexDigits4 n).length = 4 := by
  decide +kernel

/-- The code of a control character is read back. -/
theorem hexChar?_hexDigits4 {c : Char} (h : isControl c) :
    ∃ h₁ h₂ h₃ h₄, Text.hexDigits4 c.toNat = [h₁, h₂, h₃, h₄] ∧ hexChar? [h₁, h₂, h₃, h₄] = some c := by
  have hlt : c.toNat < 0xa0 := by
    simp only [isControl, Bool.or_eq_true, Bool.and_eq_true, decide_eq_true_eq] at h
    omega
  obtain ⟨hchar, hlength⟩ := hexChar?_of_lt c.toNat hlt
  rw [Char.ofNat_toNat] at hchar
  generalize Text.hexDigits4 c.toNat = digits at hchar hlength ⊢
  match digits, hlength with
  | [h₁, h₂, h₃, h₄], _ => exact ⟨h₁, h₂, h₃, h₄, rfl, hchar⟩

/-- A character that is not escaped is read as itself. -/
theorem stringRest_cons {c : Char} (hquote : c ≠ '"') (hslash : c ≠ '\\') (hfeed : c ≠ '\n') (hreturn : c ≠ '\r')
    (cs : List Char) : stringRest (c :: cs) = before (some c) (stringRest cs) := by
  rw [stringRest.eq_5 c cs hquote (fun _ _ _ _ _ h _ => hslash h) (fun _ _ _ h _ => hslash h)
    (fun _ _ h _ => hslash h)]
  simp [hslash, hfeed, hreturn]

/-- **A character of a string is read back from the way it is written**, so none of them closes the string. -/
theorem stringRest_escape (c : Char) (cs : List Char) :
    stringRest (escapeInString c ++ cs) = before (some c) (stringRest cs) := by
  unfold escapeInString
  split
  · next h => subst h; rfl
  split
  · next h => subst h; rfl
  split
  · next h => subst h; rfl
  split
  · next h => subst h; rfl
  split
  · next h => subst h; rfl
  split
  · next hquote hslash hfeed htab hreturn hcontrol =>
    obtain ⟨h₁, h₂, h₃, h₄, hdigits, hchar⟩ := hexChar?_hexDigits4 hcontrol
    rw [hdigits]
    show before (hexChar? [h₁, h₂, h₃, h₄]) (stringRest cs) = _
    rw [hchar]
  · next hquote hslash hfeed htab hreturn hcontrol => exact stringRest_cons hquote hslash hfeed hreturn cs

theorem stringRest_flatMap (cs rest : List Char) :
    stringRest (cs.flatMap escapeInString ++ '"' :: rest) = some (cs, rest) := by
  induction cs with
  | nil => rfl
  | cons c cs ih => rw [List.flatMap_cons, List.append_assoc, stringRest_escape, ih, before]

/-- **A string is read as itself, whatever it holds and whatever follows.** -/
theorem next?_quote (s : String) (rest : List Char) : next? (quote s ++ rest) = some (.string s, rest) := by
  have hcontent := stringRest_flatMap s.toList rest
  simp only [quote, List.cons_append, List.append_assoc, List.nil_append]
  rw [next?, List.dropWhile_cons_of_neg (by decide)]
  simp only [if_neg (show ¬isIdentifierStart '"' by decide), if_neg (show ¬('"').isDigit by decide), if_pos, hcontent,
    Option.map_some, String.ofList_toList]

end Lexeme

end FlowSuite.Script
