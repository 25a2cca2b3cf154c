import FlowSuite.Proofs.Condition.Lexemes
import FlowSuite.Proofs.Condition.Grammar
import FlowSuite.Text.Class

/-!
# How operands are written

A token that stands for a literal or a runtime expression has one of the spellings of `Spelling`, which says what its
rule takes: a keyword, a word that is no keyword, digits, digits around a point, a string in quotes of either kind, or a
dollar sign with the characters of a runtime expression (`spelling_of_next`).

Numbers are read by their digits: a text with another character is no whole number (`Decimal.readInt64?_eq_none`), and
one that begins with a letter is no number at all (`Decimal.readBinary64?_eq_none`).
-/

namespace FlowSuite

namespace Lexer

/-- A character of an operand that is no string. -/
def isOperandChar (c : Char) : Bool := isKeyChar c || c ∈ ['$', '.', '#', '/']

/-- The words that are no names. -/
def keywords : List (List Char) := ["true".toList, "false".toList, "null".toList]

/-- The spellings of the tokens that are operands. -/
inductive Spelling : TokenKind → List Char → Prop
  | trueWord : Spelling .trueWord "true".toList
  | falseWord : Spelling .falseWord "false".toList
  | nullWord : Spelling .nullWord "null".toList
  | word {c : Char} {cs : List Char} : isLetter c → (∀ d ∈ cs, isWordChar d) → c :: cs ∉ keywords →
      Spelling .word (c :: cs)
  | int {cs : List Char} : cs ≠ [] → (∀ d ∈ cs, d.isDigit) → Spelling .int cs
  | float {whole places : List Char} : whole ≠ [] → (∀ d ∈ whole, d.isDigit) → places ≠ [] →
      (∀ d ∈ places, d.isDigit) → Spelling .float (whole ++ '.' :: places)
  | doubleQuoted {inside rest : List Char} : inside = stringElements inside ++ '"' :: rest →
      Spelling .string ('"' :: stringElements inside ++ ['"'])
  | singleQuoted {inner : List Char} : '\'' ∉ inner → Spelling .string ('\'' :: inner ++ ['\''])
  | runtime {c : Char} {cs : List Char} : isLetter c → (∀ d ∈ cs, isOperandChar d) → Spelling .runtime ('$' :: c :: cs)

theorem isWordChar_of_isDigit {c : Char} (h : c.isDigit) : isWordChar c := by
  simp [isWordChar, Char.isAlphanum, h]

theorem isWordChar_of_isLetter {c : Char} (h : isLetter c) : isWordChar c := by
  simp only [isLetter, Bool.or_eq_true] at h
  rcases h with h | h <;> simp [isWordChar, Char.isAlphanum, h]

theorem not_isDigit_of_isLetter {c : Char} (h : isLetter c) : ¬c.isDigit := by
  simp only [isLetter, Bool.or_eq_true, decide_eq_true_eq] at h
  rcases h with h | rfl
  · exact Text.not_isDigit_of_isAlpha h
  · decide

theorem isOperandChar_of_isWordChar {c : Char} (h : isWordChar c) : isOperandChar c := by
  simp only [isWordChar, Bool.or_eq_true] at h
  rcases h with h | h <;> simp [isOperandChar, isKeyChar, h]

theorem isOperandChar_of_isDigit {c : Char} (h : c.isDigit) : isOperandChar c :=
  isOperandChar_of_isWordChar (isWordChar_of_isDigit h)

theorem isOperandChar_of_isLetter {c : Char} (h : isLetter c) : isOperandChar c :=
  isOperandChar_of_isWordChar (isWordChar_of_isLetter h)

/-- The characters of operands can be seen, and are in ASCII. -/
theorem toNat_of_isOperandChar {c : Char} (h : isOperandChar c) : 0x21 ≤ c.toNat ∧ c.toNat ≤ 0x7e := by
  simp only [isOperandChar, isKeyChar, Char.isAlphanum, Bool.or_eq_true, decide_eq_true_eq, List.mem_cons,
    List.not_mem_nil, or_false, Text.isAlpha_iff, Text.isDigit_iff] at h
  rcases h with (((h | rfl) | rfl) | rfl) | rfl | rfl | rfl | rfl
  · omega
  all_goals decide

theorem isOperandChar_of_continues {part : RuntimePart} {c : Char} (h : part.continues c) : isOperandChar c := by
  cases part <;>
    simp_all [RuntimePart.continues, isOperandChar, isKeyChar, isSegmentChar, isWordChar, or_assoc]

theorem isOperandChar_runtimeTail (part : RuntimePart) (cs : List Char) :
    ∀ c ∈ runtimeTail part cs, isOperandChar c := by
  induction cs generalizing part with
  | nil => exact fun c hc => absurd hc (by simp [runtimeTail])
  | cons d cs ih =>
    rw [runtimeTail]
    split
    · next h => exact List.forall_mem_cons.mpr ⟨isOperandChar_of_continues h, ih part⟩
    split
    · next h => exact List.forall_mem_cons.mpr ⟨by subst h; rfl, ih .hash⟩
    split
    · next h => exact List.forall_mem_cons.mpr ⟨by rw [h.1]; rfl, ih .key⟩
    split
    · next h => exact List.forall_mem_cons.mpr ⟨by rw [h.1]; rfl, ih .segment⟩
    · exact fun c hc => absurd hc (by simp)

theorem not_mem_keywords_of_isDigit {c : Char} (h : c.isDigit) (cs : List Char) : c :: cs ∉ keywords := by
  simp only [keywords, List.mem_cons, List.not_mem_nil, or_false]
  rintro (heq | heq | heq)
  all_goals
    rw [(List.cons.inj heq).1] at h
    exact absurd h (by decide)

theorem exactly_eq_some {lexeme cs taken : List Char} (h : exactly lexeme cs = some taken) : taken = lexeme := by
  unfold exactly at h
  split at h
  · exact (Option.some.inj h).symm
  · cases h

theorem mem_takeWhile_isDigit {cs : List Char} : ∀ d ∈ cs.takeWhile Char.isDigit, d.isDigit := by
  intro d hd
  exact List.all_eq_true.mp List.all_takeWhile d hd

/-- A keyword is no word, since the rules of keywords come first. -/
theorem not_mem_keywords {cs lexeme : List Char} (h : next cs = (.word, lexeme)) (hw : word cs = some lexeme) :
    lexeme ∉ keywords := by
  obtain ⟨_, rest, rfl⟩ := takesFront_word hw
  simp only [keywords, List.mem_cons, List.not_mem_nil, or_false]
  rintro (rfl | rfl | rfl)
  all_goals
    simp only [next, rules, longest?, exactly, int, float, runtime, doubleQuoted, singleQuoted, hw] at h
    simp at h

end Lexer

/-- The kinds of tokens that are operands by themselves. -/
def TokenKind.isOperand : TokenKind → Bool
  | int | float | string | trueWord | falseWord | nullWord | word | runtime => true
  | _ => false

namespace Lexer

/-- **An operand has one of the spellings.** -/
theorem spelling_of_next {cs lexeme : List Char} {kind : TokenKind} (h : next cs = (kind, lexeme))
    (hk : kind.isOperand) : Spelling kind lexeme := by
  obtain ⟨rule, hmem, htaken⟩ := exists_rule_of_next h (by rintro rfl; cases hk)
  cases kind <;> try cases hk
  all_goals simp only [rules, List.mem_cons, Prod.mk.injEq, reduceCtorEq, false_and, true_and, false_or, or_false,
    List.not_mem_nil] at hmem
  case trueWord =>
    subst hmem
    rw [exactly_eq_some htaken]
    exact .trueWord
  case falseWord =>
    subst hmem
    rw [exactly_eq_some htaken]
    exact .falseWord
  case nullWord =>
    subst hmem
    rw [exactly_eq_some htaken]
    exact .nullWord
  case runtime =>
    subst hmem
    unfold runtime at htaken
    split at htaken
    · next c cs =>
      split at htaken
      · next hc =>
        cases htaken
        exact .runtime hc (isOperandChar_runtimeTail _ _)
      · cases htaken
    · cases htaken
  case int =>
    subst hmem
    obtain ⟨rfl, hne⟩ := int_eq_some htaken
    exact .int hne mem_takeWhile_isDigit
  case float =>
    subst hmem
    obtain ⟨whole, rest, places, _, hplaces, rfl, hne, hwhole⟩ := float_eq_some htaken
    obtain ⟨rfl, hne'⟩ := int_eq_some hplaces
    exact .float hne hwhole hne' mem_takeWhile_isDigit
  case string =>
    rcases hmem with rfl | rfl
    · obtain ⟨inside, rest, _, hinside, rfl⟩ := doubleQuoted_eq_some htaken
      exact .doubleQuoted hinside
    · obtain ⟨inner, rest, _, rfl, hinner⟩ := singleQuoted_eq_some htaken
      exact .singleQuoted hinner
  case word =>
    subst hmem
    have hkeyword := not_mem_keywords h htaken
    unfold word at htaken
    split at htaken
    · next c cs =>
      split at htaken
      · next hc =>
        cases htaken
        exact .word hc (fun d hd => List.all_eq_true.mp List.all_takeWhile d hd) hkeyword
      · cases htaken
    · cases htaken

/-- Operands other than strings are made of a few characters. -/
theorem Spelling.isOperandChar {kind : TokenKind} {lexeme : List Char} (h : Spelling kind lexeme)
    (hk : kind ≠ .string) : ∀ c ∈ lexeme, isOperandChar c := by
  cases h with
  | trueWord => exact List.all_eq_true.mp rfl
  | falseWord => exact List.all_eq_true.mp rfl
  | nullWord => exact List.all_eq_true.mp rfl
  | word hc hcs =>
    exact List.forall_mem_cons.mpr ⟨isOperandChar_of_isLetter hc, fun d hd => isOperandChar_of_isWordChar (hcs d hd)⟩
  | int _ hcs => exact fun d hd => isOperandChar_of_isDigit (hcs d hd)
  | float _ hwhole _ hplaces =>
    intro c hc
    rcases List.mem_append.mp hc with hc | hc
    · exact isOperandChar_of_isDigit (hwhole c hc)
    rcases List.mem_cons.mp hc with rfl | hc
    · rfl
    · exact isOperandChar_of_isDigit (hplaces c hc)
  | doubleQuoted => exact absurd rfl hk
  | singleQuoted => exact absurd rfl hk
  | runtime hc hcs =>
    exact List.forall_mem_cons.mpr ⟨rfl, List.forall_mem_cons.mpr ⟨isOperandChar_of_isLetter hc, hcs⟩⟩

theorem Spelling.ne_nil {kind : TokenKind} {lexeme : List Char} (h : Spelling kind lexeme) : lexeme ≠ [] := by
  cases h with
  | int hne => exact hne
  | float => simp
  | _ => exact List.cons_ne_nil _ _

end Lexer

/-! ## Numbers -/

namespace Decimal

theorem digitValue?_eq_none {c : Char} (h : ¬c.isDigit) : digitValue? 10 c = none := by
  unfold digitValue?
  split
  · next hd =>
    refine absurd ?_ h
    rw [Char.isDigit, Bool.and_eq_true, decide_eq_true_eq, decide_eq_true_eq]
    exact hd
  · split
    · next hd =>
      have hle : 97 ≤ c.toNat := hd.1
      simp only [Option.filter_some]
      rw [if_neg (by simp; omega)]
    · split
      · next hd =>
        have hle : 65 ≤ c.toNat := hd.1
        simp only [Option.filter_some]
        rw [if_neg (by simp; omega)]
      · rfl

/-- A text with a character that is no digit is no number without a sign. -/
theorem readDigits?_eq_none {cs : List Char} {c : Char} (hmem : c ∈ cs) (h : ¬c.isDigit) (n : Nat) :
    readDigits? 10 n cs = none := by
  induction cs generalizing n with
  | nil => cases hmem
  | cons d ds ih =>
    rw [readDigits?]
    rcases List.mem_cons.mp hmem with rfl | hmem
    · rw [digitValue?_eq_none h]
    · split
      · exact ih hmem _
      · rfl

theorem splitSign_cons {c : Char} (hminus : c ≠ '-') (hplus : c ≠ '+') (cs : List Char) :
    splitSign (c :: cs) = (false, c :: cs) := by
  unfold splitSign
  split <;> simp_all

/-- A text that begins without a sign and has a character that is no digit is no whole number. -/
theorem readInt64?_eq_none {c d : Char} {cs : List Char} (hminus : c ≠ '-') (hplus : c ≠ '+') (hmem : d ∈ c :: cs)
    (h : ¬d.isDigit) : readInt64? (c :: cs) = none := by
  have hread : readNat? 10 (c :: cs) = none := readDigits?_eq_none hmem h 0
  simp only [readInt64?, readInt?, splitSign_cons hminus hplus, hread]
  rfl

/-- A text that begins with neither a sign, nor a digit, nor a point is no number. -/
theorem readBinary64?_eq_none {c : Char} (hminus : c ≠ '-') (hplus : c ≠ '+') (hpoint : c ≠ '.') (h : ¬c.isDigit)
    (cs : List Char) : readBinary64? (c :: cs) = none := by
  have htake : (c :: cs).takeWhile Char.isDigit = [] := List.takeWhile_cons_of_neg h
  have hdrop : (c :: cs).dropWhile Char.isDigit = c :: cs := List.dropWhile_cons_of_neg h
  simp only [readBinary64?, splitSign_cons hminus hplus, htake, hdrop]
  split
  · next hdigits _ =>
    -- the character is no point, so there are no places
    split at hdigits
    · next hcons => exact absurd (List.cons.inj hcons).1 hpoint
    · cases hdigits
  · rfl

end Decimal

end FlowSuite
