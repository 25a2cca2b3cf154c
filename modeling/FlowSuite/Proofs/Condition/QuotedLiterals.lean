import FlowSuite.Proofs.Condition.FlatOperands
import FlowSuite.Proofs.Condition.Partition
import FlowSuite.Proofs.Condition.Reading

/-!
# Any text can be written as a string of a condition

A text that a language of strings has as a whole is one token (`Lexer.tokenize_quoted_iff`), and so is read as a
literal. Between double quotes every text can be written, with backslashes in front of its backslashes and double
quotes: what is between the quotes then is elements of a string (`Lexer.escapeQuotes_mem`), and resolving the escapes
gives the text back (`Parser.unescape_escapeQuotes`). Between single quotes a text stands for itself, and can be written
exactly if it has no single quote.
-/

namespace FlowSuite

namespace Lexer

open Text (byteCount)
open scoped Computability

variable {lexeme cs : List Char}

/-- A text with a backslash in front of every backslash and every double quote. -/
def escapeQuotes (cs : List Char) : List Char := cs.flatMap fun c => if c = '\\' ∨ c = '"' then ['\\', c] else [c]

theorem escapeQuotes_cons (c : Char) (cs : List Char) :
    escapeQuotes (c :: cs) = (if c = '\\' ∨ c = '"' then ['\\', c] else [c]) ++ escapeQuotes cs := List.flatMap_cons

/-- With its escapes a text is elements of a string. -/
theorem escapeQuotes_mem (cs : List Char) : escapeQuotes cs ∈ stringElement∗ := by
  induction cs with
  | nil => exact Language.nil_mem_kstar _
  | cons c cs ih =>
    rw [escapeQuotes_cons]
    refine append_mem_kstar ?_ ih
    rw [stringElement, Language.mem_add, mem_spelled_mul]
    split
    · next hc =>
      have hline : c ≠ '\n' := by rintro rfl; exact absurd hc (by decide)
      exact .inr ⟨[c], ⟨c, decide_eq_true hline, rfl⟩, rfl⟩
    · next hc =>
      obtain ⟨hslash, hquote⟩ := not_or.mp hc
      exact .inl ⟨c, decide_eq_true ⟨hquote, hslash⟩, rfl⟩

/-! ## One token -/

/-- A rule takes the texts of its language as a whole. -/
theorem Rule.Recognizes.of_mem {rule : Rule} {L : Language Char} (h : rule.Recognizes L) (hcs : cs ∈ L) :
    rule cs = some cs :=
  h.eq_some_iff.mpr ⟨List.prefix_refl cs, hcs, fun _ _ hfront => hfront.length_le⟩

theorem quoted_escapeQuotes (cs : List Char) :
    quoted ('"' :: escapeQuotes cs ++ ['"']) = some ('"' :: escapeQuotes cs ++ ['"']) := by
  have hmem : '"' :: escapeQuotes cs ++ ['"'] ∈ spelled "\"" * (stringElement∗ * spelled "\"") :=
    mem_spelled_mul.mpr ⟨_, Language.append_mem_mul (escapeQuotes_mem cs) rfl, rfl⟩
  rw [quoted, recognizes_doubleQuoted.of_mem hmem]
  rfl

/-- Between single quotes exactly the texts without one are taken as a whole. -/
theorem quoted_single_iff : quoted ('\'' :: cs ++ ['\'']) = some ('\'' :: cs ++ ['\'']) ↔ '\'' ∉ cs := by
  constructor
  · intro h
    obtain hdouble | ⟨-, hsingle⟩ := quoted_cases h
    · cases hdouble
    · obtain ⟨inner, _, -, heq, hinner⟩ := singleQuoted_eq_some hsingle
      obtain rfl : cs = inner := by simpa using heq
      exact hinner
  · intro h
    have hquiet : cs ∈ (oneOf (· ≠ '\''))∗ := by
      refine mem_kstar_oneOf.mpr fun c hc => decide_eq_true ?_
      rintro rfl
      exact h hc
    have hmem : '\'' :: cs ++ ['\''] ∈ spelled "'" * ((oneOf (· ≠ '\''))∗ * spelled "'") :=
      mem_spelled_mul.mpr ⟨_, Language.append_mem_mul hquiet rfl, rfl⟩
    rw [quoted, recognizes_singleQuoted.of_mem hmem]
    rfl

/-- A text that is a string in quotes is next as a whole, and as a string. -/
theorem next_quoted (h : quoted lexeme = some lexeme) : next lexeme = (.string, lexeme) := by
  obtain ⟨rule, hmem, htaken⟩ : ∃ rule, (TokenKind.string, rule) ∈ rules ∧ rule lexeme = some lexeme := by
    obtain hdouble | ⟨-, hsingle⟩ := quoted_cases h
    · exact ⟨doubleQuoted, by simp [rules], hdouble⟩
    · exact ⟨singleQuoted, by simp [rules], hsingle⟩
  obtain ⟨kind, longest, hlongest, hle⟩ := exists_longest?_of_mem hmem htaken
  obtain ⟨_, hvalid, _⟩ := mem_of_longest? hlongest
  have hk : kind ≠ .invalid := valid_of_mem_rules hvalid
  have hnext : next lexeme = (kind, longest) := (next_eq_iff hk).mpr hlongest
  obtain rfl : longest = lexeme := (front_of_next hk hnext).2.eq_of_length_le hle
  -- it begins with a quote, and only strings have quotes
  obtain ⟨quote, tail, heq, hquote⟩ := exists_quote h
  rw [hnext, string_of_not_isPlain hk hnext (heq ▸ List.mem_cons_self) hquote]

/-- The token of a text that is a string. -/
def wholeString (lexeme : List Char) : Token := ⟨.string, lexeme, ⟨0, byteCount lexeme⟩⟩

/-- **A text is one string and its end exactly if it is a string in quotes.** -/
theorem tokenize_quoted_iff :
    tokenize lexeme = [wholeString lexeme, .atEnd (byteCount lexeme)] ↔ quoted lexeme = some lexeme := by
  constructor
  · intro h
    have hscanned := scanned_tokenize lexeme
    rw [h] at hscanned
    obtain ⟨blanks, rest, heq, -, -, hnext, -, -⟩ := hscanned.of_cons (by simp [wholeString])
    -- the lexeme is all of the text, so nothing is around it
    have hlength := congrArg List.length heq
    simp only [wholeString, List.length_append] at hlength
    obtain rfl : rest = [] := List.eq_nil_of_length_eq_zero (by omega)
    rw [List.append_nil] at hnext
    exact quoted_of_next hnext
  · intro h
    obtain ⟨quote, tail, rfl, hquote⟩ := exists_quote h
    have hblank : ¬isBlank quote := by
      obtain hdouble | ⟨-, hsingle⟩ := quoted_cases h
      · obtain ⟨_, _, heq, _⟩ := doubleQuoted_eq_some hdouble
        rw [(List.cons.inj heq).1]
        decide
      · obtain ⟨_, _, heq, _⟩ := singleQuoted_eq_some hsingle
        rw [(List.cons.inj heq).1]
        decide
    have hnext : next (quote :: tail ++ []) = (.string, quote :: tail) := by
      rw [List.append_nil]
      exact next_quoted h
    exact tokenize_of_next hblank rfl (by decide) hnext

end Lexer

/-! ## What is read -/

/-- Resolving the escapes gives the text back. -/
theorem Parser.unescape_escapeQuotes (cs : List Char) : unescape (Lexer.escapeQuotes cs) = cs := by
  induction cs with
  | nil => rfl
  | cons c cs ih =>
    rw [Lexer.escapeQuotes_cons]
    split
    · next hc =>
      obtain ⟨hn, ht, hr⟩ : c ≠ 'n' ∧ c ≠ 't' ∧ c ≠ 'r' := by rcases hc with rfl | rfl <;> decide
      rw [List.cons_append, List.singleton_append, unescape, if_neg hn, if_neg ht, if_neg hr, ih]
    · next hc => rw [List.singleton_append, unescape_cons fun hslash => hc (.inl hslash), ih]

namespace Condition

open Lexer (escapeQuotes wholeString quoted)
open Text (byteCount)

/-- A text is one string token and its end, and is read as the literal of a string. -/
structure IsString (lexeme : List Char) (s : String) : Prop where
  tokens : Lexer.tokenize lexeme = [wholeString lexeme, .atEnd (byteCount lexeme)]
  tree : parse (String.ofList lexeme) = .ok (.literal ⟨0, byteCount lexeme⟩ (.string s))

theorem isString_of_quoted {lexeme : List Char} (h : quoted lexeme = some lexeme) :
    IsString lexeme (String.ofList (Parser.unquote lexeme)) where
  tokens := Lexer.tokenize_quoted_iff.mpr h
  tree := by
    have hplaced (text : String) : Placed text maxNesting .primary [wholeString lexeme]
        (.literal ⟨0, byteCount lexeme⟩ (.string (String.ofList (Parser.unquote lexeme)))) := .literal (.string rfl)
    rw [parse, String.toList_ofList, Lexer.tokenize_quoted_iff.mpr h]
    exact ofTokens_of_placed (hplaced _).whole rfl

/-- **Every text can be written as a string.** Between double quotes, with a backslash in front of every backslash and
double quote, a text is one string token that is read as the text; between single quotes it is so exactly if it has no
single quote, and its backslashes are kept. -/
theorem isString_of_text (s : String) :
    IsString ('"' :: escapeQuotes s.toList ++ ['"']) s ∧
      (IsString ('\'' :: s.toList ++ ['\'']) s ↔ '\'' ∉ s.toList) := by
  have hdouble := isString_of_quoted (Lexer.quoted_escapeQuotes s.toList)
  rw [Parser.unquote_double, Parser.unescape_escapeQuotes, String.ofList_toList] at hdouble
  refine ⟨hdouble, fun h => Lexer.quoted_single_iff.mp (Lexer.tokenize_quoted_iff.mp h.tokens), fun h => ?_⟩
  have hsingle := isString_of_quoted (Lexer.quoted_single_iff.mpr h)
  rwa [Parser.unquote_single, String.ofList_toList] at hsingle

/-- An escaped backslash in front of an `n` is no line break. -/
example : (parse "\"C:\\\\new\"").toOption.map Condition.shape = some (.literal (.string "C:\\new")) := by
  decide +kernel

end Condition

end FlowSuite
