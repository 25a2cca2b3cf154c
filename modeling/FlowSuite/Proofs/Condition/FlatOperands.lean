import Mathlib.Data.List.TakeWhile
import FlowSuite.Proofs.Condition.Scanning

/-!
# What the sides of a flat comparison are

A side of a flat comparison is read from the text beside the operator, without blanks and without the quotes of a
string. `Token.Stands` says what a token stands for as an operand of the grammar.

* A token is read as what it stands for exactly if it has no escapes to resolve (`Token.Stands.ofText_eq_iff`): the flat
  reading keeps the backslashes of a string in double quotes.
* A side that is read as a string keeps all of its characters but blanks and two quotes (`Operand.count_le_of_ofText`).
-/

namespace FlowSuite

open Lexer (stringElements Spelling)

/-! ## Blanks around operands -/

namespace Text

theorem isBlank_of_lexer {c : Char} (h : Lexer.isBlank c) : isBlank c := by
  simp only [Lexer.isBlank, List.mem_cons, List.not_mem_nil, or_false, decide_eq_true_eq] at h
  rcases h with rfl | rfl | rfl | rfl | rfl <;> decide

/-- Trimming leaves a text that is not blank at its ends. -/
theorem trim_append {a m b : List Char} (ha : ∀ c ∈ a, isBlank c) (hb : ∀ c ∈ b, isBlank c) (hm : m ≠ [])
    (hfirst : ∀ c ∈ m.head?, ¬isBlank c) (hlast : ∀ c ∈ m.getLast?, ¬isBlank c) : trim (a ++ (m ++ b)) = m := by
  have hstart : trimStart (a ++ (m ++ b)) = m ++ b := by
    obtain ⟨c, cs, rfl⟩ := List.exists_cons_of_ne_nil hm
    rw [trimStart, List.dropWhile_append_of_pos ha]
    exact List.dropWhile_cons_of_neg (hfirst c rfl)
  have hend : trimEnd (m ++ b) = m := by
    obtain ⟨cs, c, rfl⟩ : ∃ cs c, m = cs ++ [c] := ⟨_, _, (List.dropLast_concat_getLast hm).symm⟩
    have hc : ¬isBlank c := hlast c (by simp)
    have hb' : ∀ d ∈ b.reverse, isBlank d := fun d hd => hb d (List.mem_reverse.mp hd)
    rw [trimEnd, List.reverse_append, List.dropWhile_append_of_pos hb', List.reverse_append, List.reverse_singleton,
      List.singleton_append, List.dropWhile_cons_of_neg hc, List.reverse_cons, List.reverse_reverse]
  rw [trim, hstart, hend]

/-- Trimming takes nothing but blanks. -/
theorem count_trim {c : Char} (h : ¬isBlank c) (cs : List Char) : (trim cs).count c = cs.count c := by
  obtain ⟨a, b, hcs, ha, hb⟩ := exists_eq_trim cs
  have hzero : ∀ ds : List Char, (∀ d ∈ ds, isBlank d) → ds.count c = 0 := by
    intro ds hds
    exact List.count_eq_zero.mpr fun hmem => h (hds c hmem)
  have hcount := congrArg (List.count c) hcs
  rw [List.count_append, List.count_append, hzero a ha, hzero b hb] at hcount
  omega

theorem mem_trim_iff {c : Char} (h : ¬isBlank c) {cs : List Char} : c ∈ trim cs ↔ c ∈ cs := by
  rw [← List.count_pos_iff, count_trim h, List.count_pos_iff]

theorem trim_ne_nil_iff {cs : List Char} : trim cs ≠ [] ↔ ∃ c ∈ cs, ¬isBlank c := by
  constructor
  · intro h
    by_contra hall
    simp only [not_exists, not_and, not_not] at hall
    exact h (by rw [trim, trimStart, List.dropWhile_eq_nil_iff.mpr hall]; rfl)
  · rintro ⟨c, hc, hblank⟩
    exact List.ne_nil_of_mem ((mem_trim_iff hblank).mpr hc)

end Text

namespace Lexer

theorem not_isBlank_of_isOperandChar {c : Char} (h : isOperandChar c) : ¬Text.isBlank c := by
  have hrange := toNat_of_isOperandChar h
  simp only [Text.isBlank, Bool.or_eq_true, Bool.and_eq_true, decide_eq_true_eq, List.mem_cons, List.not_mem_nil,
    or_false]
  omega

/-- Operands are not blank at their ends. -/
theorem Spelling.ends {kind : TokenKind} {lexeme : List Char} (h : Spelling kind lexeme) :
    (∀ c ∈ lexeme.head?, ¬Text.isBlank c) ∧ ∀ c ∈ lexeme.getLast?, ¬Text.isBlank c := by
  by_cases hk : kind = .string
  · subst hk
    cases h with
    | doubleQuoted =>
      rw [List.getLast?_concat]
      exact ⟨by simp [Text.isBlank], by simp [Text.isBlank]⟩
    | singleQuoted =>
      rw [List.getLast?_concat]
      exact ⟨by simp [Text.isBlank], by simp [Text.isBlank]⟩
  · have hchars := h.isOperandChar hk
    exact ⟨fun c hc => not_isBlank_of_isOperandChar (hchars c (List.mem_of_head? hc)),
      fun c hc => not_isBlank_of_isOperandChar (hchars c (List.mem_of_getLast? hc))⟩

/-- Trimming leaves an operand between blanks. -/
theorem Spelling.trim_append {kind : TokenKind} {lexeme a b : List Char} (h : Spelling kind lexeme)
    (ha : ∀ c ∈ a, isBlank c) (hb : ∀ c ∈ b, isBlank c) : Text.trim (a ++ (lexeme ++ b)) = lexeme := by
  obtain ⟨hfirst, hlast⟩ := h.ends
  exact Text.trim_append (fun c hc => Text.isBlank_of_lexer (ha c hc)) (fun c hc => Text.isBlank_of_lexer (hb c hc))
    h.ne_nil hfirst hlast

theorem Spelling.trim {kind : TokenKind} {lexeme : List Char} (h : Spelling kind lexeme) :
    Text.trim lexeme = lexeme := by
  simpa using h.trim_append (a := []) (b := []) (by simp) (by simp)

end Lexer

/-! ## Escapes -/

namespace Parser

theorem unescape_cons {c : Char} (h : c ≠ '\\') (cs : List Char) : unescape (c :: cs) = c :: unescape cs :=
  unescape.eq_2 c cs fun _ _ hc _ => h hc

theorem unescape_eq_self {cs : List Char} (h : '\\' ∉ cs) : unescape cs = cs := by
  induction cs with
  | nil => rfl
  | cons c cs ih =>
    have hc : c ≠ '\\' := fun hc => h (by simp [hc])
    rw [unescape_cons hc, ih fun hmem => h (List.mem_cons_of_mem c hmem)]

theorem length_unescape_le (cs : List Char) : (unescape cs).length ≤ cs.length := by
  induction cs using unescape.induct with
  | case1 c cs ih =>
    rw [unescape]
    simp only [List.length_cons]
    omega
  | case2 c cs hpair ih =>
    rw [unescape.eq_2 c cs hpair]
    simp only [List.length_cons]
    omega
  | case3 => exact Nat.le_refl _

/-- In a string every backslash stands in front of a character, and goes away with its escape. -/
theorem length_unescape_lt {cs : List Char} (h : '\\' ∈ stringElements cs) :
    (unescape (stringElements cs)).length < (stringElements cs).length := by
  induction cs using Lexer.stringElements.induct with
  | case1 cs => cases h
  | case2 c cs hc ih =>
    have hle := length_unescape_le (stringElements cs)
    rw [stringElements, if_neg hc, unescape]
    simp only [List.length_cons]
    omega
  | case3 c cs hpair hc =>
    rw [stringElements.eq_2 c cs hpair, if_pos hc] at h
    cases h
  | case4 c cs hpair hc ih =>
    have hslash : c ≠ '\\' := fun hslash => hc (.inr hslash)
    rw [stringElements.eq_2 c cs hpair, if_neg hc] at h ⊢
    have hlt := ih ((List.mem_cons.mp h).resolve_left hslash.symm)
    rw [unescape_cons hslash]
    simp only [List.length_cons]
    omega
  | case5 => cases h

/-- Resolving escapes changes a string exactly if it has a backslash. -/
theorem unescape_stringElements_iff (cs : List Char) :
    unescape (stringElements cs) = stringElements cs ↔ '\\' ∉ stringElements cs := by
  refine ⟨fun h hmem => ?_, unescape_eq_self⟩
  have hlt := length_unescape_lt hmem
  rw [h] at hlt
  exact Nat.lt_irrefl _ hlt

theorem unquote_double (inner : List Char) : unquote ('"' :: inner ++ ['"']) = unescape inner := by
  rw [List.cons_append, unquote.eq_2 _ (by simp), List.tail_cons, List.dropLast_concat]

theorem unquote_single (inner : List Char) : unquote ('\'' :: inner ++ ['\'']) = inner := by
  rw [List.cons_append, unquote, List.dropLast_concat]

end Parser

/-! ## Values of operands -/

namespace Operand

/-- Only the trimmed text counts. -/
theorem ofText_trim {text lexeme : List Char} (h : Text.trim text = lexeme) (h' : Text.trim lexeme = lexeme) :
    ofText text = ofText lexeme := by
  rw [ofText, ofText, h, h']

theorem unquoted?_concat (quote : Char) (inner : List Char) :
    unquoted? quote (quote :: (inner ++ [quote])) = some inner := by
  rw [unquoted?, if_pos ⟨rfl, List.getLast?_concat⟩, List.dropLast_concat]

theorem unquoted?_eq_none {quote c : Char} (h : c ≠ quote) (cs : List Char) : unquoted? quote (c :: cs) = none :=
  if_neg fun hc => h hc.1

/-- A text in quotes is the string between them. -/
theorem ofText_quoted {quote : Char} (hquote : quote = '\'' ∨ quote = '"') (inner : List Char) :
    ofText (quote :: inner ++ [quote]) = .literal (.string (String.ofList inner)) := by
  have hblank : ∀ c ∈ some quote, ¬Text.isBlank c := by
    rintro c ⟨⟩
    rcases hquote with rfl | rfl <;> decide
  have htrim : Text.trim (quote :: inner ++ [quote]) = quote :: inner ++ [quote] := by
    have h := Text.trim_append (a := []) (m := quote :: inner ++ [quote]) (b := []) (by simp) (by simp) (by simp)
      hblank (by rwa [List.getLast?_concat])
    rwa [List.nil_append, List.append_nil] at h
  have hinner := unquoted?_concat quote inner
  rw [ofText, htrim]
  rcases hquote with rfl | rfl
  · simp [hinner]
  · have hnone : unquoted? '\'' ('"' :: (inner ++ ['"'])) = none := unquoted?_eq_none (by decide) _
    simp [hinner, hnone]

/-- A text that begins with a letter or a digit and is no keyword is a number or a word. -/
theorem ofText_bare {c : Char} {cs : List Char} (h : Lexer.isWordChar c) (hkeyword : c :: cs ∉ Lexer.keywords)
    (htrim : Text.trim (c :: cs) = c :: cs) : ofText (c :: cs) = .literal (ofBare (c :: cs)) := by
  simp only [Lexer.keywords, List.mem_cons, List.not_mem_nil, or_false, not_or] at hkeyword
  obtain ⟨htrue, hfalse, hnull⟩ := hkeyword
  have hrun : c ≠ '$' := fun hc => by subst hc; exact absurd h (by decide)
  have hsingle : c ≠ '\'' := fun hc => by subst hc; exact absurd h (by decide)
  have hdouble : c ≠ '"' := fun hc => by subst hc; exact absurd h (by decide)
  rw [ofText, htrim]
  simp only [if_neg htrue, if_neg hfalse, if_neg hnull, List.head?_cons, Option.some.injEq, if_neg hrun,
    unquoted?_eq_none hsingle, unquoted?_eq_none hdouble]

theorem ofBare_int {cs : List Char} {n : Int} (h : Decimal.readInt? cs = some n) (hn : Decimal.isInt64 n) :
    ofBare cs = .int n := by
  have hread : Decimal.readInt64? cs = some n := by rw [Decimal.readInt64?, h, Option.filter_some, if_pos hn]
  rw [ofBare, hread]

/-- A text that is no whole number and begins with no sign is a decimal number or a word. -/
theorem ofBare_of_mem {c d : Char} {cs : List Char} (hc : Lexer.isWordChar c) (hmem : d ∈ c :: cs) (hd : ¬d.isDigit) :
    ofBare (c :: cs) =
      ((Decimal.readBinary64? (c :: cs)).map Literal.float).getD (.string (String.ofList (c :: cs))) := by
  have hminus : c ≠ '-' := fun h => by subst h; exact absurd hc (by decide)
  have hplus : c ≠ '+' := fun h => by subst h; exact absurd hc (by decide)
  rw [ofBare, Decimal.readInt64?_eq_none hminus hplus hmem hd]
  cases Decimal.readBinary64? (c :: cs) <;> rfl

/-- A side that is read as a string keeps all of its characters but blanks and two quotes. -/
theorem count_le_of_ofText {text : List Char} {s : String} (h : ofText text = .literal (.string s)) {c : Char}
    (hc : ¬Text.isBlank c) : text.count c ≤ s.toList.count c + 2 := by
  rw [← Text.count_trim hc]
  generalize htrim : Text.trim text = cs
  have hquoted : ∀ {quote : Char} {inner : List Char}, unquoted? quote cs = some inner →
      cs.count c ≤ inner.count c + 2 := by
    intro quote inner hinner
    unfold unquoted? at hinner
    split at hinner
    · next d ds =>
      split at hinner
      · next hds =>
        obtain ⟨ys, hys⟩ := List.getLast?_eq_some_iff.mp hds.2
        cases hinner
        have hle : [quote].count c ≤ 1 := List.count_le_length
        have hle' : ([d] : List Char).count c ≤ 1 := List.count_le_length
        rw [hys, List.dropLast_concat, ← List.singleton_append, List.count_append, List.count_append]
        omega
      · cases hinner
    · cases hinner
  simp only [ofText, htrim] at h
  split at h
  · cases h
  split at h
  · cases h
  split at h
  · cases h
  split at h
  · cases h
  split at h
  · next hinner =>
    cases h
    simpa using hquoted hinner
  · next hinner =>
    cases h
    simpa using hquoted hinner
  · simp only [ofBare] at h
    split at h
    · cases h
    · cases h
    · cases h
      simp

end Operand

/-! ## Tokens as operands -/

namespace Token

/-- The operand that a token stands for by itself. -/
inductive Stands (t : Token) : Operand → Prop
  | literal {v : Literal} : t.Denotes v → t.Stands (.literal v)
  | runtime : t.kind = .runtime → t.Stands (.runtime t.text)

/-- A string in double quotes with an escape. -/
def HasEscape (t : Token) : Prop := t.lexeme.head? = some '"' ∧ '\\' ∈ t.lexeme

instance (t : Token) : Decidable t.HasEscape := inferInstanceAs (Decidable (_ ∧ _))

/-- A string in single quotes whose last quote has an odd number of backslashes in front of it. -/
def HoldsOpen (t : Token) : Prop := t.lexeme.head? = some '\'' ∧ trailingBackslashes t.lexeme.dropLast % 2 = 1

instance (t : Token) : Decidable t.HoldsOpen := inferInstanceAs (Decidable (_ ∧ _))

theorem Stands.isOperand {t : Token} {a : Operand} (h : t.Stands a) : t.kind.isOperand := by
  cases h with
  | runtime hk => rw [hk]; rfl
  | literal hv => cases hv <;> simp_all [TokenKind.isOperand]

theorem Stands.eq_string {t : Token} {v : Literal} (h : t.Stands (.literal v)) (hk : t.kind = .string) :
    v = .string (String.ofList (Parser.unquote t.lexeme)) := by
  cases h with
  | literal hv => cases hv <;> simp_all

theorem not_hasEscape {t : Token} (h : ∀ c ∈ t.lexeme, Lexer.isOperandChar c) : ¬t.HasEscape := by
  rintro ⟨-, hmem⟩
  exact absurd (h _ hmem) (by decide)

/-- Every operand but a string is read as what it stands for. -/
theorem Stands.ofText_eq {t : Token} {a : Operand} (h : t.Stands a) (hs : Spelling t.kind t.lexeme)
    (hk : t.kind ≠ .string) : Operand.ofText t.lexeme = a := by
  have htrim := hs.trim
  obtain ⟨kind, lexeme, span⟩ := t
  simp only at hs htrim ⊢
  cases h with
  | runtime hkind =>
    subst hkind
    cases hs with
    | runtime => rw [Operand.ofText, htrim]; rfl
  | literal hv =>
    cases hv with
    | trueWord hkind => subst hkind; cases hs; rfl
    | falseWord hkind => subst hkind; cases hs; rfl
    | nullWord hkind => subst hkind; cases hs; rfl
    | string hkind => exact absurd hkind hk
    | word hkind =>
      subst hkind
      cases hs with
      | word hc _ hkeyword =>
        have hne : ∀ d, ¬Lexer.isLetter d → _ ≠ d := fun d hd heq => hd (heq ▸ hc)
        have hdigit := Lexer.not_isDigit_of_isLetter hc
        have hnone := Decimal.readBinary64?_eq_none (hne '-' (by decide)) (hne '+' (by decide)) (hne '.' (by decide))
          hdigit
        rw [Operand.ofText_bare (Lexer.isWordChar_of_isLetter hc) hkeyword htrim,
          Operand.ofBare_of_mem (Lexer.isWordChar_of_isLetter hc) List.mem_cons_self hdigit, hnone]
        rfl
    | int hkind hread hn =>
      subst hkind
      cases hs with
      | int hne hcs =>
        obtain ⟨c, cs, rfl⟩ := List.exists_cons_of_ne_nil hne
        have hc := hcs c List.mem_cons_self
        rw [Operand.ofText_bare (Lexer.isWordChar_of_isDigit hc) (Lexer.not_mem_keywords_of_isDigit hc cs) htrim,
          Operand.ofBare_int hread hn]
    | float hkind hread =>
      subst hkind
      cases hs with
      | @float whole places hne hwhole =>
        obtain ⟨c, cs, rfl⟩ := List.exists_cons_of_ne_nil hne
        have hc := hwhole c List.mem_cons_self
        simp only [List.cons_append] at htrim hread ⊢
        rw [Operand.ofText_bare (Lexer.isWordChar_of_isDigit hc) (Lexer.not_mem_keywords_of_isDigit hc _) htrim,
          Operand.ofBare_of_mem (d := '.') (Lexer.isWordChar_of_isDigit hc) (by simp) (by decide), hread]
        rfl

/-- **A token is read as what it stands for exactly if it has no escape.** -/
theorem Stands.ofText_eq_iff {t : Token} {a : Operand} (h : t.Stands a) (hs : Spelling t.kind t.lexeme) :
    Operand.ofText t.lexeme = a ↔ ¬t.HasEscape := by
  by_cases hk : t.kind = .string
  · obtain ⟨v, rfl⟩ : ∃ v, a = .literal v := by
      cases h with
      | literal => exact ⟨_, rfl⟩
      | runtime hrun => exact absurd (hk.symm.trans hrun) (by decide)
    obtain rfl := h.eq_string hk
    obtain ⟨kind, lexeme, span⟩ := t
    simp only at hk hs ⊢
    subst hk
    cases hs with
    | @doubleQuoted inside rest hinside =>
      have hescape : HasEscape ⟨.string, '"' :: stringElements inside ++ ['"'], span⟩ ↔
          '\\' ∈ stringElements inside := by
        simp [HasEscape]
      rw [hescape, ← Parser.unescape_stringElements_iff, Parser.unquote_double, Operand.ofText_quoted (.inr rfl)]
      simp only [Operand.literal.injEq, Literal.string.injEq, String.ofList_inj]
      exact eq_comm
    | @singleQuoted inner hinner =>
      have hescape : ¬HasEscape ⟨.string, '\'' :: inner ++ ['\''], span⟩ := by
        simp [HasEscape]
      rw [Parser.unquote_single, Operand.ofText_quoted (.inl rfl)]
      exact iff_of_true rfl hescape
  · have hescape := not_hasEscape (hs.isOperandChar hk)
    simp [h.ofText_eq hs hk, hescape]

/-- What a string that is held open stands for is never what a text with its lexeme and one more quote is read as. -/
theorem Stands.ofText_ne {t : Token} {a : Operand} (h : t.Stands a) (hs : Spelling t.kind t.lexeme)
    (hopen : t.HoldsOpen) {before behind : List Char} (hmem : '\'' ∈ behind) :
    Operand.ofText (before ++ (t.lexeme ++ behind)) ≠ a := by
  have hk : t.kind = .string := by
    by_contra hk
    exact absurd (hs.isOperandChar hk _ (List.mem_of_head? hopen.1)) (by decide)
  obtain ⟨v, rfl⟩ : ∃ v, a = .literal v := by
    cases h with
    | literal => exact ⟨_, rfl⟩
    | runtime hrun => exact absurd (hk.symm.trans hrun) (by decide)
  obtain rfl := h.eq_string hk
  obtain ⟨kind, lexeme, span⟩ := t
  simp only at hk hs ⊢
  subst hk
  cases hs with
  | doubleQuoted => exact absurd hopen.1 (by simp)
  | @singleQuoted inner hinner =>
    intro heq
    rw [Parser.unquote_single] at heq
    have hle := Operand.count_le_of_ofText (c := '\'') heq (by decide)
    have hpos : 0 < behind.count '\'' := List.count_pos_iff.mpr hmem
    have hzero : inner.count '\'' = 0 := List.count_eq_zero.mpr hinner
    simp only [String.toList_ofList, List.count_append, List.cons_append, List.count_cons_self] at hle
    omega

end Token

end FlowSuite
