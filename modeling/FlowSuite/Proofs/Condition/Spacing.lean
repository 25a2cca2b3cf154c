import FlowSuite.Proofs.Condition.LongestMatch
import FlowSuite.Proofs.Condition.Reading
import FlowSuite.Proofs.Condition.Relocation

/-!
# Blanks between tokens do not matter

`Spaced lexemes text` says that a text is made of lexemes in their order, with at least one blank between neighbours and
any blanks at both ends. If the lexemes are those of the tokens of a text without invalid tokens, then the spaced text
has the same tokens in other places (`Lexer.scanned_spaced`): each lexeme stays the longest match where a blank follows
it. The parser merges places and never asks for them, so it reads the same condition or refuses both texts with the same
error, up to places (`Condition.parse_spaced`).
-/

namespace FlowSuite

/-- A text is made of lexemes in their order, with blanks between neighbours and any blanks at both ends. -/
inductive Spaced : List (List Char) → List Char → Prop
  | nil {blanks} : (∀ c ∈ blanks, Lexer.isBlank c) → Spaced [] blanks
  | cons {blanks lexeme lexemes rest} : (∀ c ∈ blanks, Lexer.isBlank c) →
      (lexemes ≠ [] → ∃ b ∈ rest.head?, Lexer.isBlank b) → Spaced lexemes rest →
      Spaced (lexeme :: lexemes) (blanks ++ (lexeme ++ rest))

/-- What the parser asks of a token: its kind and its lexeme. -/
def Token.word (t : Token) : TokenKind × List Char := (t.kind, t.lexeme)

/-- The token of a kind and a lexeme in no particular place. -/
def Token.ofWord (word : TokenKind × List Char) : Token := ⟨word.1, word.2, .point 0⟩

/-! ## Tokens -/

/-- Behind a lexeme of a spaced text there is a blank or the end. -/
theorem Spaced.isBlank_of_head? {lexemes : List (List Char)} {rest : List Char} (h : Spaced lexemes rest)
    (hnext : lexemes ≠ [] → ∃ b ∈ rest.head?, Lexer.isBlank b) : ∀ b ∈ rest.head?, Lexer.isBlank b := by
  intro b hb
  cases h with
  | nil hblanks => exact hblanks b (List.mem_of_head? hb)
  | cons =>
    obtain ⟨c, hc, hblank⟩ := hnext (List.cons_ne_nil _ _)
    cases hc.symm.trans hb
    exact hblank

namespace Lexer

open Text (byteCount)

/-- Is next in some text and does not begin with a blank. -/
def IsNext (t : Token) : Prop := (∃ c, ¬isBlank c ∧ t.lexeme.head? = some c) ∧ ∃ text, next text = (t.kind, t.lexeme)

/-- The tokens of a text are next where they stand, but for the one at the end. -/
theorem Scanned.cases_mem {offset : Nat} {cs : List Char} {ts : List Token} (h : Scanned offset cs ts) :
    ∀ t ∈ ts, t.word = (.endOfText, []) ∨ IsNext t := by
  induction h with
  | atEnd => exact List.forall_mem_singleton.mpr (.inl rfl)
  | blank _ _ ih => exact ih
  | token hc hhead _ hnext _ ih => exact List.forall_mem_cons.mpr ⟨.inr ⟨⟨_, hc, hhead⟩, _, hnext⟩, ih⟩

/-- **A spaced text has the same tokens in other places.** -/
theorem scanned_spaced {ts : List Token} (hts : ∀ t ∈ ts, t.kind ≠ .invalid ∧ IsNext t) {cs : List Char}
    (h : Spaced (ts.map Token.lexeme) cs) (offset : Nat) :
    ∃ us, us.map Token.word = ts.map Token.word ∧ Scanned offset cs (us ++ [.atEnd (offset + byteCount cs)]) := by
  induction ts generalizing cs offset with
  | nil =>
    cases h with
    | nil hblanks =>
      refine ⟨[], rfl, ?_⟩
      have hend : Scanned (offset + byteCount cs) [] [.atEnd _] := .atEnd
      simpa only [List.append_nil, List.nil_append] using hend.append_blanks hblanks
  | cons t ts ih =>
    obtain ⟨⟨hk, hhead, text, hnext⟩, hts⟩ := List.forall_mem_cons.mp hts
    cases h with
    | @cons blanks _ _ rest hblanks hbetween h =>
      obtain ⟨us, hwords, hscanned⟩ := ih hts h (offset + byteCount blanks + byteCount t.lexeme)
      have hkept := next_blank hk hnext (h.isBlank_of_head? hbetween)
      let moved : Token :=
        { t with span := ⟨offset + byteCount blanks, offset + byteCount blanks + byteCount t.lexeme⟩ }
      refine ⟨moved :: us, congrArg (t.word :: ·) hwords, ?_⟩
      rw [Text.byteCount_append, Text.byteCount_append, ← Nat.add_assoc, ← Nat.add_assoc]
      exact Scanned.cons (t := moved) hblanks hhead hkept rfl hscanned

end Lexer

/-! ## Conditions -/

theorem Condition.shape_relocate (f : Nat → Nat) (message : String) (c : Condition) :
    (c.relocate f message).shape = c.shape := by
  induction c with
  | literal | runtime => rfl
  | index _ _ _ iho ihi => simp only [relocate, shape, iho, ihi]
  | property _ _ _ ih | not _ _ ih => simp only [relocate, shape, ih]
  | logical _ _ _ _ ihl ihr | comparison _ _ _ _ _ ihl ihr => simp only [relocate, shape, ihl, ihr]

/-- Errors that are the same in one place are the same up to their places. -/
theorem ConditionError.eq_withSpan_of_relocate {f : Nat → Nat} {e e' : ConditionError}
    (h : e.relocate f = e'.relocate f) : e' = e.withSpan e'.span := by
  have hself : e' = (e'.relocate f).withSpan e'.span := by cases e' <;> rfl
  have hother : (e.relocate f).withSpan e'.span = e.withSpan e'.span := by cases e <;> rfl
  rw [← hother, h, ← hself]

namespace Condition

/-- Tokens of the same words are read as the same condition or refused with the same error, up to places. -/
theorem ofTokens_of_words {ts us : List Token} (hts : ts ≠ []) (h : us.map Token.word = ts.map Token.word)
    (text text' : String) :
    (∀ c, ofTokens text ts = .ok c → ∃ d, ofTokens text' us = .ok d ∧ d.shape = c.shape) ∧
      ∀ e, ofTokens text ts = .error e → ∃ span, ofTokens text' us = .error (e.withSpan span) := by
  have hus : us ≠ [] := by
    rintro rfl
    exact hts (List.map_eq_nil_iff.mp h.symm)
  have hmoved : us.map (·.relocate fun _ => 0) = ts.map (·.relocate fun _ => 0) := by
    have := congrArg (List.map Token.ofWord) h
    rwa [List.map_map, List.map_map] at this
  -- both are read alike with all places forgotten
  have hsame := ofTokens_relocate (f := fun _ => 0) monotone_const text' "" hus
  rw [hmoved, ofTokens_relocate monotone_const text "" hts] at hsame
  constructor
  · intro c hc
    rw [hc] at hsame
    cases hd : ofTokens text' us with
    | error e => rw [hd] at hsame; cases hsame
    | ok d =>
      rw [hd] at hsame
      have hcd := congrArg shape (Except.ok.inj hsame)
      rw [shape_relocate, shape_relocate] at hcd
      exact ⟨d, rfl, hcd.symm⟩
  · intro e he
    rw [he] at hsame
    cases hd : ofTokens text' us with
    | ok d => rw [hd] at hsame; cases hsame
    | error e' =>
      rw [hd] at hsame
      exact ⟨e'.span, congrArg Except.error (ConditionError.eq_withSpan_of_relocate (Except.error.inj hsame))⟩

/-- **Conditions are insensitive to spacing.** A text of the lexemes of a valid text, spaced in any way, has the same
kinds of tokens and lexemes, and is read as the same condition or refused with the same error, up to places and the
texts of comparisons. -/
theorem parse_spaced {source text : String} (hvalid : ∀ t ∈ Lexer.tokenize source.toList, t.kind ≠ .invalid)
    (hspaced : Spaced ((tokens source).map Token.lexeme) text.toList) :
    (Lexer.tokenize text.toList).map (fun t => (t.kind, t.lexeme)) =
        (Lexer.tokenize source.toList).map (fun t => (t.kind, t.lexeme)) ∧
      (∀ c, parse source = .ok c → ∃ d, parse text = .ok d ∧ d.shape = c.shape) ∧
      ∀ e, parse source = .error e → ∃ span, parse text = .error (e.withSpan span) := by
  obtain ⟨t, heq, hend⟩ := tokenize_eq source
  have hmem := (Lexer.scanned_tokenize source.toList).cases_mem
  rw [heq] at hvalid hmem
  have hts : ∀ u ∈ tokens source, u.kind ≠ .invalid ∧ Lexer.IsNext u := by
    intro u hu
    have hk : u.kind ≠ .endOfText := by simpa using List.all_eq_true.mp List.all_takeWhile u hu
    have hu := List.mem_append_left [t] hu
    exact ⟨hvalid u hu, (hmem u hu).resolve_left fun hword => hk (congrArg Prod.fst hword)⟩
  have hlast : t.word = (.endOfText, []) :=
    (hmem t (by simp)).resolve_right fun ⟨_, text, hnext⟩ => Lexer.next_kind_ne text (by rw [hnext]; exact hend)
  obtain ⟨us, hwords, hscanned⟩ := Lexer.scanned_spaced hts hspaced 0
  have hall : (Lexer.tokenize text.toList).map Token.word = (Lexer.tokenize source.toList).map Token.word := by
    rw [heq, Lexer.tokenize, hscanned.eq_scan, List.map_append, List.map_append, hwords, List.map_singleton,
      List.map_singleton, hlast]
    rfl
  exact ⟨hall, ofTokens_of_words (by simp [heq]) hall source text⟩

/-- A negation of a comparison, once without blanks and once with many. -/
theorem parse_spaced_negation : ∃ d, parse " !\t( a\n>=  1 )" = .ok d ∧
    d.shape = .not (.comparison .ge (.literal (.string "a")) (.literal (.int 1))) := by
  have hlexemes : (tokens "!(a>=1)").map Token.lexeme =
      ["!".toList, "(".toList, "a".toList, ">=".toList, "1".toList, ")".toList] := rfl
  have hblank : ∀ blanks : List Char, blanks.all Lexer.isBlank = true → ∀ c ∈ blanks, Lexer.isBlank c :=
    fun _ => List.all_eq_true.mp
  have hspaced : Spaced ((tokens "!(a>=1)").map Token.lexeme) " !\t( a\n>=  1 )".toList := by
    rw [hlexemes]
    refine @Spaced.cons " ".toList _ _ "\t( a\n>=  1 )".toList (hblank _ rfl) (fun _ => ⟨'\t', rfl, rfl⟩) ?_
    refine @Spaced.cons "\t".toList _ _ " a\n>=  1 )".toList (hblank _ rfl) (fun _ => ⟨' ', rfl, rfl⟩) ?_
    refine @Spaced.cons " ".toList _ _ "\n>=  1 )".toList (hblank _ rfl) (fun _ => ⟨'\n', rfl, rfl⟩) ?_
    refine @Spaced.cons "\n".toList _ _ "  1 )".toList (hblank _ rfl) (fun _ => ⟨' ', rfl, rfl⟩) ?_
    refine @Spaced.cons "  ".toList _ _ " )".toList (hblank _ rfl) (fun _ => ⟨' ', rfl, rfl⟩) ?_
    exact @Spaced.cons " ".toList _ _ [] (hblank _ rfl) (fun h => absurd rfl h) (.nil (by simp))
  have hsource : parse "!(a>=1)" = .ok (.not ⟨0, 7⟩ (.comparison ⟨1, 7⟩ .ge (.literal ⟨2, 3⟩ (.string "a"))
      (.literal ⟨5, 6⟩ (.int 1)) "!(a>=1)")) := rfl
  obtain ⟨-, hread, -⟩ := parse_spaced (by decide) hspaced
  exact hread _ hsource

end Condition

end FlowSuite
