import FlowSuite.Proofs.Condition.Completeness

/-!
# Conditions are read as the grammar says

* `Condition.parse_iff_placed`: a text is read as the condition that is placed in all its tokens.
* `Condition.parse_sound`: what is read is derived from all tokens of the text.
* `Condition.parse_complete`: what is derived from all tokens of the text is read.
* `Parser.derives_unique`: the grammar is unambiguous, because the parser is a function.
* `Condition.parse_iff_derives`: all of this for a text, with the errors that cannot be.

The budget of nesting is the same in the grammar and in the parser, 64 levels, so nothing is said about breadth: a chain
may be as long as the text.
-/

namespace FlowSuite

open FlowSuite.Parser

/-- In front of the end of a text no operator and no accessor follows. -/
theorem Parser.follow_atEnd {t : Token} (h : t.kind = .endOfText) (text : String) :
    NoAccessor text [t] ∧ Stops text 0 [t] := by
  refine ⟨⟨?_, ?_⟩, ?_⟩
  · rw [look_cons, h]
    decide
  · rw [look_cons, h]
    decide
  · unfold Stops
    rw [look_cons, h]
    decide

/-- **The grammar is unambiguous.** -/
theorem Parser.derives_unique {n : Nat} {us : List Token} {t : Token} (hts : TokenStream (us ++ [t])) {a b : Shape}
    (ha : Derives n .or us a) (hb : Derives n .or us b) : a = b := by
  have hend : t.kind = .endOfText := by
    cases hts.of_append (List.cons_ne_nil t []) with
    | atEnd h => exact h
    | cons _ _ h => exact absurd rfl h.ne_nil
  have hread : Complete "" _ n .or _ := expression_complete (unary_complete "" n)
  obtain ⟨c, hc, rfl⟩ := ha.exists_placed hts.spelled ""
  obtain ⟨d, hd, rfl⟩ := hb.exists_placed hts.spelled ""
  have hcd := (hread hc (List.cons_ne_nil t []) (follow_atEnd hend "")).symm.trans
    (hread hd (List.cons_ne_nil t []) (follow_atEnd hend ""))
  cases hcd
  rfl

namespace Condition

/-- The tokens of a text before its end. -/
def tokens (text : String) : List Token := (Lexer.tokenize text.toList).takeWhile (·.kind ≠ .endOfText)

theorem tokenize_eq (text : String) :
    ∃ t, Lexer.tokenize text.toList = tokens text ++ [t] ∧ t.kind = .endOfText := by
  have hts := Lexer.tokenStream_tokenize text.toList
  obtain ⟨us, t, heq, hend⟩ := hts.exists_eq_append
  refine ⟨t, ?_, hend⟩
  rw [heq] at hts
  rw [tokens, heq, hts.takeWhile_append]

/-- Tokens are read as the condition that is placed in all of them. -/
theorem ofTokens_of_placed {text : String} {c : Condition} {us : List Token} {t : Token}
    (h : Placed text maxNesting .or us c) (hend : t.kind = .endOfText) : ofTokens text (us ++ [t]) = .ok c := by
  have hread := expression_complete (unary_complete text maxNesting) h (List.cons_ne_nil t [])
    (follow_atEnd hend text)
  simp only [ofTokens, hread, look_cons, hend]

/-- **A text is read as the condition that is placed in all its tokens.** -/
theorem parse_iff_placed {text : String} {c : Condition} :
    parse text = .ok c ↔ Placed text maxNesting .or (tokens text) c := by
  obtain ⟨t, heq, hend⟩ := tokenize_eq text
  constructor
  · intro h
    have hts := Lexer.tokenStream_tokenize text.toList
    have hr := expression_sound (unary_sound text maxNesting) _ hts
    simp only [parse, ofTokens] at h
    generalize expression text (unary text maxNesting) (Lexer.tokenize text.toList) = r at h hr
    cases hr with
    | error he => cases h
    | ok heq hd hrest =>
      simp only at h
      split at h
      · next hend =>
        cases h
        obtain ⟨t, rfl⟩ := hrest.eq_singleton text hend
        rw [heq] at hts
        rwa [tokens, heq, hts.takeWhile_append]
      all_goals cases h
  · intro h
    rw [parse, heq]
    exact ofTokens_of_placed h hend

theorem spelled_tokens (text : String) : ∀ t ∈ tokens text, t.Spelled := by
  obtain ⟨t, heq, _⟩ := tokenize_eq text
  have hts := Lexer.tokenStream_tokenize text.toList
  rw [heq] at hts
  exact hts.spelled

theorem parse_sound {text : String} {c : Condition} (h : parse text = .ok c) :
    Derives maxNesting .or (tokens text) c.shape :=
  (parse_iff_placed.mp h).derives (spelled_tokens text)

theorem parse_complete {text : String} {a : Shape} (h : Derives maxNesting .or (tokens text) a) :
    ∃ c, parse text = .ok c ∧ c.shape = a := by
  obtain ⟨c, hc, hshape⟩ := h.exists_placed (spelled_tokens text) text
  exact ⟨c, parse_iff_placed.mpr hc, hshape⟩

theorem parse_error_ofText {text : String} {e : ConditionError} (h : parse text = .error e) : e.OfText := by
  have hr := expression_sound (unary_sound text maxNesting) _ (Lexer.tokenStream_tokenize text.toList)
  simp only [parse, ofTokens] at h
  generalize expression text (unary text maxNesting) (Lexer.tokenize text.toList) = r at h hr
  cases hr with
  | error he =>
    cases h
    exact he
  | ok =>
    simp only at h
    split at h
    · cases h
    · cases h
      trivial
    · cases h
      trivial
    · cases h
      exact unexpected_ofText _ _

/-- **A text is read as a condition exactly if the grammar derives that condition from all its tokens, inside no more
than 64 parentheses and negations**, and it derives only one. The errors of flat comparisons are none of its errors. -/
theorem parse_iff_derives (text : String) :
    (∀ a, (∃ c, parse text = .ok c ∧ c.shape = a) ↔ Derives 64 .or (tokens text) a) ∧
      (∀ a b, Derives 64 .or (tokens text) a → Derives 64 .or (tokens text) b → a = b) ∧
      (∀ operator span, parse text ≠ .error (.unsupportedOperator operator span)) ∧
      ∀ condition span, parse text ≠ .error (.missingComparison condition span) := by
  refine ⟨fun a => ⟨?_, parse_complete⟩, fun a b ha hb => ?_, fun _ _ h => parse_error_ofText h,
    fun _ _ h => parse_error_ofText h⟩
  · rintro ⟨c, hc, rfl⟩
    exact parse_sound hc
  · obtain ⟨t, heq, _⟩ := tokenize_eq text
    have hts := Lexer.tokenStream_tokenize text.toList
    rw [heq] at hts
    exact derives_unique hts ha hb

end Condition

end FlowSuite
