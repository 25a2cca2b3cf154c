import FlowSuite.Proofs.Condition.Boundaries
import FlowSuite.Proofs.Condition.Faults
import FlowSuite.Proofs.Condition.FirstOperator
import FlowSuite.Criterion.Compile

/-!
# Errors are about places that can be shown

Every error about a condition names a range of bytes, and whoever shows the error cuts the text there or draws carets
under it. That never fails and never shows anything else (`errors_canBeShown`), in any script:

* an error of the parser goes from the first to the last of some tokens (`Condition.parse_error_canBeShown`);
* an error about a flat comparison is about the whole text or about the operator that was found
  (`FlatComparison.parse_error_canBeShown`);
* an error about a criterion is one of these, or about a whole condition that checks nothing
  (`Criterion.compileIn_error_canBeShown`).
-/

namespace FlowSuite

open Text (byteCount)

variable {text : String}

/-- The range of a whole text can be shown. -/
theorem Span.canBeShown_whole (text : String) : CanBeShown ⟨0, text.utf8ByteSize⟩ text.toList := by
  have hwhole := canBeShown_of_parts [] text.toList []
  rwa [List.nil_append, List.append_nil, Text.byteCount_nil, Nat.zero_add, Text.byteCount_toList] at hwhole

theorem Condition.parse_error_canBeShown {e : ConditionError} (h : parse text = .error e) :
    e.span.CanBeShown text.toList := by
  obtain ⟨us, vs, ws, htokens, hspans⟩ := parse_error_spans h
  exact (Lexer.scanned_tokenize text.toList).canBeShown ⟨us, ws, by rw [htokens, List.append_assoc]⟩ hspans

/-- The range of a condition can be shown. -/
theorem Condition.span_canBeShown {tree : Condition} (h : parse text = .ok tree) :
    tree.span.CanBeShown text.toList := by
  obtain ⟨-, before, inside, after, htext, -, hspan, -⟩ := parse_slice h .self
  rw [htext, hspan]
  exact Span.canBeShown_of_parts before inside after

theorem FlatComparison.parse_error_canBeShown {e : ConditionError} (h : parse text = .error e) :
    e.span.CanBeShown text.toList := by
  unfold parse at h
  split at h
  · cases h
    exact Span.canBeShown_whole text
  · next before op behind htop =>
    have hop : Span.CanBeShown ⟨byteCount before, byteCount before + op.symbol.utf8ByteSize⟩ text.toList := by
      rw [(topLevel?_eq_some_iff.mp htop).1, ← List.append_assoc, ← Text.byteCount_toList]
      exact Span.canBeShown_of_parts before op.symbol.toList behind
    dsimp only at h
    split at h
    · cases h
      exact hop
    · split at h
      · cases h
        exact hop
      · cases h

variable {context : String} {s : Scope} {e : CompileError} {span : Span}

theorem compileSimple_error_canBeShown (h : (compileSimple text s).1 = .error e) (hspan : e.span? = some span) :
    span.CanBeShown text.toList := by
  unfold compileSimple at h
  split at h
  · next cause hparse =>
    cases h
    cases hspan
    exact Condition.parse_error_canBeShown hparse
  · next tree hparse =>
    split at h
    · cases h
    · cases h
      cases hspan
      exact Condition.span_canBeShown hparse

theorem compilePath_error_canBeShown (h : (compilePath text context s).1 = .error e) (hspan : e.span? = some span) :
    span.CanBeShown text.toList := by
  unfold compilePath at h
  dsimp only at h
  split at h
  · cases h
  · split at h
    · next cause hparse =>
      cases h
      cases hspan
      exact FlatComparison.parse_error_canBeShown hparse
    · cases h

/-- Errors about regular expressions have no place. -/
theorem compileRegex_error_span? (h : (compileRegex text context s).1 = .error e) : e.span? = none := by
  unfold compileRegex at h
  split at h
  · next cause hregex =>
    cases h
    unfold Regex.ofText at hregex
    dsimp only at hregex
    split at hregex
    · cases hregex
      rfl
    · split at hregex
      · cases hregex
        rfl
      · cases hregex
  · cases h

theorem Criterion.compileIn_error_canBeShown {c : Criterion} {used : UsedKinds}
    (h : (c.compileIn context s used).result = .error e) (hspan : e.span? = some span) :
    span.CanBeShown c.condition.toList := by
  have herror : (c.assertions context s).1 = .error e := by
    unfold compileIn at h
    split at h
    · cases h
    · next hassertions =>
      cases h
      rw [hassertions]
  unfold Criterion.assertions at herror
  dsimp only at herror
  split at herror
  · cases herror
    cases hspan
  · exact compileSimple_error_canBeShown herror hspan
  · rw [compileRegex_error_span? herror] at hspan
    cases hspan
  · exact compilePath_error_canBeShown herror hspan

/-- **Every place that an error names can be shown in its text**: it is a range from one boundary between characters to
another one, not backwards, and its caret range covers the same characters. -/
theorem errors_canBeShown :
    (∀ text e, Condition.parse text = .error e → e.span.CanBeShown text.toList) ∧
      (∀ text e, FlatComparison.parse text = .error e → e.span.CanBeShown text.toList) ∧
      ∀ (c : Criterion) context s used e span, (c.compileIn context s used).result = .error e →
        e.span? = some span → span.CanBeShown c.condition.toList :=
  ⟨fun _ _ => Condition.parse_error_canBeShown, fun _ _ => FlatComparison.parse_error_canBeShown,
    fun _ _ _ _ _ _ => Criterion.compileIn_error_canBeShown⟩

/-- A character of two bytes in front of each place, so that bytes and carets count differently. -/
theorem errors_canBeShown_accents :
    (Condition.parse "'é' == ü" = .error (.invalidCharacter "ü" ⟨8, 10⟩) ∧ Span.CanBeShown ⟨8, 10⟩ "'é' == ü".toList ∧
        Text.charRange "'é' == ü".toList ⟨8, 10⟩ = (7, 8)) ∧
      (FlatComparison.parse "'é' ==" = .error (.missingOperand .right "==" ⟨5, 7⟩) ∧
        Span.CanBeShown ⟨5, 7⟩ "'é' ==".toList ∧ Text.charRange "'é' ==".toList ⟨5, 7⟩ = (4, 6)) ∧
      ((Criterion.compile ⟨"'é'", none, none⟩ .empty).result = .error (.missingComparison "'é'" ⟨0, 4⟩) ∧
        Span.CanBeShown ⟨0, 4⟩ "'é'".toList ∧ Text.charRange "'é'".toList ⟨0, 4⟩ = (0, 3)) := by
  obtain ⟨hparse, hflat, hcompile⟩ := errors_canBeShown
  refine ⟨⟨rfl, ?_, rfl⟩, ⟨rfl, ?_, rfl⟩, ⟨rfl, ?_, rfl⟩⟩
  · exact hparse "'é' == ü" (.invalidCharacter "ü" ⟨8, 10⟩) rfl
  · exact hflat "'é' ==" (.missingOperand .right "==" ⟨5, 7⟩) rfl
  · exact hcompile ⟨"'é'", none, none⟩ defaultContext .detached .empty (.missingComparison "'é'" ⟨0, 4⟩) ⟨0, 4⟩ rfl rfl

end FlowSuite
