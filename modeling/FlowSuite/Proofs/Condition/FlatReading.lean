import FlowSuite.Proofs.Condition.FlatOperands
import FlowSuite.Proofs.Condition.Reading

/-!
# Two ways to read one comparison

A comparison of two operands is read in two ways: by the grammar of conditions, and flat, by the text on both sides of
its operator (`FlatComparison.parse`). Without parentheses the grammar has three tokens for it (`Derives.comparison`),
and the flat way finds the same operator, because a token in front of it is passed over as a whole. So the two ways give
the same operands, with two exceptions, both about backslashes in strings (`FlatComparison.parse_agrees`):

* the flat way keeps a backslash in double quotes, while the grammar takes it for an escape (`Token.HasEscape`);
* the flat way takes a backslash in single quotes for an escape while it looks for the operator, but there the grammar
  keeps it. So it does not see the closing quote of a left operand behind an odd number of backslashes
  (`Token.HoldsOpen`).
-/

namespace FlowSuite

/-- The operand that a condition is by itself. -/
def Condition.operand? : Condition → Option Operand
  | literal _ v => some (.literal v)
  | runtime _ e => some (.runtime e)
  | _ => none

/-- The shape of an operand in a condition. -/
def Operand.shape : Operand → Shape
  | literal v => .literal v
  | runtime e => .runtime e

theorem Condition.shape_of_operand? {c : Condition} {a : Operand} (h : c.operand? = some a) : c.shape = a.shape := by
  cases c <;> cases h <;> rfl

/-! ## The tokens of a comparison -/

/-- The operators of the grammar are connectives and comparisons. -/
theorem Layer.operator?_cases {layer : Layer} {kind : TokenKind} {f : Shape → Shape → Shape}
    (h : layer.operator? kind = some f) :
    (∃ connective, f = .logical connective) ∨ ∃ op, f = .comparison op ∧ kind.symbol? = some op.symbol := by
  unfold Layer.operator? at h
  split at h <;> cases h
  case h_1 => exact .inl ⟨_, rfl⟩
  case h_2 => exact .inl ⟨_, rfl⟩
  all_goals exact .inr ⟨_, rfl, rfl⟩

/-- Is no parenthesis. -/
def Token.IsFlat (t : Token) : Prop := t.kind ≠ .openParen ∧ t.kind ≠ .closeParen

/-- Without parentheses an operand is one token. -/
theorem Derives.operand_eq {n : Nat} {layer : Layer} {ts : List Token} {a : Operand} (h : Derives n layer ts a.shape)
    (hflat : ∀ t ∈ ts, t.IsFlat) : ∃ t, ts = [t] ∧ t.Stands a := by
  generalize hshape : a.shape = s at h
  induction h with
  | single _ _ ih => exact ih hflat hshape
  | chain _ hop =>
    rcases Layer.operator?_cases hop with ⟨_, rfl⟩ | ⟨_, rfl, _⟩ <;> cases a <;> cases hshape
  | not => cases a <;> cases hshape
  | unary _ ih => exact ih hflat hshape
  | operand _ ih => exact ih hflat hshape
  | index => cases a <;> cases hshape
  | property => cases a <;> cases hshape
  | group hopen => exact absurd hopen (hflat _ List.mem_cons_self).1
  | literal hv =>
    cases a with
    | literal => cases hshape; exact ⟨_, rfl, .literal hv⟩
    | runtime => cases hshape
  | runtime hk =>
    cases a with
    | literal => cases hshape
    | runtime => cases hshape; exact ⟨_, rfl, .runtime hk⟩

/-- **Without parentheses a comparison of operands is three tokens.** -/
theorem Derives.comparison {n : Nat} {layer : Layer} {ts : List Token} {op : Comparison} {a b : Operand}
    (h : Derives n layer ts (.comparison op a.shape b.shape)) (hflat : ∀ t ∈ ts, t.IsFlat) :
    ∃ t o u, ts = [t, o, u] ∧ t.Stands a ∧ o.kind.symbol? = some op.symbol ∧ u.Stands b := by
  generalize hshape : Shape.comparison op a.shape b.shape = s at h
  induction h with
  | single _ _ ih => exact ih hflat hshape
  | @chain n layer inner us o vs f a' b' _ hop hl hr _ _ =>
    rcases Layer.operator?_cases hop with ⟨_, rfl⟩ | ⟨_, rfl, hsymbol⟩
    · cases hshape
    · cases hshape
      obtain ⟨t, rfl, ht⟩ := hl.operand_eq fun t ht => hflat t (List.mem_append_left _ ht)
      obtain ⟨u, rfl, hu⟩ := hr.operand_eq fun u hu =>
        hflat u (List.mem_append_right _ (List.mem_cons_of_mem _ hu))
      exact ⟨t, o, u, rfl, ht, hsymbol, hu⟩
  | not => cases hshape
  | unary _ ih => exact ih hflat hshape
  | operand _ ih => exact ih hflat hshape
  | index => cases hshape
  | property => cases hshape
  | group hopen => exact absurd hopen (hflat _ List.mem_cons_self).1
  | literal => cases hshape
  | runtime => cases hshape

/-! ## The flat reading -/

namespace FlatComparison

open Lexer (Spelling Scanned)

/-- A comparison is read at an operator that the search finds between texts that are not blank. -/
theorem parse_eq_ok {text : String} {before behind : List Char} {op : Comparison}
    (h : topLevel? text.toList = some (before, op, behind)) (hbefore : Text.trim before ≠ [])
    (hbehind : Text.trim behind ≠ []) : parse text = .ok ⟨.ofText before, op, .ofText behind⟩ := by
  simp [parse, h, hbefore, hbehind]

/-- **What is read is what stands on both sides of the operator** that the search finds, if there is something. -/
theorem parse_eq_ok_iff {text : String} {found : FlatComparison} : parse text = .ok found ↔ ∃ before behind,
    topLevel? text.toList = some (before, found.operator, behind) ∧ Text.trim before ≠ [] ∧ Text.trim behind ≠ [] ∧
      found.left = .ofText before ∧ found.right = .ofText behind := by
  constructor
  · intro h
    unfold parse at h
    split at h
    · cases h
    · next htop =>
      simp only at h
      split at h
      · cases h
      split at h
      · cases h
      · next hbefore hbehind =>
        cases h
        exact ⟨_, _, htop, by simpa using hbefore, by simpa using hbehind, rfl, rfl⟩
  · obtain ⟨left, op, right⟩ := found
    rintro ⟨before, behind, htop, hbefore, hbehind, rfl, rfl⟩
    exact parse_eq_ok htop hbefore hbehind

/-- The search goes on behind what it passes. -/
theorem Passes.splitFrom_eq {p q : Place} {cs rest before behind : List Char} {op : Comparison} (h : Passes p cs q)
    (hrest : splitFrom q rest = some (before, op, behind)) :
    splitFrom p (cs ++ rest) = some (cs ++ before, op, behind) := by
  rw [h, hrest]
  rfl

theorem passes_blanks {blanks : List Char} (h : ∀ c ∈ blanks, Lexer.isBlank c) :
    Passes (.outside 0) blanks (.outside 0) := by
  refine passes_quiet fun c hc => ?_
  have hblank := h c hc
  simp only [Lexer.isBlank, List.mem_cons, List.not_mem_nil, or_false, decide_eq_true_eq] at hblank
  rcases hblank with rfl | rfl | rfl | rfl | rfl <;> decide

/-- Three tokens stand in a text between blanks. -/
theorem exists_layout {text : List Char} {t o u e : Token} {op : Comparison}
    (h : Lexer.tokenize text = [t, o, u, e]) (ht : t.kind.isOperand) (ho : o.kind.symbol? = some op.symbol)
    (hu : u.kind.isOperand) (he : e.kind = .endOfText) :
    ∃ b₀ b₁ b₂ b₃, (∀ c ∈ b₀, Lexer.isBlank c) ∧ (∀ c ∈ b₁, Lexer.isBlank c) ∧ (∀ c ∈ b₂, Lexer.isBlank c) ∧
      (∀ c ∈ b₃, Lexer.isBlank c) ∧ Spelling t.kind t.lexeme ∧ Spelling u.kind u.lexeme ∧
      text = b₀ ++ (t.lexeme ++ (b₁ ++ (op.symbol.toList ++ (b₂ ++ (u.lexeme ++ b₃))))) ∧
      Lexer.next (op.symbol.toList ++ (b₂ ++ (u.lexeme ++ b₃))) = (o.kind, op.symbol.toList) := by
  have hscan := Lexer.scanned_tokenize text
  rw [h] at hscan
  have hne : ∀ {k : TokenKind}, k.isOperand → k ≠ .endOfText := by rintro _ hk rfl; cases hk
  obtain ⟨b₀, rest, rfl, hb₀, _, hnextt, _, hscan⟩ := hscan.of_cons (hne ht)
  obtain ⟨b₁, rest, rfl, hb₁, _, hnexto, _, hscan⟩ := hscan.of_cons (by intro hk; rw [hk] at ho; cases ho)
  obtain ⟨b₂, rest, rfl, hb₂, _, hnextu, _, hscan⟩ := hscan.of_cons (hne hu)
  have hb₃ := hscan.isBlank_of_atEnd he
  have holexeme : o.lexeme = op.symbol.toList := by
    have hspelled := Lexer.next_spelled (o.lexeme ++ (b₂ ++ (u.lexeme ++ rest))) (by rw [hnexto]; exact ho)
    rwa [hnexto] at hspelled
  rw [holexeme] at hnexto ⊢
  exact ⟨b₀, b₁, b₂, rest, hb₀, hb₁, hb₂, hb₃, Lexer.spelling_of_next hnextt ht, Lexer.spelling_of_next hnextu hu,
    rfl, hnexto⟩

/-- **The two ways to read a comparison agree but for backslashes.** A text without parentheses that the grammar reads
as a comparison of two operands has three tokens. If its left operand is not held open, it is read flat with the same
operator, and with the same operands where there is no escape in double quotes. If it is held open, it is not read flat
with that left operand. -/
theorem parse_agrees {text : String} {span : Span} {op : Comparison} {l r : Condition} {message : String}
    {a b : Operand} (h : Condition.parse text = .ok (.comparison span op l r message))
    (hflat : ∀ t ∈ Lexer.tokenize text.toList, t.IsFlat) (hl : l.operand? = some a) (hr : r.operand? = some b) :
    ∃ t o u, Condition.tokens text = [t, o, u] ∧
      (¬t.HoldsOpen → ∃ a' b', parse text = .ok ⟨a', op, b'⟩ ∧ (a' = a ↔ ¬t.HasEscape) ∧ (b' = b ↔ ¬u.HasEscape)) ∧
      (t.HoldsOpen → ∀ op' b', parse text ≠ .ok ⟨a, op', b'⟩) := by
  obtain ⟨e, htokens, he⟩ := Condition.tokenize_eq text
  rw [htokens] at hflat
  have hderives := Condition.parse_sound h
  rw [Condition.shape, Condition.shape_of_operand? hl, Condition.shape_of_operand? hr] at hderives
  obtain ⟨t, o, u, htou, ht, ho, hu⟩ := hderives.comparison fun t ht => hflat t (List.mem_append_left _ ht)
  rw [htou] at htokens
  obtain ⟨b₀, b₁, b₂, b₃, hb₀, hb₁, hb₂, hb₃, hst, hsu, htext, hnext⟩ :=
    exists_layout htokens ht.isOperand ho hu.isOperand he
  refine ⟨t, o, u, htou, fun hclosed => ?_, fun hopen op' b' hread => ?_⟩
  · have htop : topLevel? text.toList = some (b₀ ++ (t.lexeme ++ b₁), op, b₂ ++ (u.lexeme ++ b₃)) := by
      have hpass : Passes (.outside 0) (b₀ ++ (t.lexeme ++ b₁)) (.outside 0) :=
        (passes_blanks hb₀).append
          ((passes_spelling hst fun hquote hodd => hclosed ⟨hquote, hodd⟩).append (passes_blanks hb₁))
      have hfound := hpass.splitFrom_eq (splitFrom_operator ho hnext)
      rw [topLevel?, htext]
      simpa using hfound
    have hleft : Text.trim (b₀ ++ (t.lexeme ++ b₁)) = t.lexeme := hst.trim_append hb₀ hb₁
    have hright : Text.trim (b₂ ++ (u.lexeme ++ b₃)) = u.lexeme := hsu.trim_append hb₂ hb₃
    refine ⟨.ofText t.lexeme, .ofText u.lexeme, ?_, ht.ofText_eq_iff hst, hu.ofText_eq_iff hsu⟩
    rw [parse_eq_ok htop (by rw [hleft]; exact hst.ne_nil) (by rw [hright]; exact hsu.ne_nil),
      Operand.ofText_trim hleft hst.trim, Operand.ofText_trim hright hsu.trim]
  · obtain ⟨before, behind, htop, -, -, hleft, -⟩ := parse_eq_ok_iff.mp hread
    have hpass := (passes_blanks hb₀).append (passes_heldOpen hst hopen.1 hopen.2)
    rw [topLevel?, htext, ← List.append_assoc, hpass, Option.map_eq_some_iff] at htop
    obtain ⟨⟨before, _⟩, hfound, heq⟩ := htop
    cases heq
    rw [List.append_assoc] at hleft
    exact ht.ofText_ne hst hopen (mem_of_splitFrom_quoted hfound) hleft.symm

/-- An operator in quotes is no operator in either way. -/
theorem parse_agrees_quotedOperator :
    parse "\"a == 'b'\" >= 25" = .ok ⟨.literal (.string "a == 'b'"), .ge, .literal (.int 25)⟩ := by
  have hread : Condition.parse "\"a == 'b'\" >= 25" = .ok (.comparison ⟨0, 16⟩ .ge
      (.literal ⟨0, 10⟩ (.string "a == 'b'")) (.literal ⟨14, 16⟩ (.int 25)) "\"a == 'b'\" >= 25") := rfl
  obtain ⟨t, o, u, htokens, hclosed, -⟩ := parse_agrees hread (by unfold Token.IsFlat; decide) rfl rfl
  cases htokens
  obtain ⟨a, b, hread, ha, hb⟩ := hclosed (by decide)
  rw [hread, ha.mpr (by decide), hb.mpr (by decide)]

/-- A right operand with two escapes. -/
def escapedName : String := "$response.body#/name == \"say \\\"hi\\\"\""

/-- The two ways to read a comparison do not always agree: the flat one keeps the backslashes of escapes. -/
theorem not_parse_agrees_escapedName :
    ¬∀ (text : String) (span : Span) (op : Comparison) (l r : Condition) (message : String) (a b : Operand),
      Condition.parse text = .ok (.comparison span op l r message) →
      (∀ t ∈ Lexer.tokenize text.toList, t.kind ≠ .openParen ∧ t.kind ≠ .closeParen) →
      l.operand? = some a → r.operand? = some b → parse text = .ok ⟨a, op, b⟩ := by
  intro h
  have hread := h escapedName _ _ _ _ _ _ _ rfl (by decide) rfl rfl
  exact absurd hread (by decide)

end FlatComparison

end FlowSuite
