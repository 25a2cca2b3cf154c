import Mathlib.Order.MinMax
import FlowSuite.Proofs.Condition.Tokens

/-!
# Parsing tokens in other places

The parser never looks where a token stands: it only merges the places of tokens into the places of conditions and of
errors. So if every offset is moved by a function that keeps their order, the tokens are read as before, with the places
in what is read moved in the same way (`Condition.ofTokens_relocate`). Comparisons then show the text the tokens are
read with.

`Relocated` relates what two parsers give, and `Parser.Follows` relates the parsers. There is one statement for each
parser, up to `unary_follows`.
-/

namespace FlowSuite

/-! ## Places moved -/

/-- The range between the places that both ends are moved to. -/
def Span.map (f : Nat → Nat) (s : Span) : Span := ⟨f s.start, f s.stop⟩

theorem Span.map_merge {f : Nat → Nat} (hf : Monotone f) (s t : Span) :
    (s.merge t).map f = (s.map f).merge (t.map f) := by
  simp only [Span.map, Span.merge, hf.map_min, hf.map_max]

/-- The token moved to another place. -/
def Token.relocate (f : Nat → Nat) (t : Token) : Token := { t with span := t.span.map f }

namespace Token

@[simp] theorem relocate_kind (f : Nat → Nat) (t : Token) : (t.relocate f).kind = t.kind := rfl

@[simp] theorem relocate_lexeme (f : Nat → Nat) (t : Token) : (t.relocate f).lexeme = t.lexeme := rfl

@[simp] theorem relocate_text (f : Nat → Nat) (t : Token) : (t.relocate f).text = t.text := rfl

@[simp] theorem relocate_span (f : Nat → Nat) (t : Token) : (t.relocate f).span = t.span.map f := rfl

end Token

namespace Condition

/-- The condition with all its parts moved to other places, its comparisons showing another message. -/
def relocate (f : Nat → Nat) (message : String) : Condition → Condition
  | literal s v => literal (s.map f) v
  | runtime s e => runtime (s.map f) e
  | index s o i => index (s.map f) (o.relocate f message) (i.relocate f message)
  | property s o n => property (s.map f) (o.relocate f message) n
  | not s c => not (s.map f) (c.relocate f message)
  | logical s k l r => logical (s.map f) k (l.relocate f message) (r.relocate f message)
  | comparison s op l r _ => comparison (s.map f) op (l.relocate f message) (r.relocate f message) message

@[simp] theorem span_relocate (f : Nat → Nat) (message : String) (c : Condition) :
    (c.relocate f message).span = c.span.map f := by
  cases c <;> rfl

theorem relocate_withSpan (f : Nat → Nat) (message : String) (s : Span) (c : Condition) :
    (c.withSpan s).relocate f message = (c.relocate f message).withSpan (s.map f) := by
  cases c <;> rfl

end Condition

namespace ConditionError

/-- The same error at another part of the text. -/
def withSpan (s : Span) : ConditionError → ConditionError
  | unexpectedToken expected found _ => unexpectedToken expected found s
  | unexpectedEnd _ => unexpectedEnd s
  | unmatchedParen _ => unmatchedParen s
  | missingDelimiter d _ => missingDelimiter d s
  | invalidCharacter text _ => invalidCharacter text s
  | unsupportedOperator op _ => unsupportedOperator op s
  | missingComparison condition _ => missingComparison condition s
  | missingOperand side op _ => missingOperand side op s
  | invalidNumber text _ => invalidNumber text s
  | tooDeep _ => tooDeep s

/-- The error moved to another place. -/
def relocate (f : Nat → Nat) (e : ConditionError) : ConditionError := e.withSpan (e.span.map f)

theorem unexpected_relocate (f : Nat → Nat) (expected : String) (found : Token) :
    unexpected expected (found.relocate f) = (unexpected expected found).relocate f := by
  unfold unexpected
  rw [Token.relocate_kind]
  split <;> rfl

end ConditionError

/-! ## Parsers that follow one another -/

/-- What is read from tokens that were moved is what is read from them, moved. -/
inductive Relocated (f : Nat → Nat) (message : String) :
    Except ConditionError (Condition × List Token) → Except ConditionError (Condition × List Token) → Prop
  | ok {c ts} : ts ≠ [] → Relocated f message (.ok (c, ts)) (.ok (c.relocate f message, ts.map (·.relocate f)))
  | error {e} : Relocated f message (.error e) (.error (e.relocate f))

namespace Parser

variable {f : Nat → Nat} {message : String} {ts : List Token} (text : String)

/-- A parser reads tokens that were moved as another reads them in their places. -/
def Follows (f : Nat → Nat) (message : String) (p q : Parser) : Prop :=
  ∀ ts, ts ≠ [] → Relocated f message (p ts) (q (ts.map (·.relocate f)))

/-- Both parsers give an error, or both a condition and the tokens behind it. -/
theorem Follows.cases {p q : Parser} (h : Follows f message p q) (hts : ts ≠ []) :
    (∃ e, p ts = .error e ∧ q (ts.map (·.relocate f)) = .error (e.relocate f)) ∨
      ∃ c rest, rest ≠ [] ∧ p ts = .ok (c, rest) ∧
        q (ts.map (·.relocate f)) = .ok (c.relocate f message, rest.map (·.relocate f)) := by
  have hr := h ts hts
  generalize p ts = r at hr ⊢
  generalize q (ts.map (·.relocate f)) = r' at hr ⊢
  cases hr with
  | error => exact .inl ⟨_, rfl, rfl⟩
  | ok hrest => exact .inr ⟨_, _, hrest, rfl, rfl⟩

theorem look_map (h : ts ≠ []) : look message (ts.map (·.relocate f)) = (look text ts).relocate f := by
  cases ts with
  | nil => exact absurd rfl h
  | cons => rfl

theorem advance_map : advance (ts.map (·.relocate f)) = (advance ts).map (·.relocate f) := by
  match ts with
  | [] | [_] | _ :: _ :: _ => rfl

theorem advance_ne_nil (h : ts ≠ []) : advance ts ≠ [] := by
  match ts with
  | [] => exact h
  | [_] | _ :: _ :: _ => exact List.cons_ne_nil _ _

/-! ## Binary operators -/

theorem combine_relocate (hf : Monotone f) (op : Token) (left right : Condition) :
    combine message (op.relocate f) (left.relocate f message) (right.relocate f message) =
      ((combine text op left right).map (·.relocate f message)).mapError (·.relocate f) := by
  simp only [combine, Token.relocate_kind, Token.relocate_text, Token.relocate_span, Condition.span_relocate,
    ← Span.map_merge hf]
  cases op.kind with
  | and | or => rfl
  | _ => cases Comparison.ofSymbol? op.text <;> rfl

theorem joinFrom_follows (hf : Monotone f) {operandAbove operandAbove' : Nat → Parser}
    (hop : ∀ p, Follows f message (operandAbove p) (operandAbove' p)) (limit : Nat) :
    ∀ (turns : Nat) (left : Condition), Follows f message (joinFrom text operandAbove limit turns left)
      (joinFrom message operandAbove' limit turns (left.relocate f message))
  | 0, _, _, hts => .ok hts
  | turns + 1, left, ts, hts => by
    have hadvance := advance_ne_nil hts
    simp only [joinFrom, look_map text hts, advance_map, look_map text hadvance, Token.relocate_kind]
    split
    · exact .ok hts
    split
    · exact .error
    obtain ⟨e, hp, hq⟩ | ⟨right, rest, hrest, hp, hq⟩ := (hop (precedence (look text ts).kind)).cases hadvance
    · simp only [hp, hq]
      exact .error
    · simp only [hp, hq, combine_relocate text hf]
      cases combine text (look text ts) left right with
      | error e => exact .error
      | ok joined => exact joinFrom_follows hf hop limit turns joined rest hrest

theorem climb_follows (hf : Monotone f) {unary unary' : Parser} (hu : Follows f message unary unary') :
    ∀ limits limit, Follows f message (climb text unary limits limit) (climb message unary' limits limit)
  | 0, _ => hu
  | limits + 1, limit => by
    intro ts hts
    simp only [climb]
    obtain ⟨e, hp, hq⟩ | ⟨left, rest, hrest, hp, hq⟩ := hu.cases hts
    · simp only [hp, hq]
      exact .error
    · simp only [hp, hq, List.length_map]
      exact joinFrom_follows text hf (fun p => climb_follows hf hu limits p) limit _ left rest hrest

theorem expression_follows (hf : Monotone f) {unary unary' : Parser} (hu : Follows f message unary unary') :
    Follows f message (expression text unary) (expression message unary') :=
  climb_follows text hf hu 4 0

/-! ## Operands -/

theorem unclosed_relocate (hf : Monotone f) (delimiter : Char) (opened : Span) (found : Token) :
    unclosed delimiter (opened.map f) (found.relocate f) = (unclosed delimiter opened found).relocate f := by
  simp only [unclosed, Token.relocate_kind, Token.relocate_span, Token.relocate_text, ← Span.map_merge hf]
  split <;> rfl

theorem primary_follows (hf : Monotone f) {inner inner' : Option Parser}
    (hinner : Option.Rel (Follows f message) inner inner') :
    Follows f message (primary text inner) (primary message inner') := by
  intro ts hts
  have hadvance := advance_ne_nil hts
  simp only [primary, look_map text hts, advance_map, look_map text hadvance, Token.relocate_kind,
    Token.relocate_text, Token.relocate_lexeme, Token.relocate_span, ConditionError.unexpected_relocate]
  cases (look text ts).kind with
  | openParen =>
    simp only
    split
    · exact .error
    cases hinner with
    | none => exact .error
    | @some unary unary' hu =>
      obtain ⟨e, hp, hq⟩ | ⟨c, rest, hrest, hp, hq⟩ := (expression_follows text hf hu).cases hadvance
      · simp only [hp, hq]
        exact .error
      · simp only [hp, hq, look_map text hrest, Token.relocate_kind, Token.relocate_span, ← Span.map_merge hf,
          ← Condition.relocate_withSpan, unclosed_relocate hf, advance_map]
        split
        · exact .ok (advance_ne_nil hrest)
        · exact .error
  | int =>
    simp only
    cases Decimal.readInt64? (look text ts).lexeme with
    | none => exact .error
    | some => exact .ok hadvance
  | float =>
    simp only
    cases Decimal.readBinary64? (look text ts).lexeme with
    | none => exact .error
    | some => exact .ok hadvance
  | string | trueWord | falseWord | nullWord | word | runtime => exact .ok hadvance
  | _ => exact .error

theorem accessorsFrom_follows (hf : Monotone f) {primary primary' : Parser} (hp : Follows f message primary primary') :
    ∀ (turns : Nat) (object : Condition), Follows f message (accessorsFrom text primary turns object)
      (accessorsFrom message primary' turns (object.relocate f message))
  | 0, _, _, hts => .ok hts
  | turns + 1, object, ts, hts => by
    have hadvance := advance_ne_nil hts
    simp only [accessorsFrom, look_map text hts, advance_map, look_map text hadvance,
      Token.relocate_kind, Token.relocate_span, Token.relocate_text, Condition.span_relocate, ← Span.map_merge hf,
      ConditionError.unexpected_relocate]
    split
    · split
      · exact .error
      obtain ⟨e, hp', hq⟩ | ⟨index, rest, hrest, hp', hq⟩ := hp.cases hadvance
      · simp only [hp', hq]
        exact .error
      · simp only [hp', hq, look_map text hrest, Token.relocate_kind, Token.relocate_span, ← Span.map_merge hf,
          unclosed_relocate hf, advance_map]
        split
        · exact accessorsFrom_follows hf hp turns (.index _ object index) _ (advance_ne_nil hrest)
        · exact .error
    · split
      · exact accessorsFrom_follows hf hp turns (.property _ object _) _ (advance_ne_nil hadvance)
      · exact .error
    · exact .ok hts

theorem operand_follows (hf : Monotone f) {inner inner' : Option Parser}
    (hinner : Option.Rel (Follows f message) inner inner') :
    Follows f message (operand text inner) (operand message inner') := by
  intro ts hts
  have hprimary : Follows f message (primary text inner) (primary message inner') := primary_follows text hf hinner
  simp only [operand]
  obtain ⟨e, hp, hq⟩ | ⟨c, rest, hrest, hp, hq⟩ := hprimary.cases hts
  · simp only [hp, hq]
    exact .error
  · simp only [hp, hq, List.length_map]
    exact accessorsFrom_follows text hf hprimary _ c rest hrest

theorem unaryWith_follows (hf : Monotone f) {inner inner' : Option Parser}
    (hinner : Option.Rel (Follows f message) inner inner') :
    Follows f message (unaryWith text inner) (unaryWith message inner') := by
  intro ts hts
  have hadvance := advance_ne_nil hts
  simp only [unaryWith, look_map text hts, advance_map, Token.relocate_kind, Token.relocate_span]
  split
  · cases hinner with
    | none => exact .error
    | @some unary unary' hu =>
      obtain ⟨e, hp, hq⟩ | ⟨c, rest, hrest, hp, hq⟩ := hu.cases hadvance
      · simp only [hp, hq]
        exact .error
      · simp only [hp, hq, Condition.span_relocate, ← Span.map_merge hf]
        exact .ok hrest
  · exact operand_follows text hf hinner ts hts

/-- **Levels of nesting follow one another.** -/
theorem unary_follows (hf : Monotone f) : ∀ levels, Follows f message (unary text levels) (unary message levels)
  | 0 => unaryWith_follows text hf .none
  | levels + 1 => unaryWith_follows text hf (.some (unary_follows hf levels))

end Parser

/-- **Tokens that were moved are read as the same condition, or refused with the same error, moved.** -/
theorem Condition.ofTokens_relocate {f : Nat → Nat} (hf : Monotone f) (text message : String) {ts : List Token}
    (hts : ts ≠ []) : ofTokens message (ts.map (·.relocate f)) =
      ((ofTokens text ts).map (·.relocate f message)).mapError (·.relocate f) := by
  have hunary : Parser.Follows f message _ _ := Parser.unary_follows text hf maxNesting
  unfold ofTokens
  obtain ⟨e, hp, hq⟩ | ⟨c, rest, hrest, hp, hq⟩ := (Parser.expression_follows text hf hunary).cases hts
  · simp only [hp, hq]
    rfl
  · simp only [hp, hq, Parser.look_map text hrest, Token.relocate_kind, Token.relocate_text, Token.relocate_span,
      ConditionError.unexpected_relocate]
    cases (Parser.look text rest).kind <;> rfl

end FlowSuite
