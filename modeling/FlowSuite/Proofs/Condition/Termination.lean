import FlowSuite.Proofs.Condition.Soundness
import FlowSuite.Proofs.Condition.UnboundedReading

/-!
# Reading ends

Reading without bounds gives what the parser gives, so it ends on all tokens (`start_cases`), and each part of it ends
wherever it begins (`exists_follows`). A part of a condition `Follows` a parser at a depth if, wherever so many
parentheses and negations are open, both give the same condition or the same error; behind a condition the same tokens
are ahead, no more than before, and as many parentheses and negations are open.

Tokens alone are no measure, because the last one is never passed. What goes down instead:

* the levels left for parentheses and negations, which stop nesting at the last token (`unary_follows`);
* the limits, as an operand takes only operators that bind tighter (`climb_follows`);
* the tokens ahead in a loop: an operator or a bracket that stays ahead would be read as an operand, and neither is one
  (`joinFrom_agrees`, `accessorsFrom_agrees`).
-/

namespace FlowSuite

namespace Reading

/-! ## Agreement -/

/-- With enough calls a reading gives what a parser gives of the tokens ahead: the same condition, with the tokens
behind it ahead and as many parentheses and negations open as before, or the same error. -/
inductive Agrees (tokens : List Token) (p : Progress) :
    Except ConditionError (Condition × List Token) → (Nat → Outcome Condition) → Prop
  | ok {outcomes : Nat → Outcome Condition} {c : Condition} {q : Progress} :
      (q.ahead tokens).length ≤ (p.ahead tokens).length → q.depth = p.depth →
      (∀ᶠ calls in Filter.atTop, outcomes calls = some (.ok (c, q))) →
      Agrees tokens p (.ok (c, q.ahead tokens)) outcomes
  | error {outcomes : Nat → Outcome Condition} {e : ConditionError} :
      (∀ᶠ calls in Filter.atTop, outcomes calls = some (.error e)) → Agrees tokens p (.error e) outcomes

/-- A part agrees with a parser wherever so many parentheses and negations are open. -/
def Follows (text : String) (tokens : List Token) (depth : Nat) (parser : Parser) (part : Part) : Prop :=
  ∀ p : Progress, p.depth = depth →
    Agrees tokens p (parser (p.ahead tokens)) fun calls => (readWithin text tokens calls part).outcome p

section

variable {text : String} {tokens : List Token} {p : Progress} {depth : Nat} {parser : Parser} {part : Part}
variable {r : Except ConditionError (Condition × List Token)} {outcomes others : Nat → Outcome Condition}

theorem Agrees.pure {q : Progress} {c : Condition} (hlength : (q.ahead tokens).length ≤ (p.ahead tokens).length)
    (hdepth : q.depth = p.depth) :
    Agrees tokens p (.ok (c, q.ahead tokens)) fun _ => (Pure.pure c : Reading Condition).outcome q :=
  .ok hlength hdepth (.of_forall fun _ => rfl)

theorem Agrees.throw {q : Progress} {e : ConditionError} :
    Agrees tokens p (.error e) fun _ => (MonadExcept.throw e : Reading Condition).outcome q :=
  .error (.of_forall fun _ => rfl)

theorem Agrees.trans {q : Progress} (h : Agrees tokens q r outcomes)
    (hlength : (q.ahead tokens).length ≤ (p.ahead tokens).length) (hdepth : q.depth = p.depth) :
    Agrees tokens p r outcomes := by
  cases h with
  | ok hle heq hends => exact .ok (Nat.le_trans hle hlength) (heq.trans hdepth) hends
  | error hends => exact .error hends

theorem Agrees.of_eventually (h : Agrees tokens p r others)
    (hlike : ∀ o, (∀ᶠ calls in Filter.atTop, others calls = o) → ∀ᶠ calls in Filter.atTop, outcomes calls = o) :
    Agrees tokens p r outcomes := by
  cases h with
  | ok hlength hdepth hends => exact .ok hlength hdepth (hlike _ hends)
  | error hends => exact .error (hlike _ hends)

theorem Agrees.congr (hsame : ∀ᶠ calls in Filter.atTop, outcomes calls = others calls)
    (h : Agrees tokens p r others) : Agrees tokens p r outcomes :=
  h.of_eventually fun _ hends => hsame.mp (hends.mono fun _ hend hstep => hstep.trans hend)

theorem Agrees.of_body {q : Progress}
    (h : Agrees tokens p r fun calls => (body text tokens (readWithin text tokens calls) part).outcome q) :
    Agrees tokens p r fun calls => (readWithin text tokens calls part).outcome q :=
  h.of_eventually fun _ => eventually_of_body

theorem Follows.cases (h : Follows text tokens depth parser part) (hp : p.depth = depth) :
    (∃ e, parser (p.ahead tokens) = .error e ∧ Ends text tokens part p (.error e)) ∨
      ∃ c q, (q.ahead tokens).length ≤ (p.ahead tokens).length ∧ q.depth = p.depth ∧
        parser (p.ahead tokens) = .ok (c, q.ahead tokens) ∧ Ends text tokens part p (.ok (c, q)) := by
  have hagrees := h p hp
  generalize parser (p.ahead tokens) = r at hagrees ⊢
  cases hagrees with
  | error hends => exact .inl ⟨_, rfl, hends⟩
  | ok hlength hdepth hends => exact .inr ⟨_, _, hlength, hdepth, rfl, hends⟩

/-- Inside of one more parenthesis or negation the same two cases, and behind it as many are open as before. -/
theorem Follows.nested_cases (h : Follows text tokens (depth + 1) parser part) (hp : p.depth = depth)
    (hfits : depth < maxNesting) (span : Span) :
    (∃ e, parser (p.ahead tokens) = .error e ∧ ∀ f : Nat → Condition → Reading Condition,
        ∀ᶠ calls in Filter.atTop,
          (do nest span; let c ← readWithin text tokens calls part; unnest; f calls c : Reading Condition).outcome p =
            some (.error e)) ∨
      ∃ c q, (q.ahead tokens).length ≤ (p.ahead tokens).length ∧ q.depth = p.depth ∧
        parser (p.ahead tokens) = .ok (c, q.ahead tokens) ∧ ∀ f : Nat → Condition → Reading Condition,
          ∀ᶠ calls in Filter.atTop,
            (do nest span; let c ← readWithin text tokens calls part; unnest; f calls c : Reading Condition).outcome p =
              (f calls c).outcome q := by
  have hlt : p.depth < maxNesting := by rwa [hp]
  obtain ⟨e, hparser, hends⟩ | ⟨c, q, hlength, hdepth, hparser, hends⟩ :=
    h.cases (p := p.deeper) (by rw [Progress.depth_deeper, hp])
  · refine .inl ⟨e, hparser, fun f => ?_⟩
    simp only [nest_bind_of_lt hlt]
    exact hends.bind_error _
  · refine .inr ⟨c, q.shallower, hlength, by simp [hdepth], hparser, fun f => ?_⟩
    simp only [nest_bind_of_lt hlt]
    exact (hends.bind_ok _).mono fun _ hstep => hstep.trans (unnest_bind _)

theorem length_ahead_next_le : ((p.next tokens).ahead tokens).length ≤ (p.ahead tokens).length := by
  rw [Progress.ahead_next]
  match p.ahead tokens with
  | [] | [_] | _ :: _ :: _ => simp [Parser.advance]

/-- A step either passes a token or stays at the last one. -/
theorem next_cases : ((p.next tokens).ahead tokens).length < (p.ahead tokens).length ∨
    (p.next tokens).ahead tokens = p.ahead tokens := by
  rw [Progress.ahead_next]
  match p.ahead tokens with
  | [] | [_] => exact .inr rfl
  | _ :: _ :: _ => exact .inl (Nat.lt_succ_self _)

/-! ## Operators in place of operands -/

/-- The parser refuses tokens in front of which an operator stands. -/
def Refuses (text : String) (parser : Parser) : Prop :=
  ∀ ts, 0 < Parser.precedence (Parser.look text ts).kind → ∃ e, parser ts = .error e

/-- Every token but an opening parenthesis is read by itself. -/
theorem primary_eq_leaf (inner : Option Parser) {ts : List Token} (h : (Parser.look text ts).kind ≠ .openParen) :
    Parser.primary text inner ts = (leaf (Parser.look text ts)).map (·, Parser.advance ts) := by
  simp only [Parser.primary, leaf]
  generalize (Parser.look text ts).kind = kind at h
  cases kind with
  | openParen => exact absurd rfl h
  | int => cases Decimal.readInt64? (Parser.look text ts).lexeme <;> rfl
  | float => cases Decimal.readBinary64? (Parser.look text ts).lexeme <;> rfl
  | _ => rfl

theorem leaf_of_operator {t : Token} (h : 0 < Parser.precedence t.kind) : ∃ e, leaf t = .error e := by
  unfold leaf
  generalize t.kind = kind at h
  cases kind with
  | equal | notEqual | less | lessOrEqual | greater | greaterOrEqual | and | or => exact ⟨_, rfl⟩
  | _ => exact absurd h (by decide)

theorem refuses_unaryWith (inner : Option Parser) : Refuses text (Parser.unaryWith text inner) := by
  intro ts h
  have hne {kind : TokenKind} (hkind : Parser.precedence kind = 0) : (Parser.look text ts).kind ≠ kind := by
    rintro rfl
    omega
  have hnot : (Parser.look text ts).kind ≠ .not := hne rfl
  obtain ⟨e, he⟩ := leaf_of_operator h
  have hprimary : Parser.primary text inner ts = .error e := by
    rw [primary_eq_leaf inner (hne rfl), he]
    rfl
  exact ⟨e, by simp only [Parser.unaryWith, if_neg hnot, Parser.operand, hprimary]⟩

theorem Refuses.climb {unary : Parser} (h : Refuses text unary) (limits limit : Nat) :
    Refuses text (Parser.climb text unary limits limit) := by
  intro ts hts
  obtain ⟨e, he⟩ := h ts hts
  cases limits with
  | zero => exact ⟨e, he⟩
  | succ limits => exact ⟨e, by simp only [Parser.climb, he]⟩

/-! ## Chains -/

/-- Where every operand that is read agrees, further operators and operands do. -/
theorem joinFrom_agrees {operandAbove : Nat → Parser} {limit : Nat}
    (hop : ∀ above, limit < above → Follows text tokens depth (operandAbove above) (.expression above))
    (hrefuse : ∀ above, Refuses text (operandAbove above)) :
    ∀ (turns : Nat) (left : Condition) (p : Progress), p.depth = depth → (p.ahead tokens).length ≤ turns →
      Agrees tokens p (Parser.joinFrom text operandAbove limit turns left (p.ahead tokens))
        fun calls => (readWithin text tokens calls (.joinFrom limit left)).outcome p
  | 0, left, p, _, hturns => by
    have hnil : p.ahead tokens = [] := List.eq_nil_of_length_eq_zero (Nat.le_zero.mp hturns)
    have hnone : Parser.precedence (Parser.look text (p.ahead tokens)).kind = 0 := by rw [hnil]; rfl
    refine .of_body ?_
    simp only [body, joinFrom, current_bind, if_pos (Or.inl hnone)]
    exact .pure (Nat.le_refl _) rfl
  | turns + 1, left, p, hp, hturns => by
    refine .of_body ?_
    simp only [body, joinFrom, current_bind, Parser.joinFrom]
    by_cases hlimit : Parser.precedence (Parser.look text (p.ahead tokens)).kind ≤ limit
    · simp only [if_pos hlimit, if_pos (Or.inr hlimit)]
      exact .pure (Nat.le_refl _) rfl
    have hbinds : ¬(Parser.precedence (Parser.look text (p.ahead tokens)).kind = 0 ∨
        Parser.precedence (Parser.look text (p.ahead tokens)).kind ≤ limit) := by omega
    simp only [if_neg hlimit, if_neg hbinds, advance_bind, current_bind, ← Progress.ahead_next]
    split
    · exact .throw
    obtain ⟨e, hparser, hends⟩ | ⟨right, q, hlength, hdepth, hparser, hends⟩ :=
      (hop _ (Nat.lt_of_not_le hlimit)).cases ((Progress.depth_next tokens p).trans hp)
    · rw [hparser]
      exact .error (hends.bind_error _)
    rw [hparser]
    refine .congr (hends.bind_ok _) ?_
    simp only [ofExcept_bind]
    cases Parser.combine text (Parser.look text (p.ahead tokens)) left right with
    | error e => exact .error (.of_forall fun _ => rfl)
    | ok joined =>
      -- the operator was passed, or else it would have been read as an operand
      have hpassed : ((p.next tokens).ahead tokens).length < (p.ahead tokens).length := by
        refine next_cases.resolve_right fun hstays => ?_
        obtain ⟨e, he⟩ := hrefuse (Parser.precedence (Parser.look text (p.ahead tokens)).kind)
          ((p.next tokens).ahead tokens) (by rw [hstays]; omega)
        cases hparser.symm.trans he
      have hmore := joinFrom_agrees hop hrefuse turns joined q (by rw [hdepth, Progress.depth_next, hp]) (by omega)
      exact hmore.trans (by omega) (by rw [hdepth, Progress.depth_next])

/-- Operands of operators agree, up to the limit that no operator passes. -/
theorem climb_follows (h : Follows text tokens depth parser .unary) (hrefuse : Refuses text parser) :
    ∀ limits limit, 4 ≤ limits + limit →
      Follows text tokens depth (Parser.climb text parser limits limit) (.expression limit)
  | 0, limit, hlimit => by
    intro p hp
    refine .of_body ?_
    rw [Parser.climb]
    obtain ⟨e, hparser, hends⟩ | ⟨left, q, hlength, hdepth, hparser, hends⟩ := h.cases hp
    · rw [hparser]
      exact .error (hends.bind_error _)
    · rw [hparser]
      refine .congr (hends.bind_ok _) ?_
      have hloose : Parser.precedence (Parser.look text (q.ahead tokens)).kind ≤ limit :=
        Nat.le_trans (Parser.precedence_le _) (by omega)
      refine .of_body ?_
      simp only [body, joinFrom, current_bind, if_pos (Or.inr hloose)]
      exact .pure hlength hdepth
  | limits + 1, limit, hlimit => by
    intro p hp
    refine .of_body ?_
    simp only [Parser.climb]
    obtain ⟨e, hparser, hends⟩ | ⟨left, q, hlength, hdepth, hparser, hends⟩ := h.cases hp
    · rw [hparser]
      exact .error (hends.bind_error _)
    · rw [hparser]
      refine .congr (hends.bind_ok _) ?_
      have hop : ∀ above, limit < above →
          Follows text tokens depth (Parser.climb text parser limits above) (.expression above) :=
        fun above habove => climb_follows h hrefuse limits above (by omega)
      have hmore := joinFrom_agrees hop (fun above => hrefuse.climb limits above) _ left q (hdepth.trans hp)
        (Nat.le_refl _)
      exact hmore.trans hlength hdepth

theorem expression_follows (h : Follows text tokens depth parser .unary) (hrefuse : Refuses text parser) :
    Follows text tokens depth (Parser.expression text parser) (.expression 0) :=
  climb_follows h hrefuse 4 0 (Nat.le_refl 4)

/-! ## Operands -/

/-- What a parser has to read inside of so many parentheses and negations: nothing where they are too many, or else
what is read there. -/
inductive Encloses (text : String) (tokens : List Token) (depth : Nat) : Option Parser → Prop
  | none : maxNesting ≤ depth → Encloses text tokens depth none
  | some {parser : Parser} : depth < maxNesting → Follows text tokens (depth + 1) parser .unary →
      Refuses text parser → Encloses text tokens depth (some parser)

variable {inner : Option Parser}

theorem primary_follows (h : Encloses text tokens depth inner) :
    Follows text tokens depth (Parser.primary text inner) .primary := by
  intro p hp
  refine .of_body ?_
  simp only [body, primary, current_bind]
  by_cases hopen : (Parser.look text (p.ahead tokens)).kind = .openParen
  · simp only [if_pos hopen, advance_bind, current_bind]
    simp only [Parser.primary, hopen, ← Progress.ahead_next]
    split
    · exact .throw
    have hdepth : (p.next tokens).depth = depth := (Progress.depth_next tokens p).trans hp
    cases h with
    | none htoo => exact .error (.of_forall fun _ => nest_bind_of_le (by rwa [hdepth]) _ _)
    | some hfits hunary hrefuse =>
      obtain ⟨e, hparser, hends⟩ | ⟨c, q, hlength, hback, hparser, hends⟩ :=
        (expression_follows hunary hrefuse).nested_cases hdepth hfits (Parser.look text (p.ahead tokens)).span
      · simp only [hparser]
        exact .error (hends _)
      refine .congr (hends _) ?_
      simp only [hparser, current_bind]
      split
      · simp only [advance_bind, ← Progress.ahead_next]
        exact .pure (Nat.le_trans length_ahead_next_le (Nat.le_trans hlength length_ahead_next_le)) (by simp [hback])
      · exact .throw
  · simp only [if_neg hopen, advance_bind, primary_eq_leaf inner hopen]
    cases leaf (Parser.look text (p.ahead tokens)) with
    | error e => exact .throw
    | ok c =>
      rw [← Progress.ahead_next]
      exact .pure length_ahead_next_le (Progress.depth_next tokens p)

/-- The parser of what stands between brackets. -/
def indexParser (text : String) (inner : Option Parser) : Parser := fun ts =>
  if (Parser.look text ts).kind = .closeBracket then .error (.unexpected "index" (Parser.look text ts))
  else Parser.primary text inner ts

theorem accessorsFrom_openBracket {ts : List Token} (h : (Parser.look text ts).kind = .openBracket)
    (object : Condition) (turns : Nat) :
    Parser.accessorsFrom text (Parser.primary text inner) (turns + 1) object ts =
      match indexParser text inner (Parser.advance ts) with
      | .error e => .error e
      | .ok (index, rest) =>
        if (Parser.look text rest).kind = .closeBracket then
          Parser.accessorsFrom text (Parser.primary text inner) turns
            (.index (object.span.merge (Parser.look text rest).span) object index) (Parser.advance rest)
        else .error (Parser.unclosed ']' (Parser.look text ts).span (Parser.look text rest)) := by
  simp only [Parser.accessorsFrom, h, indexParser]
  split <;> rfl

/-- A bracket is not what stands between brackets. -/
theorem indexParser_openBracket {ts : List Token} (h : (Parser.look text ts).kind = .openBracket) :
    ∃ e, indexParser text inner ts = .error e := by
  have hclose : (Parser.look text ts).kind ≠ .closeBracket := by rw [h]; decide
  have hopen : (Parser.look text ts).kind ≠ .openParen := by rw [h]; decide
  rw [indexParser, if_neg hclose, primary_eq_leaf inner hopen, leaf, h]
  exact ⟨_, rfl⟩

theorem index_follows (h : Encloses text tokens depth inner) :
    Follows text tokens depth (indexParser text inner) .index := by
  intro p hp
  refine .of_body ?_
  simp only [body, index, current_bind, indexParser]
  split
  · exact .throw
  · exact primary_follows h p hp

/-- Further indices and names agree. -/
theorem accessorsFrom_agrees (h : Encloses text tokens depth inner) :
    ∀ (turns : Nat) (object : Condition) (p : Progress), p.depth = depth → (p.ahead tokens).length ≤ turns →
      Agrees tokens p (Parser.accessorsFrom text (Parser.primary text inner) turns object (p.ahead tokens))
        fun calls => (readWithin text tokens calls (.accessorsFrom object)).outcome p
  | 0, object, p, _, hturns => by
    have hnil : p.ahead tokens = [] := List.eq_nil_of_length_eq_zero (Nat.le_zero.mp hturns)
    have hend : Parser.look text (p.ahead tokens) = .atEnd text.utf8ByteSize := by rw [hnil]; rfl
    refine .of_body ?_
    simp only [body, accessorsFrom, current_bind, hend]
    exact .pure (Nat.le_refl _) rfl
  | turns + 1, object, p, hp, hturns => by
    refine .of_body ?_
    simp only [body, accessorsFrom, current_bind]
    have hdepth : (p.next tokens).depth = depth := (Progress.depth_next tokens p).trans hp
    -- what stands behind a bracket or a point cannot be that same token
    have hpassed (hmoved : (p.next tokens).ahead tokens ≠ p.ahead tokens) :
        ((p.next tokens).ahead tokens).length ≤ turns := by
      have hless := next_cases.resolve_right hmoved
      omega
    cases hkind : (Parser.look text (p.ahead tokens)).kind with
    | openBracket =>
      simp only [accessorsFrom_openBracket hkind, advance_bind, ← Progress.ahead_next]
      obtain ⟨e, hparser, hends⟩ | ⟨index, q, hlength, hback, hparser, hends⟩ := (index_follows h).cases hdepth
      · rw [hparser]
        exact .error (hends.bind_error _)
      have hmoved : (p.next tokens).ahead tokens ≠ p.ahead tokens := by
        intro hstays
        rw [hstays] at hparser
        obtain ⟨e, he⟩ := indexParser_openBracket hkind
        cases he.symm.trans hparser
      rw [hparser]
      refine .congr (hends.bind_ok _) ?_
      simp only [current_bind]
      split
      · simp only [advance_bind, ← Progress.ahead_next]
        have hshort := hpassed hmoved
        have hmore := accessorsFrom_agrees h turns
          (.index (object.span.merge (Parser.look text (q.ahead tokens)).span) object index) (q.next tokens)
          (by rw [Progress.depth_next, hback, hdepth]) (Nat.le_trans length_ahead_next_le (Nat.le_trans hlength hshort))
        exact hmore.trans (Nat.le_trans length_ahead_next_le (Nat.le_trans hlength length_ahead_next_le))
          (by simp [hback])
      · exact .throw
    | dot =>
      simp only [Parser.accessorsFrom, hkind, advance_bind, current_bind, ← Progress.ahead_next]
      split
      · next hname =>
        have hmoved : (p.next tokens).ahead tokens ≠ p.ahead tokens := by
          intro hstays
          rw [hstays, hkind] at hname
          cases hname
        simp only [advance_bind]
        have hmore := accessorsFrom_agrees h turns
          (.property (object.span.merge (Parser.look text ((p.next tokens).ahead tokens)).span) object
            (Parser.look text ((p.next tokens).ahead tokens)).text) ((p.next tokens).next tokens)
          (by rw [Progress.depth_next, hdepth]) (Nat.le_trans length_ahead_next_le (hpassed hmoved))
        exact hmore.trans (Nat.le_trans length_ahead_next_le length_ahead_next_le) (by simp)
      · exact .throw
    | _ =>
      simp only [Parser.accessorsFrom, hkind]
      exact .pure (Nat.le_refl _) rfl

theorem operand_follows (h : Encloses text tokens depth inner) :
    Follows text tokens depth (Parser.operand text inner) .operand := by
  intro p hp
  refine .of_body ?_
  simp only [Parser.operand]
  obtain ⟨e, hparser, hends⟩ | ⟨c, q, hlength, hdepth, hparser, hends⟩ := (primary_follows h).cases hp
  · rw [hparser]
    exact .error (hends.bind_error _)
  · rw [hparser]
    refine .congr (hends.bind_ok _) ?_
    exact (accessorsFrom_agrees h _ c q (hdepth.trans hp) (Nat.le_refl _)).trans hlength hdepth

/-! ## Whole conditions -/

theorem unaryWith_follows (h : Encloses text tokens depth inner) :
    Follows text tokens depth (Parser.unaryWith text inner) .unary := by
  intro p hp
  refine .of_body ?_
  simp only [body, unary, current_bind, Parser.unaryWith]
  split
  · simp only [advance_bind, ← Progress.ahead_next]
    have hdepth : (p.next tokens).depth = depth := (Progress.depth_next tokens p).trans hp
    cases h with
    | none htoo => exact .error (.of_forall fun _ => nest_bind_of_le (by rwa [hdepth]) _ _)
    | some hfits hunary hrefuse =>
      obtain ⟨e, hparser, hends⟩ | ⟨c, q, hlength, hback, hparser, hends⟩ :=
        hunary.nested_cases hdepth hfits (Parser.look text (p.ahead tokens)).span
      · simp only [hparser]
        exact .error (hends _)
      · refine .congr (hends _) ?_
        simp only [hparser]
        exact .pure (Nat.le_trans hlength length_ahead_next_le) (by simp [hback])
  · exact operand_follows h p hp

/-- As many levels as are left for parentheses and negations are enough. -/
theorem unary_follows : ∀ levels depth, levels = maxNesting - depth →
    Follows text tokens depth (Parser.unary text levels) .unary ∧ Refuses text (Parser.unary text levels)
  | 0, depth, h => ⟨unaryWith_follows (.none (by omega)), refuses_unaryWith none⟩
  | levels + 1, depth, h => by
    obtain ⟨hfollows, hrefuse⟩ := unary_follows levels (depth + 1) (by omega)
    exact ⟨unaryWith_follows (.some (by omega) hfollows hrefuse), refuses_unaryWith _⟩

theorem exists_encloses (text : String) (tokens : List Token) (depth : Nat) :
    ∃ inner, Encloses text tokens depth inner := by
  by_cases h : depth < maxNesting
  · obtain ⟨hfollows, hrefuse⟩ := unary_follows (maxNesting - (depth + 1)) (depth + 1) rfl
    exact ⟨_, .some h hfollows hrefuse⟩
  · exact ⟨_, .none (Nat.le_of_not_lt h)⟩

/-- The parser of a condition behind which nothing stands but the end. -/
def wholeParser (text : String) (unary : Parser) : Parser := fun ts =>
  match Parser.expression text unary ts with
  | .error e => .error e
  | .ok (c, ts) =>
    let t := Parser.look text ts
    match t.kind with
    | .endOfText => .ok (c, ts)
    | .closeParen => .error (.unmatchedParen t.span)
    | .invalid => .error (.invalidCharacter t.text t.span)
    | _ => .error (.unexpected "operator or end of input" t)

theorem ofTokens_eq_wholeParser (text : String) (ts : List Token) :
    Condition.ofTokens text ts = (wholeParser text (Parser.unary text maxNesting) ts).map Prod.fst := by
  unfold Condition.ofTokens wholeParser
  cases Parser.expression text (Parser.unary text maxNesting) ts with
  | error e => rfl
  | ok x =>
    dsimp only
    cases (Parser.look text x.2).kind <;> rfl

theorem look_of_wholeParser {ts rest : List Token} {c : Condition} (h : wholeParser text parser ts = .ok (c, rest)) :
    (Parser.look text rest).kind = .endOfText := by
  unfold wholeParser at h
  split at h
  · cases h
  dsimp only at h
  split at h
  · next hkind =>
    cases h
    exact hkind
  all_goals cases h

theorem whole_follows (h : Follows text tokens depth parser .unary) (hrefuse : Refuses text parser) :
    Follows text tokens depth (wholeParser text parser) .whole := by
  intro p hp
  refine .of_body ?_
  rw [wholeParser]
  obtain ⟨e, hparser, hends⟩ | ⟨c, q, hlength, hdepth, hparser, hends⟩ := (expression_follows h hrefuse).cases hp
  · rw [hparser]
    exact .error (hends.bind_error _)
  rw [hparser]
  refine .congr (hends.bind_ok _) ?_
  simp only [current_bind]
  cases (Parser.look text (q.ahead tokens)).kind with
  | endOfText => exact .pure hlength hdepth
  | _ => exact .throw

/-- Wherever so many parentheses and negations are open, each part follows some parser. -/
theorem exists_follows (text : String) (tokens : List Token) (depth : Nat) (part : Part) :
    ∃ parser, Follows text tokens depth parser part := by
  obtain ⟨hunary, hrefuse⟩ : Follows text tokens depth (Parser.unary text (maxNesting - depth)) .unary ∧ _ :=
    unary_follows _ depth rfl
  obtain ⟨inner, hinner⟩ := exists_encloses text tokens depth
  have hop (limit : Nat) := climb_follows hunary hrefuse 4 limit (Nat.le_add_right 4 limit)
  cases part with
  | whole => exact ⟨_, whole_follows hunary hrefuse⟩
  | expression limit => exact ⟨_, hop limit⟩
  | joinFrom limit left =>
    exact ⟨fun ts => Parser.joinFrom text _ limit ts.length left ts, fun p hp =>
      joinFrom_agrees (fun above _ => hop above) (hrefuse.climb 4) _ left p hp (Nat.le_refl _)⟩
  | unary => exact ⟨_, hunary⟩
  | operand => exact ⟨_, operand_follows hinner⟩
  | accessorsFrom object =>
    exact ⟨fun ts => Parser.accessorsFrom text _ ts.length object ts, fun p hp =>
      accessorsFrom_agrees hinner _ object p hp (Nat.le_refl _)⟩
  | index => exact ⟨_, index_follows hinner⟩
  | primary => exact ⟨_, primary_follows hinner⟩

/-- From the start the tokens as a whole are read as the parser reads them. -/
theorem start_cases (text : String) (tokens : List Token) :
    (∃ e, wholeParser text (Parser.unary text maxNesting) tokens = .error e ∧
        Ends text tokens .whole ⟨0, 0⟩ (.error e)) ∨
      ∃ c q, wholeParser text (Parser.unary text maxNesting) tokens = .ok (c, q.ahead tokens) ∧
        Ends text tokens .whole ⟨0, 0⟩ (.ok (c, q)) := by
  have hstart : (⟨0, 0⟩ : Progress).ahead tokens = tokens := by
    rw [Progress.ahead, Nat.zero_min, List.drop_zero]
  obtain ⟨hfollows, hrefuse⟩ := unary_follows maxNesting 0 rfl
  obtain ⟨e, hparser, hends⟩ | ⟨c, q, -, -, hparser, hends⟩ :=
    (whole_follows hfollows hrefuse).cases (p := ⟨0, 0⟩) rfl
  · exact .inl ⟨e, hstart ▸ hparser, hends⟩
  · exact .inr ⟨c, q, hstart ▸ hparser, hends⟩

theorem look_ahead_mem (hne : tokens ≠ []) : Parser.look text (p.ahead tokens) ∈ tokens := by
  cases hahead : p.ahead tokens with
  | nil =>
    have hlength := congrArg List.length hahead
    have hpos := List.length_pos_iff.mpr hne
    rw [Progress.ahead, List.length_drop, List.length_nil] at hlength
    omega
  | cons t ts =>
    have hmem : t ∈ p.ahead tokens := by rw [hahead]; exact List.mem_cons_self
    exact List.mem_of_mem_drop hmem

/-- Only tokens among which is an end are read as a condition. -/
theorem endOfText_mem {c : Condition} (h : Condition.ofTokens text tokens = .ok c) :
    ∃ t ∈ tokens, t.kind = .endOfText := by
  have hne : tokens ≠ [] := by
    rintro rfl
    have hnone : Condition.ofTokens text [] = .error (.unexpectedEnd (.point text.utf8ByteSize)) := rfl
    cases hnone.symm.trans h
  rw [ofTokens_eq_wholeParser] at h
  obtain ⟨e, hparser, -⟩ | ⟨tree, q, hparser, -⟩ := start_cases text tokens
  · rw [hparser] at h
    cases h
  · exact ⟨_, look_ahead_mem hne, look_of_wholeParser hparser⟩

end

/-- **Reading ends on all tokens**, also where they have no end or stop at an operator, a negation, a bracket or a
point: with the condition or the error that the parser gives. Every part of a condition ends wherever it begins, and
behind a condition as many parentheses and negations are open as in front of it. No condition is read from tokens
without an end. -/
theorem reading_ends (text : String) (tokens : List Token) :
    (∃ r, Ends text tokens .whole ⟨0, 0⟩ r ∧ r.map Prod.fst = Condition.ofTokens text tokens) ∧
      (∀ part p, ∃ r, Ends text tokens part p r ∧ ∀ c q, r = .ok (c, q) → q.depth = p.depth) ∧
      ∀ c, Condition.ofTokens text tokens = .ok c → ∃ t ∈ tokens, t.kind = .endOfText := by
  refine ⟨?_, fun part p => ?_, fun c => endOfText_mem⟩
  · rw [ofTokens_eq_wholeParser]
    obtain ⟨e, hparser, hends⟩ | ⟨c, q, hparser, hends⟩ := start_cases text tokens
    · exact ⟨.error e, hends, by rw [hparser]; rfl⟩
    · exact ⟨.ok (c, q), hends, by rw [hparser]; rfl⟩
  · obtain ⟨parser, hfollows⟩ := exists_follows text tokens p.depth part
    obtain ⟨e, -, hends⟩ | ⟨c, q, -, hdepth, -, hends⟩ := hfollows.cases rfl
    · exact ⟨.error e, hends, nofun⟩
    · refine ⟨.ok (c, q), hends, ?_⟩
      rintro _ _ ⟨⟩
      exact hdepth

/-- A parenthesis that is never passed opens until it is too deep. -/
example : (match Condition.ofTokens "(" [⟨.openParen, ['('], ⟨0, 1⟩⟩] with
    | .ok _ => none
    | .error e => some e) = some (.tooDeep ⟨0, 1⟩) := by
  decide +kernel

end Reading

end FlowSuite
