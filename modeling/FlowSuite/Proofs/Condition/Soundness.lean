import FlowSuite.Proofs.Condition.Placement

/-!
# What the parser reads, the grammar derives

Every parser either reads tokens that the grammar derives at its layer, as the condition placed in them, or gives an
error in the text (`Parser.Outcome`). There is one statement for each parser, up to `unary_sound` and
`expression_sound`.

The loop over binary operators (`joinFrom_outcome`) keeps that what was read so far is a chain of some layer within the
limit, and that the next operator binds no tighter than that layer: an operand behind an operator has taken everything
that binds tighter. So an operator within the limit finds a chain of its own layer on its left.
-/

namespace FlowSuite

/-- Is about the text: neither of the two errors that only flat comparisons have. -/
def ConditionError.OfText : ConditionError → Prop
  | unsupportedOperator .. | missingComparison .. => False
  | _ => True

namespace Layer

/-- The layer of what binds tighter than a limit. -/
def above : Nat → Layer
  | 0 => or
  | 1 => and
  | 2 => equality
  | 3 => order
  | _ => unary

theorem above_of_le {m : Nat} (h : 4 ≤ m) : above m = unary := by
  obtain ⟨k, rfl⟩ := Nat.exists_eq_add_of_le' h
  rfl

theorem inner?_above {m : Nat} (h : m < 4) : (above m).inner? = some (above (m + 1)) := by
  match m, h with
  | 0, _ | 1, _ | 2, _ | 3, _ => rfl

end Layer

namespace Parser

theorem precedence_le (kind : TokenKind) : precedence kind ≤ 4 := by
  cases kind <;> decide

/-- The operators of a precedence are those of the layer above the next lower limit. -/
theorem exists_operator {kind : TokenKind} {m : Nat} (h : precedence kind = m + 1) :
    ∃ f, (Layer.above m).operator? kind = some f := by
  cases kind <;> cases h <;> exact ⟨_, rfl⟩

/-- What is to come of reading tokens at a layer: a condition placed in the tokens passed, with a stream left over that
meets a condition, or an error in the text. -/
inductive Outcome (text : String) (n : Nat) (layer : Layer) (left : List Token → Prop) (ts : List Token) :
    Except ConditionError (Condition × List Token) → Prop
  | ok {us rest c} : ts = us ++ rest → Placed text n layer us c → TokenStream rest → left rest →
      Outcome text n layer left ts (.ok (c, rest))
  | error {e} : e.OfText → Outcome text n layer left ts (.error e)

/-- Reads a layer as the grammar says on every stream of tokens. -/
def Sound (text : String) (p : Parser) (n : Nat) (layer : Layer) : Prop :=
  ∀ ts, TokenStream ts → Outcome text n layer (fun _ => True) ts (p ts)

variable {text : String} {n : Nat}

/-! ## Binary operators -/

/-- The next operator binds no tighter than a limit. -/
def Stops (text : String) (limit : Nat) (ts : List Token) : Prop := precedence (look text ts).kind ≤ limit

/-- A chain of a tighter layer is a chain of one member. -/
theorem placed_above {m k : Nat} (h : k ≤ m) {us : List Token} {c : Condition} (hd : Placed text n (.above m) us c) :
    Placed text n (.above k) us c := by
  induction h with
  | refl => exact hd
  | @step m h ih =>
    apply ih
    by_cases hm : m < 4
    · exact .single (Layer.inner?_above hm) hd
    · rw [Layer.above_of_le (by omega)] at hd ⊢
      exact hd

theorem joinFrom_outcome {operandAbove : Nat → Parser} {limit : Nat}
    (hop : ∀ p, limit < p → ∀ ts, TokenStream ts → Outcome text n (.above p) (Stops text p) ts (operandAbove p ts)) :
    ∀ (turns m : Nat) {us ts : List Token} {c : Condition}, limit ≤ m → Placed text n (.above m) us c →
      TokenStream ts → Stops text (m + 1) ts → ts.length ≤ turns →
      Outcome text n (.above limit) (Stops text limit) (us ++ ts) (joinFrom text operandAbove limit turns c ts)
  | 0, _, _, _, _, _, _, hts, _, hturns => absurd hts.length_pos (by omega)
  | turns + 1, m, us, ts, c, hm, hd, hts, hstop, hturns => by
    simp only [joinFrom]
    split
    · next hle => exact .ok rfl (placed_above hm hd) hts hle
    · next hgt =>
      obtain ⟨p, hp⟩ : ∃ p, precedence (look text ts).kind = p + 1 := Nat.exists_eq_succ_of_ne_zero (by omega)
      obtain ⟨f, hf⟩ := exists_operator hp
      have hp4 := precedence_le (look text ts).kind
      have hpm : precedence (look text ts).kind ≤ m + 1 := hstop
      obtain ⟨op, vs, rfl, hs, hvss⟩ := hts.eq_cons text (by intro he; rw [he] at hp; cases hp)
      rw [look_cons] at *
      rw [advance_cons hvss.ne_nil]
      split
      · exact .error trivial
      · have hr := hop (precedence op.kind) (by omega) vs hvss
        generalize operandAbove (precedence op.kind) vs = r at hr ⊢
        cases hr with
        | error he => exact .error he
        | @ok ws rest right hws hdr hrest hstop' =>
          obtain ⟨joined, hj, _⟩ := combine_of_operator hs hf text c right
          simp only [hj]
          subst hws
          rw [hp] at hdr hstop'
          -- everything behind the operator was tighter, so the chain on its left is within the limit of its layer
          have hd' : Placed text n (.above p) (us ++ op :: ws) joined :=
            .chain (Layer.inner?_above (by omega)) hf (placed_above (by omega) hd) hdr hj
          have := joinFrom_outcome hop turns p (by omega) hd' hrest hstop'
            (by simp only [List.length_cons, List.length_append] at hturns; omega)
          simpa only [List.append_assoc, List.cons_append] using this

theorem climb_outcome {unary : Parser} (hu : Sound text unary n .unary) :
    ∀ (limits limit : Nat), 4 ≤ limit + limits → ∀ ts, TokenStream ts →
      Outcome text n (.above limit) (Stops text limit) ts (climb text unary limits limit ts)
  | 0, limit, h, ts, hts => by
    have h : 4 ≤ limit := h
    rw [Layer.above_of_le h]
    simp only [climb]
    have hr := hu ts hts
    generalize unary ts = r at hr
    cases hr with
    | error he => exact .error he
    | ok heq hd hrest => exact .ok heq hd hrest (Nat.le_trans (precedence_le _) h)
  | limits + 1, limit, h, ts, hts => by
    simp only [climb]
    have hr := hu ts hts
    generalize unary ts = r at hr
    cases hr with
    | error he => exact .error he
    | ok heq hd hrest =>
      subst heq
      refine joinFrom_outcome (fun p hp => climb_outcome hu limits p (by omega)) _ (max limit 4)
        (Nat.le_max_left _ _) ?_ hrest (Nat.le_trans (precedence_le _) (by omega)) (Nat.le_refl _)
      rwa [Layer.above_of_le (Nat.le_max_right _ _)]

theorem expression_sound {unary : Parser} (hu : Sound text unary n .unary) :
    Sound text (expression text unary) n .or := by
  intro ts hts
  have hr := climb_outcome hu 4 0 (Nat.le_refl _) ts hts
  unfold expression
  generalize climb text unary 4 0 ts = r at hr ⊢
  cases hr with
  | error he => exact .error he
  | ok heq hd hrest _ => exact .ok heq hd hrest trivial

/-! ## Operands -/

/-- A single token that stands for a condition. -/
theorem outcome_token {ts : List Token} {c : Condition} (hts : TokenStream ts)
    (hk : (look text ts).kind ≠ .endOfText) (hd : Placed text n .primary [look text ts] c) :
    Outcome text n .primary (fun _ => True) ts (.ok (c, advance ts)) := by
  obtain ⟨t, us, rfl, _, huss⟩ := hts.eq_cons text hk
  rw [advance_cons huss.ne_nil]
  exact .ok rfl hd huss trivial

theorem unclosed_ofText (delimiter : Char) (opened : Span) (found : Token) :
    (unclosed delimiter opened found).OfText := by
  unfold unclosed
  split <;> trivial

theorem unexpected_ofText (expected : String) (found : Token) : (ConditionError.unexpected expected found).OfText := by
  unfold ConditionError.unexpected
  split <;> trivial

/-- What encloses something hands it to a parser with one level less. -/
def Inner (text : String) (inner : Option Parser) (n : Nat) : Prop :=
  ∀ p, inner = some p → ∃ m, n = m + 1 ∧ Sound text p m .unary

theorem primary_sound {inner : Option Parser} (hi : Inner text inner n) :
    Sound text (primary text inner) n .primary := by
  intro ts hts
  simp only [primary]
  split
  case h_1 hk =>
    split
    · exact .error (unexpected_ofText _ _)
    · split
      · exact .error trivial
      · next unary =>
        obtain ⟨m, rfl, hu⟩ := hi unary rfl
        obtain ⟨opened, us, rfl, _, huss⟩ := hts.eq_cons text (by rw [hk]; decide)
        rw [advance_cons huss.ne_nil]
        have hr := expression_sound hu us huss
        generalize expression text unary us = r at hr ⊢
        cases hr with
        | error he => exact .error he
        | @ok us rest c heq hd hrest =>
          subst heq
          simp only
          split
          · next hclose =>
            obtain ⟨closed, vs, rfl, _, hvss⟩ := hrest.eq_cons text (by rw [hclose]; decide)
            rw [advance_cons hvss.ne_nil]
            have hsplit : opened :: (us ++ closed :: vs) = opened :: (us ++ [closed]) ++ vs := by simp
            exact .ok hsplit (.group hk hclose hd) hvss trivial
          · exact .error (unclosed_ofText _ _ _)
  case h_2 hk =>
    split
    · next m hm =>
      obtain ⟨hm, hfit⟩ := Option.filter_eq_some_iff.mp hm
      exact outcome_token hts (by rw [hk]; decide) (.literal (.int hk hm hfit))
    · exact .error trivial
  case h_3 hk =>
    split
    · next x hx => exact outcome_token hts (by rw [hk]; decide) (.literal (.float hk hx))
    · exact .error trivial
  case h_4 hk => exact outcome_token hts (by rw [hk]; decide) (.literal (.string hk))
  case h_5 hk => exact outcome_token hts (by rw [hk]; decide) (.literal (.trueWord hk))
  case h_6 hk => exact outcome_token hts (by rw [hk]; decide) (.literal (.falseWord hk))
  case h_7 hk => exact outcome_token hts (by rw [hk]; decide) (.literal (.nullWord hk))
  case h_8 hk => exact outcome_token hts (by rw [hk]; decide) (.literal (.word hk))
  case h_9 hk => exact outcome_token hts (by rw [hk]; decide) (.runtime hk)
  case h_13 =>
    split
    · exact .error trivial
    · exact .error (unexpected_ofText _ _)
  all_goals exact .error trivial

/-- What was read so far is placed in its tokens, and accessors only add to it. -/
theorem accessorsFrom_outcome {primary : Parser} (hp : Sound text primary n .primary) :
    ∀ (turns : Nat) {us ts : List Token} {c : Condition}, Placed text n .operand us c → TokenStream ts →
      Outcome text n .operand (fun _ => True) (us ++ ts) (accessorsFrom text primary turns c ts)
  | 0, _, _, _, hd, hts => .ok rfl hd hts trivial
  | turns + 1, us, ts, c, hd, hts => by
    simp only [accessorsFrom]
    split
    · next hk =>
      obtain ⟨opened, vs, rfl, _, hvss⟩ := hts.eq_cons text (by rw [hk]; decide)
      rw [advance_cons hvss.ne_nil]
      split
      · exact .error (unexpected_ofText _ _)
      · have hr := hp vs hvss
        generalize primary vs = r at hr ⊢
        cases hr with
        | error he => exact .error he
        | @ok ws rest i heq hdi hrest =>
          subst heq
          simp only
          split
          · next hclose =>
            obtain ⟨closed, xs, rfl, _, hxss⟩ := hrest.eq_cons text (by rw [hclose]; decide)
            rw [advance_cons hxss.ne_nil]
            have := accessorsFrom_outcome hp turns (c := .index (c.span.merge closed.span) c i)
              (.index hk hclose hd hdi) hxss
            simpa only [List.append_assoc, List.cons_append, List.nil_append, look_cons] using this
          · exact .error (unclosed_ofText _ _ _)
    · next hk =>
      obtain ⟨dot, vs, rfl, _, hvss⟩ := hts.eq_cons text (by rw [hk]; decide)
      rw [advance_cons hvss.ne_nil]
      split
      · next hname =>
        obtain ⟨name, xs, rfl, _, hxss⟩ := hvss.eq_cons text (by intro he; rw [he] at hname; cases hname)
        rw [advance_cons hxss.ne_nil]
        have := accessorsFrom_outcome hp turns (c := .property (c.span.merge name.span) c name.text)
          (.property hk hname hd) hxss
        simpa only [List.append_assoc, List.cons_append, List.nil_append, look_cons] using this
      · exact .error (unexpected_ofText _ _)
    · exact .ok rfl hd hts trivial

theorem operand_sound {inner : Option Parser} (hi : Inner text inner n) :
    Sound text (operand text inner) n .operand := by
  intro ts hts
  have hp := primary_sound hi
  have hr := hp ts hts
  unfold operand
  generalize primary text inner ts = r at hr ⊢
  cases hr with
  | error he => exact .error he
  | ok heq hd hrest =>
    subst heq
    exact accessorsFrom_outcome hp _ (.operand hd) hrest

theorem unaryWith_sound {inner : Option Parser} (hi : Inner text inner n) :
    Sound text (unaryWith text inner) n .unary := by
  intro ts hts
  simp only [unaryWith]
  split
  · next hk =>
    split
    · exact .error trivial
    · next unary =>
      obtain ⟨m, rfl, hu⟩ := hi unary rfl
      obtain ⟨bang, us, rfl, _, huss⟩ := hts.eq_cons text (by rw [hk]; decide)
      rw [advance_cons huss.ne_nil]
      have hr := hu us huss
      generalize unary us = r at hr ⊢
      cases hr with
      | error he => exact .error he
      | ok heq hd hrest => exact .ok (congrArg (bang :: ·) heq) (.not hk hd) hrest trivial
  · have hr := operand_sound hi ts hts
    generalize operand text inner ts = r at hr ⊢
    cases hr with
    | error he => exact .error he
    | ok heq hd hrest => exact .ok heq (.unary hd) hrest trivial

/-- **With so many levels, everything that is read nests no deeper.** -/
theorem unary_sound (text : String) : ∀ n, Sound text (unary text n) n .unary
  | 0 => unaryWith_sound (fun _ h => by cases h)
  | n + 1 => unaryWith_sound (fun _ h => by cases h; exact ⟨n, rfl, unary_sound text n⟩)

end Parser

end FlowSuite
