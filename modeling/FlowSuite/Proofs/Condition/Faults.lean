import FlowSuite.Proofs.Condition.Slices

/-!
# Which tokens an error is about

Every error of the parser is about a part of the tokens it was given, and its place goes from the first of them to the
last (`Fault`, `Condition.parse_error_spans`).

A closing parenthesis is called unmatched at two places. Behind a whole condition it is: there all parentheses are
closed (`Placed.foldl_depth`). Where an operand is wanted it is not looked whether one is open, so there it may be the
partner of one (`Condition.parse_unmatchedParen`, `Condition.not_unmatchedParen_halfConjunction`).
-/

namespace FlowSuite

/-- An operand is wanted behind a token of this kind. -/
def TokenKind.wantsOperand (kind : TokenKind) : Bool :=
  Parser.precedence kind ≠ 0 ∨ kind = .not ∨ kind = .openBracket

/-- An error is about a part of the tokens, and its place is theirs. An unmatched parenthesis is a closing one, and it
stands in front of all other tokens or where an operand is wanted. -/
def Fault (ts : List Token) (e : ConditionError) : Prop :=
  ∃ us vs ws, ts = us ++ (vs ++ ws) ∧ Spans vs e.span ∧
    ∀ s, e = .unmatchedParen s → ∃ t, vs = [t] ∧ t.kind = .closeParen ∧ ∀ u ∈ us.getLast?, u.kind.wantsOperand

namespace Fault

variable {ws ts : List Token} {t : Token} {e : ConditionError}

/-- An error about a part of the tokens, but no unmatched parenthesis. -/
theorem part (us vs ws : List Token) (hspan : Spans vs e.span) (he : ∀ s, e ≠ .unmatchedParen s) :
    Fault (us ++ (vs ++ ws)) e :=
  ⟨us, vs, ws, rfl, hspan, fun s h => absurd h (he s)⟩

theorem token (us : List Token) (hspan : e.span = t.span) (he : ∀ s, e ≠ .unmatchedParen s) :
    Fault (us ++ t :: ws) e :=
  part us [t] ws (hspan ▸ .singleton t) he

/-- The error is one behind more tokens as well, where an operand is wanted or the first token is no parenthesis that
closes. -/
theorem behind (h : Fault ts e) (us : List Token)
    (hus : (∀ u ∈ us.getLast?, u.kind.wantsOperand) ∨ ∀ t ∈ ts.head?, t.kind ≠ .closeParen) :
    Fault (us ++ ts) e := by
  obtain ⟨before, vs, ws, rfl, hspan, hparen⟩ := h
  refine ⟨us ++ before, vs, ws, (List.append_assoc _ _ _).symm, hspan, fun s hs => ?_⟩
  obtain ⟨t, rfl, ht, hlast⟩ := hparen s hs
  refine ⟨t, rfl, ht, ?_⟩
  cases before with
  | nil =>
    rw [List.append_nil]
    exact hus.resolve_right fun hhead => hhead t rfl ht
  | cons v before =>
    rw [List.getLast?_append, List.getLast?_cons, Option.some_or, ← List.getLast?_cons]
    exact hlast

end Fault

namespace Parser

variable {text : String} {n : Nat} {ts : List Token} {e : ConditionError}

/-- The errors of a parser are about the tokens it is given. -/
def Faults (p : Parser) : Prop := ∀ ts e, TokenStream ts → Ordered ts → p ts = .error e → Fault ts e

/-- What is left over is the end of the stream. -/
theorem Outcome.leaves {layer : Layer} {left : List Token → Prop} {o : Except ConditionError (Condition × List Token)}
    {c : Condition} {rest : List Token} (h : Outcome text n layer left ts o) (ho : o = .ok (c, rest)) :
    ∃ us, ts = us ++ rest ∧ TokenStream rest := by
  subst ho
  cases h with
  | ok heq _ hrest _ => exact ⟨_, heq, hrest⟩

theorem unexpected_span (expected : String) (found : Token) :
    (ConditionError.unexpected expected found).span = found.span ∧
      ∀ s, ConditionError.unexpected expected found ≠ .unmatchedParen s := by
  unfold ConditionError.unexpected
  split <;> exact ⟨rfl, by simp⟩

/-! ## Binary operators -/

theorem combine_eq_error {op : Token} {left right : Condition} (h : combine text op left right = .error e) :
    e = .unsupportedOperator op.text op.span := by
  unfold combine at h
  split at h
  · cases h
  · cases h
  · split at h
    · cases h
    · cases h
      rfl

/-- Where an operator follows, its errors are about the operator or about what stands behind it. -/
theorem joinFrom_fault {operandAbove : Nat → Parser} {limit : Nat}
    (hop : ∀ p, limit < p → ∃ left, ∀ ts, TokenStream ts →
      Outcome text n (.above p) left ts (operandAbove p ts))
    (hf : ∀ p, limit < p → Faults (operandAbove p)) :
    ∀ (turns : Nat) (left : Condition) {ts : List Token}, TokenStream ts → Ordered ts →
      joinFrom text operandAbove limit turns left ts = .error e →
      (∀ t ∈ ts.head?, t.kind ≠ .closeParen) ∧ Fault ts e
  | 0, _, _, _, _, h => by cases h
  | turns + 1, left, ts, hts, hord, h => by
    simp only [joinFrom] at h
    split at h
    · cases h
    next hgt =>
    have hprec : precedence (look text ts).kind ≠ 0 := by omega
    obtain ⟨op, vs, rfl, _, hvss⟩ := hts.eq_cons text fun he => hprec (by rw [he]; rfl)
    have hvsOrd : Ordered vs := hord.part ⟨[op], [], by simp⟩
    have hwants : ∀ u ∈ [op].getLast?, u.kind.wantsOperand := by
      rintro u ⟨⟩
      exact decide_eq_true (.inl hprec)
    rw [look_cons] at hgt hprec
    have hhead : ∀ t ∈ (op :: vs).head?, t.kind ≠ .closeParen := by
      rintro t ⟨⟩ hclose
      exact hprec (by rw [hclose]; rfl)
    refine ⟨hhead, ?_⟩
    rw [look_cons, advance_cons hvss.ne_nil] at h
    split at h
    · cases h
      exact .token [] rfl (by simp)
    split at h
    · next heq =>
      cases h
      exact (hf _ (by omega) vs _ hvss hvsOrd heq).behind [op] (.inl hwants)
    next right rest heq =>
    obtain ⟨_, houtcome⟩ := hop (precedence op.kind) (by omega)
    obtain ⟨ws, rfl, hrest⟩ := (houtcome vs hvss).leaves heq
    split at h
    · next hcombine =>
      cases h
      obtain rfl := combine_eq_error hcombine
      exact .token [] rfl (by simp)
    · obtain ⟨hhead, hfault⟩ := joinFrom_fault hop hf turns _ hrest (hvsOrd.part ⟨ws, [], by simp⟩) h
      exact hfault.behind (op :: ws) (.inr hhead)

theorem climb_fault {unary : Parser} (hu : Sound text unary n .unary) (hf : Faults unary) :
    ∀ (limits limit : Nat), 4 ≤ limit + limits → Faults (climb text unary limits limit)
  | 0, _, _ => hf
  | limits + 1, limit, hl => by
    intro ts e hts hord h
    simp only [climb] at h
    split at h
    · next heq =>
      cases h
      exact hf ts _ hts hord heq
    next left rest heq =>
    obtain ⟨us, rfl, hrest⟩ := (hu ts hts).leaves heq
    obtain ⟨hhead, hfault⟩ := joinFrom_fault
      (fun p hp => ⟨_, climb_outcome hu limits p (by omega)⟩)
      (fun p hp => climb_fault hu hf limits p (by omega)) _ _ hrest (hord.part ⟨us, [], by simp⟩) h
    exact hfault.behind us (.inr hhead)

theorem expression_fault {unary : Parser} (hu : Sound text unary n .unary) (hf : Faults unary) :
    Faults (expression text unary) :=
  climb_fault hu hf 4 0 (Nat.le_refl _)

/-! ## Operands -/

theorem unclosed_fault (delimiter : Char) {opened found : Token} {us vs : List Token}
    (hord : Ordered (opened :: (us ++ found :: vs))) :
    Fault (opened :: (us ++ found :: vs)) (unclosed delimiter opened.span found) := by
  unfold unclosed
  split
  · exact .token (opened :: us) rfl (by simp)
  · have hsplit : opened :: (us ++ found :: vs) = [] ++ ([opened] ++ us ++ [found] ++ vs) := by simp
    have hall : Ordered ([opened] ++ us ++ [found]) := hord.part ⟨[], vs, by simp⟩
    rw [hsplit]
    exact .part _ _ _ ((Spans.singleton opened).merge (.singleton found) hall) (by simp)

/-- A group that closes at once lacks its expression: the parenthesis that ends it is not called unmatched. -/
theorem group_fault {inner : Option Parser} (hi : Inner text inner n) (hf : ∀ p, inner = some p → Faults p)
    {opened : Token} {us : List Token} (hts : TokenStream (opened :: us)) (hord : Ordered (opened :: us))
    (hk : opened.kind = .openParen) (h : primary text inner (opened :: us) = .error e) : Fault (opened :: us) e := by
  obtain ⟨_, _, heq, _, huss⟩ := hts.eq_cons text (by rw [look_cons, hk]; decide)
  cases heq
  simp only [primary, look_cons, hk] at h
  rw [advance_cons huss.ne_nil] at h
  obtain ⟨next, vs, rfl⟩ := List.exists_cons_of_ne_nil huss.ne_nil
  rw [look_cons] at h
  split at h
  · cases h
    obtain ⟨hspan, he⟩ := unexpected_span "expression" next
    exact .token [opened] hspan he
  next hclose =>
  split at h
  · cases h
    exact .token [] rfl (by simp)
  next unary =>
  obtain ⟨m, rfl, hu⟩ := hi unary rfl
  have hvsOrd : Ordered (next :: vs) := hord.part ⟨[opened], [], by simp⟩
  split at h
  · next heq =>
    cases h
    have hinner := expression_fault hu (hf unary rfl) _ _ huss hvsOrd heq
    refine hinner.behind [opened] (.inr ?_)
    rintro _ ⟨⟩
    exact hclose
  next c rest heq =>
  obtain ⟨ws, hws, hrest⟩ := (expression_sound hu _ huss).leaves heq
  obtain ⟨close, xs, rfl⟩ := List.exists_cons_of_ne_nil hrest.ne_nil
  rw [look_cons] at h
  split at h
  · cases h
  · cases h
    rw [hws] at hord ⊢
    exact unclosed_fault ')' hord

theorem primary_fault {inner : Option Parser} (hi : Inner text inner n) (hf : ∀ p, inner = some p → Faults p) :
    Faults (primary text inner) := by
  intro ts e hts hord h
  obtain ⟨t, us, rfl⟩ := List.exists_cons_of_ne_nil hts.ne_nil
  by_cases hgroup : t.kind = .openParen
  · exact group_fault hi hf hts hord hgroup h
  have hself {e : ConditionError} (hspan : e.span = t.span) (he : ∀ s, e ≠ .unmatchedParen s) : Fault (t :: us) e :=
    .token [] hspan he
  simp only [primary, look_cons] at h
  split at h
  case h_1 hk => exact absurd hk hgroup
  case h_2 =>
    split at h
    · cases h
    · cases h
      exact hself rfl (by simp)
  case h_3 =>
    split at h
    · cases h
    · cases h
      exact hself rfl (by simp)
  case h_12 hk =>
    cases h
    exact ⟨[], [t], us, rfl, .singleton t, fun _ _ => ⟨t, rfl, hk, by simp⟩⟩
  case h_13 =>
    split at h
    · cases h
      exact hself rfl (by simp)
    · cases h
      obtain ⟨hspan, he⟩ := unexpected_span "operand" t
      exact hself hspan he
  case h_10 =>
    cases h
    exact hself rfl (by simp)
  case h_11 =>
    cases h
    exact hself rfl (by simp)
  all_goals cases h

theorem accessorsFrom_fault {primary : Parser} (hp : Sound text primary n .primary) (hf : Faults primary) :
    ∀ (turns : Nat) (object : Condition) {ts : List Token}, TokenStream ts → Ordered ts →
      accessorsFrom text primary turns object ts = .error e →
      (∀ t ∈ ts.head?, t.kind ≠ .closeParen) ∧ Fault ts e
  | 0, _, _, _, _, h => by cases h
  | turns + 1, object, ts, hts, hord, h => by
    simp only [accessorsFrom] at h
    split at h
    · next hk =>
      obtain ⟨opened, vs, rfl, _, hvss⟩ := hts.eq_cons text (by rw [hk]; decide)
      have hvsOrd : Ordered vs := hord.part ⟨[opened], [], by simp⟩
      rw [look_cons] at hk
      have hwants : ∀ u ∈ [opened].getLast?, u.kind.wantsOperand := by
        rintro u ⟨⟩
        exact decide_eq_true (.inr (.inr hk))
      have hhead : ∀ t ∈ (opened :: vs).head?, t.kind ≠ .closeParen := by
        rintro t ⟨⟩
        rw [hk]
        decide
      refine ⟨hhead, ?_⟩
      rw [advance_cons hvss.ne_nil] at h
      split at h
      · obtain ⟨next, ws, rfl⟩ := List.exists_cons_of_ne_nil hvss.ne_nil
        cases h
        obtain ⟨hspan, he⟩ := unexpected_span "index" next
        exact .token [opened] hspan he
      split at h
      · next heq =>
        cases h
        exact (hf vs _ hvss hvsOrd heq).behind [opened] (.inl hwants)
      next i rest heq =>
      obtain ⟨ws, rfl, hrest⟩ := (hp vs hvss).leaves heq
      obtain ⟨close, xs, rfl⟩ := List.exists_cons_of_ne_nil hrest.ne_nil
      rw [look_cons] at h
      split at h
      · next hclose =>
        obtain ⟨_, _, hcons, _, hxss⟩ := hrest.eq_cons text (by rw [look_cons, hclose]; decide)
        cases hcons
        rw [advance_cons hxss.ne_nil] at h
        obtain ⟨hhead, hfault⟩ := accessorsFrom_fault hp hf turns _ hxss (hvsOrd.part ⟨ws ++ [close], [], by simp⟩) h
        have hsplit : opened :: (ws ++ close :: xs) = opened :: (ws ++ [close]) ++ xs := by simp
        rw [hsplit]
        exact hfault.behind _ (.inr hhead)
      · cases h
        exact unclosed_fault ']' hord
    · next hk =>
      obtain ⟨dot, vs, rfl, _, hvss⟩ := hts.eq_cons text (by rw [hk]; decide)
      have hvsOrd : Ordered vs := hord.part ⟨[dot], [], by simp⟩
      have hhead : ∀ t ∈ (dot :: vs).head?, t.kind ≠ .closeParen := by
        rintro t ⟨⟩
        rw [look_cons] at hk
        rw [hk]
        decide
      refine ⟨hhead, ?_⟩
      obtain ⟨name, ws, rfl⟩ := List.exists_cons_of_ne_nil hvss.ne_nil
      rw [advance_cons hvss.ne_nil, look_cons] at h
      split at h
      · next hname =>
        obtain ⟨_, _, hcons, _, hwss⟩ := hvss.eq_cons text (by rw [look_cons]; rintro he; rw [he] at hname; cases hname)
        cases hcons
        rw [advance_cons hwss.ne_nil] at h
        obtain ⟨hhead, hfault⟩ := accessorsFrom_fault hp hf turns _ hwss (hvsOrd.part ⟨[name], [], by simp⟩) h
        exact hfault.behind [dot, name] (.inr hhead)
      · cases h
        obtain ⟨hspan, he⟩ := unexpected_span "property name" name
        exact .token [dot] hspan he
    · cases h

theorem operand_fault {inner : Option Parser} (hi : Inner text inner n) (hf : ∀ p, inner = some p → Faults p) :
    Faults (operand text inner) := by
  intro ts e hts hord h
  have hp := primary_sound hi
  have hpf := primary_fault hi hf
  unfold operand at h
  split at h
  · next c rest heq =>
    obtain ⟨us, rfl, hrest⟩ := (hp ts hts).leaves heq
    obtain ⟨hhead, hfault⟩ := accessorsFrom_fault hp hpf _ _ hrest (hord.part ⟨us, [], by simp⟩) h
    exact hfault.behind us (.inr hhead)
  · next heq =>
    cases h
    exact hpf ts _ hts hord heq

theorem unaryWith_fault {inner : Option Parser} (hi : Inner text inner n) (hf : ∀ p, inner = some p → Faults p) :
    Faults (unaryWith text inner) := by
  intro ts e hts hord h
  simp only [unaryWith] at h
  split at h
  · next hk =>
    obtain ⟨bang, us, rfl, _, huss⟩ := hts.eq_cons text (by rw [hk]; decide)
    rw [look_cons] at hk
    split at h
    · cases h
      exact .token [] rfl (by simp)
    next unary =>
    rw [advance_cons huss.ne_nil] at h
    split at h
    · cases h
    · next heq =>
      cases h
      have hinner := hf unary rfl us _ huss (hord.part ⟨[bang], [], by simp⟩) heq
      refine hinner.behind [bang] (.inl ?_)
      rintro u ⟨⟩
      exact decide_eq_true (.inr (.inl hk))
  · exact operand_fault hi hf ts e hts hord h

/-- **Errors inside so many levels are about the tokens that are read.** -/
theorem unary_fault (text : String) : ∀ n, Faults (unary text n)
  | 0 => unaryWith_fault (n := 0) (fun _ h => by cases h) (fun _ h => by cases h)
  | n + 1 => by
    refine unaryWith_fault (n := n + 1) ?_ ?_
    · rintro _ ⟨⟩
      exact ⟨n, rfl, unary_sound text n⟩
    · rintro _ ⟨⟩
      exact unary_fault text n

end Parser

/-! ## Parentheses -/

/-- How many parentheses are open behind a token. A closing one where none is open leaves none open. -/
def Token.depth (n : Nat) (t : Token) : Nat :=
  match t.kind with
  | .openParen => n + 1
  | .closeParen => n - 1
  | _ => n

/-- How many parentheses are open behind tokens: those that no later one among them is the partner of. -/
def openParens (ts : List Token) : Nat := ts.foldl Token.depth 0

theorem Token.depth_of_ne {t : Token} (hopen : t.kind ≠ .openParen) (hclose : t.kind ≠ .closeParen) (n : Nat) :
    depth n t = n := by
  unfold depth
  split <;> simp_all

theorem Layer.kind_of_operator {layer : Layer} {kind : TokenKind} {f : Shape → Shape → Shape}
    (h : layer.operator? kind = some f) : kind ≠ .openParen ∧ kind ≠ .closeParen := by
  constructor <;>
    · rintro rfl
      cases layer <;> cases h

/-- Behind a condition as many parentheses are open as in front of it. -/
theorem Placed.foldl_depth {text : String} {n : Nat} {layer : Layer} {ts : List Token} {c : Condition}
    (h : Placed text n layer ts c) (k : Nat) : ts.foldl Token.depth k = k := by
  have hone {t : Token} {kind : TokenKind} (hk : t.kind = kind) (hopen : kind ≠ .openParen)
      (hclose : kind ≠ .closeParen) (k : Nat) : t.depth k = k := by
    subst hk
    exact Token.depth_of_ne hopen hclose k
  induction h generalizing k with
  | single _ _ ih | unary _ ih | operand _ ih => exact ih k
  | chain _ hf _ _ _ iha ihb =>
    obtain ⟨hopen, hclose⟩ := Layer.kind_of_operator hf
    rw [List.foldl_append, iha, List.foldl_cons, Token.depth_of_ne hopen hclose, ihb]
  | not hk _ ih => rw [List.foldl_cons, hone hk (by decide) (by decide), ih]
  | index hopen hclose _ _ iha ihb =>
    rw [List.foldl_append, iha, List.foldl_cons, hone hopen (by decide) (by decide), List.foldl_append, ihb,
      List.foldl_cons, hone hclose (by decide) (by decide), List.foldl_nil]
  | @property n us dot name a hdot hname _ ih =>
    have hkind : name.kind ≠ .openParen ∧ name.kind ≠ .closeParen := by
      constructor <;>
        · intro hk
          rw [hk] at hname
          cases hname
    rw [List.foldl_append, ih, List.foldl_cons, hone hdot (by decide) (by decide), List.foldl_cons,
      Token.depth_of_ne hkind.1 hkind.2, List.foldl_nil]
  | @group n opened ts closed c hopen hclose _ ih =>
    have hup : opened.depth k = k + 1 := by rw [Token.depth, hopen]
    have hdown : closed.depth (k + 1) = k := by
      rw [Token.depth, hclose]
      exact Nat.add_sub_cancel k 1
    rw [List.foldl_cons, hup, List.foldl_append, ih, List.foldl_cons, hdown, List.foldl_nil]
  | literal hv => cases hv <;> exact hone ‹_› (by decide) (by decide) k
  | runtime hk => exact hone hk (by decide) (by decide) k

/-! ## Whole texts -/

namespace Condition

open FlowSuite.Parser

variable {text : String}

/-- An error is about a part of the tokens that are read, or about the token behind a whole condition. -/
theorem ofTokens_fault {ts : List Token} {e : ConditionError} (hts : TokenStream ts) (hord : Ordered ts)
    (h : ofTokens text ts = .error e) :
    Fault ts e ∨ ∃ us t vs c, ts = us ++ t :: vs ∧ Placed text maxNesting .or us c ∧ e.span = t.span ∧
      ∀ s, e = .unmatchedParen s → t.kind = .closeParen := by
  have hu : Sound text (unary text maxNesting) maxNesting .unary := unary_sound text maxNesting
  unfold ofTokens at h
  split at h
  · next heq =>
    cases h
    exact .inl (expression_fault hu (unary_fault text maxNesting) ts _ hts hord heq)
  next c rest heq =>
  have hread := expression_sound hu ts hts
  rw [heq] at hread
  cases hread with
  | @ok us _ _ hsplit hplaced hrest =>
    obtain ⟨t, vs, rfl⟩ := List.exists_cons_of_ne_nil hrest.ne_nil
    subst hsplit
    simp only [look_cons] at h
    split at h
    · cases h
    · next hclose =>
      cases h
      exact .inr ⟨us, t, vs, c, rfl, hplaced, rfl, fun _ _ => hclose⟩
    · cases h
      exact .inr ⟨us, t, vs, c, rfl, hplaced, rfl, by simp⟩
    · cases h
      obtain ⟨hspan, he⟩ := unexpected_span "operator or end of input" t
      exact .inr ⟨us, t, vs, c, rfl, hplaced, hspan, fun s hs => absurd hs (he s)⟩

/-- **The place of an error goes from the first to the last of some tokens of the text.** -/
theorem parse_error_spans {e : ConditionError} (h : parse text = .error e) :
    ∃ us vs ws, Lexer.tokenize text.toList = us ++ (vs ++ ws) ∧ Spans vs e.span := by
  have hts := Lexer.tokenStream_tokenize text.toList
  have hord := (Lexer.scanned_tokenize text.toList).ordered.1
  obtain ⟨us, vs, ws, heq, hspans, _⟩ | ⟨us, t, vs, c, heq, _, hspan, _⟩ := ofTokens_fault hts hord h
  · exact ⟨us, vs, ws, heq, hspans⟩
  · exact ⟨us, [t], vs, heq, hspan ▸ .singleton t⟩

/-- A closing parenthesis behind a whole condition is unmatched. -/
theorem parse_of_closeParen {us vs : List Token} {t : Token} {c : Condition}
    (h : Lexer.tokenize text.toList = us ++ t :: vs) (ht : t.kind = .closeParen)
    (hplaced : Placed text maxNesting .or us c) : parse text = .error (.unmatchedParen t.span) := by
  have hfollow : NoAccessor text (t :: vs) ∧ Stops text 0 (t :: vs) := by
    refine ⟨⟨?_, ?_⟩, ?_⟩
    · rw [look_cons, ht]
      decide
    · rw [look_cons, ht]
      decide
    · unfold Stops
      rw [look_cons, ht]
      decide
  have hread := expression_complete (unary_complete text maxNesting) hplaced (List.cons_ne_nil t vs) hfollow
  rw [parse, h]
  simp only [ofTokens, hread, look_cons, ht]

/-- **Where a parenthesis is refused as unmatched.** It is a closing one. Either no parenthesis is open in front of it,
and nothing or a whole condition stands there; or an operand is wanted behind the token in front of it, and then one may
be open. Every closing parenthesis behind a whole condition is refused so. -/
theorem parse_unmatchedParen (text : String) :
    (∀ s, parse text = .error (.unmatchedParen s) → ∃ us t vs,
      Lexer.tokenize text.toList = us ++ t :: vs ∧ t.kind = .closeParen ∧ t.span = s ∧
        (openParens us = 0 ∧ (us = [] ∨ ∃ c, Placed text maxNesting .or us c) ∨
          ∃ u ∈ us.getLast?, u.kind.wantsOperand)) ∧
      ∀ us t vs c, Lexer.tokenize text.toList = us ++ t :: vs → t.kind = .closeParen →
        Placed text maxNesting .or us c → parse text = .error (.unmatchedParen t.span) := by
  refine ⟨fun s h => ?_, fun us t vs c => parse_of_closeParen⟩
  have hts := Lexer.tokenStream_tokenize text.toList
  have hord := (Lexer.scanned_tokenize text.toList).ordered.1
  obtain ⟨us, _, vs, heq, hspans, hparen⟩ | ⟨us, t, vs, c, heq, hplaced, hspan, hparen⟩ := ofTokens_fault hts hord h
  · obtain ⟨t, rfl, ht, hlast⟩ := hparen s rfl
    obtain ⟨_, ⟨⟩, _, ⟨⟩, hspan⟩ := hspans
    refine ⟨us, t, vs, heq, ht, hspan.symm, ?_⟩
    cases hus : us.getLast? with
    | none =>
      obtain rfl := List.getLast?_eq_none_iff.mp hus
      exact .inl ⟨rfl, .inl rfl⟩
    | some u => exact .inr ⟨u, rfl, hlast u hus⟩
  · exact ⟨us, t, vs, heq, hparen s rfl, hspan.symm, .inl ⟨hplaced.foldl_depth 0, .inr ⟨c, hplaced⟩⟩⟩

/-- **A parenthesis may be called unmatched that is the partner of an open one**: in `(a && )` the operand is missing
that the operator wants. -/
theorem not_unmatchedParen_halfConjunction : ¬∀ text s, parse text = .error (.unmatchedParen s) →
    ∃ us t vs, Lexer.tokenize text.toList = us ++ t :: vs ∧ t.kind = .closeParen ∧ t.span = s ∧
      openParens us = 0 := by
  intro h
  obtain ⟨us, t, vs, heq, ht, hspan, hopen⟩ := h "(a && )" ⟨6, 7⟩ rfl
  have htokens : Lexer.tokenize "(a && )".toList = [⟨.openParen, ['('], ⟨0, 1⟩⟩, ⟨.word, ['a'], ⟨1, 2⟩⟩,
      ⟨.and, ['&', '&'], ⟨3, 5⟩⟩, ⟨.closeParen, [')'], ⟨6, 7⟩⟩, .atEnd 7] := rfl
  rw [htokens] at heq
  match us, heq with
  | [], heq | [_], heq | [_, _], heq | [_, _, _, _], heq =>
    cases heq
    cases hspan
  | [_, _, _], heq =>
    cases heq
    exact absurd hopen (by decide)
  | _ :: _ :: _ :: _ :: _ :: us, heq =>
    have hlength := congrArg List.length heq
    simp at hlength

end Condition

end FlowSuite
