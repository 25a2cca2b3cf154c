import FlowSuite.Proofs.Condition.Soundness

/-!
# What the grammar derives, the parser reads

A parser reads a condition that is placed in tokens at its layer and stops behind them, whatever tokens follow that
cannot go on with them (`Parser.Complete`).

Chains lean to the left while the loops read from left to right. So each loop has a statement that is kept from one
member of a chain to the next: reading a chain and then more tokens is going on with the loop at those tokens
(`climb_resume`, `operand_resume`). It is proved along the placement, which takes the last member off a chain.
-/

namespace FlowSuite

/-- The kinds of tokens that an operand begins with. -/
def TokenKind.begins : TokenKind → Bool
  | openParen | int | float | string | trueWord | falseWord | nullWord | word | runtime => true
  | _ => false

theorem Token.Denotes.begins {t : Token} {v : Literal} (h : t.Denotes v) : t.kind.begins := by
  cases h <;> simp [*, TokenKind.begins]

/-- What is placed begins with an operand or, at the outer layers, with a negation. -/
theorem Placed.exists_cons {text : String} {n : Nat} {layer : Layer} {us : List Token} {c : Condition}
    (h : Placed text n layer us c) :
    ∃ t ts, us = t :: ts ∧ (t.kind.begins ∨ t.kind = .not ∧ layer ≠ .operand ∧ layer ≠ .primary) := by
  induction h with
  | single hin _ ih =>
    obtain ⟨t, ts, rfl, ht⟩ := ih
    refine ⟨t, ts, rfl, ht.imp_right fun ⟨hk, _⟩ => ⟨hk, ?_, ?_⟩⟩ <;>
      · intro he; rw [he] at hin; cases hin
  | chain hin _ _ _ _ ih =>
    obtain ⟨t, ts, rfl, ht⟩ := ih
    exact ⟨t, _, rfl, ht⟩
  | not hk _ => exact ⟨_, _, rfl, .inr ⟨hk, by decide, by decide⟩⟩
  | unary _ ih =>
    obtain ⟨t, ts, rfl, ht⟩ := ih
    exact ⟨t, ts, rfl, ht.imp_right fun h => absurd rfl h.2.1⟩
  | operand _ ih =>
    obtain ⟨t, ts, rfl, ht⟩ := ih
    exact ⟨t, ts, rfl, ht.imp_right fun h => absurd rfl h.2.2⟩
  | index _ _ _ _ ih =>
    obtain ⟨t, ts, rfl, ht⟩ := ih
    exact ⟨t, _, rfl, ht⟩
  | property _ _ _ ih =>
    obtain ⟨t, ts, rfl, ht⟩ := ih
    exact ⟨t, _, rfl, ht⟩
  | group hk _ _ => exact ⟨_, _, rfl, .inl (by rw [hk]; rfl)⟩
  | literal hd => exact ⟨_, _, rfl, .inl hd.begins⟩
  | runtime hk => exact ⟨_, _, rfl, .inl (by rw [hk]; rfl)⟩

/-- No kind that begins nothing is in front of what is placed. -/
theorem Placed.look_ne {text : String} {n : Nat} {layer : Layer} {us : List Token} {c : Condition}
    (h : Placed text n layer us c) {kind : TokenKind} (hbegins : ¬kind.begins) (hnot : kind ≠ .not)
    (rest : List Token) : (Parser.look text (us ++ rest)).kind ≠ kind := by
  obtain ⟨t, ts, rfl, ht⟩ := h.exists_cons
  rintro rfl
  rcases ht with ht | ⟨ht, _⟩
  · exact hbegins ht
  · exact hnot ht

namespace Parser

variable {text : String} {n : Nat}

/-- The next token is no accessor. -/
def NoAccessor (text : String) (ts : List Token) : Prop :=
  (look text ts).kind ≠ .openBracket ∧ (look text ts).kind ≠ .dot

/-- Reads all that is placed at a layer, in front of tokens that meet a condition. -/
def Complete (text : String) (p : Parser) (n : Nat) (layer : Layer) (follow : List Token → Prop) : Prop :=
  ∀ {us rest : List Token} {c : Condition}, Placed text n layer us c → rest ≠ [] → follow rest →
    p (us ++ rest) = .ok (c, rest)

/-! ## Binary operators -/

theorem noAccessor_of_precedence {ts : List Token} (h : precedence (look text ts).kind ≠ 0) : NoAccessor text ts := by
  constructor <;>
    · intro hk
      rw [hk] at h
      exact h rfl

theorem precedence_of_operator {m : Nat} {kind : TokenKind} {f : Shape → Shape → Shape}
    (h : (Layer.above m).operator? kind = some f) : precedence kind = m + 1 := by
  unfold Layer.above at h
  split at h <;> cases kind <;> first | rfl | cases h

theorem inner?_above_eq {m : Nat} {inner : Layer} (h : (Layer.above m).inner? = some inner) :
    inner = Layer.above (m + 1) := by
  by_cases hm : m < 4
  · rw [Layer.inner?_above hm] at h
    exact (Option.some.inj h).symm
  · rw [Layer.above_of_le (by omega)] at h
    cases h

theorem joinFrom_of_stops {operandAbove : Nat → Parser} {limit turns : Nat} {c : Condition} {ts : List Token}
    (h : Stops text limit ts) : joinFrom text operandAbove limit turns c ts = .ok (c, ts) := by
  cases turns with
  | zero => rfl
  | succ =>
    simp only [joinFrom]
    exact if_pos h

/-- Reading a chain is going on with the loop behind it, with its condition as what was read so far. -/
theorem climb_resume {unary : Parser} {limits limit : Nat} (hu : Complete text unary n .unary (NoAccessor text))
    (hop : ∀ p, limit < p →
      Complete text (climb text unary limits p) n (.above p) (fun ts => NoAccessor text ts ∧ Stops text p ts))
    {layer : Layer} {us : List Token} {c : Condition} (hd : Placed text n layer us c) {m : Nat} (hl : layer = .above m)
    (hm : limit ≤ m) {rest : List Token} (hrest : rest ≠ []) (hna : NoAccessor text rest)
    (hstop : Stops text (m + 1) rest) :
    ∃ turns, rest.length ≤ turns ∧
      climb text unary (limits + 1) limit (us ++ rest) =
        joinFrom text (climb text unary limits) limit turns c rest := by
  induction hd generalizing m rest with
  | single hin _ ih =>
    subst hl
    exact ih hu hop (inner?_above_eq hin) (by omega) hrest hna (Nat.le_succ_of_le hstop)
  | @chain n layer inner us t vs f left right joined hin hf hd hdv hjoin ih =>
    subst hl
    rw [inner?_above_eq hin] at hdv
    have hp : precedence t.kind = m + 1 := precedence_of_operator hf
    have hvss : vs ++ rest ≠ [] := by simp [hrest]
    obtain ⟨turns, hturns, heq⟩ := ih hu hop rfl hm (List.cons_ne_nil t (vs ++ rest))
      (noAccessor_of_precedence (by rw [look_cons, hp]; omega)) (Nat.le_of_eq hp)
    have hread := hop (m + 1) (by omega) hdv hrest ⟨hna, hstop⟩
    obtain ⟨turns, rfl⟩ : ∃ k, turns = k + 1 := ⟨turns - 1, by simp at hturns; omega⟩
    refine ⟨turns, by simp at hturns; omega, ?_⟩
    have hne : (look text (vs ++ rest)).kind ≠ .endOfText := hdv.look_ne (by decide) (by decide) rest
    rw [List.append_assoc, List.cons_append, heq]
    simp only [joinFrom, look_cons, advance_cons hvss, hp, hread, hjoin]
    rw [if_neg (by omega), if_neg hne]
  | not hk hd => exact ⟨_, Nat.le_refl _, by simp only [climb, hu (.not hk hd) hrest hna]⟩
  | unary hd => exact ⟨_, Nat.le_refl _, by simp only [climb, hu (.unary hd) hrest hna]⟩
  | operand | index | property | group | literal | runtime =>
    unfold Layer.above at hl
    split at hl <;> cases hl

theorem climb_complete {unary : Parser} (hu : Complete text unary n .unary (NoAccessor text)) :
    ∀ (limits limit : Nat), 4 ≤ limit + limits → Complete text (climb text unary limits limit) n (.above limit)
      (fun ts => NoAccessor text ts ∧ Stops text limit ts)
  | 0, limit, h, us, rest, c, hd, hrest, ⟨hna, _⟩ => by
    have h : 4 ≤ limit := h
    rw [Layer.above_of_le h] at hd
    exact hu hd hrest hna
  | limits + 1, limit, h, us, rest, c, hd, hrest, ⟨hna, hstop⟩ => by
    obtain ⟨turns, _, heq⟩ := climb_resume hu (fun p hp => climb_complete hu limits p (by omega)) hd rfl
      (Nat.le_refl _) hrest hna (Nat.le_succ_of_le hstop)
    exact heq.trans (joinFrom_of_stops hstop)

theorem expression_complete {unary : Parser} (hu : Complete text unary n .unary (NoAccessor text)) :
    Complete text (expression text unary) n .or (fun ts => NoAccessor text ts ∧ Stops text 0 ts) :=
  climb_complete hu 4 0 (Nat.le_refl _)

/-! ## Operands -/

/-- There is a level less for what stands one level deeper. -/
def Provides (text : String) (inner : Option Parser) (n : Nat) : Prop :=
  ∀ m, n = m + 1 → ∃ p, inner = some p ∧ Complete text p m .unary (NoAccessor text)

theorem primary_complete {inner : Option Parser} (hi : Provides text inner n) :
    Complete text (primary text inner) n .primary (fun _ => True) := by
  intro us rest c hd hrest _
  cases hd with
  | single hin => cases hin
  | chain hin => cases hin
  | @group m opened us closed c hopen hclose hd =>
    obtain ⟨p, rfl, hp⟩ := hi m rfl
    have hne : (look text (us ++ closed :: rest)).kind ≠ .closeParen := hd.look_ne (by decide) (by decide) _
    have hread := expression_complete hp hd (List.cons_ne_nil closed rest)
      ⟨⟨by simp [hclose], by simp [hclose]⟩, by simp [Stops, hclose, precedence]⟩
    have hsplit : opened :: (us ++ [closed]) ++ rest = opened :: (us ++ closed :: rest) := by simp
    rw [hsplit]
    simp only [primary, look_cons, hopen, advance_cons (List.append_ne_nil_of_right_ne_nil us (List.cons_ne_nil _ _)),
      if_neg hne, hread, hclose, if_true, advance_cons hrest]
  | literal hv =>
    simp only [primary, List.singleton_append, look_cons, advance_cons hrest]
    cases hv with
    | int hk hn hfit =>
      have hread : Decimal.readInt64? _ = some _ := Option.filter_eq_some_iff.mpr ⟨hn, hfit⟩
      simp only [hk, hread]
    | float hk hx => simp only [hk, hx]
    | string hk | word hk | trueWord hk | falseWord hk | nullWord hk => simp only [hk]
  | runtime hk => simp only [primary, List.singleton_append, look_cons, advance_cons hrest, hk]

/-- Reading an operand is going on with its accessors behind it. -/
theorem operand_resume {inner : Option Parser} (hi : Provides text inner n) {layer : Layer} {us : List Token}
    {c : Condition} (hd : Placed text n layer us c) (hl : layer = .operand) {rest : List Token} (hrest : rest ≠ []) :
    ∃ turns, rest.length ≤ turns ∧
      operand text inner (us ++ rest) = accessorsFrom text (primary text inner) turns c rest := by
  induction hd generalizing rest with
  | operand hd => exact ⟨_, Nat.le_refl _, by simp only [operand, primary_complete hi hd hrest trivial]⟩
  | @index n us opened vs closed object i hopen hclose hd hdv ih =>
    obtain ⟨turns, hturns, heq⟩ := ih hi rfl (List.cons_ne_nil opened (vs ++ closed :: rest))
    have hread := primary_complete hi hdv (List.cons_ne_nil closed rest) trivial
    obtain ⟨turns, rfl⟩ : ∃ k, turns = k + 1 := ⟨turns - 1, by simp at hturns; omega⟩
    have hne : (look text (vs ++ closed :: rest)).kind ≠ .closeBracket := hdv.look_ne (by decide) (by decide) _
    have hsplit : us ++ opened :: (vs ++ [closed]) ++ rest = us ++ opened :: (vs ++ closed :: rest) := by simp
    refine ⟨turns, by simp at hturns; omega, ?_⟩
    rw [hsplit, heq]
    simp only [accessorsFrom, look_cons, hopen,
      advance_cons (List.append_ne_nil_of_right_ne_nil vs (List.cons_ne_nil _ _)), if_neg hne, hread, hclose, if_true,
      advance_cons hrest]
  | @property n us dot name object hdot hname hd ih =>
    obtain ⟨turns, hturns, heq⟩ := ih hi rfl (List.cons_ne_nil dot (name :: rest))
    obtain ⟨turns, rfl⟩ : ∃ k, turns = k + 1 := ⟨turns - 1, by simp at hturns; omega⟩
    have hsplit : us ++ [dot, name] ++ rest = us ++ dot :: name :: rest := by simp
    refine ⟨turns, by simp at hturns; omega, ?_⟩
    rw [hsplit, heq]
    simp only [accessorsFrom, look_cons, hdot, advance_cons (List.cons_ne_nil name rest), hname, if_true,
      advance_cons hrest]
  | single hin => subst hl; cases hin
  | chain hin => subst hl; cases hin
  | not | unary | group | literal | runtime => cases hl

theorem operand_complete {inner : Option Parser} (hi : Provides text inner n) :
    Complete text (operand text inner) n .operand (NoAccessor text) := by
  intro us rest c hd hrest ⟨hbracket, hdot⟩
  obtain ⟨turns, _, heq⟩ := operand_resume hi hd rfl hrest
  refine heq.trans ?_
  cases turns with
  | zero => rfl
  | succ => simp only [accessorsFrom]

theorem unaryWith_complete {inner : Option Parser} (hi : Provides text inner n) :
    Complete text (unaryWith text inner) n .unary (NoAccessor text) := by
  intro us rest c hd hrest hna
  cases hd with
  | single hin => cases hin
  | chain hin => cases hin
  | @not m bang us c hk hd =>
    obtain ⟨p, rfl, hp⟩ := hi m rfl
    rw [List.cons_append]
    simp only [unaryWith, look_cons, hk, if_true, advance_cons (List.append_ne_nil_of_right_ne_nil us hrest),
      hp hd hrest hna]
  | unary hd =>
    have hread := operand_complete hi hd hrest hna
    obtain ⟨t, ts, rfl, ht⟩ := hd.exists_cons
    have hne : t.kind ≠ .not := by
      rcases ht with ht | ⟨_, ht, _⟩
      · intro he
        rw [he] at ht
        cases ht
      · exact absurd rfl ht
    unfold unaryWith
    exact (if_neg hne).trans hread

/-- **With so many levels, everything that nests no deeper is read.** -/
theorem unary_complete (text : String) : ∀ n, Complete text (unary text n) n .unary (NoAccessor text)
  | 0 => unaryWith_complete (fun _ h => by cases h)
  | n + 1 => unaryWith_complete (fun _ h => by cases h; exact ⟨_, rfl, unary_complete text n⟩)

end Parser

end FlowSuite
