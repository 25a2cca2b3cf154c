import FlowSuite.Proofs.Condition.Grammar

/-!
# Conditions in their places

`Placed text n layer ts c` is the grammar once more, for whole conditions: the tokens `ts`, all of them, are read at a
layer as the condition `c`, with the places of its parts and the text its comparisons show. It is the grammar of shapes
with that added (`Placed.derives`, `Derives.exists_placed`), so the parser is followed once, through `Placed`.

Everything inside such a condition is placed in a part of its tokens (`Placed.exists_of_contains`).
-/

namespace FlowSuite

/-- The tokens are read at a layer as a condition in its place, none of them inside more than so many parentheses and
negations. -/
inductive Placed (text : String) : (nesting : Nat) → Layer → List Token → Condition → Prop
  | single {n layer inner ts c} : layer.inner? = some inner → Placed text n inner ts c → Placed text n layer ts c
  | chain {n layer inner us t vs f a b c} : layer.inner? = some inner → layer.operator? t.kind = some f →
      Placed text n layer us a → Placed text n inner vs b → Parser.combine text t a b = .ok c →
      Placed text n layer (us ++ t :: vs) c
  | not {n t ts c} : t.kind = .not → Placed text n .unary ts c →
      Placed text (n + 1) .unary (t :: ts) (.not (t.span.merge c.span) c)
  | unary {n ts c} : Placed text n .operand ts c → Placed text n .unary ts c
  | operand {n ts c} : Placed text n .primary ts c → Placed text n .operand ts c
  | index {n us opened vs closed a b} : opened.kind = .openBracket → closed.kind = .closeBracket →
      Placed text n .operand us a → Placed text n .primary vs b →
      Placed text n .operand (us ++ opened :: (vs ++ [closed])) (.index (a.span.merge closed.span) a b)
  | property {n us dot name a} : dot.kind = .dot → Parser.isName name.kind → Placed text n .operand us a →
      Placed text n .operand (us ++ [dot, name]) (.property (a.span.merge name.span) a name.text)
  | group {n opened ts closed c} : opened.kind = .openParen → closed.kind = .closeParen → Placed text n .or ts c →
      Placed text (n + 1) .primary (opened :: (ts ++ [closed])) (c.withSpan (opened.span.merge closed.span))
  | literal {n t v} : t.Denotes v → Placed text n .primary [t] (.literal t.span v)
  | runtime {n t} : t.kind = .runtime → Placed text n .primary [t] (.runtime t.span t.text)

/-- An operator that is spelled makes the shape of its layer of its operands. -/
theorem Parser.combine_of_operator {op : Token} (hs : op.Spelled) {layer : Layer} {f : Shape → Shape → Shape}
    (hf : layer.operator? op.kind = some f) (text : String) (left right : Condition) :
    ∃ c, combine text op left right = .ok c ∧ c.shape = f left.shape right.shape := by
  unfold combine
  unfold Layer.operator? at hf
  split at hf
  case h_1 hk => cases hf; rw [hk]; exact ⟨_, rfl, rfl⟩
  case h_2 hk => cases hf; rw [hk]; exact ⟨_, rfl, rfl⟩
  case h_9 => cases hf
  all_goals
    next hk =>
    cases hf
    -- what is left are the comparisons, which are looked up by their spelling
    simp only [hk, hs _ (congrArg TokenKind.symbol? hk)]
    exact ⟨_, rfl, rfl⟩

variable {text : String} {n : Nat} {layer : Layer} {ts : List Token}

/-- What is placed is derived as its shape. -/
theorem Placed.derives {c : Condition} (h : Placed text n layer ts c) (hs : ∀ t ∈ ts, t.Spelled) :
    Derives n layer ts c.shape := by
  induction h with
  | single hin _ ih => exact .single hin (ih hs)
  | @chain n layer inner us t vs f a b c hin hf _ _ hc iha ihb =>
    rw [List.forall_mem_append, List.forall_mem_cons] at hs
    obtain ⟨hus, ht, hvs⟩ := hs
    obtain ⟨joined, hjoined, hshape⟩ := Parser.combine_of_operator ht hf text a b
    cases hjoined.symm.trans hc
    rw [hshape]
    exact .chain hin hf (iha hus) (ihb hvs)
  | not hk _ ih => exact .not hk (ih fun t ht => hs t (List.mem_cons_of_mem _ ht))
  | unary _ ih => exact .unary (ih hs)
  | operand _ ih => exact .operand (ih hs)
  | index hopen hclose _ _ iha ihb =>
    exact .index hopen hclose (iha fun t ht => hs t (by simp [ht])) (ihb fun t ht => hs t (by simp [ht]))
  | property hdot hname _ ih => exact .property hdot hname (ih fun t ht => hs t (by simp [ht]))
  | group hopen hclose _ ih =>
    rw [Condition.shape_withSpan]
    exact .group hopen hclose (ih fun t ht => hs t (by simp [ht]))
  | literal hv => exact .literal hv
  | runtime hk => exact .runtime hk

/-- What is derived is the shape of a condition in its place. -/
theorem Derives.exists_placed {a : Shape} (h : Derives n layer ts a) (hs : ∀ t ∈ ts, t.Spelled) (text : String) :
    ∃ c, Placed text n layer ts c ∧ c.shape = a := by
  induction h with
  | single hin _ ih =>
    obtain ⟨c, hc, rfl⟩ := ih hs
    exact ⟨c, .single hin hc, rfl⟩
  | @chain n layer inner us t vs f a b hin hf _ _ iha ihb =>
    rw [List.forall_mem_append, List.forall_mem_cons] at hs
    obtain ⟨hus, ht, hvs⟩ := hs
    obtain ⟨left, hleft, rfl⟩ := iha hus
    obtain ⟨right, hright, rfl⟩ := ihb hvs
    obtain ⟨joined, hjoined, hshape⟩ := Parser.combine_of_operator ht hf text left right
    exact ⟨joined, .chain hin hf hleft hright hjoined, hshape⟩
  | not hk _ ih =>
    obtain ⟨c, hc, rfl⟩ := ih fun t ht => hs t (List.mem_cons_of_mem _ ht)
    exact ⟨_, .not hk hc, rfl⟩
  | unary _ ih =>
    obtain ⟨c, hc, rfl⟩ := ih hs
    exact ⟨c, .unary hc, rfl⟩
  | operand _ ih =>
    obtain ⟨c, hc, rfl⟩ := ih hs
    exact ⟨c, .operand hc, rfl⟩
  | index hopen hclose _ _ iha ihb =>
    obtain ⟨object, hobject, rfl⟩ := iha fun t ht => hs t (by simp [ht])
    obtain ⟨index, hindex, rfl⟩ := ihb fun t ht => hs t (by simp [ht])
    exact ⟨_, .index hopen hclose hobject hindex, rfl⟩
  | property hdot hname _ ih =>
    obtain ⟨object, hobject, rfl⟩ := ih fun t ht => hs t (by simp [ht])
    exact ⟨_, .property hdot hname hobject, rfl⟩
  | group hopen hclose _ ih =>
    obtain ⟨c, hc, rfl⟩ := ih fun t ht => hs t (by simp [ht])
    exact ⟨_, .group hopen hclose hc, c.shape_withSpan _⟩
  | literal hv => exact ⟨_, .literal hv, rfl⟩
  | runtime hk => exact ⟨_, .runtime hk, rfl⟩

/-! ## Conditions inside others -/

namespace Condition

/-- The conditions right under a condition. -/
def children : Condition → List Condition
  | literal .. | runtime .. => []
  | index _ o i => [o, i]
  | property _ o _ => [o]
  | not _ c => [c]
  | logical _ _ l r | comparison _ _ l r _ => [l, r]

@[simp] theorem children_withSpan (s : Span) (c : Condition) : (c.withSpan s).children = c.children := by
  cases c <;> rfl

/-- The conditions inside a condition, itself included. -/
inductive Contains (t : Condition) : Condition → Prop
  | self : t.Contains t
  | child {c d} : t.Contains c → d ∈ c.children → t.Contains d

/-- The conjuncts of a condition are inside it. -/
theorem Contains.conjunct {t c : Condition} (h : t.Contains c) : ∀ d ∈ c.conjuncts, t.Contains d := by
  induction c with
  | logical _ connective _ _ ihl ihr =>
    cases connective with
    | and =>
      rw [conjuncts, List.forall_mem_append]
      exact ⟨ihl (h.child (by simp [children])), ihr (h.child (by simp [children]))⟩
    | or => exact List.forall_mem_singleton.mpr h
  | _ => exact List.forall_mem_singleton.mpr h

end Condition

/-- What an operator makes of its operands covers both and has them under it. -/
theorem Parser.combine_eq_ok {op : Token} {left right c : Condition} (h : combine text op left right = .ok c) :
    c.span = left.span.merge right.span ∧ c.children = [left, right] := by
  unfold combine at h
  split at h
  · cases h
    exact ⟨rfl, rfl⟩
  · cases h
    exact ⟨rfl, rfl⟩
  · split at h
    · cases h
      exact ⟨rfl, rfl⟩
    · cases h

namespace Placed

variable {m : Nat} {c d : Condition}

/-- What nests in so many levels nests in more. -/
theorem mono (h : Placed text m layer ts c) (hmn : m ≤ n) : Placed text n layer ts c := by
  induction h generalizing n with
  | single hin _ ih => exact .single hin (ih hmn)
  | chain hin hf _ _ hc iha ihb => exact .chain hin hf (iha hmn) (ihb hmn) hc
  | not hk _ ih =>
    obtain ⟨k, rfl⟩ : ∃ k, n = k + 1 := ⟨n - 1, by omega⟩
    exact .not hk (ih (by omega))
  | unary _ ih => exact .unary (ih hmn)
  | operand _ ih => exact .operand (ih hmn)
  | index hopen hclose _ _ iha ihb => exact .index hopen hclose (iha hmn) (ihb hmn)
  | property hdot hname _ ih => exact .property hdot hname (ih hmn)
  | group hopen hclose _ ih =>
    obtain ⟨k, rfl⟩ : ∃ k, n = k + 1 := ⟨n - 1, by omega⟩
    exact .group hopen hclose (ih (by omega))
  | literal hv => exact .literal hv
  | runtime hk => exact .runtime hk

/-- What is placed at any layer is a whole condition. -/
theorem whole (h : Placed text n layer ts c) : Placed text n .or ts c := by
  have hunary (h : Placed text n .unary ts c) : Placed text n .or ts c :=
    .single rfl (.single rfl (.single rfl (.single rfl h)))
  cases layer with
  | or => exact h
  | and => exact .single rfl h
  | equality => exact .single rfl (.single rfl h)
  | order => exact .single rfl (.single rfl (.single rfl h))
  | unary => exact hunary h
  | operand => exact hunary (.unary h)
  | primary => exact hunary (.unary (.operand h))

/-- What is right under a condition is placed in a part of its tokens. -/
theorem exists_of_mem_children (h : Placed text n layer ts c) (hd : d ∈ c.children) :
    ∃ vs, vs <:+: ts ∧ Placed text n .or vs d := by
  induction h with
  | single _ _ ih | unary _ ih | operand _ ih => exact ih hd
  | @chain n layer inner us t vs f a b c _ _ ha hb hc =>
    rw [(Parser.combine_eq_ok hc).2, List.mem_cons, List.mem_singleton] at hd
    rcases hd with rfl | rfl
    · exact ⟨us, ⟨[], t :: vs, by simp⟩, ha.whole⟩
    · exact ⟨vs, ⟨us ++ [t], [], by simp⟩, hb.whole⟩
  | @not n t ts c _ hc =>
    cases List.mem_singleton.mp hd
    exact ⟨ts, ⟨[t], [], by simp⟩, hc.whole.mono (Nat.le_succ n)⟩
  | @index n us opened vs closed a b _ _ ha hb =>
    rw [Condition.children, List.mem_cons, List.mem_singleton] at hd
    rcases hd with rfl | rfl
    · exact ⟨us, ⟨[], opened :: (vs ++ [closed]), by simp⟩, ha.whole⟩
    · exact ⟨vs, ⟨us ++ [opened], [closed], by simp⟩, hb.whole⟩
  | @property n us dot name a _ _ ha =>
    cases List.mem_singleton.mp hd
    exact ⟨us, ⟨[], [dot, name], by simp⟩, ha.whole⟩
  | @group n opened ts closed c _ _ hc ih =>
    rw [Condition.children_withSpan] at hd
    obtain ⟨vs, hvs, hplaced⟩ := ih hd
    exact ⟨vs, hvs.trans ⟨[opened], [closed], by simp⟩, hplaced.mono (Nat.le_succ n)⟩
  | literal | runtime => cases hd

/-- **What is inside a condition is placed in a part of its tokens.** -/
theorem exists_of_contains {t : Condition} (h : Placed text n .or ts t) (hc : t.Contains c) :
    ∃ vs, vs <:+: ts ∧ Placed text n .or vs c := by
  induction hc with
  | self => exact ⟨ts, List.infix_refl ts, h⟩
  | child _ hd ih =>
    obtain ⟨us, hus, hplaced⟩ := ih
    obtain ⟨vs, hvs, hplaced⟩ := hplaced.exists_of_mem_children hd
    exact ⟨vs, hvs.trans hus, hplaced⟩

/-- No token of a condition is invalid, and none is the end of the text. -/
theorem kind_ne (h : Placed text n layer ts c) : ∀ t ∈ ts, t.kind ≠ .invalid ∧ t.kind ≠ .endOfText := by
  have hkind : ∀ {t : Token} {kind : TokenKind}, t.kind = kind → kind ≠ .invalid → kind ≠ .endOfText →
      t.kind ≠ .invalid ∧ t.kind ≠ .endOfText := by
    rintro t _ rfl hi he
    exact ⟨hi, he⟩
  induction h with
  | single _ _ ih | unary _ ih | operand _ ih => exact ih
  | @chain n layer inner us t vs f a b c _ hf _ _ _ iha ihb =>
    have ht : t.kind ≠ .invalid ∧ t.kind ≠ .endOfText := by
      constructor <;>
        · intro hk
          rw [hk] at hf
          cases layer <;> cases hf
    exact List.forall_mem_append.mpr ⟨iha, List.forall_mem_cons.mpr ⟨ht, ihb⟩⟩
  | not hk _ ih => exact List.forall_mem_cons.mpr ⟨hkind hk (by decide) (by decide), ih⟩
  | index hopen hclose _ _ iha ihb =>
    simp only [List.forall_mem_append, List.forall_mem_cons]
    exact ⟨iha, hkind hopen (by decide) (by decide), ihb, hkind hclose (by decide) (by decide), by simp⟩
  | @property n us dot name a hdot hname _ ih =>
    have ht : name.kind ≠ .invalid ∧ name.kind ≠ .endOfText := by
      constructor <;>
        · intro hk
          rw [hk] at hname
          cases hname
    simp only [List.forall_mem_append, List.forall_mem_cons]
    exact ⟨ih, hkind hdot (by decide) (by decide), ht, by simp⟩
  | group hopen hclose _ ih =>
    simp only [List.forall_mem_append, List.forall_mem_cons]
    exact ⟨hkind hopen (by decide) (by decide), ih, hkind hclose (by decide) (by decide), by simp⟩
  | literal hv =>
    refine List.forall_mem_singleton.mpr ?_
    cases hv <;> exact hkind ‹_› (by decide) (by decide)
  | runtime hk => exact List.forall_mem_singleton.mpr (hkind hk (by decide) (by decide))

end Placed

end FlowSuite
