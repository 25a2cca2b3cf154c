import FlowSuite.Proofs.Condition.FlatReading
import FlowSuite.Proofs.Condition.Nesting

/-!
# The operator that a text is split at

The search for an operator takes a text to pieces at its first place outside of brackets and quotes where an operator
begins (`OperatorBetween`), and takes the longest operator there (`operatorAt?_eq_some_iff`). Nothing is lost, and no
operator is left over in the text in front of it (`topLevel?_before`).

Brackets hide what they enclose. A text between brackets that closes only brackets of its own can be taken out, and the
search finds the same operator, so much further in front (`find?_isFirst`).
-/

namespace FlowSuite.FlatComparison

variable {p q : Place} {text before behind cs : List Char} {op : Comparison} {c : Char}

/-! ## Operators at the start of a text -/

theorem operatorAt?_eq_none_iff : operatorAt? cs = none ↔ ∀ op : Comparison, ¬op.symbol.toList <+: cs := by
  have hmem : ∀ op : Comparison, op ∈ Comparison.all := fun op => by cases op <;> decide
  simp [operatorAt?, List.find?_eq_none, hmem]

theorem prefix_of_operatorAt? (h : operatorAt? cs = some op) : op.symbol.toList <+: cs := by
  simpa using List.find?_some h

/-- Operators that begin with another one stand in front of it in the list of all. -/
theorem length_le_of_operatorAt? (h : operatorAt? cs = some op) {other : Comparison}
    (hother : other.symbol.toList <+: cs) : other.symbol.length ≤ op.symbol.length := by
  have hpair : Comparison.all.Pairwise fun a b => b.symbol.length ≤ a.symbol.length := by decide
  obtain ⟨_, earlier, later, hall, hearlier⟩ := List.find?_eq_some_iff_append.mp h
  have hmem : other ∈ Comparison.all := by cases other <;> decide
  rw [hall] at hmem hpair
  rcases List.mem_append.mp hmem with hmem | hmem
  · have hnot := hearlier other hmem
    rw [List.isPrefixOf_iff_prefix.mpr hother] at hnot
    cases hnot
  rcases List.mem_cons.mp hmem with rfl | hmem
  · exact Nat.le_refl _
  · exact List.rel_of_pairwise_cons (List.pairwise_append.mp hpair).2.1 hmem

/-- **The operator at the start of a text is the longest that stands there.** -/
theorem operatorAt?_eq_some_iff : operatorAt? cs = some op ↔ op.symbol.toList <+: cs ∧
    ∀ other : Comparison, other.symbol.toList <+: cs → other.symbol.length ≤ op.symbol.length := by
  refine ⟨fun h => ⟨prefix_of_operatorAt? h, fun _ => length_le_of_operatorAt? h⟩, fun ⟨hstarts, hlongest⟩ => ?_⟩
  cases hfound : operatorAt? cs with
  | none => exact absurd hstarts (operatorAt?_eq_none_iff.mp hfound op)
  | some found =>
    have hle := length_le_of_operatorAt? hfound hstarts
    have hge := hlongest found (prefix_of_operatorAt? hfound)
    have hlength : found.symbol.toList.length = op.symbol.toList.length := by
      rw [String.length_toList, String.length_toList, Nat.le_antisymm hge hle]
    have hsymbol : found.symbol.toList = op.symbol.toList :=
      (List.prefix_of_prefix_length_le (prefix_of_operatorAt? hfound) hstarts
        (Nat.le_of_eq hlength)).eq_of_length hlength
    have hread := congrArg Comparison.ofSymbol? (String.toList_inj.mp hsymbol)
    rwa [Comparison.ofSymbol?_symbol, Comparison.ofSymbol?_symbol] at hread

theorem length_symbol_pos (op : Comparison) : 0 < op.symbol.toList.length := by cases op <;> decide

/-- What an operator consists of begins operators. -/
theorem beginsOperator_of_mem_symbol (h : c ∈ op.symbol.toList) : beginsOperator c := by
  have hall : op.symbol.toList.all beginsOperator := by cases op <;> decide
  exact List.all_eq_true.mp hall c h

/-- No operator reaches over a character that begins none. -/
theorem operatorAt?_append_eq_none (h : operatorAt? cs = none) (hc : ¬beginsOperator c) (rest : List Char) :
    operatorAt? (cs ++ c :: rest) = none := by
  rw [operatorAt?_eq_none_iff] at h ⊢
  intro op hop
  rcases List.prefix_or_prefix_of_prefix hop (List.prefix_append cs _) with hstarts | ⟨tail, hsymbol⟩
  · exact h op hstarts
  cases tail with
  | nil => exact h op (by simp [← hsymbol])
  | cons d tail =>
    rw [← hsymbol, List.prefix_append_right_inj] at hop
    obtain ⟨rfl, _⟩ := List.cons_prefix_cons.mp hop
    exact hc (beginsOperator_of_mem_symbol (by rw [← hsymbol]; simp))

/-! ## The first place with an operator -/

/-- Where no operator begins, the search goes on behind the next character. -/
theorem splitFrom_cons (h : p = .outside 0 → operatorAt? (c :: cs) = none) :
    splitFrom p (c :: cs) = (splitFrom (p.step c) cs).map fun (before, found) => (c :: before, found) := by
  refine splitFrom.eq_3 _ _ _ fun op hp hop => ?_
  rw [h hp] at hop
  cases hop

theorem splitFrom_eq_none_iff : splitFrom p text = none ↔
    ∀ a b, text = a ++ b → p.steps a = .outside 0 → operatorAt? b = none := by
  induction text generalizing p with
  | nil =>
    refine iff_of_true rfl fun a b hab _ => ?_
    obtain ⟨-, rfl⟩ := List.append_eq_nil_iff.mp hab.symm
    rfl
  | cons c cs ih =>
    by_cases hhere : p = .outside 0 → operatorAt? (c :: cs) = none
    · rw [splitFrom_cons hhere, Option.map_eq_none_iff, ih]
      constructor
      · intro h a b hab hsteps
        cases a with
        | nil => cases hab; exact hhere hsteps
        | cons d a => cases hab; exact h a b rfl hsteps
      · exact fun h a b hab hsteps => h (c :: a) b (by rw [hab]; rfl) hsteps
    · obtain ⟨rfl, hne⟩ := Classical.not_imp.mp hhere
      obtain ⟨op, hop⟩ := Option.ne_none_iff_exists'.mp hne
      exact iff_of_false (by simp [splitFrom.eq_2 _ _ _ hop]) fun h => hne (h [] (c :: cs) rfl rfl)

theorem splitFrom_eq_some (h : splitFrom p text = some (before, op, behind)) :
    text = before ++ (op.symbol.toList ++ behind) ∧ p.steps before = .outside 0 ∧
      operatorAt? (op.symbol.toList ++ behind) = some op ∧
      ∀ a b, text = a ++ b → a.length < before.length → p.steps a = .outside 0 → operatorAt? b = none := by
  induction text generalizing p before with
  | nil => cases h
  | cons c cs ih =>
    by_cases hhere : p = .outside 0 → operatorAt? (c :: cs) = none
    · rw [splitFrom_cons hhere, Option.map_eq_some_iff] at h
      obtain ⟨⟨before, found⟩, hfound, heq⟩ := h
      cases heq
      obtain ⟨htext, hsteps, hop, hfirst⟩ := ih hfound
      refine ⟨congrArg (c :: ·) htext, hsteps, hop, fun a b hab hlength hsteps => ?_⟩
      cases a with
      | nil => cases hab; exact hhere hsteps
      | cons d a =>
        obtain ⟨rfl, htail⟩ := List.cons.inj hab
        exact hfirst a b htail (Nat.lt_of_succ_lt_succ hlength) hsteps
    · obtain ⟨rfl, hne⟩ := Classical.not_imp.mp hhere
      obtain ⟨found, hop⟩ := Option.ne_none_iff_exists'.mp hne
      rw [splitFrom.eq_2 _ _ _ hop] at h
      cases h
      obtain ⟨behind, hbehind⟩ := prefix_of_operatorAt? hop
      have hdrop : (c :: cs).drop op.symbol.length = behind := by
        rw [← hbehind, ← String.length_toList, List.drop_left]
      rw [hdrop, hbehind]
      exact ⟨rfl, rfl, hop, fun a b _ hlength => absurd hlength (Nat.not_lt_zero _)⟩

/-- An operator begins between two parts of a text, outside of brackets and quotes. A closing bracket where none is open
counts for nothing. -/
def OperatorBetween (a b : List Char) : Prop := Nests True 0 a 0 ∧ ∃ op : Comparison, op.symbol.toList <+: b

theorem operatorBetween_iff {a b : List Char} :
    OperatorBetween a b ↔ (Place.outside 0).steps a = .outside 0 ∧ operatorAt? b ≠ none := by
  simp [OperatorBetween, steps_outside_iff, operatorAt?_eq_none_iff]

theorem topLevel?_eq_none_iff : topLevel? text = none ↔ ∀ a b, text = a ++ b → ¬OperatorBetween a b := by
  simp [topLevel?, splitFrom_eq_none_iff, operatorBetween_iff]

/-- **The search finds the first operator outside of brackets and quotes.** -/
theorem topLevel?_eq_some_iff : topLevel? text = some (before, op, behind) ↔
    text = before ++ (op.symbol.toList ++ behind) ∧ Nests True 0 before 0 ∧
      operatorAt? (op.symbol.toList ++ behind) = some op ∧
      ∀ a b, text = a ++ b → a.length < before.length → ¬OperatorBetween a b := by
  constructor
  · intro h
    obtain ⟨htext, hsteps, hop, hfirst⟩ := splitFrom_eq_some h
    refine ⟨htext, steps_outside_iff.mp hsteps, hop, fun a b hab hlength hbetween => ?_⟩
    obtain ⟨ha, hb⟩ := operatorBetween_iff.mp hbetween
    exact hb (hfirst a b hab hlength ha)
  · rintro ⟨htext, hnests, hop, hfirst⟩
    have hbetween : OperatorBetween before (op.symbol.toList ++ behind) := ⟨hnests, op, prefix_of_operatorAt? hop⟩
    cases hfound : topLevel? text with
    | none => exact absurd hbetween (topLevel?_eq_none_iff.mp hfound _ _ htext)
    | some found =>
      -- both places are the first one, so that they are the same
      obtain ⟨before', op', behind'⟩ := found
      obtain ⟨htext', hsteps', hop', hfirst'⟩ := splitFrom_eq_some hfound
      have hbetween' : OperatorBetween before' (op'.symbol.toList ++ behind') :=
        ⟨steps_outside_iff.mp hsteps', op', prefix_of_operatorAt? hop'⟩
      have hge : before'.length ≤ before.length := by
        by_contra hlt
        obtain ⟨ha, hb⟩ := operatorBetween_iff.mp hbetween
        exact hb (hfirst' _ _ htext (Nat.lt_of_not_le hlt) ha)
      have hle : before.length ≤ before'.length := by
        by_contra hlt
        exact hfirst _ _ htext' (Nat.lt_of_not_le hlt) hbetween'
      obtain ⟨rfl, hrest⟩ := List.append_inj (htext.symm.trans htext') (Nat.le_antisymm hle hge)
      rw [hrest, hop', Option.some.injEq] at hop
      subst hop
      rw [List.append_cancel_left hrest]

/-- No operator is left over in front of the one that is found. -/
theorem topLevel?_before (h : topLevel? text = some (before, op, behind)) : topLevel? before = none := by
  obtain ⟨htext, -, -, hfirst⟩ := topLevel?_eq_some_iff.mp h
  refine topLevel?_eq_none_iff.mpr fun a b hab ⟨hnests, other, hother⟩ => ?_
  subst hab
  have hb : 0 < b.length := Nat.lt_of_lt_of_le (length_symbol_pos other) hother.length_le
  refine hfirst a (b ++ (op.symbol.toList ++ behind)) (by rw [htext, List.append_assoc]) ?_
    ⟨hnests, other, hother.trans (List.prefix_append b _)⟩
  rw [List.length_append]
  omega

/-! ## What brackets hide -/

/-- A text without an operator is passed together with a character behind it that begins none. -/
theorem passes_of_splitFrom (h : splitFrom p cs = none) (hc : ¬beginsOperator c) :
    Passes p (cs ++ [c]) (p.steps (cs ++ [c])) := by
  induction cs generalizing p with
  | nil => exact Passes.cons (.inr hc) (Passes.nil _)
  | cons d cs ih =>
    rw [splitFrom_eq_none_iff] at h
    have hhere : p = .outside 0 → operatorAt? (d :: cs) = none := fun hp => h [] _ rfl hp
    have htail : splitFrom (p.step d) cs = none :=
      splitFrom_eq_none_iff.mpr fun a b hab hsteps => h (d :: a) b (by rw [hab]; rfl) hsteps
    intro rest
    have hcons : p = .outside 0 → operatorAt? (d :: (cs ++ [c] ++ rest)) = none := fun hp => by
      simpa using operatorAt?_append_eq_none (hhere hp) hc rest
    rw [List.cons_append, List.cons_append, splitFrom_cons hcons, ih htail rest, Option.map_map]
    rfl

/-- Inside of brackets a string is passed, whatever stands in it. -/
theorem IsQuoted.passes {quote : Char} {inner : List Char} (h : IsQuoted quote inner) (hquote : quote ≠ '\\')
    (n : Nat) : Passes (.quoted n quote false) (inner ++ [quote]) (.outside n) := by
  induction h with
  | nil =>
    refine Passes.cons (.inl (by simp)) ?_
    rw [Place.step, if_neg hquote, if_pos rfl]
    exact Passes.nil _
  | escape c _ ih => exact Passes.cons (.inl (by simp)) (Passes.cons (.inl (by simp [Place.step])) ih)
  | char hslash hc _ ih =>
    refine Passes.cons (.inl (by simp)) ?_
    rwa [step_quoted hslash hc]

/-- **Inside of brackets all is passed** that closes no bracket but its own. -/
theorem Nests.passes {n m : Nat} (h : Nests False n cs m) : Passes (.outside (n + 1)) cs (.outside (m + 1)) := by
  induction h with
  | nil => exact Passes.nil _
  | @string n m quote inner cs hquote hinner _ ih =>
    have hslash : quote ≠ '\\' := by rcases hquote with rfl | rfl <;> decide
    refine Passes.cons (.inl (by simp)) ?_
    rw [step_quote hquote, ← List.singleton_append, ← List.append_assoc]
    exact (hinner.passes hslash _).append ih
  | opening hc _ ih =>
    refine Passes.cons (.inl (by simp)) ?_
    rwa [step_opening hc]
  | closing hc _ ih =>
    refine Passes.cons (.inl (by simp)) ?_
    rwa [step_closing hc, Nat.add_sub_cancel]
  | stray hfalse => exact hfalse.elim
  | char hsingle hdouble hopen hclose _ ih =>
    refine Passes.cons (.inl (by simp)) ?_
    rwa [step_char hsingle hdouble hopen hclose]

/-- A text in brackets is passed behind a text without an operator. -/
theorem passes_bracketed {a inner : List Char} {n : Nat} (ha : Nests True 0 a n) (hnone : topLevel? a = none)
    (hinner : Nests False 0 inner 0) : Passes (.outside 0) (a ++ '[' :: (inner ++ [']'])) (.outside n) := by
  have hopen : Passes (.outside 0) (a ++ ['[']) (.outside (n + 1)) := by
    have hpass := passes_of_splitFrom (c := '[') hnone (by decide)
    rwa [Place.steps_append, ha.steps_eq] at hpass
  have hinside : Passes (.outside (n + 1)) inner (.outside (n + 1)) := by
    simpa using (hinner.inside n).passes
  have hclose : Passes (.outside (n + 1)) [']'] (.outside n) := Passes.cons (.inl (by simp)) (Passes.nil _)
  have hall := hopen.append (hinside.append hclose)
  rwa [List.append_assoc, List.singleton_append] at hall

/-- Moves a place in a text on by a number of bytes. -/
def moveOn (bytes : Nat) (found : Comparison × Span) : Comparison × Span :=
  (found.1, ⟨found.2.start + bytes, found.2.stop + bytes⟩)

/-- **What stands in brackets makes no difference but for its length.** -/
theorem find?_bracketed {a inner : List Char} {n : Nat} (ha : Nests True 0 a n) (hnone : topLevel? a = none)
    (hinner : Nests False 0 inner 0) (b : List Char) : find? (a ++ '[' :: (inner ++ ']' :: b)) =
      (find? (a ++ '[' :: ']' :: b)).map (moveOn (Text.byteCount inner)) := by
  have hfull := passes_bracketed ha hnone hinner b
  have hempty := passes_bracketed ha hnone (.nil 0) b
  simp only [List.append_assoc, List.cons_append, List.nil_append] at hfull hempty
  rw [find?, find?, topLevel?, topLevel?, hfull, hempty]
  cases splitFrom (.outside n) b with
  | none => rfl
  | some found =>
    simp only [Option.map_some, moveOn, Option.some.injEq, Prod.mk.injEq, Span.mk.injEq, true_and,
      Text.byteCount_append, Text.byteCount_cons]
    omega

/-! ## Places and sides -/

theorem find?_eq_none_iff : find? text = none ↔ topLevel? text = none := by simp [find?]

theorem find?_eq_some_iff {span : Span} : find? text = some (op, span) ↔ ∃ before behind,
    topLevel? text = some (before, op, behind) ∧
      span = ⟨Text.byteCount before, Text.byteCount before + op.symbol.utf8ByteSize⟩ := by
  simp only [find?, Option.map_eq_some_iff, Prod.exists, Prod.mk.injEq]
  constructor
  · rintro ⟨before, _, behind, htop, rfl, rfl⟩
    exact ⟨before, behind, htop, rfl⟩
  · rintro ⟨before, behind, htop, rfl⟩
    exact ⟨before, op, behind, htop, rfl, rfl⟩

/-- **The operator that is found is the first one outside of brackets and quotes**, and the longest at its place; none
is found if there is no such place. A comparison that is read takes the whole text, and there is no operator in front of
the one that it has. What stands in brackets makes no difference but for its length. -/
theorem find?_isFirst :
    (∀ text op span, find? text = some (op, span) ↔ ∃ before behind, text = before ++ (op.symbol.toList ++ behind) ∧
      span = ⟨Text.byteCount before, Text.byteCount before + op.symbol.utf8ByteSize⟩ ∧ Nests True 0 before 0 ∧
      (∀ other : Comparison, other.symbol.toList <+: op.symbol.toList ++ behind →
        other.symbol.length ≤ op.symbol.length) ∧
      ∀ a b, text = a ++ b → a.length < before.length → ¬OperatorBetween a b) ∧
    (∀ text, find? text = none ↔ ∀ a b, text = a ++ b → ¬OperatorBetween a b) ∧
    (∀ text found, parse text = .ok found → ∃ before behind,
      text.toList = before ++ (found.operator.symbol.toList ++ behind) ∧
        find? text.toList = some (found.operator,
          ⟨Text.byteCount before, Text.byteCount before + found.operator.symbol.utf8ByteSize⟩) ∧
        found.left = .ofText before ∧ found.right = .ofText behind ∧ find? before = none) ∧
    ∀ a inner b n, Nests True 0 a n → find? a = none → Nests False 0 inner 0 →
      find? (a ++ '[' :: (inner ++ ']' :: b)) =
        (find? (a ++ '[' :: ']' :: b)).map (moveOn (Text.byteCount inner)) := by
  refine ⟨fun text op span => ?_, fun text => ?_, fun text found h => ?_, fun a inner b n ha hnone hinner => ?_⟩
  · rw [find?_eq_some_iff]
    refine exists_congr fun before => exists_congr fun behind => ?_
    rw [topLevel?_eq_some_iff, operatorAt?_eq_some_iff]
    constructor
    · rintro ⟨⟨htext, hnests, ⟨-, hlongest⟩, hfirst⟩, hspan⟩
      exact ⟨htext, hspan, hnests, hlongest, hfirst⟩
    · rintro ⟨htext, hspan, hnests, hlongest, hfirst⟩
      exact ⟨⟨htext, hnests, ⟨List.prefix_append _ _, hlongest⟩, hfirst⟩, hspan⟩
  · rw [find?_eq_none_iff, topLevel?_eq_none_iff]
  · obtain ⟨before, behind, htop, -, -, hleft, hright⟩ := parse_eq_ok_iff.mp h
    exact ⟨before, behind, (topLevel?_eq_some_iff.mp htop).1, find?_eq_some_iff.mpr ⟨before, behind, htop, rfl⟩,
      hleft, hright, find?_eq_none_iff.mpr (topLevel?_before htop)⟩
  · exact find?_bracketed ha (find?_eq_none_iff.mp hnone) hinner b

/-- The operator and the bracket of the filter are hidden, the bracket by quotes. -/
theorem find?_isFirst_filter : find? "$[a>'(']==1".toList = (find? "$[]==1".toList).map (moveOn 5) := by
  have hpath : Nests True 0 ['$'] 0 := .char (by decide) (by decide) (by decide) (by decide) (.nil 0)
  have hfilter : Nests False 0 "a>'('".toList 0 := by
    refine .char (by decide) (by decide) (by decide) (by decide) ?_
    refine .char (by decide) (by decide) (by decide) (by decide) ?_
    exact .string (.inl rfl) (.char (by decide) (by decide) .nil) (.nil 0)
  exact find?_isFirst.2.2.2 ['$'] "a>'('".toList "==1".toList 0 hpath (by decide) hfilter

end FlowSuite.FlatComparison
