import Mathlib.Data.List.Induction
import FlowSuite.Proofs.Condition.Spellings
import FlowSuite.Condition.Comparing

/-!
# What the search for an operator passes over

The search goes through a text from place to place. `Passes p cs q` says that it goes over `cs` from the place `p` to
the place `q` without an answer, whatever stands behind `cs`; such passages are put together (`Passes.append`).

* Outside quotes and brackets all characters are passed but those of `isLoud`, which open something or begin an operator
  (`passes_quiet`).
* Inside quotes every character is passed but the quote, and a backslash is passed with what it escapes
  (`Passes.cons_quoted`, `Passes.cons_escape`). A string in double quotes is passed as a whole (`passes_doubleQuoted`).
  A string in single quotes is passed up to its last quote, and that one closes it unless the backslashes in front of
  it, taken in pairs, leave one over (`passes_singleQuoted`).
* An operator of the grammar is found where the search gets to it (`splitFrom_operator`).
-/

namespace FlowSuite

open Lexer (stringElements Spelling)

/-- How many backslashes stand at the end of a text. -/
def trailingBackslashes (cs : List Char) : Nat := (cs.reverse.takeWhile (· = '\\')).length

theorem trailingBackslashes_concat (cs : List Char) (c : Char) :
    trailingBackslashes (cs ++ [c]) = if c = '\\' then trailingBackslashes cs + 1 else 0 := by
  unfold trailingBackslashes
  rw [List.reverse_append, List.reverse_singleton, List.singleton_append, List.takeWhile_cons]
  split <;> simp_all

theorem trailingBackslashes_cons {c : Char} (h : c ≠ '\\') (cs : List Char) :
    trailingBackslashes (c :: cs) = trailingBackslashes cs := by
  induction cs using List.reverseRecOn with
  | nil => simp [trailingBackslashes, h]
  | append_singleton cs d ih => rw [← List.cons_append, trailingBackslashes_concat, trailingBackslashes_concat, ih]

theorem trailingBackslashes_single (inner : List Char) :
    trailingBackslashes ('\'' :: inner ++ ['\'']).dropLast = trailingBackslashes inner := by
  rw [List.dropLast_concat, trailingBackslashes_cons (by decide)]

namespace FlatComparison

/-- The search goes over a text from one place to another. -/
def Passes (p : Place) (cs : List Char) (q : Place) : Prop :=
  ∀ rest, splitFrom p (cs ++ rest) = (splitFrom q rest).map fun found => (cs ++ found.1, found.2)

variable {p q r : Place} {c : Char} {cs ds : List Char}

theorem Passes.nil (p : Place) : Passes p [] p := by
  intro rest
  simp

theorem Passes.append (h : Passes p cs q) (h' : Passes q ds r) : Passes p (cs ++ ds) r := by
  intro rest
  rw [List.append_assoc, h, h', Option.map_map]
  simp [Function.comp_def]

/-- The characters that operators begin with. -/
def beginsOperator (c : Char) : Bool := c ∈ ['=', '!', '<', '>']

theorem operatorAt?_eq_none (h : ¬beginsOperator c) (cs : List Char) : operatorAt? (c :: cs) = none := by
  simp only [beginsOperator, List.mem_cons, List.not_mem_nil, or_false, decide_eq_true_eq, not_or] at h
  obtain ⟨heq, hne, hlt, hgt⟩ := h
  simp [operatorAt?, Comparison.all, Comparison.symbol, List.isPrefixOf, Ne.symm heq, Ne.symm hne, Ne.symm hlt,
    Ne.symm hgt]

/-- A character that is no operator, or where none is looked for, takes the search to the next place. -/
theorem Passes.cons (h : p ≠ .outside 0 ∨ ¬beginsOperator c) (h' : Passes (p.step c) cs q) : Passes p (c :: cs) q := by
  intro rest
  have hnone : ∀ op, p = .outside 0 → operatorAt? (c :: (cs ++ rest)) = some op → False := by
    rintro op rfl hop
    rcases h with h | h
    · exact h rfl
    · rw [operatorAt?_eq_none h] at hop
      cases hop
  rw [List.cons_append, splitFrom.eq_3 _ _ _ hnone, h', Option.map_map]
  rfl

/-! ## Outside quotes -/

/-- A character that opens quotes or brackets, or begins an operator. -/
def isLoud (c : Char) : Bool := c ∈ ['\'', '"', '(', '[', '\x7b', '=', '!', '<', '>']

theorem passes_quiet (h : ∀ c ∈ cs, ¬isLoud c) : Passes (.outside 0) cs (.outside 0) := by
  induction cs with
  | nil => exact Passes.nil _
  | cons c cs ih =>
    have hc : ¬isLoud c := h c List.mem_cons_self
    have hstep : (Place.outside 0).step c = .outside 0 := by
      simp only [isLoud, List.mem_cons, List.not_mem_nil, or_false, decide_eq_true_eq, not_or] at hc
      simp [Place.step, hc]
    refine Passes.cons (.inr ?_) ?_
    · intro hop
      simp only [isLoud, beginsOperator, List.mem_cons, List.not_mem_nil, or_false, decide_eq_true_eq] at hc hop
      exact hc (by simp [hop])
    · rw [hstep]
      exact ih fun d hd => h d (List.mem_cons_of_mem c hd)

/-! ## Inside quotes -/

variable {quote : Char}

/-- Inside quotes a character other than the quote and the backslash is passed and leaves the search there. -/
theorem Passes.cons_quoted (hc : c ≠ '\\') (hquote : c ≠ quote) (h : Passes (.quoted 0 quote false) cs q) :
    Passes (.quoted 0 quote false) (c :: cs) q := by
  refine Passes.cons (.inl (by simp)) ?_
  rwa [Place.step, if_neg hc, if_neg hquote]

/-- A backslash and the character behind it are passed together. -/
theorem Passes.cons_escape (c : Char) (h : Passes (.quoted 0 quote false) cs q) :
    Passes (.quoted 0 quote false) ('\\' :: c :: cs) q :=
  Passes.cons (.inl (by simp)) (Passes.cons (.inl (by simp [Place.step])) h)

/-- The quote closes a string. -/
theorem passes_close (h : quote ≠ '\\') : Passes (.quoted 0 quote false) [quote] (.outside 0) := by
  refine Passes.cons (.inl (by simp)) ?_
  rw [Place.step, if_neg h, if_pos rfl]
  exact Passes.nil _

theorem passes_stringElements (cs : List Char) :
    Passes (.quoted 0 '"' false) (stringElements cs) (.quoted 0 '"' false) := by
  induction cs using Lexer.stringElements.induct with
  | case1 => exact Passes.nil _
  | case2 c cs hc ih =>
    rw [stringElements, if_neg hc]
    exact ih.cons_escape c
  | case3 c cs hpair hc =>
    rw [stringElements.eq_2 c cs hpair, if_pos hc]
    exact Passes.nil _
  | case4 c cs hpair hc ih =>
    rw [stringElements.eq_2 c cs hpair, if_neg hc]
    exact ih.cons_quoted (fun h => hc (.inr h)) (fun h => hc (.inl h))
  | case5 => exact Passes.nil _

/-- **A string in double quotes is passed as a whole.** -/
theorem passes_doubleQuoted (cs : List Char) :
    Passes (.outside 0) ('"' :: stringElements cs ++ ['"']) (.outside 0) := by
  refine Passes.cons (.inr (by decide)) ?_
  exact (passes_stringElements cs).append (passes_close (by decide))

/-- In single quotes the search is right behind an open backslash if their number at the end is odd. -/
theorem passes_single {inner : List Char} (h : '\'' ∉ inner) :
    Passes (.quoted 0 '\'' false) inner (.quoted 0 '\'' (trailingBackslashes inner % 2 = 1)) := by
  induction inner using List.reverseRecOn with
  | nil => exact Passes.nil _
  | append_singleton inner c ih =>
    have hc : c ≠ '\'' := fun hc => h (by simp [hc])
    have hstep : (Place.quoted 0 '\'' (trailingBackslashes inner % 2 = 1)).step c =
        .quoted 0 '\'' (trailingBackslashes (inner ++ [c]) % 2 = 1) := by
      rw [trailingBackslashes_concat]
      by_cases hodd : trailingBackslashes inner % 2 = 1
      · have heven : ¬(trailingBackslashes inner + 1) % 2 = 1 := by omega
        rw [decide_eq_true hodd, Place.step]
        by_cases hslash : c = '\\'
        · rw [if_pos hslash, decide_eq_false heven]
        · rw [if_neg hslash]
          rfl
      · have hodd' : (trailingBackslashes inner + 1) % 2 = 1 := by omega
        rw [decide_eq_false hodd, Place.step]
        by_cases hslash : c = '\\'
        · rw [if_pos hslash, if_pos hslash, decide_eq_true hodd']
        · rw [if_neg hslash, if_neg hslash, if_neg hc]
          rfl
    refine (ih fun hmem => h (List.mem_append_left _ hmem)).append (Passes.cons (.inl (by simp)) ?_)
    rw [hstep]
    exact Passes.nil _

/-- **A string in single quotes** is passed as a whole if the number of backslashes in front of its last quote is even,
and otherwise the search is still inside quotes behind it. -/
theorem passes_singleQuoted {inner : List Char} (h : '\'' ∉ inner) :
    Passes (.outside 0) ('\'' :: inner ++ ['\''])
      (if trailingBackslashes inner % 2 = 1 then .quoted 0 '\'' false else .outside 0) := by
  refine Passes.cons (.inr (by decide)) ((passes_single h).append ?_)
  by_cases hodd : trailingBackslashes inner % 2 = 1
  · rw [decide_eq_true hodd, if_pos hodd]
    exact Passes.cons (.inl (by simp)) (Passes.nil _)
  · rw [decide_eq_false hodd, if_neg hodd]
    exact passes_close (by decide)

/-- An operator that is found behind a place inside quotes has the closing quote in front of it. -/
theorem mem_of_splitFrom_quoted {depth : Nat} {escaped : Bool} {text before behind : List Char} {op : Comparison}
    (h : splitFrom (.quoted depth quote escaped) text = some (before, op, behind)) : quote ∈ before := by
  induction text generalizing escaped before with
  | nil => cases h
  | cons c cs ih =>
    rw [splitFrom.eq_3 _ _ _ (fun _ hp => by cases hp), Option.map_eq_some_iff] at h
    obtain ⟨⟨before, found⟩, hrest, heq⟩ := h
    cases heq
    cases escaped with
    | true => exact List.mem_cons_of_mem c (ih hrest)
    | false =>
      rw [Place.step] at hrest
      split at hrest
      · exact List.mem_cons_of_mem c (ih hrest)
      · split at hrest
        · next hc => exact List.mem_cons.mpr (.inl hc.symm)
        · exact List.mem_cons_of_mem c (ih hrest)

/-! ## Operands and operators -/

theorem not_isLoud_of_isOperandChar (h : Lexer.isOperandChar c) : ¬isLoud c := by
  intro hloud
  simp only [isLoud, List.mem_cons, List.not_mem_nil, or_false, decide_eq_true_eq] at hloud
  rcases hloud with rfl | rfl | rfl | rfl | rfl | rfl | rfl | rfl | rfl <;> exact absurd h (by decide)

/-- Spellings that no backslash holds open are passed as a whole. -/
theorem passes_spelling {kind : TokenKind} {lexeme : List Char} (h : Spelling kind lexeme)
    (hclosed : lexeme.head? = some '\'' → trailingBackslashes lexeme.dropLast % 2 ≠ 1) :
    Passes (.outside 0) lexeme (.outside 0) := by
  by_cases hk : kind = .string
  · subst hk
    cases h with
    | doubleQuoted => exact passes_doubleQuoted _
    | @singleQuoted inner hinner =>
      have hpass := passes_singleQuoted hinner
      have heven := hclosed rfl
      rw [trailingBackslashes_single] at heven
      rwa [if_neg heven] at hpass
  · exact passes_quiet fun c hc => not_isLoud_of_isOperandChar (h.isOperandChar hk c hc)

/-- Behind a string that a backslash holds open the search is inside its quotes. -/
theorem passes_heldOpen {kind : TokenKind} {lexeme : List Char} (h : Spelling kind lexeme)
    (hquote : lexeme.head? = some '\'') (hodd : trailingBackslashes lexeme.dropLast % 2 = 1) :
    Passes (.outside 0) lexeme (.quoted 0 '\'' false) := by
  by_cases hk : kind = .string
  · subst hk
    cases h with
    | doubleQuoted => exact absurd hquote (by simp)
    | @singleQuoted inner hinner =>
      have hpass := passes_singleQuoted hinner
      rw [trailingBackslashes_single] at hodd
      rwa [if_pos hodd] at hpass
  · exact absurd (h.isOperandChar hk _ (List.mem_of_head? hquote)) (by decide)

/-- The longest operator in front of a text is the one whose token is next. -/
theorem operatorAt?_operator {op : Comparison} {kind : TokenKind} (hk : kind.symbol? = some op.symbol)
    {text : List Char} (h : Lexer.next (op.symbol.toList ++ text) = (kind, op.symbol.toList)) :
    operatorAt? (op.symbol.toList ++ text) = some op := by
  cases op with
  | eq => rfl
  | ne => rfl
  | le => rfl
  | ge => rfl
  | lt =>
    cases text with
    | nil => rfl
    | cons d text =>
      by_cases hd : d = '='
      · subst hd
        have hlonger : Lexer.next ('<' :: '=' :: text) = (.lessOrEqual, ['<', '=']) := rfl
        cases hlonger.symm.trans h
      · simp [operatorAt?, Comparison.all, Comparison.symbol, List.isPrefixOf, Ne.symm hd]
  | gt =>
    cases text with
    | nil => rfl
    | cons d text =>
      by_cases hd : d = '='
      · subst hd
        have hlonger : Lexer.next ('>' :: '=' :: text) = (.greaterOrEqual, ['>', '=']) := rfl
        cases hlonger.symm.trans h
      · simp [operatorAt?, Comparison.all, Comparison.symbol, List.isPrefixOf, Ne.symm hd]

/-- **An operator of the grammar is found where the search gets to it.** -/
theorem splitFrom_operator {op : Comparison} {kind : TokenKind} (hk : kind.symbol? = some op.symbol) {text : List Char}
    (h : Lexer.next (op.symbol.toList ++ text) = (kind, op.symbol.toList)) :
    splitFrom (.outside 0) (op.symbol.toList ++ text) = some ([], op, text) := by
  have hop := operatorAt?_operator hk h
  obtain ⟨c, cs, hsymbol⟩ : ∃ c cs, op.symbol.toList = c :: cs := by cases op <;> exact ⟨_, _, rfl⟩
  have hdrop : (op.symbol.toList ++ text).drop op.symbol.length = text := by
    rw [← String.length_toList, List.drop_left]
  rw [hsymbol, List.cons_append] at hop hdrop ⊢
  rw [splitFrom.eq_2 _ _ _ hop, hdrop]

end FlatComparison

end FlowSuite
