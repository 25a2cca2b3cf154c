import FlowSuite.Proofs.Script.Reader

/-!
# Printed expressions are read back

`Expr.Plain` are the expressions of names, literals, accesses, calls, negations, operators, arrays and objects that can
be read at all: no name is a word of the language, and nothing is accessed in a number that would swallow the access.

What is printed for a plain expression is read in three ways, each at every place it can stand at:

* as an object of accesses, where reading goes on with what follows (`ReadsAsObject`);
* as an operand, where no access follows (`ReadsAsOperand`);
* as an expression, where nothing follows but a comma or a closing mark (`ReadsAsExpression`).

Objects and operands are enclosed where they have to be, so the first of the three gives the second, the second gives
the third for what is not enclosed, and the third gives the first for what is (`Reader.reads_of_plain`).
-/

namespace FlowSuite.Script

open Lexeme (next?)

/-- A key that can be written: a bare one is an identifier. -/
def Key.Plain : Key → Prop
  | bare name => isIdentifier name.toList
  | quoted _ => True

namespace Expr

/-- Is a whole number. -/
def isInt : Expr → Bool
  | value (.int _) => true
  | _ => false

/-- Is a negative whole number. -/
def isNegative : Expr → Bool
  | value (.int n) => n < 0
  | _ => false

/-- The expressions that are read back. -/
inductive Plain : Expr → Prop
  | ident {name : String} : isIdentifier name.toList → name ∉ reservedWords → name ≠ "undefined" → Plain (.ident name)
  | int (n : Int) : Plain (.int n)
  | string (s : String) : Plain (.string s)
  | bool (b : Bool) : Plain (.bool b)
  | null : Plain .null
  | undefined : Plain .undefined
  | property {object : Expr} {name : String} : Plain object → ¬object.isInt → isIdentifier name.toList →
      Plain (.property object name)
  | element {object index : Expr} : Plain object → ¬object.isNegative → Plain index → Plain (.element object index)
  | call {callee : Expr} {args : List Expr} : Plain callee → ¬callee.isNegative → (∀ arg ∈ args, Plain arg) →
      Plain (.call callee args)
  | not {e : Expr} : Plain e → Plain (.not e)
  | binary {left right : Expr} (op : BinaryOp) : Plain left → Plain right → Plain (.binary op left right)
  | array {items : List Expr} : (∀ item ∈ items, Plain item) → Plain (.array items)
  | object {entries : List (Key × Expr)} : (∀ entry ∈ entries, entry.1.Plain) → (∀ entry ∈ entries, Plain entry.2) →
      Plain (.object entries)

/-- The text of an expression as an operand. -/
def operandText (level : Nat) (e : Expr) : List Char := e.enclose (e.text level)

end Expr

namespace Reader

variable {level : Nat} {e : Expr} {rest : List Char}

/-! ## What follows an expression -/

/-- Begins with nothing that goes on with an operand. -/
structure Stops (rest : List Char) : Prop where
  head : ∀ c ∈ rest.head?, ¬isIdentifierChar c ∧ c ≠ '.'
  next : ∀ c behind, next? rest = some (.mark c, behind) → c ∉ ['.', '[', '(']

/-- Begins with what ends an expression: a comma, a closing mark, or nothing. -/
def Ends (rest : List Char) : Prop := ∀ c ∈ rest.head?, c ∈ [')', ']', ',']

theorem ends_nil : Ends [] := by simp [Ends]

theorem ends_cons {c : Char} (h : c ∈ [')', ']', ',']) (cs : List Char) : Ends (c :: cs) := by
  rintro d ⟨⟩
  exact h

theorem Ends.next_eq (h : Ends rest) :
    next? rest = none ∨ ∃ c cs, c ∈ [')', ']', ','] ∧ next? rest = some (.mark c, cs) := by
  cases rest with
  | nil => exact .inl rfl
  | cons c cs =>
    have hc := h c rfl
    have hmark : c ∈ Lexeme.marks ∧ c ≠ '!' := by
      simp only [List.mem_cons, List.not_mem_nil, or_false] at hc
      rcases hc with rfl | rfl | rfl <;> decide
    exact .inr ⟨c, cs, hc, Lexeme.next?_mark hmark.1 hmark.2 cs⟩

theorem Ends.stops (h : Ends rest) : Stops rest where
  head := by
    intro c hc
    have hend := h c hc
    simp only [List.mem_cons, List.not_mem_nil, or_false] at hend
    rcases hend with rfl | rfl | rfl <;> decide
  next := by
    intro c behind hnext
    rcases h.next_eq with hnone | ⟨d, cs, hd, hsome⟩
    · rw [hnone] at hnext
      cases hnext
    · rw [hsome] at hnext
      cases hnext
      simp only [List.mem_cons, List.not_mem_nil, or_false] at hd
      rcases hd with rfl | rfl | rfl <;> decide

theorem Ends.not_operator (h : Ends rest) : ∀ op behind, next? rest ≠ some (.operator op, behind) := by
  intro op behind hnext
  rcases h.next_eq with hnone | ⟨d, cs, _, hsome⟩
  · rw [hnone] at hnext
    cases hnext
  · rw [hsome] at hnext
    cases hnext

/-- What is read as an operand in front of an end is a whole expression. -/
theorem Ends.expression_eq {u : Reader Expr} {cs : List Char} (hrest : Ends rest) (h : u cs = some (e, rest)) :
    expression u cs = some (e, rest) :=
  below_mono (Nat.zero_le 4) h fun op behind hop => absurd hop (hrest.not_operator op behind)

/-- An operator between blanks ends an operand. -/
theorem stops_operator (op : BinaryOp) (cs : List Char) : Stops (' ' :: op.symbol.toList ++ ' ' :: cs) where
  head := by
    rintro c ⟨⟩
    decide
  next := by
    intro c behind hnext
    rw [Lexeme.next?_operator] at hnext
    cases hnext

/-! ## Three ways to read an expression -/

/-- Reading its operand goes on with the accesses that follow. -/
def ReadsAsObject (level : Nat) (e : Expr) : Prop :=
  ∀ n rest, (e.operandText level).length ≤ n → (∀ c ∈ rest.head?, ¬isIdentifierChar c ∧ (e.isInt → c ≠ '.')) →
    ∃ turns, rest.length ≤ turns ∧
      operand (unary n) (e.operandText level ++ rest) = accesses (unary n) turns e rest

/-- Is read as an operand in front of what goes on with none. -/
def ReadsAsOperand (level : Nat) (e : Expr) : Prop :=
  ∀ n rest, (e.operandText level).length ≤ n → Stops rest →
    unary (n + 1) (e.operandText level ++ rest) = some (e, rest)

/-- Is read as an expression in front of what ends one. -/
def ReadsAsExpression (level : Nat) (e : Expr) : Prop :=
  ∀ n rest, (e.text level).length ≤ n → Ends rest →
    expression (unary (n + 1)) (e.text level ++ rest) = some (e, rest)

theorem ReadsAsObject.operand (h : ReadsAsObject level e) : ReadsAsOperand level e := by
  intro n rest hn hrest
  obtain ⟨turns, -, hread⟩ := h n rest hn fun c hc => ⟨(hrest.head c hc).1, fun _ => (hrest.head c hc).2⟩
  rw [accesses_stop hrest.next] at hread
  exact unaryWith_of_operand hread

theorem operandText_eq (h : e.needsParens = false) : e.operandText level = e.text level := if_neg (by simp [h])

theorem operandText_enclosed (h : e.needsParens) : e.operandText level = '(' :: (e.text level ++ [')']) := if_pos h

theorem ReadsAsOperand.expression (h : ReadsAsOperand level e) (he : e.needsParens = false) :
    ReadsAsExpression level e := by
  intro n rest hn hrest
  rw [← operandText_eq he] at hn ⊢
  exact hrest.expression_eq (h n rest hn hrest.stops)

/-- A primary expression is read as an object. -/
theorem readsAsObject_of_primary (h : ∀ n rest, (e.operandText level).length ≤ n →
    (∀ c ∈ rest.head?, ¬isIdentifierChar c ∧ (e.isInt → c ≠ '.')) →
    primary (unary n) (e.operandText level ++ rest) = some (e, rest)) : ReadsAsObject level e := by
  intro n rest hn hrest
  exact ⟨rest.length, Nat.le_refl _, by rw [Reader.operand, h n rest hn hrest]⟩

/-- What is enclosed is read as an object. -/
theorem ReadsAsExpression.object (h : ReadsAsExpression level e) (he : e.needsParens) : ReadsAsObject level e := by
  refine readsAsObject_of_primary fun n rest hn _ => ?_
  rw [operandText_enclosed he] at hn ⊢
  simp only [List.length_cons, List.length_append, List.length_nil] at hn
  -- what is enclosed is read with one level less, and is shorter by two parentheses
  obtain ⟨m, rfl⟩ : ∃ m, n = m + 1 := ⟨n - 1, by omega⟩
  have hinner := h m (')' :: rest) (by omega) (ends_cons (by simp) rest)
  have hnext : next? ('(' :: (e.text level ++ ')' :: rest)) = some (.mark '(', e.text level ++ ')' :: rest) :=
    Lexeme.next?_mark (by decide) (by decide) _
  have hclose : mark ')' (')' :: rest) = some rest := mark_cons (by decide) (by decide) rest
  simp [primary, hnext, hinner, hclose]

/-! ## Names and literals -/

theorem ofWord_ident {name : String} (hreserved : name ∉ reservedWords) (hundefined : name ≠ "undefined") :
    ofWord name = some (.ident name) := by
  have hne : ∀ word ∈ reservedWords, name ≠ word := fun word hword hname => hreserved (hname ▸ hword)
  rw [ofWord, if_neg (hne "true" (by decide)), if_neg (hne "false" (by decide)), if_neg (hne "null" (by decide)),
    if_neg hundefined, if_neg hreserved]

/-- A word is read as what it stands for. -/
theorem readsAsObject_of_word (word : String) (htext : e.operandText level = word.toList)
    (hword : isIdentifier word.toList) (he : ofWord word = some e) : ReadsAsObject level e := by
  refine readsAsObject_of_primary fun n rest _ hrest => ?_
  have hnext := Lexeme.next?_word hword fun c hc => (hrest c hc).1
  simp [primary, htext, hnext, he]

theorem readsAsObject_string (s : String) : ReadsAsObject level (.string s) := by
  refine readsAsObject_of_primary fun n rest _ _ => ?_
  have hnext : next? ((Expr.string s).operandText level ++ rest) = some (.string s, rest) := Lexeme.next?_quote s rest
  simp [primary, hnext]

theorem readsAsObject_nat (n : Nat) : ReadsAsObject level (.int n) := by
  refine readsAsObject_of_primary fun _ rest _ hrest => ?_
  have hnext : next? ((Expr.int n).operandText level ++ rest) = some (.number n, rest) :=
    Lexeme.next?_number n fun c hc => ⟨(hrest c hc).1, (hrest c hc).2 rfl⟩
  simp [primary, hnext]

/-- A negative number is read as an operand. -/
theorem readsAsOperand_negative (n : Nat) : ReadsAsOperand level (.int (.negSucc n)) := by
  intro m rest _ hrest
  have htext : (Expr.int (.negSucc n)).operandText level = '-' :: (toString (n + 1)).toList := by
    show ("-" ++ toString (n + 1)).toList = _
    rw [String.toList_append]
    rfl
  have hsign : next? ('-' :: ((toString (n + 1)).toList ++ rest)) =
      some (.mark '-', (toString (n + 1)).toList ++ rest) := Lexeme.next?_mark (by decide) (by decide) _
  have hnumber := Lexeme.next?_number (n + 1) hrest.head
  rw [htext, List.cons_append, unary, unaryWith, hsign]
  simp only [hnumber]
  rfl

/-! ## Accesses -/

/-- Behind an object, reading goes on with the mark of an access. -/
theorem ReadsAsObject.exists_turns (h : ReadsAsObject level e) {c : Char} (hc : ¬isIdentifierChar c)
    (hpoint : e.isInt → c ≠ '.') {n : Nat} (hn : (e.operandText level).length ≤ n) (cs : List Char) :
    ∃ turns, cs.length ≤ turns ∧
      Reader.operand (unary n) (e.operandText level ++ c :: cs) = accesses (unary n) (turns + 1) e (c :: cs) := by
  have hhead : ∀ d ∈ (c :: cs).head?, ¬isIdentifierChar d ∧ (e.isInt → d ≠ '.') := by
    rintro d ⟨⟩
    exact ⟨hc, hpoint⟩
  obtain ⟨turns, hturns, hread⟩ := h n (c :: cs) hn hhead
  rw [List.length_cons] at hturns
  obtain ⟨turns, rfl⟩ : ∃ t, turns = t + 1 := ⟨turns - 1, by omega⟩
  exact ⟨turns, by omega, hread⟩

theorem ReadsAsObject.property {object : Expr} (h : ReadsAsObject level object) (hint : ¬object.isInt) {name : String}
    (hname : isIdentifier name.toList) : ReadsAsObject level (.property object name) := by
  intro n rest hn hrest
  have htext : (Expr.property object name).operandText level = object.operandText level ++ '.' :: name.toList := rfl
  rw [htext] at hn ⊢
  simp only [List.length_append, List.length_cons] at hn
  obtain ⟨turns, hturns, hread⟩ := h.exists_turns (c := '.') (by decide) (fun hi => absurd hi hint)
    (show _ ≤ n by omega) (name.toList ++ rest)
  have hword := Lexeme.next?_word hname fun c hc => (hrest c hc).1
  rw [List.length_append] at hturns
  refine ⟨turns, by omega, ?_⟩
  rw [List.append_assoc, List.cons_append, hread]
  exact accesses_property (Lexeme.next?_mark (by decide) (by decide) _) hword turns

theorem ReadsAsObject.element {object index : Expr} (h : ReadsAsObject level object)
    (hindex : ReadsAsExpression level index) : ReadsAsObject level (.element object index) := by
  intro n rest hn _
  have htext : (Expr.element object index).operandText level =
      object.operandText level ++ '[' :: (index.text level ++ [']']) := by
    show object.operandText level ++ '[' :: index.text level ++ [']'] = _
    rw [List.append_assoc, List.cons_append]
  rw [htext] at hn ⊢
  simp only [List.length_append, List.length_cons, List.length_nil] at hn
  obtain ⟨m, rfl⟩ : ∃ m, n = m + 1 := ⟨n - 1, by omega⟩
  obtain ⟨turns, hturns, hread⟩ := h.exists_turns (c := '[') (by decide) (fun _ => by decide) (show _ ≤ m + 1 by omega)
    (index.text level ++ ']' :: rest)
  have hinner := hindex m (']' :: rest) (by omega) (ends_cons (by simp) rest)
  simp only [List.length_append, List.length_cons] at hturns
  refine ⟨turns, by omega, ?_⟩
  simp only [List.append_assoc, List.cons_append, List.nil_append]
  rw [hread]
  exact accesses_element (Lexeme.next?_mark (by decide) (by decide) _) hinner (mark_cons (by decide) (by decide) rest)
    turns

/-! ## Lists -/

variable {close : Char}

/-- A mark that closes a list ends expressions and begins none. -/
theorem closes (h : close ∈ [')', ']']) (rest : List Char) :
    mark close (close :: rest) = some rest ∧ Ends (close :: rest) ∧ ∀ cs, Begins cs → mark close cs = none := by
  simp only [List.mem_cons, List.not_mem_nil, or_false] at h
  rcases h with rfl | rfl
  · exact ⟨mark_cons (by decide) (by decide) rest, ends_cons (by simp) rest, fun _ hb => hb.mark_eq_none (by simp)⟩
  · exact ⟨mark_cons (by decide) (by decide) rest, ends_cons (by simp) rest, fun _ hb => hb.mark_eq_none (by simp)⟩

theorem textOfList_cons_cons (level : Nat) (e e' : Expr) (es : List Expr) :
    textOfList level (e :: e' :: es) = e.text level ++ ',' :: ' ' :: textOfList level (e' :: es) :=
  textOfList.eq_3 level e (e' :: es) (by simp)

theorem length_le_textOfList (level : Nat) : ∀ es : List Expr, es.length ≤ (textOfList level es).length + 1
  | [] => Nat.zero_le _
  | [e] => by simp
  | e :: e' :: es => by
    have h := length_le_textOfList level (e' :: es)
    rw [textOfList_cons_cons]
    simp only [List.length_append, List.length_cons] at h ⊢
    omega

/-- Expressions with commas between them are read up to the mark that closes them. -/
theorem sequence_textOfList (hclose : close ∈ [')', ']']) (n : Nat) (rest : List Char) :
    ∀ (es : List Expr) (turns : Nat), (∀ e ∈ es, ReadsAsExpression level e) → (textOfList level es).length ≤ n →
      es.length ≤ turns →
      sequence (expression (unary (n + 1))) close (turns + 1) (textOfList level es ++ close :: rest) = some (es, rest)
  | [], turns, _, _, _ => sequence_close turns (closes hclose rest).1
  | [e], turns, h, hn, _ => by
    obtain ⟨hmark, hends, hbegins⟩ := closes hclose rest
    have hread := h e List.mem_cons_self n (close :: rest) hn hends
    exact sequence_last turns (hbegins _ (begins_of_expression hread)) hread hmark
  | e :: e' :: es, 0, _, _, hturns => absurd hturns (by simp)
  | e :: e' :: es, turns + 1, h, hn, hturns => by
    have hmore := sequence_textOfList hclose n rest (e' :: es) turns fun e he => h e (List.mem_cons_of_mem _ he)
    rw [textOfList_cons_cons] at hn ⊢
    simp only [List.length_append, List.length_cons] at hn hturns hmore
    simp only [List.append_assoc, List.cons_append]
    generalize textOfList level (e' :: es) ++ close :: rest = tail at hmore ⊢
    have hread := h e List.mem_cons_self n (',' :: ' ' :: tail) (by omega) (ends_cons (by simp) _)
    have hopen := (closes hclose rest).2.2 _ (begins_of_expression hread)
    have hcomma : next? (',' :: ' ' :: tail) = some (.mark ',', ' ' :: tail) :=
      Lexeme.next?_mark (by decide) (by decide) _
    have hne : ',' ≠ close := by
      rintro rfl
      exact absurd hclose (by decide)
    refine sequence_cons hopen hread (mark_eq_none hcomma hne) (mark_eq_some hcomma) ?_
    rw [(looksAtLexemes_sequence (looksAtLexemes_expression (n + 1)) close (turns + 1)).blank rfl]
    exact hmore (by omega) (by omega)

/-- The same with as many turns as a reader takes, one for every character. -/
theorem sequence_list (hclose : close ∈ [')', ']']) {n : Nat} {es : List Expr}
    (h : ∀ e ∈ es, ReadsAsExpression level e) (hn : (textOfList level es).length ≤ n) (rest : List Char) :
    sequence (expression (unary (n + 1))) close ((textOfList level es ++ close :: rest).length + 1)
      (textOfList level es ++ close :: rest) = some (es, rest) := by
  have hle := length_le_textOfList level es
  refine sequence_textOfList hclose n rest es _ h hn ?_
  simp only [List.length_append, List.length_cons]
  omega

theorem ReadsAsObject.call {callee : Expr} {args : List Expr} (h : ReadsAsObject level callee)
    (hargs : ∀ arg ∈ args, ReadsAsExpression level arg) : ReadsAsObject level (.call callee args) := by
  intro n rest hn _
  have htext : (Expr.call callee args).operandText level =
      callee.operandText level ++ '(' :: (textOfList level args ++ [')']) := by
    show callee.operandText level ++ '(' :: textOfList level args ++ [')'] = _
    rw [List.append_assoc, List.cons_append]
  rw [htext] at hn ⊢
  simp only [List.length_append, List.length_cons, List.length_nil] at hn
  obtain ⟨m, rfl⟩ : ∃ m, n = m + 1 := ⟨n - 1, by omega⟩
  obtain ⟨turns, hturns, hread⟩ := h.exists_turns (c := '(') (by decide) (fun _ => by decide) (show _ ≤ m + 1 by omega)
    (textOfList level args ++ ')' :: rest)
  have hclose : ')' ∈ [')', ']'] := by simp
  have hinner := sequence_list hclose hargs (show _ ≤ m by omega) rest
  simp only [List.length_append, List.length_cons] at hturns
  refine ⟨turns, by omega, ?_⟩
  simp only [List.append_assoc, List.cons_append, List.nil_append]
  rw [hread]
  exact accesses_call (Lexeme.next?_mark (by decide) (by decide) _) hinner turns

theorem readsAsObject_array {items : List Expr} (h : ∀ item ∈ items, ReadsAsExpression level item) :
    ReadsAsObject level (.array items) := by
  refine readsAsObject_of_primary fun n rest hn _ => ?_
  have htext : (Expr.array items).operandText level = '[' :: (textOfList level items ++ [']']) := rfl
  rw [htext] at hn ⊢
  simp only [List.length_append, List.length_cons, List.length_nil] at hn
  obtain ⟨m, rfl⟩ : ∃ m, n = m + 1 := ⟨n - 1, by omega⟩
  have hclose : ']' ∈ [')', ']'] := by simp
  have hinner := sequence_list hclose h (show _ ≤ m by omega) rest
  have hnext : next? ('[' :: (textOfList level items ++ ']' :: rest)) =
      some (.mark '[', textOfList level items ++ ']' :: rest) := Lexeme.next?_mark (by decide) (by decide) _
  simp only [List.append_assoc, List.cons_append, List.nil_append]
  rw [primary, hnext]
  simp only [hinner, Option.map_some]

/-! ## Entries -/

theorem isBlank_of_mem_indentation {c : Char} (h : c ∈ indentation level) : Lexeme.isBlank c := by
  rw [(List.mem_replicate.mp h).2]
  rfl

/-- A key is read in front of its colon. -/
theorem entry_keyText {key : Key} (h : key.Plain) (value : Reader Expr) (rest : List Char) :
    Begins (key.text ++ ':' :: rest) ∧
      entry value (key.text ++ ':' :: rest) = (value rest).map fun (e, rest) => ((key, e), rest) := by
  have hcolon : mark ':' (':' :: rest) = some rest := mark_cons (by decide) (by decide) rest
  cases key with
  | bare name =>
    have hnext : next? (name.toList ++ ':' :: rest) = some (.word name, ':' :: rest) :=
      Lexeme.next?_word h (by rintro c ⟨⟩; decide)
    refine ⟨⟨_, _, hnext, rfl⟩, ?_⟩
    simp [entry, Key.text, hnext, entryFor, hcolon]
  | quoted name =>
    have hnext : next? (quote name ++ ':' :: rest) = some (.string name, ':' :: rest) := Lexeme.next?_quote name _
    refine ⟨⟨_, _, hnext, rfl⟩, ?_⟩
    simp [entry, Key.text, hnext, entryFor, hcolon]

theorem length_le_textOfEntries (level : Nat) :
    ∀ entries : List (Key × Expr), entries.length ≤ (textOfEntries level entries).length
  | [] => Nat.le_refl _
  | (key, e) :: entries => by
    have h := length_le_textOfEntries level entries
    rw [textOfEntries]
    simp only [List.length_append, List.length_cons] at h ⊢
    omega

/-- The entries of an object are read up to its closing brace. -/
theorem sequence_textOfEntries (n outer : Nat) (rest : List Char) :
    ∀ (entries : List (Key × Expr)) (turns : Nat), (∀ entry ∈ entries, entry.1.Plain) →
      (∀ entry ∈ entries, ReadsAsExpression level entry.2) → (textOfEntries level entries).length ≤ n →
      entries.length ≤ turns →
      sequence (entry (expression (unary (n + 1)))) '\x7d' (turns + 1)
        (textOfEntries level entries ++ (indentation outer ++ '\x7d' :: rest)) = some (entries, rest)
  | [], turns, _, _, _, _ => by
    have hclose : mark '\x7d' (indentation outer ++ '\x7d' :: rest) = some rest := by
      refine mark_eq_some ?_
      rw [Lexeme.next?_blanks fun c hc => isBlank_of_mem_indentation hc]
      exact Lexeme.next?_mark (by decide) (by decide) rest
    exact sequence_close turns hclose
  | (key, e) :: entries, 0, _, _, _, hturns => absurd hturns (by simp)
  | (key, e) :: entries, turns + 1, hkeys, h, hn, hturns => by
    have hmore := sequence_textOfEntries n outer rest entries turns
      (fun entry he => hkeys entry (List.mem_cons_of_mem _ he)) (fun entry he => h entry (List.mem_cons_of_mem _ he))
    rw [textOfEntries] at hn ⊢
    simp only [List.length_append, List.length_cons] at hn hturns hmore
    simp only [List.append_assoc, List.cons_append]
    generalize textOfEntries level entries ++ (indentation outer ++ '\x7d' :: rest) = tail at hmore ⊢
    obtain ⟨hbegins, hentry⟩ := entry_keyText (hkeys _ List.mem_cons_self) (expression (unary (n + 1)))
      (' ' :: (e.text level ++ ',' :: '\n' :: tail))
    have hreads : ReadsAsExpression level e := h (key, e) List.mem_cons_self
    have hvalue := hreads n (',' :: '\n' :: tail) (by omega) (ends_cons (by simp) _)
    rw [(looksAtLexemes_expression (n + 1)).blank rfl, hvalue] at hentry
    have hcomma : next? (',' :: '\n' :: tail) = some (.mark ',', '\n' :: tail) :=
      Lexeme.next?_mark (by decide) (by decide) _
    have hitems := looksAtLexemes_sequence (looksAtLexemes_entry (expression (unary (n + 1)))) '\x7d'
    rw [(hitems (turns + 1 + 1)).blanks fun c hc => isBlank_of_mem_indentation hc]
    refine sequence_cons (hbegins.mark_eq_none (by simp)) hentry (mark_eq_none hcomma (by decide))
      (mark_eq_some hcomma) ?_
    rw [(hitems (turns + 1)).blank rfl]
    exact hmore (by omega) (by omega)

theorem readsAsObject_object {entries : List (Key × Expr)} (hkeys : ∀ entry ∈ entries, entry.1.Plain)
    (h : ∀ entry ∈ entries, ReadsAsExpression (level + 1) entry.2) : ReadsAsObject level (.object entries) := by
  refine readsAsObject_of_primary fun n rest hn _ => ?_
  cases entries with
  | nil => rfl
  | cons entry entries =>
    have htext : (Expr.object (entry :: entries)).operandText level =
        '\x7b' :: '\n' :: (textOfEntries (level + 1) (entry :: entries) ++ (indentation level ++ ['\x7d'])) := by
      show '\x7b' :: '\n' :: textOfEntries (level + 1) (entry :: entries) ++ indentation level ++ ['\x7d'] = _
      simp only [List.append_assoc, List.cons_append]
    rw [htext] at hn ⊢
    simp only [List.length_append, List.length_cons, List.length_nil] at hn
    obtain ⟨m, rfl⟩ : ∃ m, n = m + 1 := ⟨n - 1, by omega⟩
    have hle := length_le_textOfEntries (level + 1) (entry :: entries)
    have hinner := sequence_textOfEntries m level rest (entry :: entries)
      ('\n' :: (textOfEntries (level + 1) (entry :: entries) ++ (indentation level ++ '\x7d' :: rest))).length hkeys h
      (by omega) (by simp only [List.length_append, List.length_cons] at hle ⊢; omega)
    have hitems := looksAtLexemes_sequence (looksAtLexemes_entry (expression (unary (m + 1)))) '\x7d'
    simp only [List.append_assoc, List.cons_append, List.nil_append]
    rw [← (hitems _).blank (c := '\n') rfl] at hinner
    have hnext : ∀ cs, next? ('\x7b' :: cs) = some (.mark '\x7b', cs) := Lexeme.next?_mark (by decide) (by decide)
    rw [primary, hnext]
    simp only [hinner, Option.map_some]

/-! ## Negations and operators -/

theorem ReadsAsOperand.not (h : ReadsAsOperand level e) : ReadsAsExpression level (.not e) := by
  intro n rest hn hrest
  have htext : (Expr.not e).text level = '!' :: e.operandText level := rfl
  rw [htext] at hn ⊢
  rw [List.length_cons] at hn
  obtain ⟨m, rfl⟩ : ∃ m, n = m + 1 := ⟨n - 1, by omega⟩
  have hread := h m rest (by omega) hrest.stops
  have hbang : next? ('!' :: (e.operandText level ++ rest)) = some (.mark '!', e.operandText level ++ rest) :=
    Lexeme.next?_bang (begins_of_unary hread).head?_ne
  have hnot : unary (m + 1 + 1) ('!' :: (e.operandText level ++ rest)) = some (.not e, rest) := by
    rw [unary, unaryWith, hbang]
    simp only [hread, Option.map_some]
  exact hrest.expression_eq hnot

theorem ReadsAsOperand.binary {left right : Expr} (hleft : ReadsAsOperand level left)
    (hright : ReadsAsOperand level right) (op : BinaryOp) : ReadsAsExpression level (.binary op left right) := by
  intro n rest hn hrest
  have htext : (Expr.binary op left right).text level =
      left.operandText level ++ (' ' :: op.symbol.toList ++ ' ' :: right.operandText level) := by
    show left.operandText level ++ ' ' :: op.symbol.toList ++ ' ' :: right.operandText level = _
    rw [List.append_assoc]
  rw [htext] at hn ⊢
  simp only [List.length_append, List.length_cons] at hn
  have hop := Lexeme.next?_operator op (right.operandText level ++ rest)
  have hread := hleft n (' ' :: op.symbol.toList ++ ' ' :: (right.operandText level ++ rest)) (by omega)
    (stops_operator op _)
  have hread' := hright n rest (by omega) hrest.stops
  rw [← (looksAtLexemes_unary (n + 1)).blank (c := ' ') rfl] at hread'
  rw [List.append_assoc, List.append_assoc, List.cons_append]
  exact expression_binary hread hop hread' hrest.not_operator

/-! ## Plain expressions -/

/-- Is read at every place where it can stand. -/
def Reads (e : Expr) : Prop := ∀ level, ReadsAsExpression level e ∧ (¬e.isNegative → ReadsAsObject level e)

theorem reads_of_object (h : ∀ level, ReadsAsObject level e) (he : e.needsParens = false) : Reads e :=
  fun level => ⟨(h level).operand.expression he, fun _ => h level⟩

theorem reads_of_expression (h : ∀ level, ReadsAsExpression level e) (he : e.needsParens) : Reads e :=
  fun level => ⟨h level, fun _ => (h level).object he⟩

theorem Reads.operand (h : Reads e) (level : Nat) : ReadsAsOperand level e := by
  -- a negative number is an operand, but no object
  by_cases hnegative : e.isNegative
  · unfold Expr.isNegative at hnegative
    split at hnegative
    · next n =>
      cases n with
      | ofNat n => exact absurd (of_decide_eq_true hnegative) (by simp)
      | negSucc n => exact readsAsOperand_negative n
    · cases hnegative
  · exact ((h level).2 hnegative).operand

/-- **A plain expression is read at every place where it can stand.** -/
theorem reads_of_plain {e : Expr} (h : e.Plain) : Reads e := by
  -- by induction on the expression: negations and operators are enclosed as objects, everything else is not
  induction h with
  | ident hname hreserved hundefined =>
    exact reads_of_object (fun _ => readsAsObject_of_word _ rfl hname (ofWord_ident hreserved hundefined)) rfl
  | int n =>
    cases n with
    | ofNat n => exact reads_of_object (fun _ => readsAsObject_nat n) rfl
    | negSucc n =>
      have hnegative : (Expr.int (.negSucc n)).isNegative := decide_eq_true (Int.negSucc_lt_zero n)
      exact fun _ => ⟨(readsAsOperand_negative n).expression rfl, fun hnot => absurd hnegative hnot⟩
  | string s => exact reads_of_object (fun _ => readsAsObject_string s) rfl
  | bool b =>
    refine reads_of_object (fun level => ?_) rfl
    cases b with
    | true => exact readsAsObject_of_word "true" rfl (by decide) rfl
    | false => exact readsAsObject_of_word "false" rfl (by decide) rfl
  | null => exact reads_of_object (fun _ => readsAsObject_of_word "null" rfl (by decide) rfl) rfl
  | undefined =>
    exact reads_of_object (fun _ => readsAsObject_of_word "undefined" rfl (by decide) rfl) rfl
  | @property object name _ hint hname ih =>
    have hnegative : ¬object.isNegative := by
      intro hnegative
      unfold Expr.isNegative at hnegative
      split at hnegative
      · exact hint rfl
      · cases hnegative
    exact reads_of_object (fun level => ((ih level).2 hnegative).property hint hname) rfl
  | element _ hnegative _ ih ih' =>
    exact reads_of_object (fun level => ((ih level).2 hnegative).element (ih' level).1) rfl
  | call _ hnegative _ ih ih' =>
    exact reads_of_object (fun level => ((ih level).2 hnegative).call fun arg harg => (ih' arg harg level).1) rfl
  | not _ ih => exact reads_of_expression (fun level => (ih.operand level).not) rfl
  | binary op _ _ ih ih' =>
    exact reads_of_expression (fun level => (ih.operand level).binary (ih'.operand level) op) rfl
  | array _ ih => exact reads_of_object (fun level => readsAsObject_array fun item hitem => (ih item hitem level).1) rfl
  | object hkeys _ ih =>
    exact reads_of_object (fun level => readsAsObject_object hkeys fun entry hentry => (ih entry hentry (level + 1)).1)
      rfl

end Reader

namespace Expr

theorem Plain.read_eq {e : Expr} (h : e.Plain) (level : Nat) : read (e.text level) = some e := by
  have hread := (Reader.reads_of_plain h level).1 (e.text level).length [] (Nat.le_refl _) Reader.ends_nil
  rw [List.append_nil] at hread
  rw [read, hread]
  rfl

/-- **The text of a plain expression is read as that expression**, and no other plain expression has the same text. -/
theorem read_text {e : Expr} (h : e.Plain) (level : Nat) :
    read (e.text level) = some e ∧
      ∀ (e' : Expr) (level' : Nat), e'.Plain → e'.text level' = e.text level → e' = e := by
  have hread := h.read_eq level
  refine ⟨hread, fun e' level' h' htext => ?_⟩
  have hread' := h'.read_eq level'
  rw [htext, hread] at hread'
  exact (Option.some.inj hread').symm

/-- `(!(user.roles["a === b"] === f(1, null))) || (x < 3)` -/
def nestedCheck : Expr :=
  .binary .or
    (.not (.binary .strictEq (.element (.property (.ident "user") "roles") (.string "a === b"))
      (.call (.ident "f") [.int 1, .null])))
    (.binary .lt (.ident "x") (.int 3))

theorem plain_nestedCheck : nestedCheck.Plain := by
  have hident : ∀ {name : String}, isIdentifier name.toList ∧ name ∉ reservedWords ∧ name ≠ "undefined" →
      (Expr.ident name).Plain := fun h => .ident h.1 h.2.1 h.2.2
  have hargs : ∀ arg ∈ [Expr.int 1, Expr.null], arg.Plain :=
    List.forall_mem_cons.mpr ⟨.int 1, List.forall_mem_cons.mpr ⟨.null, by simp⟩⟩
  have hroles : (Expr.property (.ident "user") "roles").Plain := .property (hident (by decide)) (by decide) (by decide)
  exact .binary .or
    (.not (.binary .strictEq (.element hroles (by decide) (.string _)) (.call (hident (by decide)) (by decide) hargs)))
    (.binary .lt (hident (by decide)) (.int 3))

/-- A negated comparison inside an alternative is read back. -/
theorem read_text_nestedCheck :
    nestedCheck.Plain ∧ read (nestedCheck.text 1) = some nestedCheck :=
  ⟨plain_nestedCheck, (read_text plain_nestedCheck 1).1⟩

/-- Where parentheses are missing, the operators bind as in the grammar. -/
example : (read "a || b && !c.d === 1".toList).map (text 0) = some "a || (b && ((!c.d) === 1))".toList := by
  decide +kernel

end Expr

end FlowSuite.Script
