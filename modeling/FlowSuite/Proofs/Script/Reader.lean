import FlowSuite.Proofs.Script.Lexemes

/-!
# Reading expressions

    expression = or
    or         = and ( "||" and )*
    and        = equality ( "&&" equality )*
    equality   = order ( ( "===" / "!==" ) order )*
    order      = unary ( ( "<" / "<=" / ">" / ">=" ) unary )*
    unary      = "!" unary / "-" number / operand
    operand    = primary ( "." name / "[" expression "]" / "(" list ")" )*
    primary    = name / literal / "(" expression ")" / "[" list "]" / "{" entries "}"

`Expr.read` reads a whole text by this grammar. All chains are folded to the left. Parts that are enclosed, and what is
negated, are read with one level less, and every turn of a loop passes a character, so the length of the text bounds
both; no text is refused for its depth.
-/

namespace FlowSuite.Script

open Lexeme (next?)

/-- A reader gives a part of a program and the text behind it. -/
abbrev Reader (α : Type) := List Char → Option (α × List Char)

/-- How loosely an operator binds. -/
def BinaryOp.looseness : BinaryOp → Nat
  | lt | le | gt | ge => 0
  | strictEq | strictNe => 1
  | and => 2
  | or => 3

namespace Reader

variable {α : Type}

/-- Passes a mark. -/
def mark (symbol : Char) (cs : List Char) : Option (List Char) :=
  match next? cs with
  | some (.mark c, rest) => if c = symbol then some rest else none
  | _ => none

/-- Items with commas between them, up to the mark that closes them; a comma may stand in front of it. -/
def sequence (item : Reader α) (close : Char) : (turns : Nat) → Reader (List α)
  | 0, _ => none
  | turns + 1, cs =>
    match mark close cs with
    | some rest => some ([], rest)
    | none =>
      match item cs with
      | none => none
      | some (a, cs) =>
        match mark close cs, mark ',' cs with
        | some rest, _ => some ([a], rest)
        | none, some cs => (sequence item close turns cs).map fun (as, rest) => (a :: as, rest)
        | none, none => none

/-- Joins further operands to what was read so far, as long as operators of a looseness follow. -/
def chainFrom (looseness : Nat) (operand : Reader Expr) : (turns : Nat) → Expr → Reader Expr
  | 0, left, cs => some (left, cs)
  | turns + 1, left, cs =>
    match next? cs with
    | some (.operator op, behind) =>
      if op.looseness = looseness then
        match operand behind with
        | some (right, cs) => chainFrom looseness operand turns (.binary op left right) cs
        | none => none
      else some (left, cs)
    | _ => some (left, cs)

/-- An expression of operators of a looseness. -/
def chain (looseness : Nat) (operand : Reader Expr) : Reader Expr := fun cs =>
  match operand cs with
  | some (left, cs) => chainFrom looseness operand cs.length left cs
  | none => none

/-- An expression of the operators below a looseness. -/
def below (unary : Reader Expr) : (looseness : Nat) → Reader Expr
  | 0 => unary
  | looseness + 1 => chain looseness (below unary looseness)

/-- An expression whose operands one reader reads. -/
def expression (unary : Reader Expr) : Reader Expr := below unary 4

/-- What a word stands for. -/
def ofWord (word : String) : Option Expr :=
  if word = "true" then some (.bool true)
  else if word = "false" then some (.bool false)
  else if word = "null" then some .null
  else if word = "undefined" then some .undefined
  else if word ∈ reservedWords then none
  else some (.ident word)

/-- The entry of a key. -/
def entryFor (key : Key) (value : Reader Expr) : Reader (Key × Expr) := fun cs =>
  match mark ':' cs with
  | some cs => (value cs).map fun (e, rest) => ((key, e), rest)
  | none => none

/-- An entry of an object. Every word can be a key. -/
def entry (value : Reader Expr) : Reader (Key × Expr) := fun cs =>
  match next? cs with
  | some (.word name, cs) => entryFor (.bare name) value cs
  | some (.string name, cs) => entryFor (.quoted name) value cs
  | _ => none

/-- A name, a literal, an array, an object, or an expression in parentheses; `unary` reads the operands inside them. -/
def primary (unary : Reader Expr) : Reader Expr := fun cs =>
  match next? cs with
  | some (.word name, cs) => (ofWord name).map fun e => (e, cs)
  | some (.number n, cs) => some (.int n, cs)
  | some (.string s, cs) => some (.string s, cs)
  | some (.mark '(', cs) =>
    match expression unary cs with
    | some (e, cs) => (mark ')' cs).map fun rest => (e, rest)
    | none => none
  | some (.mark '[', cs) =>
    (sequence (expression unary) ']' (cs.length + 1) cs).map fun (items, rest) => (.array items, rest)
  | some (.mark '\x7b', cs) =>
    (sequence (entry (expression unary)) '\x7d' (cs.length + 1) cs).map fun (entries, rest) => (.object entries, rest)
  | _ => none

/-- Applies the accesses and calls that follow to what was read so far. -/
def accesses (unary : Reader Expr) : (turns : Nat) → Expr → Reader Expr
  | 0, e, cs => some (e, cs)
  | turns + 1, e, cs =>
    match next? cs with
    | some (.mark '.', cs) =>
      match next? cs with
      | some (.word name, cs) => accesses unary turns (.property e name) cs
      | _ => none
    | some (.mark '[', cs) =>
      match expression unary cs with
      | some (index, cs) =>
        match mark ']' cs with
        | some cs => accesses unary turns (.element e index) cs
        | none => none
      | none => none
    | some (.mark '(', cs) =>
      match sequence (expression unary) ')' (cs.length + 1) cs with
      | some (args, cs) => accesses unary turns (.call e args) cs
      | none => none
    | _ => some (e, cs)

/-- A primary expression with its accesses and calls. -/
def operand (unary : Reader Expr) : Reader Expr := fun cs =>
  match primary unary cs with
  | some (e, cs) => accesses unary cs.length e cs
  | none => none

/-- A negation, a negative number or an operand; `inner` reads what is negated or enclosed. -/
def unaryWith (inner : Reader Expr) : Reader Expr := fun cs =>
  match next? cs with
  | some (.mark '!', cs) => (inner cs).map fun (e, rest) => (.not e, rest)
  | some (.mark '-', cs) =>
    match next? cs with
    | some (.number n, rest) => some (.int (-n), rest)
    | _ => none
  | _ => operand inner cs

/-- A negation, a negative number or an operand, with so many levels. -/
def unary : (levels : Nat) → Reader Expr
  | 0 => fun _ => none
  | levels + 1 => unaryWith (unary levels)

end Reader

/-- The expression that a text writes, all of it. -/
def Expr.read (text : List Char) : Option Expr :=
  match Reader.expression (Reader.unary (text.length + 1)) text with
  | some (e, rest) => if rest.all Lexeme.isBlank then some e else none
  | none => none

namespace Reader

variable {u : Reader Expr} {cs mid behind rest : List Char} {e : Expr}

/-! ## Marks and sequences -/

theorem mark_eq_some {c : Char} (h : next? cs = some (.mark c, rest)) : mark c cs = some rest := by
  simp [mark, h]

theorem mark_cons {c : Char} (h : c ∈ Lexeme.marks) (hbang : c ≠ '!') (cs : List Char) : mark c (c :: cs) = some cs :=
  mark_eq_some (Lexeme.next?_mark h hbang cs)

theorem mark_eq_none {c d : Char} (h : next? cs = some (.mark d, rest)) (hne : d ≠ c) : mark c cs = none := by
  simp [mark, h, hne]

section Sequences

variable {α : Type} {item : Reader α} {close : Char} {a : α} {as : List α} (turns : Nat)

theorem sequence_close (h : mark close cs = some rest) : sequence item close (turns + 1) cs = some ([], rest) := by
  simp [sequence, h]

theorem sequence_last (hopen : mark close cs = none) (hitem : item cs = some (a, mid))
    (h : mark close mid = some rest) : sequence item close (turns + 1) cs = some ([a], rest) := by
  simp [sequence, hopen, hitem, h]

variable {turns}

theorem sequence_cons (hopen : mark close cs = none) (hitem : item cs = some (a, mid)) (hmid : mark close mid = none)
    (hcomma : mark ',' mid = some behind) (h : sequence item close turns behind = some (as, rest)) :
    sequence item close (turns + 1) cs = some (a :: as, rest) := by
  simp [sequence, hopen, hitem, hmid, hcomma, h]

end Sequences

/-! ## Operators -/

/-- A chain ends where no operator of its looseness follows. -/
theorem chainFrom_stop {looseness : Nat}
    (h : ∀ op behind, next? rest = some (.operator op, behind) → op.looseness ≠ looseness) (turns : Nat) :
    chainFrom looseness u turns e rest = some (e, rest) := by
  cases turns with
  | zero => rfl
  | succ turns =>
    rw [chainFrom]
    split
    · next op behind hop => rw [if_neg (h op behind hop)]
    · rfl

/-- What is read below a looseness is read below a higher one as well, if no operator between them follows. -/
theorem below_mono {m n : Nat} (hle : m ≤ n) (h : below u m cs = some (e, rest))
    (hrest : ∀ op behind, next? rest = some (.operator op, behind) → n ≤ op.looseness) :
    below u n cs = some (e, rest) := by
  induction hle with
  | refl => exact h
  | @step n _ ih =>
    have hbelow : below u n cs = some (e, rest) := ih fun op behind hop => Nat.le_of_succ_le (hrest op behind hop)
    rw [below, chain, hbelow]
    exact chainFrom_stop (fun op behind hop => by have := hrest op behind hop; omega) _

/-- **An operator stands between its operands**, whichever it is. -/
theorem expression_binary {op : BinaryOp} {left right : Expr} (hleft : u cs = some (left, mid))
    (hop : next? mid = some (.operator op, behind)) (hright : u behind = some (right, rest))
    (hrest : ∀ op behind, next? rest ≠ some (.operator op, behind)) :
    expression u cs = some (.binary op left right, rest) := by
  have hend : ∀ {n : Nat}, ∀ op' behind', next? rest = some (.operator op', behind') → n ≤ op'.looseness :=
    fun op' behind' h => absurd h (hrest op' behind')
  have hleft' : below u op.looseness cs = some (left, mid) := by
    refine below_mono (Nat.zero_le _) hleft fun op' behind' h => ?_
    rw [hop] at h
    cases h
    exact Nat.le_refl _
  have hright' : below u op.looseness behind = some (right, rest) := below_mono (Nat.zero_le _) hright hend
  have hjoined : below u (op.looseness + 1) cs = some (.binary op left right, rest) := by
    obtain ⟨c, mid, rfl⟩ : ∃ c cs, mid = c :: cs := List.exists_cons_of_ne_nil (by rintro rfl; cases hop)
    simp only [below, chain, hleft', List.length_cons, chainFrom, hop, if_pos, hright']
    exact chainFrom_stop (fun op' behind' h => absurd h (hrest op' behind')) _
  exact below_mono (by cases op <;> decide) hjoined hend

/-! ## Operands -/

/-- The lexemes that can begin an expression. -/
def begins : Lexeme → Bool
  | .word _ | .number _ | .string _ => true
  | .operator _ => false
  | .mark c => c ∈ ['!', '-', '(', '[', '\x7b']

/-- Begins like an expression. -/
def Begins (cs : List Char) : Prop := ∃ t rest, next? cs = some (t, rest) ∧ begins t

theorem begins_of_primary {r : Expr × List Char} (h : primary u cs = some r) :
    Begins cs ∧ ∀ c rest, next? cs = some (.mark c, rest) → c ≠ '!' ∧ c ≠ '-' := by
  unfold primary at h
  split at h
  case h_7 => cases h
  all_goals
    next hnext =>
      refine ⟨⟨_, _, hnext, rfl⟩, fun c rest hmark => ?_⟩
      rw [hnext] at hmark
      cases hmark
      try decide

theorem begins_of_operand {r : Expr × List Char} (h : operand u cs = some r) :
    Begins cs ∧ ∀ c rest, next? cs = some (.mark c, rest) → c ≠ '!' ∧ c ≠ '-' := by
  unfold operand at h
  split at h
  · next hprimary => exact begins_of_primary hprimary
  · cases h

/-- What is read as an operand is no negation and no negative number. -/
theorem unaryWith_of_operand {r : Expr × List Char} (h : operand u cs = some r) : unaryWith u cs = some r := by
  obtain ⟨-, hmark⟩ := begins_of_operand h
  unfold unaryWith
  split
  · next hnext => exact absurd rfl (hmark _ _ hnext).1
  · next hnext => exact absurd rfl (hmark _ _ hnext).2
  · exact h

theorem begins_of_unary {n : Nat} {r : Expr × List Char} (h : unary n cs = some r) : Begins cs := by
  cases n with
  | zero => cases h
  | succ n =>
    rw [unary, unaryWith] at h
    split at h
    · next hnext => exact ⟨_, _, hnext, rfl⟩
    · next hnext => exact ⟨_, _, hnext, rfl⟩
    · exact (begins_of_operand h).1

theorem begins_of_below (hu : ∀ cs r, u cs = some r → Begins cs) (n : Nat) :
    ∀ cs r, below u n cs = some r → Begins cs := by
  induction n with
  | zero => exact hu
  | succ n ih =>
    intro cs r h
    rw [below, chain] at h
    split at h
    · next hbelow => exact ih _ _ hbelow
    · cases h

theorem begins_of_expression {n : Nat} {r : Expr × List Char} (h : expression (unary n) cs = some r) : Begins cs :=
  begins_of_below (fun _ _ => begins_of_unary) 4 _ _ h

/-- No expression begins with a closing mark. -/
theorem Begins.mark_eq_none (h : Begins cs) {c : Char} (hc : c ∈ [')', ']', '\x7d']) : mark c cs = none := by
  obtain ⟨t, rest, hnext, ht⟩ := h
  unfold mark
  split
  · next d rest' hmark =>
    rw [hnext] at hmark
    cases hmark
    refine if_neg ?_
    rintro rfl
    simp only [List.mem_cons, List.not_mem_nil, or_false] at hc
    rcases hc with rfl | rfl | rfl <;> cases ht
  · rfl

/-- No expression begins with an equals sign. -/
theorem Begins.head?_ne (h : Begins cs) : cs.head? ≠ some '=' := by
  obtain ⟨t, rest, hnext, ht⟩ := h
  intro hhead
  cases cs with
  | nil => cases hhead
  | cons c cs =>
    cases hhead
    rw [next?, List.dropWhile_cons_of_neg (by decide)] at hnext
    simp only [if_neg (show ¬isIdentifierStart '=' by decide), if_neg (show ¬('=').isDigit by decide),
      if_neg (show '=' ≠ '"' by decide)] at hnext
    split at hnext
    · cases hnext
      cases ht
    · rw [if_neg (by decide)] at hnext
      cases hnext

/-- Accesses end where no mark of them follows. -/
theorem accesses_stop (h : ∀ c behind, next? rest = some (.mark c, behind) → c ∉ ['.', '[', '(']) (turns : Nat) :
    accesses u turns e rest = some (e, rest) := by
  cases turns with
  | zero => rfl
  | succ turns =>
    rw [accesses]
    split
    · next hnext => exact absurd (by simp) (h _ _ hnext)
    · next hnext => exact absurd (by simp) (h _ _ hnext)
    · next hnext => exact absurd (by simp) (h _ _ hnext)
    · rfl

theorem accesses_property {name : String} (hdot : next? cs = some (.mark '.', mid))
    (hname : next? mid = some (.word name, rest)) (turns : Nat) :
    accesses u (turns + 1) e cs = accesses u turns (.property e name) rest := by
  simp [accesses, hdot, hname]

theorem accesses_element {index : Expr} (hopen : next? cs = some (.mark '[', mid))
    (hindex : expression u mid = some (index, behind)) (hclose : mark ']' behind = some rest) (turns : Nat) :
    accesses u (turns + 1) e cs = accesses u turns (.element e index) rest := by
  simp [accesses, hopen, hindex, hclose]

theorem accesses_call {args : List Expr} (hopen : next? cs = some (.mark '(', mid))
    (hargs : sequence (expression u) ')' (mid.length + 1) mid = some (args, rest)) (turns : Nat) :
    accesses u (turns + 1) e cs = accesses u turns (.call e args) rest := by
  simp [accesses, hopen, hargs]

/-! ## Blanks -/

/-- Looks only at lexemes. -/
def LooksAtLexemes {α : Type} (r : Reader α) : Prop := ∀ cs ds, next? cs = next? ds → r cs = r ds

theorem LooksAtLexemes.blanks {α : Type} {r : Reader α} (h : LooksAtLexemes r) {bs : List Char}
    (hbs : ∀ c ∈ bs, Lexeme.isBlank c) (cs : List Char) : r (bs ++ cs) = r cs :=
  h _ _ (Lexeme.next?_blanks hbs cs)

theorem LooksAtLexemes.blank {α : Type} {r : Reader α} (h : LooksAtLexemes r) {c : Char} (hc : Lexeme.isBlank c)
    (cs : List Char) : r (c :: cs) = r cs :=
  h _ _ (Lexeme.next?_blank hc cs)

theorem looksAtLexemes_unary (n : Nat) : LooksAtLexemes (unary n) := by
  intro cs ds h
  cases n with
  | zero => rfl
  | succ n => simp only [unary, unaryWith, operand, primary, h]

theorem looksAtLexemes_below (hu : LooksAtLexemes u) (n : Nat) : LooksAtLexemes (below u n) := by
  induction n with
  | zero => exact hu
  | succ n ih =>
    intro cs ds h
    rw [below, chain, chain, ih cs ds h]

theorem looksAtLexemes_expression (n : Nat) : LooksAtLexemes (expression (unary n)) :=
  looksAtLexemes_below (looksAtLexemes_unary n) 4

theorem looksAtLexemes_entry (value : Reader Expr) : LooksAtLexemes (entry value) := by
  intro cs ds h
  simp only [entry, h]

theorem looksAtLexemes_sequence {α : Type} {item : Reader α} (hitem : LooksAtLexemes item) (close : Char)
    (turns : Nat) : LooksAtLexemes (sequence item close turns) := by
  intro cs ds h
  cases turns with
  | zero => rfl
  | succ turns => simp only [sequence, mark, h, hitem cs ds h]

end Reader

end FlowSuite.Script
