import FlowSuite.Proofs.Condition.FlatReading
import FlowSuite.Proofs.Condition.Spacing
import FlowSuite.Proofs.Script.Parts
import FlowSuite.Proofs.Script.Reader
import FlowSuite.Script.Printer
import FlowSuite.TestCase.Scope

/-!
# Members of numbers

A point behind a bare run of digits belongs to the number, so an access by name is broken where its object is printed as
one. `Expr.DotsNumber` says that an expression has such an access.

Only names and values can be printed as a run of digits (`Expr.cases_of_isDigits`), and what a condition is lowered to
is printed so only where the condition is a literal (`Condition.isDigits_lower_iff`). So a lowered condition has a
broken access exactly where the condition has a name behind a number (`Condition.dotsNumber_lower_iff`). The numbers of
a text have no sign; they are printed as digits unless they have places (`Token.Denotes.isDigits_iff`).
-/

namespace FlowSuite

open Script

/-- A bare run of decimal digits. -/
def IsDigits (cs : List Char) : Prop := cs ≠ [] ∧ ∀ c ∈ cs, c.isDigit

theorem not_isDigits_of_mem {cs : List Char} {c : Char} (hc : c ∈ cs) (h : ¬c.isDigit) : ¬IsDigits cs :=
  fun hdigits => h (hdigits.2 c hc)

/-! ## The text of numbers -/

theorem isDigits_toDigits (n : Nat) : IsDigits (Nat.toDigits 10 n) :=
  ⟨Nat.toDigits_ne_nil, fun _ hc => Nat.isDigit_of_mem_toDigits (by decide) (by decide) hc⟩

theorem isDigits_int (n : Nat) (level : Nat) : IsDigits ((Expr.int n).text level) := by
  have htext : (Expr.int n).text level = Nat.toDigits 10 n := by
    show (toString n).toList = _
    rw [Nat.toString_eq_ofList_toDigits, String.toList_ofList]
  rw [htext]
  exact isDigits_toDigits n

namespace Binary64

theorem isDigit_of_mem_shortest (x : Binary64) (halfway : Halfway) : ∀ c ∈ (shortest x halfway).1, c.isDigit := by
  intro c hc
  unfold shortest at hc
  split at hc
  · rw [List.mem_singleton.mp hc]
    rfl
  · simp only [dropZeros, List.mem_reverse] at hc
    exact (isDigits_toDigits _).2 c (List.mem_reverse.mp ((List.dropWhile_sublist _).mem hc))

theorem isDigit_of_mem_replicate {c : Char} {n : Nat} (hc : c ∈ List.replicate n '0') : c.isDigit := by
  rw [List.eq_of_mem_replicate hc]
  rfl

/-- Digits with a point among or in front of them are not empty, and are digits and at most a point. -/
theorem positional_spec {digits : List Char} (h : ∀ c ∈ digits, c.isDigit) (point : Int) :
    positional digits point false ≠ [] ∧ ∀ c ∈ positional digits point false, c.isDigit ∨ c = '.' := by
  unfold positional
  split
  · refine ⟨by simp, fun c hc => ?_⟩
    simp only [List.mem_append, List.mem_cons, List.not_mem_nil, or_false] at hc
    obtain ((rfl | rfl) | hc) | hc := hc
    · exact .inl rfl
    · exact .inr rfl
    · exact .inl (isDigit_of_mem_replicate hc)
    · exact .inl (h c hc)
  split
  · next hpoint hlength =>
    rw [if_neg (by decide), List.append_nil]
    refine ⟨fun hnil => ?_, fun c hc => .inl ?_⟩
    · have hzero := congrArg List.length hnil
      rw [List.length_append, List.length_replicate, List.length_nil] at hzero
      omega
    · obtain hc | hc := List.mem_append.mp hc
      · exact h c hc
      · exact isDigit_of_mem_replicate hc
  · refine ⟨by simp, fun c hc => ?_⟩
    obtain hc | hc := List.mem_append.mp hc
    · exact .inl (h c (List.mem_of_mem_take hc))
    obtain rfl | hc := List.mem_cons.mp hc
    · exact .inr rfl
    · exact .inl (h c (List.mem_of_mem_drop hc))

/-- A number without a sign is printed as digits unless it is printed with a point. -/
theorem isDigits_text_iff {x : Binary64} (h : x.negative = false) :
    IsDigits (x.text .plain) ↔ '.' ∉ x.text .plain := by
  have htext : x.text .plain = positional (shortest x .up).1 (shortest x .up).2 false := by
    simp [text, NumberStyle.plain, h]
  obtain ⟨hne, hchars⟩ := positional_spec (isDigit_of_mem_shortest x .up) (shortest x .up).2
  rw [htext]
  constructor
  · exact fun hdigits hpoint => absurd (hdigits.2 _ hpoint) (by decide)
  · intro hpoint
    refine ⟨hne, fun c hc => (hchars c hc).resolve_right ?_⟩
    rintro rfl
    exact hpoint hc

theorem negative_of_ofDecimal? {digits : Nat} {power : Int} {negative : Bool} {x : Binary64}
    (h : ofDecimal? negative digits power = some x) : x.negative = negative := by
  have hnearest : ∀ {num den : Nat}, nearest? negative num den = some x → x.negative = negative := by
    intro num den h
    unfold nearest? at h
    split at h
    · cases h
      rfl
    · dsimp only at h
      split at h
      all_goals
        split at h
        · cases h
        · cases h
          rfl
  unfold ofDecimal? at h
  dsimp only at h
  split at h
  · cases h
    rfl
  split at h
  · cases h
  split at h
  · exact hnearest h
  · exact hnearest h

end Binary64

/-! ## The text of expressions -/

namespace Script.Expr

variable {level : Nat}

/-- Only names and values can be printed as digits. -/
theorem cases_of_isDigits {e : Expr} (h : IsDigits (e.text level)) :
    (∃ name, e = .ident name) ∨ ∃ v, e = .value v := by
  have hno (c : Char) (hc : c ∈ e.text level) (hdigit : ¬c.isDigit) :
      (∃ name, e = .ident name) ∨ ∃ v, e = .value v := absurd h (not_isDigits_of_mem hc hdigit)
  cases e with
  | ident name => exact .inl ⟨name, rfl⟩
  | value v => exact .inr ⟨v, rfl⟩
  | property => exact hno '.' (List.mem_append_right _ List.mem_cons_self) (by decide)
  | element => exact hno ']' (List.mem_append_right _ List.mem_cons_self) (by decide)
  | call => exact hno ')' (List.mem_append_right _ List.mem_cons_self) (by decide)
  | construct => exact hno ')' (List.mem_append_right _ List.mem_cons_self) (by decide)
  | await => exact hno 'a' (List.mem_append_left _ List.mem_cons_self) (by decide)
  | template => exact hno '\x60' (List.mem_append_right _ List.mem_cons_self) (by decide)
  | object entries =>
    cases entries with
    | nil => exact hno '\x7b' List.mem_cons_self (by decide)
    | cons => exact hno '\x7d' (List.mem_append_right _ List.mem_cons_self) (by decide)
  | array => exact hno ']' (List.mem_append_right _ List.mem_cons_self) (by decide)
  | regex => exact hno '/' List.mem_cons_self (by decide)
  | binary => exact hno ' ' (List.mem_append_right _ List.mem_cons_self) (by decide)
  | not => exact hno '!' List.mem_cons_self (by decide)
  | arrow _ _ body =>
    have hopens : ∀ (before params behind body : List Char), '(' ∈ before ++ '(' :: params ++ behind ++ body := by simp
    cases body <;> exact hno '(' (hopens _ _ _ _) (by decide)

theorem not_isDigits_of_ne {e : Expr} (hname : ∀ name, e ≠ .ident name) (hvalue : ∀ v, e ≠ .value v) :
    ¬IsDigits (e.text level) := by
  intro h
  obtain ⟨name, heq⟩ | ⟨v, heq⟩ := cases_of_isDigits h
  · exact hname name heq
  · exact hvalue v heq

/-- Among the parts of an expression is an access by name whose object is printed as digits. -/
def DotsNumber (level : Nat) (parts : List Expr) : Prop :=
  ∃ object name, .property object name ∈ parts ∧ IsDigits (object.text level)

theorem dotsNumber_append {parts more : List Expr} :
    DotsNumber level (parts ++ more) ↔ DotsNumber level parts ∨ DotsNumber level more := by
  simp only [DotsNumber, List.mem_append, or_and_right, exists_or]

theorem not_dotsNumber_nil : ¬DotsNumber level [] := by
  rintro ⟨_, _, h, _⟩
  cases h

theorem dotsNumber_cons {e : Expr} {parts : List Expr} (h : ∀ object name, e ≠ .property object name) :
    DotsNumber level (e :: parts) ↔ DotsNumber level parts := by
  constructor
  · rintro ⟨object, name, hmem, hdigits⟩
    exact ⟨object, name, (List.mem_cons.mp hmem).resolve_left fun heq => h _ _ heq.symm, hdigits⟩
  · rintro ⟨object, name, hmem, hdigits⟩
    exact ⟨object, name, List.mem_cons_of_mem e hmem, hdigits⟩

theorem dotsNumber_property {object : Expr} {name : String} :
    DotsNumber level (Expr.property object name).parts ↔
      IsDigits (object.text level) ∨ DotsNumber level object.parts := by
  constructor
  · rintro ⟨o, n, hmem, hdigits⟩
    obtain heq | hmem := List.mem_cons.mp hmem
    · cases heq
      exact .inl hdigits
    · exact .inr ⟨o, n, hmem, hdigits⟩
  · rintro (hdigits | ⟨o, n, hmem, hdigits⟩)
    · exact ⟨object, name, List.mem_cons_self, hdigits⟩
    · exact ⟨o, n, List.mem_cons_of_mem _ hmem, hdigits⟩

theorem dotsNumber_element {object index : Expr} :
    DotsNumber level (Expr.element object index).parts ↔
      DotsNumber level object.parts ∨ DotsNumber level index.parts := by
  rw [parts, dotsNumber_cons (by simp), inner, dotsNumber_append]
  rfl

theorem dotsNumber_binary {op : BinaryOp} {left right : Expr} :
    DotsNumber level (Expr.binary op left right).parts ↔
      DotsNumber level left.parts ∨ DotsNumber level right.parts := by
  rw [parts, dotsNumber_cons (by simp), inner, dotsNumber_append]
  rfl

theorem dotsNumber_not {e : Expr} : DotsNumber level (Expr.not e).parts ↔ DotsNumber level e.parts := by
  rw [parts, dotsNumber_cons (by simp), inner]
  rfl

theorem not_dotsNumber_value {v : Value} : ¬DotsNumber level (Expr.value v).parts := by
  rw [parts, dotsNumber_cons (by simp), inner]
  exact not_dotsNumber_nil

/-- A member is read by name only where its name is an identifier. -/
theorem dotsNumber_member {object : Expr} {name : String} :
    DotsNumber level (object.member name).parts ↔
      isIdentifier name.toList ∧ IsDigits (object.text level) ∨ DotsNumber level object.parts := by
  unfold member
  split
  · next hname => rw [dotsNumber_property, and_iff_right hname]
  · next hname =>
    have hvalue : ¬DotsNumber level (Expr.string name).parts := not_dotsNumber_value
    simp only [dotsNumber_element, hvalue, hname, or_false, Bool.false_eq_true, false_and, false_or]

theorem not_isDigits_member (object : Expr) (name : String) : ¬IsDigits ((object.member name).text level) := by
  unfold member
  split <;> exact not_isDigits_of_ne nofun nofun

/-- Along a path from an object that is no number nothing is a number. -/
theorem along_spec {base : Expr} (hdigits : ¬IsDigits (base.text level)) (hdots : ¬DotsNumber level base.parts)
    (path : List String) : ¬IsDigits ((base.along path).text level) ∧ ¬DotsNumber level (base.along path).parts := by
  unfold along
  induction path generalizing base with
  | nil => exact ⟨hdigits, hdots⟩
  | cons name path ih =>
    refine ih (not_isDigits_member base name) ?_
    rw [dotsNumber_member]
    rintro (⟨-, h⟩ | h)
    · exact hdigits h
    · exact hdots h

end Script.Expr

/-! ## Lowered conditions -/

open Script.Expr (DotsNumber)

variable {level : Nat}

/-- What a runtime expression is lowered to is not printed as digits and dots no number. -/
theorem Access.lower_spec (expression : String) (a : Access) (s : Scope) :
    ¬IsDigits ((a.lower expression s).1.text level) ∧ ¬DotsNumber level (a.lower expression s).1.parts := by
  have hname (name : String) (c : Char) (hc : c ∈ name.toList) (hdigit : ¬c.isDigit) :
      ¬IsDigits ((Expr.ident name).text level) ∧ ¬DotsNumber level (Expr.ident name).parts := by
    refine ⟨not_isDigits_of_mem hc hdigit, ?_⟩
    rw [Expr.parts, Expr.dotsNumber_cons (by simp), Expr.inner]
    exact Expr.not_dotsNumber_nil
  have hproperty {object : Expr} (h : ¬IsDigits (object.text level) ∧ ¬DotsNumber level object.parts)
      (name : String) : ¬IsDigits ((Expr.property object name).text level) ∧
        ¬DotsNumber level (Expr.property object name).parts := by
    refine ⟨Expr.not_isDigits_of_ne nofun nofun, ?_⟩
    rw [Expr.dotsNumber_property]
    exact not_or.mpr h
  have hundefined : ¬IsDigits (Expr.undefined.text level) ∧ ¬DotsNumber level Expr.undefined.parts := by
    have htext : Expr.undefined.text level = "undefined".toList := rfl
    rw [htext]
    exact ⟨not_isDigits_of_mem (c := 'u') (by simp) (by decide), Expr.not_dotsNumber_value⟩
  have hresponse := hname "response" 'r' (by simp) (by decide)
  cases a with
  | statusCode => exact hproperty hresponse "status"
  | url => exact hproperty hresponse "url"
  | responseHeader name =>
    obtain ⟨-, hget⟩ := hproperty (hproperty hresponse "headers") "get"
    refine ⟨Expr.not_isDigits_of_ne nofun nofun, ?_⟩
    simp only [Access.lower]
    rw [Expr.parts, Expr.dotsNumber_cons (by simp), Expr.inner, Expr.dotsNumber_append]
    rintro (h | h)
    · exact hget h
    · exact Expr.not_dotsNumber_value h
  | context stepId element key =>
    refine ⟨Expr.not_isDigits_of_ne nofun nofun, ?_⟩
    simp only [Access.lower]
    rw [Expr.dotsNumber_element]
    rintro (h | h)
    · exact (hname "context" 'c' (by simp) (by decide)).2 h
    · exact Expr.not_dotsNumber_value h
  | unresolved => exact hundefined
  | body side path =>
    cases side with
    | response =>
      obtain ⟨hdigits, hdots⟩ := hname "data" 'd' (by simp) (by decide)
      exact Expr.along_spec hdigits hdots path
    | request =>
      obtain ⟨hdigits, hdots⟩ := hname "payload" 'p' (by simp) (by decide)
      simp only [Access.lower]
      split
      · exact Expr.along_spec hdigits hdots path
      · exact hundefined

namespace Condition

/-- A condition is lowered to what is printed as digits exactly if it is a literal that is printed so. -/
theorem isDigits_lower_iff (c : Condition) (s : Scope) :
    IsDigits ((c.lower s).1.text level) ↔ ∃ span v, c = literal span v ∧ IsDigits (v.lower.text level) := by
  constructor
  · intro h
    cases c with
    | literal span v => exact ⟨span, v, rfl, h⟩
    | runtime _ e => exact absurd h (Access.lower_spec e _ s).1
    | property _ object name => exact absurd h (Expr.not_isDigits_member _ name)
    | index | not | logical | comparison => exact absurd h (Expr.not_isDigits_of_ne nofun nofun)
  · rintro ⟨span, v, rfl, h⟩
    exact h

/-- Has a name behind a literal that is printed as digits. -/
def DotsNumber (level : Nat) (c : Condition) : Prop :=
  ∃ span part v name, c.Contains (property span (literal part v) name) ∧ isIdentifier name.toList ∧
    IsDigits (v.lower.text level)

/-- What is inside a condition is itself or is inside a child of it. -/
theorem contains_iff {c d : Condition} : c.Contains d ↔ d = c ∨ ∃ e ∈ c.children, e.Contains d := by
  constructor
  · intro h
    induction h with
    | self => exact .inl rfl
    | @child d d' _ hd ih =>
      obtain rfl | ⟨e, he, hin⟩ := ih
      · exact .inr ⟨d', hd, .self⟩
      · exact .inr ⟨e, he, hin.child hd⟩
  · rintro (rfl | ⟨e, he, h⟩)
    · exact .self
    · induction h with
      | self => exact .child .self he
      | child _ hd ih => exact ih.child hd

/-- A condition dots a number at its top or further inside. -/
theorem dotsNumber_iff {c : Condition} : c.DotsNumber level ↔
    (∃ span part v name, c = property span (literal part v) name ∧ isIdentifier name.toList ∧
      IsDigits (v.lower.text level)) ∨ ∃ d ∈ c.children, d.DotsNumber level := by
  constructor
  · rintro ⟨span, part, v, name, hin, hname, hdigits⟩
    obtain heq | ⟨d, hd, hin⟩ := contains_iff.mp hin
    · exact .inl ⟨span, part, v, name, heq.symm, hname, hdigits⟩
    · exact .inr ⟨d, hd, span, part, v, name, hin, hname, hdigits⟩
  · rintro (⟨span, part, v, name, rfl, h⟩ | ⟨d, hd, span, part, v, name, hin, h⟩)
    · exact ⟨span, part, v, name, .self, h⟩
    · exact ⟨span, part, v, name, contains_iff.mpr (.inr ⟨d, hd, hin⟩), h⟩

/-- **A lowered condition dots a number exactly if the condition does.** -/
theorem dotsNumber_lower_iff (c : Condition) (s : Scope) :
    Expr.DotsNumber level (c.lower s).1.parts ↔ c.DotsNumber level := by
  induction c generalizing s with
  | literal _ v =>
    rw [dotsNumber_iff]
    refine iff_of_false ?_ (by simp [children])
    cases v <;> exact Expr.not_dotsNumber_value
  | runtime _ e =>
    rw [dotsNumber_iff]
    exact iff_of_false (Access.lower_spec e _ s).2 (by simp [children])
  | index _ o i iho ihi =>
    rw [dotsNumber_iff]
    simp only [lower]
    rw [Expr.dotsNumber_element, iho, ihi]
    simp [children]
  | property _ o name ih =>
    rw [dotsNumber_iff]
    simp only [lower]
    rw [Expr.dotsNumber_member, ih, isDigits_lower_iff]
    simp only [property.injEq, children, List.mem_singleton, exists_eq_left]
    refine or_congr_left ⟨?_, ?_⟩
    · rintro ⟨hname, part, v, rfl, hdigits⟩
      exact ⟨_, part, v, name, ⟨rfl, rfl, rfl⟩, hname, hdigits⟩
    · rintro ⟨_, part, v, _, ⟨rfl, rfl, rfl⟩, hname, hdigits⟩
      exact ⟨hname, part, v, rfl, hdigits⟩
  | not _ c ih =>
    rw [dotsNumber_iff]
    simp only [lower]
    rw [Expr.dotsNumber_not, ih]
    simp [children]
  | logical _ k l r ihl ihr | comparison _ op l r _ ihl ihr =>
    rw [dotsNumber_iff]
    simp only [lower]
    rw [Expr.dotsNumber_binary, ihl, ihr]
    simp [children]

end Condition

/-! ## Literals of a text -/

open Lexer (Spelling)

/-- Is a number that is printed without a point. -/
def Literal.isWhole : Literal → Bool
  | int _ => true
  | float x => '.' ∉ x.text .plain
  | string _ | bool _ | null => false

open Literal (isWhole)

/-- Numbers in a text have no sign, so they are printed as digits unless they are printed with a point. -/
theorem Token.Denotes.isDigits_iff {t : Token} {v : Literal} (h : t.Denotes v) (hs : Spelling t.kind t.lexeme) :
    IsDigits (v.lower.text level) ↔ v.isWhole := by
  have hsign {c : Char} (hc : c.isDigit) (cs : List Char) :
      Decimal.splitSign (c :: cs) = (false, c :: cs) := by
    refine Decimal.splitSign_cons ?_ ?_ cs <;>
      · rintro rfl
        exact absurd hc (by decide)
  have hword (word : String) (htext : v.lower.text level = word.toList) (c : Char) (hc : c ∈ word.toList)
      (hdigit : ¬c.isDigit) : ¬IsDigits (v.lower.text level) := htext ▸ not_isDigits_of_mem hc hdigit
  obtain ⟨kind, lexeme, span⟩ := t
  cases h with
  | @int n hk hread _ =>
    simp only at hk hs hread
    subst hk
    cases hs with
    | int hne hdigits =>
      obtain ⟨c, cs, rfl⟩ := List.exists_cons_of_ne_nil hne
      rw [Decimal.readInt?, hsign (hdigits c List.mem_cons_self)] at hread
      cases hnat : Decimal.readNat? 10 (c :: cs) with
      | none => simp [hnat] at hread
      | some k =>
        obtain rfl : (k : Int) = n := by simpa [hnat] using hread
        exact iff_of_true (isDigits_int k level) rfl
  | @float x hk hread =>
    simp only at hk hs hread
    subst hk
    cases hs with
    | float hne hdigits _ _ =>
      obtain ⟨c, cs, rfl⟩ := List.exists_cons_of_ne_nil hne
      rw [List.cons_append, Decimal.readBinary64?, hsign (hdigits c List.mem_cons_self)] at hread
      simp only at hread
      split at hread
      · have hnegative := Binary64.negative_of_ofDecimal? hread
        exact (Binary64.isDigits_text_iff hnegative).trans (by simp [isWhole])
      · cases hread
  | string | word =>
    refine iff_of_false (not_isDigits_of_mem (c := '"') ?_ (by decide)) (by simp [isWhole])
    exact List.mem_cons_self
  | trueWord => exact iff_of_false (hword "true" rfl 't' (by simp) (by decide)) (by simp [isWhole])
  | falseWord => exact iff_of_false (hword "false" rfl 'f' (by simp) (by decide)) (by simp [isWhole])
  | nullWord => exact iff_of_false (hword "null" rfl 'n' (by simp) (by decide)) (by simp [isWhole])

/-- A literal is what one of the tokens stands for. -/
theorem Derives.exists_denotes {n : Nat} {layer : Layer} {ts : List Token} {v : Literal}
    (h : Derives n layer ts (.literal v)) : ∃ t ∈ ts, t.Denotes v := by
  generalize hshape : Shape.literal v = a at h
  induction h with
  | single _ _ ih | unary _ ih | operand _ ih => exact ih hshape
  | chain _ hop => obtain ⟨_, rfl⟩ | ⟨_, rfl, _⟩ := Layer.operator?_cases hop <;> cases hshape
  | not | index | property | runtime => cases hshape
  | group _ _ _ ih =>
    obtain ⟨t, ht, hv⟩ := ih hshape
    exact ⟨t, by simp [ht], hv⟩
  | literal hv =>
    cases hshape
    exact ⟨_, List.mem_singleton_self _, hv⟩

namespace Condition

/-- A token of a text that stands for an operand has one of the spellings. -/
theorem spelling_of_mem_tokens {text : String} {t : Token} (ht : t ∈ tokens text) (hk : t.kind.isOperand) :
    Spelling t.kind t.lexeme := by
  obtain ⟨last, heq, _⟩ := tokenize_eq text
  have hmem : t ∈ Lexer.tokenize text.toList := by simp [heq, ht]
  obtain hend | ⟨-, _, hnext⟩ := (Lexer.scanned_tokenize text.toList).cases_mem t hmem
  · have hkind : t.kind = .endOfText := congrArg Prod.fst hend
    rw [hkind] at hk
    cases hk
  · exact Lexer.spelling_of_next hnext hk

/-- A literal in what is read is what a token of the text stands for. -/
theorem exists_denotes {text : String} {tree : Condition} (h : parse text = .ok tree) {span : Span} {v : Literal}
    (hin : tree.Contains (literal span v)) : ∃ t : Token, t.Denotes v ∧ Spelling t.kind t.lexeme := by
  obtain ⟨vs, hvs, hplaced⟩ := (parse_iff_placed.mp h).exists_of_contains hin
  have hspelled : ∀ t ∈ vs, t.Spelled := fun t ht => spelled_tokens text t (hvs.subset ht)
  obtain ⟨t, ht, hv⟩ := (hplaced.derives hspelled).exists_denotes
  have hoperand := (Token.Stands.literal hv).isOperand
  exact ⟨t, hv, spelling_of_mem_tokens (hvs.subset ht) hoperand⟩

/-- **What a text is lowered to has an access by name on a bare run of digits exactly if the text has a name behind a
number that is printed without a point.** Everything else that is accessed by name is printed as something that no point
can belong to. -/
theorem dotsNumber_iff_of_parse {text : String} {tree : Condition} (h : parse text = .ok tree) (s : Scope)
    (level : Nat) : Expr.DotsNumber level (tree.lower s).1.parts ↔
      ∃ span part v name, tree.Contains (property span (literal part v) name) ∧ isIdentifier name.toList ∧
        v.isWhole := by
  have hwhole {span part : Span} {v : Literal} {name : String}
      (hin : tree.Contains (property span (literal part v) name)) : IsDigits (v.lower.text level) ↔ v.isWhole := by
    have hliteral : tree.Contains (literal part v) := hin.child (by simp [children])
    obtain ⟨t, hv, hs⟩ := exists_denotes h hliteral
    exact hv.isDigits_iff hs
  rw [dotsNumber_lower_iff]
  constructor
  · rintro ⟨span, part, v, name, hin, hname, hdigits⟩
    exact ⟨span, part, v, name, hin, hname, (hwhole hin).mp hdigits⟩
  · rintro ⟨span, part, v, name, hin, hname, hv⟩
    exact ⟨span, part, v, name, hin, hname, (hwhole hin).mpr hv⟩

/-- The tree of `(2.0).size`. -/
def decimalMember : Condition := property ⟨0, 10⟩ (literal ⟨0, 5⟩ (.float ⟨false, 4503599627370496, -51⟩)) "size"

/-- A decimal number without places is printed as a bare run of digits, in parentheses or not. -/
theorem dotsNumber_iff_of_parse_decimalMember :
    parse "(2.0).size" = .ok decimalMember ∧ Expr.DotsNumber 0 (decimalMember.lower .detached).1.parts := by
  have hread : parse "(2.0).size" = .ok decimalMember := by decide +kernel
  exact ⟨hread, (dotsNumber_iff_of_parse hread .detached 0).mpr
    ⟨_, _, _, _, .self, by decide, by decide +kernel⟩⟩

/-- Not every access by name is printed as one: the number of `1.x` takes the point, and what is printed cannot be read
back. -/
theorem not_plainObject_wholeMember :
    (¬∀ (text : String) (tree : Condition) (s : Scope) (level : Nat) (object : Expr) (name : String),
      parse text = .ok tree → .property object name ∈ (tree.lower s).1.parts → ¬IsDigits (object.text level)) ∧
      ∃ tree, parse "1.x" = .ok tree ∧ (tree.lower .detached).1.text 0 = "1.x".toList ∧
        Expr.read "1.x".toList = none := by
  have hread : parse "1.x" = .ok (property ⟨0, 3⟩ (literal ⟨0, 1⟩ (.int 1)) "x") := by decide +kernel
  refine ⟨fun h => ?_, _, hread, rfl, rfl⟩
  exact h _ _ .detached 0 (.int 1) "x" hread List.mem_cons_self (isDigits_int 1 0)

end Condition

end FlowSuite
