import FlowSuite.Condition.Parser
import Mathlib.Order.Filter.AtTopBot.Basic

/-!
# Reading without bounds

The parser counts levels, limits and turns down, so it ends by itself. Here the same conditions are read with nothing
counted down: a cursor moves over all tokens, and what is known besides is how many parentheses and negations are open
(`Progress`). Every part of a condition is read by a function of its own that calls others, or itself, for the parts in
it (`body`). Nothing says that the calls come to an end, because the last token is never passed. So what a part gives is
what it gives with enough calls within each other (`Ends`).

Each action is carried out in front of whatever follows it (`current_bind`, `advance_bind`, `nest_bind_of_lt`,
`unnest_bind`), and so is a call whose outcome is known (`Ends.bind_ok`, `Ends.bind_error`).
-/

namespace FlowSuite

/-- How far a reading is in its tokens, and how many parentheses and negations are open. -/
structure Progress where
  position : Nat
  depth : Nat
deriving DecidableEq, Repr

namespace Progress

variable (tokens : List Token)

/-- Behind the current token, unless it is the last one. -/
def next (p : Progress) : Progress :=
  if p.position + 1 < tokens.length then { p with position := p.position + 1 } else p

/-- The tokens not yet read. -/
def ahead (p : Progress) : List Token := tokens.drop (min p.position (tokens.length - 1))

/-- With one more parenthesis or negation open. -/
def deeper (p : Progress) : Progress := { p with depth := p.depth + 1 }

/-- With one parenthesis or negation less. -/
def shallower (p : Progress) : Progress := { p with depth := p.depth - 1 }

@[simp] theorem depth_next (p : Progress) : (p.next tokens).depth = p.depth := by
  unfold next
  split <;> rfl

@[simp] theorem depth_deeper (p : Progress) : p.deeper.depth = p.depth + 1 := rfl

@[simp] theorem depth_shallower (p : Progress) : p.shallower.depth = p.depth - 1 := rfl

theorem ahead_next (p : Progress) : (p.next tokens).ahead tokens = Parser.advance (p.ahead tokens) := by
  unfold next
  split
  · next h =>
    have hmin : min p.position (tokens.length - 1) = p.position := by omega
    have hmin' : min (p.position + 1) (tokens.length - 1) = p.position + 1 := by omega
    rw [ahead, ahead, hmin, hmin', List.drop_eq_getElem_cons (by omega : p.position < tokens.length),
      List.drop_eq_getElem_cons h]
    rfl
  · next h =>
    have hlength : (p.ahead tokens).length ≤ 1 := by
      rw [ahead, List.length_drop]
      omega
    match p.ahead tokens, hlength with
    | [], _ | [_], _ => rfl

theorem look_ahead (text : String) (p : Progress) :
    Parser.look text (p.ahead tokens) = (tokens[p.position]?.or tokens.getLast?).getD (.atEnd text.utf8ByteSize) := by
  rw [ahead, Parser.look, List.headD_eq_head?_getD, List.head?_drop]
  by_cases h : p.position < tokens.length
  · have hmin : min p.position (tokens.length - 1) = p.position := by omega
    rw [hmin, List.getElem?_eq_getElem h, Option.some_or]
  · have hmin : min p.position (tokens.length - 1) = tokens.length - 1 := by omega
    have hnone : tokens[p.position]? = none := List.getElem?_eq_none (Nat.le_of_not_lt h)
    rw [hmin, hnone, Option.none_or, List.getLast?_eq_getElem?]

end Progress

/-- Something to read: it may fail, and it may run out of calls. -/
abbrev Reading := StateT Progress (ExceptT ConditionError Option)

namespace Reading

/-- What is read, and how far the reading gets; or the error; or nothing, where the calls run out. -/
abbrev Outcome (α : Type) := Option (Except ConditionError (α × Progress))

/-- What comes of a reading that begins somewhere. -/
def outcome {α : Type} (x : Reading α) (p : Progress) : Outcome α := (x.run p).run

section

variable (text : String) (tokens : List Token)

/-- The token to look at: the last one stays, and without tokens the text is at its end. -/
def current : Reading Token := do
  let p ← get
  return (tokens[p.position]?.or tokens.getLast?).getD (.atEnd text.utf8ByteSize)

/-- Passes the current token and gives it. -/
def advance : Reading Token := do
  let t ← current text tokens
  modify (Progress.next tokens)
  return t

/-- Opens a parenthesis or a negation. -/
def nest (span : Span) : Reading Unit := do
  modify Progress.deeper
  let p ← get
  if maxNesting < p.depth then throw (.tooDeep span) else return

/-- Closes a parenthesis or a negation. -/
def unnest : Reading Unit := modify Progress.shallower

/-- What a token reads as by itself. -/
def leaf (t : Token) : Except ConditionError Condition :=
  match t.kind with
  | .int =>
    match Decimal.readInt64? t.lexeme with
    | some n => .ok (.literal t.span (.int n))
    | none => .error (.invalidNumber t.text t.span)
  | .float =>
    match Decimal.readBinary64? t.lexeme with
    | some x => .ok (.literal t.span (.float x))
    | none => .error (.invalidNumber t.text t.span)
  | .string => .ok (.literal t.span (.string (String.ofList (Parser.unquote t.lexeme))))
  | .trueWord => .ok (.literal t.span (.bool true))
  | .falseWord => .ok (.literal t.span (.bool false))
  | .nullWord => .ok (.literal t.span .null)
  | .word => .ok (.literal t.span (.string t.text))
  | .runtime => .ok (.runtime t.span t.text)
  | .invalid => .error (.invalidCharacter t.text t.span)
  | .endOfText => .error (.unexpectedEnd t.span)
  | .closeParen => .error (.unmatchedParen t.span)
  | kind =>
    match kind.symbol? with
    | some symbol => .error (.missingOperand .left symbol t.span)
    | none => .error (.unexpected "operand" t)

/-! ## The parts of a condition -/

/-- What is read of a condition by a function of its own. -/
inductive Part
  | whole
  | expression (limit : Nat)
  | joinFrom (limit : Nat) (left : Condition)
  | unary
  | operand
  | accessorsFrom (object : Condition)
  | index
  | primary

section

variable (call : Part → Reading Condition)

/-- The condition that all tokens together write. -/
def whole : Reading Condition := do
  let c ← call (.expression 0)
  let t ← current text tokens
  match t.kind with
  | .endOfText => return c
  | .closeParen => throw (.unmatchedParen t.span)
  | .invalid => throw (.invalidCharacter t.text t.span)
  | _ => throw (.unexpected "operator or end of input" t)

/-- Operators that bind tighter than a limit, and their operands. -/
def expression (limit : Nat) : Reading Condition := do
  let left ← call .unary
  call (.joinFrom limit left)

/-- Further operators and operands behind what was read so far. -/
def joinFrom (limit : Nat) (left : Condition) : Reading Condition := do
  let op ← current text tokens
  if Parser.precedence op.kind = 0 ∨ Parser.precedence op.kind ≤ limit then return left
  else
    let op ← advance text tokens
    let next ← current text tokens
    if next.kind = .endOfText then throw (.missingOperand .right op.text op.span)
    else
      let right ← call (.expression (Parser.precedence op.kind))
      let joined ← MonadExcept.ofExcept (Parser.combine text op left right)
      call (.joinFrom limit joined)

/-- A negation or an operand. -/
def unary : Reading Condition := do
  let t ← current text tokens
  if t.kind = .not then
    let t ← advance text tokens
    nest t.span
    let c ← call .unary
    unnest
    return .not (t.span.merge c.span) c
  else call .operand

/-- A primary condition with its accessors. -/
def operand : Reading Condition := do
  let c ← call .primary
  call (.accessorsFrom c)

/-- Further indices and names behind what was read so far. -/
def accessorsFrom (object : Condition) : Reading Condition := do
  let t ← current text tokens
  match t.kind with
  | .openBracket =>
    let t ← advance text tokens
    let i ← call .index
    let close ← current text tokens
    if close.kind = .closeBracket then
      let close ← advance text tokens
      call (.accessorsFrom (.index (object.span.merge close.span) object i))
    else throw (Parser.unclosed ']' t.span close)
  | .dot =>
    let _ ← advance text tokens
    let name ← current text tokens
    if Parser.isName name.kind then
      let name ← advance text tokens
      call (.accessorsFrom (.property (object.span.merge name.span) object name.text))
    else throw (.unexpected "property name" name)
  | _ => return object

/-- What stands between brackets. -/
def index : Reading Condition := do
  let t ← current text tokens
  if t.kind = .closeBracket then throw (.unexpected "index" t) else call .primary

/-- A condition in parentheses or a single token. -/
def primary : Reading Condition := do
  let t ← current text tokens
  if t.kind = .openParen then
    let _ ← advance text tokens
    let next ← current text tokens
    if next.kind = .closeParen then throw (.unexpected "expression" next)
    else
      nest t.span
      let c ← call (.expression 0)
      unnest
      let close ← current text tokens
      if close.kind = .closeParen then
        let close ← advance text tokens
        return c.withSpan (t.span.merge close.span)
      else throw (Parser.unclosed ')' t.span close)
  else
    let t ← advance text tokens
    MonadExcept.ofExcept (leaf t)

/-- One part, where `call` reads the parts in it. -/
def body : Part → Reading Condition
  | .whole => whole text tokens call
  | .expression limit => expression call limit
  | .joinFrom limit left => joinFrom text tokens call limit left
  | .unary => unary text tokens call
  | .operand => operand call
  | .accessorsFrom object => accessorsFrom text tokens call object
  | .index => index text tokens call
  | .primary => primary text tokens call

end

/-- A part with at most so many calls within each other; without a call left nothing comes back. -/
def readWithin : (calls : Nat) → Part → Reading Condition
  | 0, _ => fun _ => none
  | calls + 1, part => body text tokens (readWithin calls) part

/-- A part gives a condition or an error once enough calls can be made within each other. -/
def Ends (part : Part) (p : Progress) (r : Except ConditionError (Condition × Progress)) : Prop :=
  ∀ᶠ calls in Filter.atTop, (readWithin text tokens calls part).outcome p = some r

end

/-! ## Single steps -/

section

variable {text : String} {tokens : List Token} {α β : Type} {p q : Progress}

theorem bind_of_ok {x : Reading α} {a : α} (h : x.outcome p = some (.ok (a, q))) (f : α → Reading β) :
    (x >>= f).outcome p = (f a).outcome q := by
  have hrun : x.run p = pure (a, q) := h
  rw [outcome, StateT.run_bind, hrun, pure_bind]
  rfl

theorem bind_of_error {x : Reading α} {e : ConditionError} (h : x.outcome p = some (.error e)) (f : α → Reading β) :
    (x >>= f).outcome p = some (.error e) := by
  have hrun : x.run p = throw e := h
  rw [outcome, StateT.run_bind, hrun]
  rfl

theorem outcome_current : (current text tokens).outcome p = some (.ok (Parser.look text (p.ahead tokens), p)) := by
  rw [Progress.look_ahead]
  rfl

theorem current_bind (f : Token → Reading β) :
    (current text tokens >>= f).outcome p = (f (Parser.look text (p.ahead tokens))).outcome p :=
  bind_of_ok outcome_current f

theorem advance_bind (f : Token → Reading β) :
    (advance text tokens >>= f).outcome p = (f (Parser.look text (p.ahead tokens))).outcome (p.next tokens) := by
  have hadvance :
      (advance text tokens).outcome p = some (.ok (Parser.look text (p.ahead tokens), p.next tokens)) := by
    rw [advance, current_bind]
    rfl
  exact bind_of_ok hadvance f

theorem outcome_nest (span : Span) :
    (nest span).outcome p = some (if p.depth < maxNesting then .ok ((), p.deeper) else .error (.tooDeep span)) := by
  have hnest : (nest span).outcome p =
      (if maxNesting < p.deeper.depth then throw (.tooDeep span) else pure () : Reading Unit).outcome p.deeper := rfl
  rw [hnest]
  by_cases h : p.depth < maxNesting
  · rw [if_neg (by simp; omega), if_pos h]
    rfl
  · rw [if_pos (by simp; omega), if_neg h]
    rfl

theorem nest_bind_of_lt (h : p.depth < maxNesting) (span : Span) (f : Unit → Reading β) :
    (nest span >>= f).outcome p = (f ()).outcome p.deeper :=
  bind_of_ok (by rw [outcome_nest, if_pos h]) f

theorem nest_bind_of_le (h : maxNesting ≤ p.depth) (span : Span) (f : Unit → Reading β) :
    (nest span >>= f).outcome p = some (.error (.tooDeep span)) :=
  bind_of_error (by rw [outcome_nest, if_neg (Nat.not_lt.mpr h)]) f

theorem unnest_bind (f : Unit → Reading β) : (unnest >>= f).outcome p = (f ()).outcome p.shallower := rfl

theorem ofExcept_bind (r : Except ConditionError α) (f : α → Reading β) :
    (MonadExcept.ofExcept r >>= f).outcome p = match r with
      | .ok a => (f a).outcome p
      | .error e => some (.error e) := by
  cases r <;> rfl

/-! ## Calls -/

variable {part : Part}

/-- One more call reads the body of a part. -/
theorem eventually_of_body {o : Outcome Condition}
    (h : ∀ᶠ calls in Filter.atTop, (body text tokens (readWithin text tokens calls) part).outcome p = o) :
    ∀ᶠ calls in Filter.atTop, (readWithin text tokens calls part).outcome p = o := by
  obtain ⟨enough, henough⟩ := Filter.eventually_atTop.mp h
  refine Filter.eventually_atTop.mpr ⟨enough + 1, fun calls hcalls => ?_⟩
  cases calls with
  | zero => omega
  | succ calls => exact henough calls (Nat.le_of_succ_le_succ hcalls)

theorem Ends.bind_ok {c : Condition} (h : Ends text tokens part p (.ok (c, q))) (f : Nat → Condition → Reading β) :
    ∀ᶠ calls in Filter.atTop,
      (readWithin text tokens calls part >>= f calls).outcome p = (f calls c).outcome q :=
  h.mono fun calls hcalls => bind_of_ok hcalls (f calls)

theorem Ends.bind_error {e : ConditionError} (h : Ends text tokens part p (.error e))
    (f : Nat → Condition → Reading β) :
    ∀ᶠ calls in Filter.atTop, (readWithin text tokens calls part >>= f calls).outcome p = some (.error e) :=
  h.mono fun calls hcalls => bind_of_error hcalls (f calls)

end

end Reading

end FlowSuite
