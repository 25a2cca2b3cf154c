import FlowSuite.Condition.Basic
import FlowSuite.Condition.Error
import FlowSuite.Condition.Lexer
import FlowSuite.Decimal.Reading

/-!
# Reading conditions

    or      = and ( "||" and )*
    and     = equality ( "&&" equality )*
    equality = order ( ( "==" / "!=" ) order )*
    order   = unary ( ( "<" / "<=" / ">" / ">=" ) unary )*
    unary   = "!" unary / operand
    operand = primary ( "[" primary "]" / "." name )*
    primary = "(" or ")" / literal / runtime expression

All chains are folded to the left. The binary operators are read by precedence: what stands behind an operator takes
only operators that bind tighter than it (`joinFrom`). Parentheses and negations share one budget of nesting: each of
them hands what it encloses to a parser with one level less, and a parser without levels refuses them, so reading needs
no other bound.

A parser works on the tokens not yet read. The last of them is never passed, so there is always a token to look at;
in the tokens of a text it is the one at the end.
-/

namespace FlowSuite

/-- A parser gives a condition and the tokens behind it. -/
abbrev Parser := List Token → Except ConditionError (Condition × List Token)

namespace Parser

/-- The next token; a text without tokens is at its end. -/
def look (text : String) (ts : List Token) : Token := ts.headD (.atEnd text.utf8ByteSize)

/-- Passes the next token unless it is the last one. -/
def advance : List Token → List Token
  | _ :: t :: ts => t :: ts
  | ts => ts

/-- How tightly a token binds as a binary operator; 0 for all others. -/
def precedence : TokenKind → Nat
  | .or => 1
  | .and => 2
  | .equal | .notEqual => 3
  | .less | .lessOrEqual | .greater | .greaterOrEqual => 4
  | _ => 0

/-- The condition that an operator makes of its operands; a comparison is known by its spelling. -/
def combine (text : String) (op : Token) (left right : Condition) : Except ConditionError Condition :=
  let span := left.span.merge right.span
  match op.kind with
  | .and => .ok (.logical span .and left right)
  | .or => .ok (.logical span .or left right)
  | _ =>
    match Comparison.ofSymbol? op.text with
    | some c => .ok (.comparison span c left right text)
    | none => .error (.unsupportedOperator op.text op.span)

/-- Joins further operands to what was read so far, as long as operators follow that bind tighter than a limit; the
operand behind an operator is read with the precedence of that operator as its limit. Every turn passes a token, so as
many turns as tokens suffice. -/
def joinFrom (text : String) (operandAbove : Nat → Parser) (limit : Nat) : (turns : Nat) → Condition → Parser
  | 0, left, ts => .ok (left, ts)
  | turns + 1, left, ts =>
    let op := look text ts
    if precedence op.kind ≤ limit then .ok (left, ts)
    else
      let ts := advance ts
      if (look text ts).kind = .endOfText then .error (.missingOperand .right op.text op.span)
      else
        match operandAbove (precedence op.kind) ts with
        | .error e => .error e
        | .ok (right, ts) =>
          match combine text op left right with
          | .error e => .error e
          | .ok joined => joinFrom text operandAbove limit turns joined ts

/-- A condition of operators that bind tighter than a limit. The operand behind an operator has a higher limit, so four
limits within each other are all there can be. -/
def climb (text : String) (unary : Parser) : (limits : Nat) → (limit : Nat) → Parser
  | 0, _ => unary
  | limits + 1, limit => fun ts =>
    match unary ts with
    | .error e => .error e
    | .ok (left, ts) => joinFrom text (climb text unary limits) limit ts.length left ts

/-- A condition whose operands one parser reads. -/
def expression (text : String) (unary : Parser) : Parser := climb text unary 4 0

/-- What a string token stands for: in single quotes everything stands for itself. -/
def unescape : List Char → List Char
  | '\\' :: c :: cs =>
    (if c = 'n' then '\n' else if c = 't' then '\t' else if c = 'r' then '\r' else c) :: unescape cs
  | c :: cs => c :: unescape cs
  | [] => []

/-- The content of a string token. -/
def unquote : List Char → List Char
  | '\'' :: cs => cs.dropLast
  | cs => unescape cs.tail.dropLast

/-- What is missing where a delimiter should close. -/
def unclosed (delimiter : Char) (opened : Span) (found : Token) : ConditionError :=
  if found.kind = .invalid then .invalidCharacter found.text found.span
  else .missingDelimiter delimiter (opened.merge found.span)

/-- Reads a literal, a runtime expression or a condition in parentheses; `inner` reads the operands inside them. -/
def primary (text : String) (inner : Option Parser) : Parser := fun ts =>
  let t := look text ts
  let literal (v : Literal) := Except.ok (Condition.literal t.span v, advance ts)
  match t.kind with
  | .openParen =>
    let next := look text (advance ts)
    if next.kind = .closeParen then .error (.unexpected "expression" next)
    else
      match inner with
      | none => .error (.tooDeep t.span)
      | some unary =>
        match expression text unary (advance ts) with
        | .error e => .error e
        | .ok (c, ts) =>
          let close := look text ts
          if close.kind = .closeParen then .ok (c.withSpan (t.span.merge close.span), advance ts)
          else .error (unclosed ')' t.span close)
  | .int =>
    match Decimal.readInt64? t.lexeme with
    | some n => literal (.int n)
    | none => .error (.invalidNumber t.text t.span)
  | .float =>
    match Decimal.readBinary64? t.lexeme with
    | some x => literal (.float x)
    | none => .error (.invalidNumber t.text t.span)
  | .string => literal (.string (String.ofList (unquote t.lexeme)))
  | .trueWord => literal (.bool true)
  | .falseWord => literal (.bool false)
  | .nullWord => literal .null
  | .word => literal (.string t.text)
  | .runtime => .ok (.runtime t.span t.text, advance ts)
  | .invalid => .error (.invalidCharacter t.text t.span)
  | .endOfText => .error (.unexpectedEnd t.span)
  | .closeParen => .error (.unmatchedParen t.span)
  | kind =>
    match kind.symbol? with
    | some symbol => .error (.missingOperand .left symbol t.span)
    | none => .error (.unexpected "operand" t)

/-- Can stand behind a point. -/
def isName : TokenKind → Bool
  | .word | .int | .trueWord | .falseWord | .nullWord => true
  | _ => false

/-- Applies the indices and names that follow to what was read so far; every turn passes a token. -/
def accessorsFrom (text : String) (primary : Parser) : (turns : Nat) → Condition → Parser
  | 0, object, ts => .ok (object, ts)
  | turns + 1, object, ts =>
    let t := look text ts
    match t.kind with
    | .openBracket =>
      let next := look text (advance ts)
      if next.kind = .closeBracket then .error (.unexpected "index" next)
      else
        match primary (advance ts) with
        | .error e => .error e
        | .ok (index, ts) =>
          let close := look text ts
          if close.kind = .closeBracket then
            accessorsFrom text primary turns (.index (object.span.merge close.span) object index) (advance ts)
          else .error (unclosed ']' t.span close)
    | .dot =>
      let name := look text (advance ts)
      if isName name.kind then
        accessorsFrom text primary turns (.property (object.span.merge name.span) object name.text)
          (advance (advance ts))
      else .error (.unexpected "property name" name)
    | _ => .ok (object, ts)

/-- A primary condition with its accessors. -/
def operand (text : String) (inner : Option Parser) : Parser := fun ts =>
  match primary text inner ts with
  | .ok (c, ts) => accessorsFrom text (primary text inner) ts.length c ts
  | .error e => .error e

/-- A negation or an operand; `inner` reads what is enclosed. -/
def unaryWith (text : String) (inner : Option Parser) : Parser := fun ts =>
  let t := look text ts
  if t.kind = .not then
    match inner with
    | none => .error (.tooDeep t.span)
    | some unary =>
      match unary (advance ts) with
      | .ok (c, ts) => .ok (.not (t.span.merge c.span) c, ts)
      | .error e => .error e
  else operand text inner ts

/-- A negation or an operand with so many levels of nesting. -/
def unary (text : String) : (levels : Nat) → Parser
  | 0 => unaryWith text none
  | levels + 1 => unaryWith text (some (unary text levels))

end Parser

namespace Condition

/-- The condition that all tokens together write; the text is what they were cut from. -/
def ofTokens (text : String) (ts : List Token) : Except ConditionError Condition :=
  match Parser.expression text (Parser.unary text maxNesting) ts with
  | .error e => .error e
  | .ok (c, ts) =>
    let t := Parser.look text ts
    match t.kind with
    | .endOfText => .ok c
    | .closeParen => .error (.unmatchedParen t.span)
    | .invalid => .error (.invalidCharacter t.text t.span)
    | _ => .error (.unexpected "operator or end of input" t)

/-- The condition that a text writes. -/
def parse (text : String) : Except ConditionError Condition := ofTokens text (Lexer.tokenize text.toList)

end Condition

end FlowSuite
