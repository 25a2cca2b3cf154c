import FlowSuite.Condition.Token

/-!
# Errors in conditions
-/

namespace FlowSuite

/-- The sides of an operator. -/
inductive OperandSide where
  | left
  | right
deriving DecidableEq, Repr

def OperandSide.name : OperandSide → String
  | left => "left"
  | right => "right"

/-- How deep parentheses and negations may nest. -/
def maxNesting : Nat := 64

/-- Why a text is no condition. -/
inductive ConditionError where
  | unexpectedToken (expected : String) (found : TokenKind) (span : Span)
  | unexpectedEnd (span : Span)
  | unmatchedParen (span : Span)
  | missingDelimiter (delimiter : Char) (span : Span)
  | invalidCharacter (text : String) (span : Span)
  | unsupportedOperator (operator : String) (span : Span)
  | missingComparison (condition : String) (span : Span)
  | missingOperand (side : OperandSide) (operator : String) (span : Span)
  | invalidNumber (text : String) (span : Span)
  | tooDeep (span : Span)
deriving DecidableEq, Repr

namespace ConditionError

/-- The part of the text that is at fault. -/
def span : ConditionError → Span
  | unexpectedToken _ _ s | unexpectedEnd s | unmatchedParen s | missingDelimiter _ s | invalidCharacter _ s
  | unsupportedOperator _ s | missingComparison _ s | missingOperand _ _ s | invalidNumber _ s | tooDeep s => s

/-- The code of the kind of error. -/
def code : ConditionError → String
  | unexpectedToken .. => "E-COND-001"
  | unexpectedEnd .. => "E-COND-002"
  | unmatchedParen .. => "E-COND-003"
  | missingDelimiter .. => "E-COND-004"
  | invalidCharacter .. => "E-COND-005"
  | unsupportedOperator .. => "E-COND-006"
  | missingComparison .. => "E-COND-007"
  | missingOperand .. => "E-COND-008"
  | invalidNumber .. => "E-COND-009"
  | tooDeep .. => "E-COND-010"

/-- The error in words. -/
def message : ConditionError → String
  | unexpectedToken expected found _ => "unexpected token: expected " ++ expected ++ ", found " ++ found.describe
  | unexpectedEnd _ => "unexpected end of input"
  | unmatchedParen _ => "unmatched closing parenthesis"
  | missingDelimiter d _ => "expected closing '" ++ String.ofList [d] ++ "'"
  | invalidCharacter text _ => "invalid character '" ++ text ++ "'"
  | unsupportedOperator op _ => "unsupported operator '" ++ op ++ "'"
  | missingComparison condition _ => "no comparison operator found in condition '" ++ condition ++ "'"
  | missingOperand side op _ => "missing " ++ side.name ++ " operand for '" ++ op ++ "'"
  | invalidNumber text _ => "invalid number '" ++ text ++ "'"
  | tooDeep _ => "condition nests deeper than " ++ toString maxNesting ++ " levels"

/-- A token where another was expected. -/
def unexpected (expected : String) (found : Token) : ConditionError :=
  if found.kind = .endOfText then unexpectedEnd found.span else unexpectedToken expected found.kind found.span

end ConditionError

end FlowSuite
