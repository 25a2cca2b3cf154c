import FlowSuite.Text.Span

/-!
# Tokens of conditions
-/

namespace FlowSuite

/-- The kinds of tokens. -/
inductive TokenKind where
  | trueWord
  | falseWord
  | nullWord
  | equal
  | notEqual
  | less
  | lessOrEqual
  | greater
  | greaterOrEqual
  | and
  | or
  | not
  | openParen
  | closeParen
  | openBracket
  | closeBracket
  | dot
  | runtime
  | int
  | float
  | string
  | word
  | invalid
  | endOfText
deriving DecidableEq, Repr

namespace TokenKind

/-- The spelling of a binary operator. -/
def symbol? : TokenKind → Option String
  | equal => some "=="
  | notEqual => some "!="
  | less => some "<"
  | lessOrEqual => some "<="
  | greater => some ">"
  | greaterOrEqual => some ">="
  | and => some "&&"
  | or => some "||"
  | _ => none

/-- What a kind of token is called in a message. -/
def describe : TokenKind → String
  | trueWord => "'true'"
  | falseWord => "'false'"
  | nullWord => "'null'"
  | equal => "'=='"
  | notEqual => "'!='"
  | less => "'<'"
  | lessOrEqual => "'<='"
  | greater => "'>'"
  | greaterOrEqual => "'>='"
  | and => "'&&'"
  | or => "'||'"
  | not => "'!'"
  | openParen => "'('"
  | closeParen => "')'"
  | openBracket => "'['"
  | closeBracket => "']'"
  | dot => "'.'"
  | runtime => "runtime expression"
  | int => "integer"
  | float => "float"
  | string => "string"
  | word => "identifier"
  | invalid => "invalid character"
  | endOfText => "end of input"

end TokenKind

/-- A token: its kind, the characters it is made of, and where they stand. -/
structure Token where
  kind : TokenKind
  lexeme : List Char
  span : Span
deriving DecidableEq, Repr

namespace Token

/-- The characters of a token as a string. -/
def text (t : Token) : String := String.ofList t.lexeme

/-- The token behind the last character of a text of so many bytes. -/
def atEnd (offset : Nat) : Token := ⟨.endOfText, [], .point offset⟩

end Token

end FlowSuite
