import FlowSuite.Condition.Token

/-!
# Cutting a condition into tokens

At each place the longest lexeme that any rule of `rules` takes becomes a token, and of two rules that take the same
lexeme the earlier one names it. Blanks between tokens are passed over. Where no rule takes anything, an invalid token
stands for what cannot be read. The token at the end of the text comes last.
-/

namespace FlowSuite.Lexer

/-- A rule gives the longest lexeme it allows at the start of a text. -/
abbrev Rule := List Char → Option (List Char)

/-- A lexeme that is always the same. -/
def exactly (lexeme : List Char) : Rule := fun cs => if lexeme.isPrefixOf cs then some lexeme else none

def isLetter (c : Char) : Bool := c.isAlpha || c = '_'

def isWordChar (c : Char) : Bool := c.isAlphanum || c = '_'

def isSegmentChar (c : Char) : Bool := c.isAlphanum || c = '_' || c = '-'

def isKeyChar (c : Char) : Bool := c.isAlphanum || c = '_' || c = '-' || c = '~'

/-- A letter, and letters and digits behind it. -/
def word : Rule
  | c :: cs => if isLetter c then some (c :: cs.takeWhile isWordChar) else none
  | [] => none

/-- One or more digits. -/
def int : Rule := fun cs => if (cs.takeWhile Char.isDigit).isEmpty then none else some (cs.takeWhile Char.isDigit)

/-- Digits, a point and digits. -/
def float : Rule := fun cs =>
  match int cs, cs.dropWhile Char.isDigit with
  | some whole, '.' :: rest => (int rest).map fun places => whole ++ '.' :: places
  | _, _ => none

/-- The elements of a double-quoted string: single characters, and backslashes with the character they escape. Ends at
a quote, at the end, or at a backslash that escapes nothing. -/
def stringElements : List Char → List Char
  | '\\' :: c :: cs => if c = '\n' then [] else '\\' :: c :: stringElements cs
  | c :: cs => if c = '"' ∨ c = '\\' then [] else c :: stringElements cs
  | [] => []

/-- A double-quoted string. -/
def doubleQuoted : Rule
  | '"' :: cs =>
    match cs.drop (stringElements cs).length with
    | '"' :: _ => some ('"' :: stringElements cs ++ ['"'])
    | _ => none
  | _ => none

/-- A single-quoted string, which escapes nothing. -/
def singleQuoted : Rule
  | '\'' :: cs =>
    match cs.dropWhile (· ≠ '\'') with
    | _ :: _ => some ('\'' :: cs.takeWhile (· ≠ '\'') ++ ['\''])
    | [] => none
  | _ => none

/-- The parts of a runtime expression behind its first word. -/
inductive RuntimePart where
  | word
  | segment
  | hash
  | key
deriving DecidableEq, Repr

/-- The characters that continue a part. -/
def RuntimePart.continues : RuntimePart → Char → Bool
  | word => isWordChar
  | segment => isSegmentChar
  | hash => fun _ => false
  | key => isKeyChar

/-- A slash begins a key inside a pointer. -/
def RuntimePart.inPointer : RuntimePart → Bool
  | hash | key => true
  | word | segment => false

/-- The rest of a runtime expression: segments behind points, and pointers behind hash signs. -/
def runtimeTail : RuntimePart → List Char → List Char
  | _, [] => []
  | part, c :: cs =>
    if part.continues c then c :: runtimeTail part cs
    else if c = '#' then c :: runtimeTail .hash cs
    else if c = '/' ∧ part.inPointer then c :: runtimeTail .key cs
    else if c = '.' ∧ cs.head?.any isSegmentChar then c :: runtimeTail .segment cs
    else []

/-- A runtime expression. -/
def runtime : Rule
  | '$' :: c :: cs => if isLetter c then some ('$' :: c :: runtimeTail .word cs) else none
  | _ => none

/-- The rules, the spelled ones first. -/
def rules : List (TokenKind × Rule) :=
  [ (.trueWord, exactly ['t', 'r', 'u', 'e']),
    (.falseWord, exactly ['f', 'a', 'l', 's', 'e']),
    (.nullWord, exactly ['n', 'u', 'l', 'l']),
    (.equal, exactly ['=', '=']),
    (.notEqual, exactly ['!', '=']),
    (.less, exactly ['<']),
    (.lessOrEqual, exactly ['<', '=']),
    (.greater, exactly ['>']),
    (.greaterOrEqual, exactly ['>', '=']),
    (.and, exactly ['&', '&']),
    (.or, exactly ['|', '|']),
    (.not, exactly ['!']),
    (.openParen, exactly ['(']),
    (.closeParen, exactly [')']),
    (.openBracket, exactly ['[']),
    (.closeBracket, exactly [']']),
    (.dot, exactly ['.']),
    (.runtime, runtime),
    (.int, int),
    (.float, float),
    (.string, doubleQuoted),
    (.string, singleQuoted),
    (.word, word) ]

/-- The longest lexeme that a rule takes, and the first of the rules that take it. -/
def longest? : List (TokenKind × Rule) → List Char → Option (TokenKind × List Char)
  | [], _ => none
  | (kind, rule) :: more, cs =>
    match rule cs, longest? more cs with
    | none, best => best
    | some lexeme, none => some (kind, lexeme)
    | some lexeme, some (kind', lexeme') =>
      if lexeme.length < lexeme'.length then some (kind', lexeme') else some (kind, lexeme)

/-- What cannot be read at the start of a text that no rule fits: a string up to where it breaks off, or one
character. -/
def unreadable : List Char → List Char
  | [] => []
  | c :: cs =>
    if c = '"' then '"' :: stringElements cs
    else if c = '\'' then c :: cs
    else [c]

/-- The kind and lexeme of the token at the start of a text. -/
def next (cs : List Char) : TokenKind × List Char := (longest? rules cs).getD (.invalid, unreadable cs)

/-- The characters that separate tokens. -/
def isBlank (c : Char) : Bool := c ∈ [' ', '\t', '\r', '\n', '\x0c']

/-- The tokens of a text that starts at an offset, its first characters being part of a token already made. -/
def scan : (passed offset : Nat) → List Char → List Token
  | _, offset, [] => [.atEnd offset]
  | passed + 1, offset, c :: cs => scan passed (offset + c.utf8Size) cs
  | 0, offset, c :: cs =>
    if isBlank c then scan 0 (offset + c.utf8Size) cs
    else
      let (kind, lexeme) := next (c :: cs)
      ⟨kind, lexeme, ⟨offset, offset + Text.byteCount lexeme⟩⟩ ::
        scan (lexeme.length - 1) (offset + c.utf8Size) cs

/-- The tokens of a text, with the one at its end. -/
def tokenize (text : List Char) : List Token := scan 0 0 text

end FlowSuite.Lexer
