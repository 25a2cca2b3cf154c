import FlowSuite.TestCase.Diagnostic

/-!
# Reports

What a command has to say about its input: a line, or a message that points at a place in a text. Places count lines
and characters from 1. A line ends behind its line break, so the end of a text lies in its last line.
-/

namespace FlowSuite

/-- A character that ends a line; a carriage return and a line feed end one together. -/
def endsLine (c : Char) : Bool :=
  c ∈ ['\n', '\r', '\x0b', '\x0c', '\x85', '\u2028', '\u2029']

namespace Text

/-- The lengths of the lines of a text, with their line breaks. -/
def lineLengths : List Char → List Nat
  | [] => []
  | '\r' :: '\n' :: cs => 2 :: lineLengths cs
  | c :: cs =>
    if endsLine c then 1 :: lineLengths cs
    else
      match lineLengths cs with
      | [] => [1]
      | n :: lines => (n + 1) :: lines

/-- The line and column of a character among lines of given lengths, the first line being the given one. -/
def placeIn (line : Nat) : List Nat → Nat → Option (Nat × Nat)
  | [], _ => none
  | [_], i => some (line, i + 1)
  | n :: lines, i => if i < n then some (line, i + 1) else placeIn (line + 1) lines (i - n)

/-- The line and column of a character or of the end of a text; an empty text has no places. -/
def place? (text : List Char) (i : Nat) : Option (Nat × Nat) := placeIn 1 (lineLengths text) i

end Text

/-- Something that is reported. -/
inductive Notice where
  | line (text : String)
  /-- A message that points at the start of a span. -/
  | pointer (severity : Severity) (code : Option String) (message name source : String) (span : Span)
deriving DecidableEq, Repr

namespace Notice

/-- What a message of a severity begins with. -/
def opening : Severity → String
  | .warning => "Warning: "
  | .error => "Error: "

/-- The message. -/
def headline : Notice → String
  | line text => text
  | pointer severity code message _ _ _ =>
    opening severity ++ ((code.map fun c => "[" ++ c ++ "] ").getD "") ++ message

/-- The place that the message points at. -/
def place? : Notice → Option String
  | line _ => none
  | pointer _ _ _ name source span =>
    (Text.place? source.toList (Text.charRange source.toList span).1).map fun p =>
      "at " ++ name ++ ":" ++ toString p.1 ++ ":" ++ toString p.2

/-- The lines that are printed. -/
def lines (n : Notice) : List String := n.headline :: n.place?.toList

/-- The report on a step: it points into the text that it is about, if there is one. -/
def ofDiagnostic (d : Diagnostic) : Notice :=
  match d.source, d.span with
  | some source, some span => pointer d.severity d.code d.message d.place source span
  | _, _ => line d.text

/-- The report on an error with a code. -/
def ofError (code message : String) : Notice := line ("error[" ++ code ++ "]: " ++ message)

end Notice

end FlowSuite
