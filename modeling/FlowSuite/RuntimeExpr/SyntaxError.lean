import FlowSuite.Text.Span
import FlowSuite.Text.Visible

/-!
# Syntax errors of runtime expressions

A reader that fails tells what it would have accepted at the furthest place it got to. `Furthest.want` keeps that
record while alternatives are tried, and `SyntaxError.ofFurthest` turns it into a report.
-/

namespace FlowSuite

/-- Something that would have been accepted. -/
inductive Expectation where
  | literal (text : String) (anyCase : Bool)
  | charClass (description : String)
  | endOfInput
deriving DecidableEq, Repr

/-- How an expectation shows in a message. -/
def Expectation.text : Expectation → String
  | literal t _ => "\"" ++ t ++ "\""
  | charClass d => d
  | endOfInput => "end of input"

/-- The furthest offset at which something was wanted, and everything wanted there. -/
structure Furthest where
  offset : Nat
  wanted : List Expectation
deriving DecidableEq, Repr

namespace Furthest

/-- Nothing wanted so far. -/
def none : Furthest := ⟨0, []⟩

/-- Adds a wish at an offset: one further on replaces the others, one further back is dropped. -/
def want (f : Furthest) (offset : Nat) (e : Expectation) : Furthest :=
  if offset < f.offset then f
  else if f.offset < offset then ⟨offset, [e]⟩
  else if e ∈ f.wanted then f
  else ⟨f.offset, f.wanted ++ [e]⟩

end Furthest

/-- Why a text is no runtime expression. -/
structure SyntaxError where
  /-- Everything acceptable at the furthest place, in the order of its text. -/
  expected : List Expectation
  /-- The character found there; none at the end. -/
  found : Option Char
  location : Location
  span : Span
deriving DecidableEq, Repr

namespace SyntaxError

/-- The code of every error of this kind. -/
def code : String := "E-EXPR-001"

/-- The report on a text with a record of what was wanted. -/
def ofFurthest (text : List Char) (f : Furthest) : SyntaxError :=
  let found := (Text.cutAt f.offset text).2.head?
  { expected := f.wanted.mergeSort fun a b => a.text ≤ b.text
    found
    location := Location.ofOffset text f.offset
    span := match found with
      | some c => ⟨f.offset, f.offset + c.utf8Size⟩
      | .none => Span.point f.offset }

/-- Alternatives in a row: commas between them and `or` before the last. -/
def alternatives : List String → String
  | [] => "nothing"
  | [a] => a
  | [a, b] => a ++ " or " ++ b
  | texts => ", ".intercalate texts.dropLast ++ ", or " ++ texts.getLastD ""

/-- The report in words. -/
def message (e : SyntaxError) : String :=
  let texts := ((e.expected.map Expectation.text).mergeSort fun a b => a ≤ b).eraseReps
  let found := match e.found with
    | some c => Text.quoted '"' c
    | .none => "end of input"
  "Expected " ++ alternatives texts ++ " but " ++ found ++ " found."

/-- The short form that stands beside the place. -/
def label (e : SyntaxError) : String :=
  match e.found with
  | some c => "unexpected " ++ Text.quoted '\'' c
  | .none => "unexpected end of input"

end SyntaxError

end FlowSuite
