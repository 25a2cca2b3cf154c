import FlowSuite.RuntimeExpr.Grammar

/-!
# Where the value of a runtime expression is read

`Access.ofExpr` says where a generated test finds the value of an expression; expressions that it cannot read come out
as `unresolved` with the reason. `Access.ofText` reads the expression first.
-/

namespace FlowSuite

/-- The message whose body is read. -/
inductive BodySide where
  | request
  | response
deriving DecidableEq, Repr

/-- Where a value is read while a test runs. -/
inductive Access where
  /-- The status of the response. -/
  | statusCode
  /-- The address that answered. -/
  | url
  /-- A part of a message body; the empty path is the whole body. -/
  | body (side : BodySide) (path : List String)
  /-- A header of the response. -/
  | responseHeader (name : String)
  /-- What an earlier step wrote. -/
  | context (stepId element key : String)
  /-- Nowhere. -/
  | unresolved (expression reason : String)
deriving DecidableEq, Repr

namespace Access

/-- The key under which an earlier step wrote the value. -/
def contextKey? : Access → Option String
  | context stepId element key => some (stepId ++ "." ++ element ++ "." ++ key)
  | _ => none

/-- Cannot be read. -/
def isUnresolved : Access → Bool
  | unresolved .. => true
  | _ => false

/-- The text before the first point and the text behind it. -/
def cutAtPoint (cs : List Char) : List Char × Option (List Char) :=
  (cs.takeWhile (· ≠ '.'), match cs.dropWhile (· ≠ '.') with
    | _ :: rest => some rest
    | [] => none)

/-- The access of a reference to a step, whose name has a step, an element of it and a key, with points between. -/
def ofStepName (expression name : String) : Access :=
  match cutAtPoint name.toList with
  | (_, none) => unresolved expression "step reference needs a step id"
  | (stepId, some rest) =>
    let (element, key) := cutAtPoint rest
    let key := key.getD []
    if stepId.isEmpty ∨ element.isEmpty ∨ key.isEmpty then
      unresolved expression "step reference must have the form $steps.<stepId>.<element>.<key>"
    else context (String.ofList stepId) (String.ofList element) (String.ofList key)

/-- How an expression is named where it is not supported. -/
def label : RuntimeExpr → String
  | .ofMessage m p => m.keyword ++ p.keyword
  | e => e.root

/-- The keys of a pointer; without a pointer the whole body is meant. -/
def pathOf (pointer : Option Pointer) : List String := (pointer.map Pointer.keys).getD []

/-- Where the value of an expression is read; the text names it in a reason. -/
def ofExpr (expression : String) : RuntimeExpr → Access
  | .statusCode => statusCode
  | .url => url
  | .ofMessage .request (.body pointer) => body .request (pathOf pointer)
  | .ofMessage .response (.body pointer) => body .response (pathOf pointer)
  | .ofMessage .response (.header name) => responseHeader name
  | .named .steps name => ofStepName expression name
  | e => unresolved expression ("\x60" ++ label e ++ "\x60 expressions are not supported")

/-- Where the value of an expression text is read; a text that is no expression cannot be read. -/
def ofText (expression : String) : Access :=
  match RuntimeExpr.parse expression.toList with
  | .ok e => ofExpr expression e
  | .error err => unresolved expression err.message

end Access

end FlowSuite
