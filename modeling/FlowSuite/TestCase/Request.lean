import FlowSuite.Document.Api
import FlowSuite.Document.Workflow
import FlowSuite.TestCase.Scope

/-!
# The request of a step

Path and query parameters are bound to constants under names of their own, and the address is a template over them.
`bindParameters` makes the constants, `Path.fill` puts them into the path, and `requestCall` is the call itself.
-/

namespace FlowSuite

open Script (Expr Stmt Template)

/-! ## Names for constants -/

/-- The names that every step uses already. -/
def stepLocals : List String :=
  [ "serverUrl", "apiKey", "context", "test", "response", "data", "payload", "fetch", "JSON", "String",
    "encodeURIComponent", "RegExp", "JSONPath", "Deno", "undefined", "assert", "assertEquals", "assertNotEquals",
    "assertLess", "assertLessOrEqual", "assertGreater", "assertGreaterOrEqual", "assertMatch" ]

/-- The first name with a number behind it that is not taken, after so many tries at most. -/
def numbered (taken : List String) (base : String) : (tries n : Nat) → String
  | 0, n => base ++ toString n
  | tries + 1, n => if base ++ toString n ∈ taken then numbered taken base tries (n + 1) else base ++ toString n

/-- The name of the constant for a parameter. Numbers from 2 up to the number of taken names plus one are enough to
find a free name. -/
def bindingName (name : String) (taken : List String) : String :=
  let base := String.ofList (Script.bindable name.toList)
  if base ∈ taken then numbered taken base taken.length 2 else base

/-! ## Parameters -/

/-- A parameter and the constant it is bound to. -/
structure Binding where
  parameter : String
  constant : String
deriving DecidableEq, Repr

/-- What becomes of the parameters of a step. -/
structure BoundParameters where
  constants : List Stmt
  path : List Binding
  query : List Binding
  headers : List (Script.Key × Expr)
  warnings : List String

/-- The value of a header, which is a string. -/
def headerValue (value : Json) (s : Scope) : Expr × Scope :=
  match value.runtimeText?, value with
  | none, .str text => (.string text, s)
  | _, _ =>
    let (e, s) := value.lowerValue s
    (.call (.ident "String") [e], s)

/-- Binds path and query parameters, makes headers, and warns of parameters that are not sent. -/
def bindParameters : List Parameter → (taken : List String) → Scope → BoundParameters × Scope
  | [], _, s => (⟨[], [], [], [], []⟩, s)
  | p :: ps, taken, s =>
    match p.location with
    | some .path =>
      let constant := bindingName p.name taken
      let (value, s) := p.value.lowerValue s
      let (b, s) := bindParameters ps (constant :: taken) s
      ({ b with constants := .const constant none value :: b.constants, path := ⟨p.name, constant⟩ :: b.path }, s)
    | some .query =>
      let constant := bindingName p.name taken
      let (value, s) := p.value.lowerValue s
      let (b, s) := bindParameters ps (constant :: taken) s
      ({ b with constants := .const constant none value :: b.constants, query := ⟨p.name, constant⟩ :: b.query }, s)
    | some .header =>
      let (value, s) := headerValue p.value s
      let (b, s) := bindParameters ps taken s
      ({ b with headers := (.quoted p.name, value) :: b.headers }, s)
    | some .cookie =>
      let (b, s) := bindParameters ps taken s
      ({ b with warnings := ("cookie parameter '" ++ p.name ++ "' is not supported, skipped") :: b.warnings }, s)
    | none =>
      let (b, s) := bindParameters ps taken s
      ({ b with warnings := ("parameter '" ++ p.name ++ "' has no location, skipped") :: b.warnings }, s)

/-! ## Paths -/

/-- A piece of a path: text, or a name between braces. -/
inductive PathPiece where
  | text (text : List Char)
  | placeholder (name : List Char)
deriving DecidableEq, Repr

namespace PathPiece

/-- The piece as it stands in the path. -/
def written : PathPiece → List Char
  | text t => t
  | placeholder n => '\x7b' :: n ++ ['\x7d']

end PathPiece

namespace Path

/-- Puts a character in front of the text that comes first. -/
def consText (c : Char) : List PathPiece → List PathPiece
  | .text t :: more => .text (c :: t) :: more
  | more => .text [c] :: more

/-- The pieces of a path, read behind an open brace and the characters behind it, or outside of braces. A placeholder
goes up to the first closing brace; an open brace that is never closed is text. -/
def pieces : (opened : Option (List Char)) → List Char → List PathPiece
  | none, [] => []
  | some name, [] => [.text ('\x7b' :: name)]
  | none, c :: cs => if c = '\x7b' then pieces (some []) cs else consText c (pieces none cs)
  | some name, c :: cs =>
    if c = '\x7d' then .placeholder name :: pieces none cs else pieces (some (name ++ [c])) cs

/-- The constant that a placeholder stands for. -/
def lookup? (bindings : List Binding) (name : List Char) : Option String :=
  (bindings.find? (·.parameter.toList = name)).map Binding.constant

/-- Adds the pieces of a path to a template, a slot for each placeholder that is bound, and gives the names of the
others. -/
def fillPieces (bindings : List Binding) : List PathPiece → Template → Template × List String
  | [], t => (t, [])
  | .text text :: more, t => fillPieces bindings more (t.pushText (String.ofList text))
  | .placeholder name :: more, t =>
    match lookup? bindings name with
    | some constant => fillPieces bindings more (t.push (.ident constant) "")
    | none =>
      let (t, unbound) :=
        fillPieces bindings more (t.pushText (String.ofList (PathPiece.placeholder name).written))
      (t, String.ofList name :: unbound)

/-- Adds a path to a template, with slots for the placeholders that are bound, and gives the names of the others. -/
def fill (path : String) (bindings : List Binding) (t : Template) : Template × List String :=
  fillPieces bindings (pieces none path.toList) t

end Path

/-- Adds query parameters to an address. -/
def addQuery : (mark : String) → List Binding → Template → Template
  | _, [], t => t
  | mark, b :: more, t =>
    addQuery "&" more <|
      (t.pushText (mark ++ b.parameter ++ "=")).push
        (.call (.ident "encodeURIComponent") [.call (.ident "String") [.ident b.constant]]) ""

/-! ## The call -/

/-- The headers of every request. -/
def commonHeaders (security : SecurityHeader) : List (Script.Key × Expr) :=
  [ (.quoted security.name, ((Template.ofText security.lead).push (.ident "apiKey") "").toExpr),
    (.quoted "Content-Type", .string "application/json") ]

/-- The body of a request. -/
def requestBody (hasPayload : Bool) : Expr :=
  if hasPayload then .call (.property (.ident "JSON") "stringify") [.ident "payload"] else .null

/-- The call that sends a request. -/
def requestCall (method : HttpMethod) (url : Template) (headers : List (Script.Key × Expr)) (hasPayload : Bool) :
    Expr :=
  .await <| .call (.ident "fetch") [url.toExpr, .object
    [ (.bare "method", .string method.name), (.bare "headers", .object headers),
      (.bare "body", requestBody hasPayload) ]]

end FlowSuite
