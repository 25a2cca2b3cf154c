import FlowSuite.Condition.Parser
import FlowSuite.Criterion.Assertion
import FlowSuite.Document.Workflow
import FlowSuite.TestCase.Scope

/-!
# Success criteria as assertions

- A simple criterion is a condition. Each part of a chain of `&&` is checked on its own: a comparison by the assertion
  for its operator, anything else by its truth. A single operand checks nothing and is refused.
- A regular expression is matched against the context of the criterion.
- A path query on the context is compared with the other side of the comparison it stands in, or else with `true`.

The kinds of the assertions are recorded only when the whole criterion compiles.
-/

namespace FlowSuite

/-- Why a criterion cannot be checked. -/
inductive CompileError where
  | condition (text : String) (cause : ConditionError)
  | missingComparison (text : String) (span : Span)
  | unsupportedType (name : String)
  | invalidRegex (pattern reason : String)
deriving DecidableEq, Repr

namespace CompileError

/-- The part of the condition that is at fault, where there is one. -/
def span? : CompileError → Option Span
  | condition _ cause => some cause.span
  | missingComparison _ s => some s
  | unsupportedType _ | invalidRegex _ _ => none

/-- The code of the kind of error. -/
def code : CompileError → String
  | condition _ cause => cause.code
  | missingComparison .. => "E-CRIT-001"
  | unsupportedType .. => "E-CRIT-002"
  | invalidRegex .. => "E-CRIT-003"

/-- The error in words. -/
def message : CompileError → String
  | condition text cause => "invalid condition '" ++ text ++ "': " ++ cause.message
  | missingComparison text _ => "condition '" ++ text ++ "' has no comparison to assert"
  | unsupportedType name => "unsupported success criterion type '" ++ name ++ "'"
  | invalidRegex pattern reason => "invalid regular expression '" ++ pattern ++ "': " ++ reason

end CompileError

/-! ## Simple criteria -/

/-- The assertion for one part of a chain: a comparison by its operator, anything else by its truth. -/
def Condition.assertion (text : String) (c : Condition) (s : Scope) : Assertion × Scope :=
  match c with
  | .comparison _ operator left right message =>
    let (l, s) := left.lower s
    let (r, s) := right.lower s
    (⟨operator.assertionKind, l, some r, message⟩, s)
  | c =>
    let (e, s) := c.lower s
    (⟨.truthy, e, none, text⟩, s)

/-- The assertions for the parts of a chain. -/
def Condition.assertions (text : String) : List Condition → Scope → List Assertion × Scope
  | [], s => ([], s)
  | c :: cs, s =>
    let (a, s) := c.assertion text s
    let (as, s) := assertions text cs s
    (a :: as, s)

/-- Checks something on its own: is a comparison, a negation or a connective. -/
def Condition.isCheck : Condition → Bool
  | .comparison .. | .not .. | .logical .. => true
  | _ => false

/-- The assertions for a condition. -/
def compileSimple (text : String) (s : Scope) : Except CompileError (List Assertion) × Scope :=
  match Condition.parse text with
  | .error e => (.error (.condition text e), s)
  | .ok tree =>
    if tree.isCheck then
      let (as, s) := Condition.assertions text tree.conjuncts s
      (.ok as, s)
    else (.error (.missingComparison text tree.span), s)

/-! ## Regular expressions -/

/-- The flags of regular expressions. -/
def regexFlags : List Char := ['d', 'g', 'i', 'm', 's', 'u', 'v', 'y']

/-- A pattern and its flags. -/
structure Regex where
  pattern : String
  flags : String
deriving DecidableEq, Repr

namespace Regex

/-- Splits a text at its last slash. -/
def splitLast : List Char → Option (List Char × List Char)
  | [] => none
  | c :: cs =>
    match splitLast cs with
    | some (before, behind) => some (c :: before, behind)
    | none => if c = '/' then some ([], cs) else none

/-- A pattern between slashes with flags behind it; any other text is a pattern. -/
def split (cs : List Char) : List Char × List Char :=
  match cs with
  | '/' :: rest =>
    match splitLast rest with
    | some (pattern, flags) => if flags.all (· ∈ regexFlags) then (pattern, flags) else (cs, [])
    | none => (cs, [])
  | _ => (cs, [])

/-- The first character that occurred before. -/
def duplicate? : (seen : List Char) → List Char → Option Char
  | _, [] => none
  | seen, c :: cs => if c ∈ seen then some c else duplicate? (c :: seen) cs

/-- The regular expression that a text writes. -/
def ofText (text : String) : Except CompileError Regex :=
  let (pattern, flags) := split text.toList
  if pattern.isEmpty then .error (.invalidRegex text "empty pattern")
  else
    match duplicate? [] flags with
    | some flag => .error (.invalidRegex text ("duplicate flag '" ++ String.ofList [flag] ++ "'"))
    | none => .ok ⟨String.ofList pattern, String.ofList flags⟩

/-- The literal expression. -/
def toExpr (r : Regex) : Script.Expr := .regex r.pattern r.flags

end Regex

/-- The assertion that a context matches a regular expression. -/
def compileRegex (text context : String) (s : Scope) : Except CompileError (List Assertion) × Scope :=
  match Regex.ofText text with
  | .error e => (.error e, s)
  | .ok regex =>
    let (actual, s) := lowerRuntime context s
    (.ok [⟨.matches, actual, some (.construct (.ident "RegExp") [regex.toExpr]), text⟩], s)

/-! ## Path queries -/

/-- The query of a path in a value. -/
def pathQuery (path : String) (json : Script.Expr) : Script.Expr :=
  .call (.ident "JSONPath") [.object
    [(.bare "wrap", .bool false), (.bare "path", .string path), (.bare "json", json)]]

/-- The assertion on a path query. The context is read first, also where the comparison turns out to be broken. -/
def compilePath (text context : String) (s : Scope) : Except CompileError (List Assertion) × Scope :=
  let (json, s) := lowerRuntime context s
  if (FlatComparison.topLevel? text.toList).isNone then
    (.ok [⟨.equals, pathQuery text json, some (.bool true), text⟩], s)
  else
    match FlatComparison.parse text with
    | .error e => (.error (.condition text e), s)
    | .ok c =>
      let (expected, s) := c.right.lower s
      (.ok [⟨c.operator.assertionKind, pathQuery c.left.text json, some expected, text⟩], s)

/-! ## All criteria -/

/-- The runtime expression that criteria look at which name none. -/
def defaultContext : String := "$response.body"

namespace Criterion

/-- The assertions for a criterion; a context it does not name is the given one. -/
def assertions (c : Criterion) (context : String) (s : Scope) : Except CompileError (List Assertion) × Scope :=
  let context := c.context.getD context
  match c.kind? with
  | none => (.error (.unsupportedType c.typeName), s)
  | some .simple => compileSimple c.condition s
  | some .regex => compileRegex c.condition context s
  | some .jsonPath => compilePath c.condition context s

/-- The outcome of a compilation: the assertions or why there are none, the scope and the kinds used so far. -/
structure Compiled where
  result : Except CompileError (List Assertion)
  scope : Scope
  used : UsedKinds

/-- Compiles a criterion inside a step. -/
def compileIn (c : Criterion) (context : String) (s : Scope) (used : UsedKinds) : Compiled :=
  match c.assertions context s with
  | (.ok as, s) => ⟨.ok as, s, used.addAll as⟩
  | (.error e, s) => ⟨.error e, s, used⟩

/-- Compiles a criterion outside of all steps. -/
def compile (c : Criterion) (used : UsedKinds) : Compiled := c.compileIn defaultContext .detached used

end Criterion

end FlowSuite
