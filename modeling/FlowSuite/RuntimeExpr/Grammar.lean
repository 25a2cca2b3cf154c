import FlowSuite.RuntimeExpr.Basic
import FlowSuite.RuntimeExpr.SyntaxError

/-!
# The grammar of runtime expressions

    expression = "$url" / "$method" / "$statusCode"
               / ( "$request." / "$response." / "$message." ) part
               / ( "$inputs." / "$outputs." / "$steps." / "$workflows." / "$sourceDescriptions."
                 / "$components.parameters." / "$components." ) name
    part       = "header." token / "query." name / "path." name / "body" [ "#" pointer ]
    pointer    = *( "/" *( unescaped / "~0" / "~1" ) )
    name       = 1*( any character from "!" to "~" )

Keywords are read in any case, names as they stand. The keywords are tried in this order, and once one of them is
read the rest of the text has to fit it. `RuntimeExpr.parse` reads a whole text.
-/

namespace FlowSuite.RuntimeExpr

/-- What is left to read, and the offset it starts at. -/
structure Cursor where
  rest : List Char
  offset : Nat
deriving DecidableEq, Repr

/-- A reader gives a value and the place behind it, or nothing, and always adds to the record of what was wanted. -/
abbrev Reader (α : Type) := Cursor → Furthest → Option (α × Cursor) × Furthest

namespace Reader

/-- Changes the value that a reader gives. -/
def map (f : α → β) (r : Reader α) : Reader β := fun c w =>
  match r c w with
  | (some (a, c), w) => (some (f a, c), w)
  | (none, w) => (none, w)

/-- Reads one thing and then another, and keeps the second. -/
def andThen (r : Reader α) (s : Reader β) : Reader β := fun c w =>
  match r c w with
  | (some (_, c), w) => s c w
  | (none, w) => (none, w)

/-- Tries another reader at the same place where the first gives nothing. -/
def orElse (r s : Reader α) : Reader α := fun c w =>
  match r c w with
  | (some a, w) => (some a, w)
  | (none, w) => s c w

end Reader

/-- The text behind a literal it starts with. -/
def afterLiteral? (anyCase : Bool) : List Char → List Char → Option (List Char)
  | [], cs => some cs
  | _ :: _, [] => none
  | l :: ls, c :: cs =>
    if c = l ∨ (anyCase ∧ c.toLower = l.toLower) then afterLiteral? anyCase ls cs else none

/-- Reads a literal. -/
def literal (text : String) (anyCase : Bool) : Reader Unit := fun c w =>
  match afterLiteral? anyCase text.toList c.rest with
  | some rest => (some ((), ⟨rest, c.offset + Text.byteCount text.toList⟩), w)
  | none => (none, w.want c.offset (.literal text anyCase))

/-- Reads one or more characters of a class, as many as there are. -/
def run (inClass : Char → Bool) (description : String) : Reader String := fun c w =>
  let word := c.rest.takeWhile inClass
  let behind : Cursor := ⟨c.rest.dropWhile inClass, c.offset + Text.byteCount word⟩
  let w := w.want behind.offset (.charClass description)
  if word.isEmpty then (none, w) else (some (String.ofList word, behind), w)

/-- The characters of header names. -/
def isTokenChar (c : Char) : Bool := c.isAlphanum || c ∈ ['!', '#', '$', '%', '&', '\'', '*', '+', '-', '.', '^', '_',
  '\x60', '|', '~']

/-- The visible ASCII characters. -/
def isNameChar (c : Char) : Bool := '\x21' ≤ c && c ≤ '\x7e'

/-- Reads a header name. -/
def token : Reader String := run isTokenChar "[!#$%&'*+-.^_\x60|~0-9A-Za-z]"

/-- Reads a name. -/
def name : Reader String := run isNameChar "[\\x21-\\x7E]"

/-- Reads the rest of a key and the keys behind it, as they are written. A tilde without a `0` or `1` behind it is left
unread. -/
def keyAndKeys : List Char → Nat → Furthest → (List Char × List (List Char)) × Cursor × Furthest
  | [], n, w =>
    (([], []), ⟨[], n⟩,
      ((w.want n (.charClass "[^/~]")).want n (.literal "~" false)).want n (.literal "/" false))
  | '~' :: d :: cs, n, w =>
    let w := w.want n (.charClass "[^/~]")
    if d = '0' ∨ d = '1' then
      let ((key, keys), c, w) := keyAndKeys cs (n + 2) w
      (('~' :: d :: key, keys), c, w)
    else
      (([], []), ⟨'~' :: d :: cs, n⟩, (w.want (n + 1) (.charClass "[01]")).want n (.literal "/" false))
  | c :: cs, n, w =>
    if c = '~' then
      (([], []), ⟨c :: cs, n⟩,
        ((w.want n (.charClass "[^/~]")).want (n + 1) (.charClass "[01]")).want n (.literal "/" false))
    else if c = '/' then
      let w := (w.want n (.charClass "[^/~]")).want n (.literal "~" false)
      let ((key, keys), c, w) := keyAndKeys cs (n + 1) w
      (([], key :: keys), c, w)
    else
      let ((key, keys), behind, w) := keyAndKeys cs (n + c.utf8Size) w
      ((c :: key, keys), behind, w)

/-- The key that a written key stands for; one that stands for none is taken as it is. -/
def keyOf (written : List Char) : String := String.ofList ((Pointer.decodeKey written).getD written)

/-- Reads a pointer, which may be empty. -/
def pointer (c : Cursor) (w : Furthest) : Pointer × Cursor × Furthest :=
  match c.rest with
  | '/' :: cs =>
    let ((key, keys), c, w) := keyAndKeys cs (c.offset + 1) w
    (⟨(key :: keys).map keyOf⟩, c, w)
  | _ => (⟨[]⟩, c, w.want c.offset (.literal "/" false))

/-- Reads the pointer of a body, if there is one. -/
def bodyPointer : Reader MessagePart := fun c w =>
  match literal "#" false c w with
  | (some (_, c), w) =>
    let (p, c, w) := pointer c w
    (some (.body (some p), c), w)
  | (none, w) => (some (.body none, c), w)

/-- Reads a part of a message. -/
def part : Reader MessagePart :=
  (((literal "header." true).andThen token).map .header).orElse <|
  (((literal "query." true).andThen name).map .query).orElse <|
  (((literal "path." true).andThen name).map .path).orElse ((literal "body" true).andThen bodyPointer)

/-- Reads nothing and gives a value. -/
def done (e : RuntimeExpr) : Reader RuntimeExpr := fun c w => (some (e, c), w)

/-- The keywords in the order they are tried, each with the reader of what follows it. -/
def roots : List (String × Reader RuntimeExpr) :=
  [ ("$url", done .url),
    ("$method", done .method),
    ("$statusCode", done .statusCode),
    ("$request.", part.map (.ofMessage .request)),
    ("$response.", part.map (.ofMessage .response)),
    ("$message.", part.map (.ofMessage .message)),
    ("$inputs.", name.map (.named .inputs)),
    ("$outputs.", name.map (.named .outputs)),
    ("$steps.", name.map (.named .steps)),
    ("$workflows.", name.map (.named .workflows)),
    ("$sourceDescriptions.", name.map (.named .sourceDescriptions)),
    ("$components.parameters.", name.map (.named .componentParameters)),
    ("$components.", name.map (.named .components)) ]

/-- Reads the first keyword that fits, and then what has to follow it. -/
def firstRoot : List (String × Reader RuntimeExpr) → Reader RuntimeExpr
  | [] => fun _ w => (none, w)
  | (keyword, follow) :: more => fun c w =>
    match literal keyword true c w with
    | (some (_, c), w) => follow c w
    | (none, w) => firstRoot more c w

/-- The runtime expression that a whole text writes. -/
def parse (text : List Char) : Except SyntaxError RuntimeExpr :=
  match firstRoot roots ⟨text, 0⟩ Furthest.none with
  | (some (e, c), w) =>
    if c.rest.isEmpty then .ok e else .error (.ofFurthest text (w.want c.offset .endOfInput))
  | (none, w) => .error (.ofFurthest text w)

end FlowSuite.RuntimeExpr
