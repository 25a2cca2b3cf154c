import FlowSuite.Yaml.Scalar

/-!
# Tokens and layout

The tokens of a YAML text are its marks and scalars, and the places where a block collection starts and ends. Such a
place is not written but follows from the columns: `Layout` keeps the columns of the open blocks, and whether what
stands last may still turn out to be a key.
-/

namespace FlowSuite.Yaml

/-- A mark, a scalar, or the start or end of a block collection. -/
inductive Token where
  | documentStart
  | documentEnd
  | blockListStart
  | blockMapStart
  | blockEnd
  | flowListStart
  | flowListEnd
  | flowMapStart
  | flowMapEnd
  | comma
  | item
  | key
  | value
  | scalar (s : Scalar)
deriving DecidableEq, Repr

/-- A node that may turn out to be a key, if a colon follows it on its line. -/
structure KeyCandidate where
  line : Nat
  column : Nat
  /-- Nothing but a key may stand here. -/
  isRequired : Bool
  /-- How many tokens come before it. -/
  index : Nat
deriving DecidableEq, Repr

/-- The most characters that may lie between the start of a key and its colon. -/
def KeyCandidate.reach : Nat := 1024

/-- Can no longer be the key of a colon in the given place. -/
def KeyCandidate.isStale (k : KeyCandidate) (x : Cell) : Bool :=
  k.line < x.line || k.column + KeyCandidate.reach < x.column

/-- What has been read of a text, as far as the rest depends on it. -/
structure Layout where
  /-- The columns of the open blocks, the innermost first. -/
  columns : List Nat
  /-- The last node that may be a key. -/
  candidate : Option KeyCandidate
  /-- The same for what holds each open flow collection, the innermost first. -/
  outer : List (Option KeyCandidate)
  /-- A key may begin here. -/
  keyAllowed : Bool
  /-- The tokens so far, the last first. -/
  tokens : List Token
deriving DecidableEq, Repr

namespace Layout

/-- Nothing read. -/
def start : Layout := ⟨[], none, [], true, []⟩

/-- Inside a flow collection, where columns mean nothing. -/
def inFlow (l : Layout) : Bool := !l.outer.isEmpty

/-- The column that the contents of the innermost block have to reach. -/
def margin (l : Layout) : Nat :=
  match l.columns with
  | [] => 0
  | column :: _ => column + 1

/-- With one more token. -/
def push (t : Token) (l : Layout) : Layout := { l with tokens := t :: l.tokens }

/-- With tokens put in before those from an index on. -/
def insert (index : Nat) (ts : List Token) (l : Layout) : Layout :=
  let later := l.tokens.length - index
  { l with tokens := l.tokens.take later ++ ts.reverse ++ l.tokens.drop later }

/-- The columns at most as far out as a limit, and a token for each block that ends. -/
def closeFrom (limit : Nat) : List Nat → List Token → List Nat × List Token
  | [], ts => ([], ts)
  | column :: columns, ts =>
    if limit ≤ column then closeFrom limit columns (.blockEnd :: ts) else (column :: columns, ts)

/-- Ends the blocks that begin in a column or after it. -/
def endBlocks (limit : Nat) (l : Layout) : Layout :=
  if l.inFlow then l
  else
    let (columns, tokens) := closeFrom limit l.columns l.tokens
    { l with columns, tokens }

/-- Begins a block in a column unless it is open already, with its first token put in before those from an index on. -/
def beginBlock (start : Token) (column index : Nat) (l : Layout) : Layout :=
  if l.inFlow ∨ column < l.margin then l else { l.insert index [start] with columns := column :: l.columns }

/-- Without a candidate, unless it has to be a key. -/
def dropCandidate (l : Layout) : Option Layout :=
  if l.candidate.any KeyCandidate.isRequired then none else some { l with candidate := none }

/-- A node begins here, which may be a key. -/
def noteCandidate (x : Cell) (l : Layout) : Option Layout :=
  if l.keyAllowed then
    l.dropCandidate.map fun l =>
      { l with candidate := some ⟨x.line, x.column, !l.inFlow && x.column + 1 = l.margin, l.tokens.length⟩ }
  else some l

/-- Without the candidates that are stale in a place, none of which may have to be a key. -/
def dropStale (x : Cell) (l : Layout) : Option Layout :=
  let stale (k : Option KeyCandidate) : Bool := k.any fun k => k.isStale x
  if (l.candidate :: l.outer).any fun k => stale k ∧ k.any KeyCandidate.isRequired then none
  else
    let fresh (k : Option KeyCandidate) : Option KeyCandidate := if stale k then none else k
    some { l with candidate := fresh l.candidate, outer := l.outer.map fresh }

/-- A mark that separates documents. -/
def documentMark (t : Token) (l : Layout) : Option Layout :=
  (l.endBlocks 0).dropCandidate.map fun l => { l.push t with keyAllowed := false }

/-- A bracket that opens a flow collection. -/
def openFlow (t : Token) (x : Cell) (l : Layout) : Option Layout :=
  (l.noteCandidate x).map fun l =>
    { l.push t with outer := l.candidate :: l.outer, candidate := none, keyAllowed := true }

/-- A bracket that closes a flow collection. -/
def closeFlow (t : Token) (l : Layout) : Option Layout :=
  l.dropCandidate.map fun l =>
    match l.outer with
    | [] => { l.push t with keyAllowed := false }
    | k :: outer => { l.push t with outer, candidate := k, keyAllowed := false }

/-- A comma. -/
def comma (l : Layout) : Option Layout := l.dropCandidate.map fun l => { l.push .comma with keyAllowed := true }

/-- The hyphen of an item. -/
def item (x : Cell) (l : Layout) : Option Layout :=
  if ¬l.inFlow ∧ ¬l.keyAllowed then none
  else
    (l.beginBlock .blockListStart x.column l.tokens.length).dropCandidate.map fun l =>
      { l.push .item with keyAllowed := true }

/-- The question mark of a key. -/
def key (x : Cell) (l : Layout) : Option Layout :=
  if ¬l.inFlow ∧ ¬l.keyAllowed then none
  else
    (l.beginBlock .blockMapStart x.column l.tokens.length).dropCandidate.map fun l =>
      { l.push .key with keyAllowed := !l.inFlow }

/-- The colon of a value, which makes the candidate a key. -/
def value (x : Cell) (l : Layout) : Option Layout :=
  match l.candidate with
  | some k =>
    let l := (l.insert k.index [.key]).beginBlock .blockMapStart k.column k.index
    some { l.push .value with candidate := none, keyAllowed := false }
  | none =>
    if ¬l.inFlow ∧ ¬l.keyAllowed then none
    else
      let l := l.beginBlock .blockMapStart x.column l.tokens.length
      some { l.push .value with keyAllowed := !l.inFlow }

/-- A scalar; after a block and after the last line of a plain text a key may follow. -/
def scalar (isPlain : Bool) (text : List Char) (keyAllowed : Bool) (l : Layout) : Layout :=
  { l.push (.scalar ⟨isPlain, String.ofList text⟩) with keyAllowed }

/-- The characters that mean something else at the start of a scalar. -/
def isIndicator (c : Char) : Bool :=
  c ∈ [',', '[', ']', '\x7b', '\x7d', '#', '&', '*', '!', '|', '>', '\'', '"', '%', '@', '\x60']

/-- May begin a plain text: any character but a mark, and some marks that something stands close behind. -/
def beginsPlain (inFlow : Bool) (x : Cell) (xs : List Cell) : Bool :=
  if x.char = '-' then xs.head?.all fun y => !isBlank y.char
  else if x.char = '?' ∨ x.char = ':' then !inFlow && !endsWord xs
  else !isSpace x.char && !isIndicator x.char

/-- The layout after the next token, and the cells behind it. -/
def next (x : Cell) (xs : List Cell) (l : Layout) : Option (Layout × List Cell) :=
  let withRest (rest : List Cell) (l : Option Layout) : Option (Layout × List Cell) := l.map fun l => (l, rest)
  if isDocumentMark '-' (x :: xs) then withRest (xs.drop 2) (l.documentMark .documentStart)
  else if isDocumentMark '.' (x :: xs) then withRest (xs.drop 2) (l.documentMark .documentEnd)
  else if x.char = '[' then withRest xs (l.openFlow .flowListStart x)
  else if x.char = '\x7b' then withRest xs (l.openFlow .flowMapStart x)
  else if x.char = ']' then withRest xs (l.closeFlow .flowListEnd)
  else if x.char = '\x7d' then withRest xs (l.closeFlow .flowMapEnd)
  else if x.char = ',' then withRest xs l.comma
  else if x.char = '-' ∧ endsWord xs then withRest xs (l.item x)
  else if x.char = '?' ∧ (l.inFlow ∨ endsWord xs) then withRest xs (l.key x)
  else if x.char = ':' ∧ (l.inFlow ∨ endsWord xs) then withRest xs (l.value x)
  else if (x.char = '|' ∨ x.char = '>') ∧ ¬l.inFlow then do
    let l ← l.dropCandidate
    let (text, rest) ← block? (x.char = '>') l.margin xs
    return (l.scalar false text true, rest)
  else if x.char = '\'' then do
    let l ← l.noteCandidate x
    let (text, rest) ← singleQuotedText .none xs
    return (l.scalar false text false, rest)
  else if x.char = '"' then do
    let l ← l.noteCandidate x
    let (text, rest) ← doubleQuotedText 0 .none xs
    return (l.scalar false text false, rest)
  else if beginsPlain l.inFlow x xs then do
    let l ← l.noteCandidate x
    let (text, stop) ← plainText l.inFlow l.margin .none (x :: xs)
    return (l.scalar true text stop.isBroken, stop.rest)
  else none

/-- Passes over blanks, comments and line ends; a key may begin on a new line, but then not behind a tab. -/
def skipSpace (inFlow : Bool) : (inComment keyAllowed : Bool) → List Cell → Bool × List Cell
  | _, keyAllowed, [] => (keyAllowed, [])
  | inComment, keyAllowed, x :: xs =>
    if isBreak x.char then skipSpace inFlow false (keyAllowed || !inFlow) xs
    else if inComment ∨ x.char = '#' then skipSpace inFlow true keyAllowed xs
    else if x.char = ' ' ∨ (x.char = '\t' ∧ (inFlow ∨ ¬keyAllowed)) then skipSpace inFlow false keyAllowed xs
    else (keyAllowed, x :: xs)

/-- The tokens of the rest of a text, each step taking at least one of its cells. -/
def run : (steps : Nat) → Layout → List Cell → Option (List Token)
  | 0, _, _ => none
  | n + 1, l, cells =>
    match skipSpace l.inFlow false l.keyAllowed cells with
    | (_, []) => (l.endBlocks 0).dropCandidate.map fun l => l.tokens.reverse
    | (keyAllowed, x :: xs) => do
      let l ← Layout.dropStale x { l with keyAllowed }
      let (l, rest) ← (l.endBlocks (x.column + 1)).next x xs
      run n l rest

end Layout

/-- The tokens of a text. -/
def Token.ofText? (text : List Char) : Option (List Token) := do
  let cells ← Cell.ofText? text
  Layout.start.run (cells.length + 1) cells

end FlowSuite.Yaml
