import FlowSuite.Decimal.Reading
import FlowSuite.Yaml.Cell

/-!
# Scalars

A scalar is a text, written plain, between quotes or as a block of lines. In all but the last, a single line break
between two words is a blank, and of several breaks the first is left out (`Gap.text`). Blocks of lines keep their
breaks, or fold them where neither line is indented further (`Seam.join`).
-/

namespace FlowSuite.Yaml

/-- A text, and whether it is written plain, so that it may stand for other values than texts. -/
structure Scalar where
  isPlain : Bool
  text : String
deriving DecidableEq, Repr

/-- Nothing written where a value may be. -/
def Scalar.empty : Scalar := ⟨true, ""⟩

/-! ## Plain and quoted texts -/

/-- What stands between two words: blanks, or line breaks with blanks around them. The first break is missing where it
is escaped. -/
inductive Gap where
  | blanks (cs : List Char)
  | breaks (first : Option Char) (more : List Char)
deriving DecidableEq, Repr

namespace Gap

/-- No gap at all. -/
def none : Gap := .blanks []

/-- Goes over the end of a line. -/
def isBroken : Gap → Bool
  | blanks _ => false
  | breaks _ _ => true

/-- The gap with one more blank or break. -/
def add (c : Char) : Gap → Gap
  | blanks cs => if isBreak c then breaks (some c) [] else blanks (cs ++ [c])
  | breaks first more => if isBreak c then breaks first (more ++ [c]) else breaks first more

/-- What a gap means. -/
def text : Gap → List Char
  | blanks cs => cs
  | breaks (some '\n') [] => [' ']
  | breaks (some '\n') more => more
  | breaks first more => first.toList ++ more

end Gap

/-- The characters that separate the items of a flow collection or close it. -/
def isFlowMark (c : Char) : Bool := c ∈ [',', '[', ']', '\x7b', '\x7d']

/-- A colon that ends a key. -/
def endsKey : List Cell → Bool
  | x :: xs => x.char = ':' && endsWord xs
  | [] => false

/-- What is left after a plain text, and whether its last line has ended. -/
structure PlainEnd where
  isBroken : Bool
  rest : List Cell

/-- A plain text: up to a mark, a comment, or a line that does not reach the margin. Tabs do not reach it. -/
def plainText (inFlow : Bool) (margin : Nat) : Gap → List Cell → Option (List Char × PlainEnd)
  | gap, [] => some ([], ⟨gap.isBroken, []⟩)
  | gap, x :: xs =>
    let stop := some ([], ⟨gap.isBroken, x :: xs⟩)
    if isSpace x.char then
      if x.char = '\t' ∧ gap.isBroken ∧ x.column < margin then none else plainText inFlow margin (gap.add x.char) xs
    else if gap ≠ .none ∧ (x.char = '#' ∨ (¬inFlow ∧ x.column < margin)) then stop
    else if atDocumentMark (x :: xs) then stop
    else if inFlow ∧ x.char = ':' ∧ xs.head?.any (fun y => isFlowMark y.char || y.char = '?') then none
    else if endsKey (x :: xs) ∨ (inFlow ∧ isFlowMark x.char) then stop
    else (plainText inFlow margin .none xs).map fun (cs, e) => (gap.text ++ x.char :: cs, e)

/-- A text between single quotes, where two quotes stand for one; the opening quote is read. -/
def singleQuotedText : Gap → List Cell → Option (List Char × List Cell)
  | _, [] => none
  | gap, x :: xs =>
    if isSpace x.char then singleQuotedText (gap.add x.char) xs
    else if atDocumentMark (x :: xs) then none
    else if x.char = '\'' then
      match xs with
      | [] => some (gap.text, [])
      | y :: ys =>
        if y.char = '\'' then (singleQuotedText .none ys).map fun (cs, rest) => (gap.text ++ '\'' :: cs, rest)
        else some (gap.text, y :: ys)
    else (singleQuotedText .none xs).map fun (cs, rest) => (gap.text ++ x.char :: cs, rest)

/-- The character that a number of hexadecimal digits name. -/
def hexEscape? (digits : Nat) (cells : List Cell) : Option (Char × Nat) :=
  let code := (cells.take digits).map Cell.char
  if code.length = digits then
    match Decimal.readNat? 16 code with
    | some n => if n.isValidChar then some (Char.ofNat n, digits + 1) else none
    | none => none
  else none

/-- What a backslash and the cells behind it stand for, and how many cells it takes. -/
def escape? : List Cell → Option (Char × Nat)
  | [] => none
  | x :: xs =>
    match x.char with
    | '0' => some ('\x00', 1)
    | 'a' => some ('\x07', 1)
    | 'b' => some ('\x08', 1)
    | 't' | '\t' => some ('\t', 1)
    | 'n' => some ('\n', 1)
    | 'v' => some ('\x0b', 1)
    | 'f' => some ('\x0c', 1)
    | 'r' => some ('\r', 1)
    | 'e' => some ('\x1b', 1)
    | ' ' => some (' ', 1)
    | '"' => some ('"', 1)
    | '/' => some ('/', 1)
    | '\\' => some ('\\', 1)
    | 'N' => some ('\x85', 1)
    | '_' => some ('\xa0', 1)
    | 'L' => some ('\u2028', 1)
    | 'P' => some ('\u2029', 1)
    | 'x' => hexEscape? 2 xs
    | 'u' => hexEscape? 4 xs
    | 'U' => hexEscape? 8 xs
    | _ => none

/-- A text between double quotes, its first cells being part of an escape already read. -/
def doubleQuotedText : (passed : Nat) → Gap → List Cell → Option (List Char × List Cell)
  | _, _, [] => none
  | passed + 1, gap, _ :: xs => doubleQuotedText passed gap xs
  | 0, gap, x :: xs =>
    if isSpace x.char then doubleQuotedText 0 (gap.add x.char) xs
    else if atDocumentMark (x :: xs) then none
    else if x.char = '"' then some (gap.text, xs)
    else if x.char = '\\' then
      if xs.head?.any fun y => isBreak y.char then
        (doubleQuotedText 1 (.breaks none []) xs).map fun (cs, rest) => (gap.text ++ cs, rest)
      else
        match escape? xs with
        | some (c, size) => (doubleQuotedText size .none xs).map fun (cs, rest) => (gap.text ++ c :: cs, rest)
        | none => none
    else (doubleQuotedText 0 .none xs).map fun (cs, rest) => (gap.text ++ x.char :: cs, rest)

/-! ## Blocks of lines -/

/-- What becomes of the line breaks at the end of a block. -/
inductive Chomping where
  | strip
  | clip
  | keep
deriving DecidableEq, Repr

/-- How a block is to be read. -/
structure BlockStyle where
  /-- Line breaks become blanks. -/
  isFolded : Bool
  chomping : Chomping
  /-- How far the block is indented against what holds it, if that is written. -/
  indent : Option Nat
deriving DecidableEq, Repr

/-- What stands between two lines of a block. -/
structure Seam where
  /-- The break that ended the line before, if there is one. -/
  last : Option Char
  /-- The line before began with a blank. -/
  isIndented : Bool
  /-- The breaks of the empty lines after it. -/
  empty : List Char

namespace Seam

/-- Before the first line. -/
def start : Seam := ⟨none, false, []⟩

/-- What the breaks mean before a line that begins with a character. -/
def join (style : BlockStyle) (next : Char) (s : Seam) : List Char :=
  if style.isFolded ∧ s.last = some '\n' ∧ ¬s.isIndented ∧ ¬isBlank next then
    if s.empty.isEmpty then [' '] else s.empty
  else s.last.toList ++ s.empty

/-- What the breaks mean at the end of the block. -/
def close (style : BlockStyle) (s : Seam) : List Char :=
  match style.chomping with
  | .strip => []
  | .clip => s.last.toList
  | .keep => s.last.toList ++ s.empty

end Seam

mutual

/-- A block from the start of a line or from within its indentation. The first line that is not empty sets the
indentation where it is not known: as deep as that line and as all lines before it, and at the margin at least. A tab
is no indentation. -/
def blockText (style : BlockStyle) (margin : Nat) : (indent : Option Nat) → (deepest : Nat) → Seam → List Cell →
    Option (List Char × List Cell)
  | _, _, seam, [] => some (seam.close style, [])
  | indent, deepest, seam, x :: xs =>
    let isShort := indent.all (x.column < ·)
    if x.char = ' ' ∧ isShort then blockText style margin indent deepest seam xs
    else if x.char = '\t' ∧ isShort then none
    else if isBreak x.char then
      blockText style margin indent (max deepest x.column) { seam with empty := seam.empty ++ [x.char] } xs
    else
      let depth := indent.getD (max (max deepest x.column) (max margin 1))
      if x.column = depth then
        (blockLine style margin depth (isBlank x.char) xs).map fun (cs, rest) =>
          (seam.join style x.char ++ x.char :: cs, rest)
      else some (seam.close style, x :: xs)

/-- A block from within a line. -/
def blockLine (style : BlockStyle) (margin depth : Nat) (isIndented : Bool) : List Cell →
    Option (List Char × List Cell)
  | [] => some ([], [])
  | x :: xs =>
    if isBreak x.char then blockText style margin (some depth) 0 ⟨some x.char, isIndented, []⟩ xs
    else (blockLine style margin depth isIndented xs).map fun (cs, rest) => (x.char :: cs, rest)

end

/-- The sign for the end of a block, if there is one. -/
def takeChomping : List Cell → Option Chomping × List Cell
  | [] => (none, [])
  | x :: xs =>
    if x.char = '-' then (some .strip, xs)
    else if x.char = '+' then (some .keep, xs)
    else (none, x :: xs)

/-- The digit for the indentation of a block, if there is one; it is not 0. -/
def takeIndent? : List Cell → Option (Option Nat × List Cell)
  | [] => some (none, [])
  | x :: xs =>
    if x.char = '0' then none
    else if x.char.isDigit then some (some (x.char.toNat - 48), xs)
    else some (none, x :: xs)

/-- The style in the first line of a block, behind the mark that opens it, and the lines after it. -/
def blockStyle? (isFolded : Bool) (cells : List Cell) : Option (BlockStyle × List Cell) := do
  let (before, cells) := takeChomping cells
  let (indent, cells) ← takeIndent? cells
  let (after, cells) := if before.isNone ∧ indent.isSome then takeChomping cells else (none, cells)
  let style : BlockStyle := ⟨isFolded, (before.or after).getD .clip, indent⟩
  match cells.dropWhile fun x => isBlank x.char with
  | [] => return (style, [])
  | x :: xs =>
    if isBreak x.char then return (style, xs)
    else if x.char = '#' then return (style, (xs.dropWhile fun y => !isBreak y.char).drop 1)
    else none

/-- A block behind the mark that opens it, in what has to be indented up to the margin. -/
def block? (isFolded : Bool) (margin : Nat) (cells : List Cell) : Option (List Char × List Cell) := do
  let (style, cells) ← blockStyle? isFolded cells
  blockText style margin (style.indent.map (· + (margin - 1))) 0 .start cells

end FlowSuite.Yaml
