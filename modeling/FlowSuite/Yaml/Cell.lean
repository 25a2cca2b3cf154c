/-!
# Characters in their places

The layout of a YAML text decides its meaning, so its characters are read together with the line and the column they
stand in. All ways to end a line that mean nothing more are one line feed here (`unifyBreaks`).

- no carriage return is left (`return_notMem_unifyBreaks`);
- placing the characters of a text loses none of them (`map_char_placed`).
-/

namespace FlowSuite.Yaml

/-- A character and where it stands; lines and columns count from 0. -/
structure Cell where
  char : Char
  line : Nat
  column : Nat
deriving DecidableEq, Repr

/-- Blanks within a line. -/
def isBlank (c : Char) : Bool := c = ' ' || c = '\t'

/-- Ends a line. -/
def isBreak (c : Char) : Bool := c = '\n' || c = '\u2028' || c = '\u2029'

/-- Stands between words. -/
def isSpace (c : Char) : Bool := isBlank c || isBreak c

/-- May stand in a text at all: everything but control characters and characters that are none. -/
def isPrintable (c : Char) : Bool :=
  c ∈ ['\t', '\n', '\r', '\x85'] || (0x20 ≤ c.toNat && c.toNat ≤ 0x7E) || (0xA0 ≤ c.toNat && c.toNat < 0xFEFF) ||
    (0xFEFF < c.toNat && c.toNat ≤ 0xFFFD) || 0x10000 ≤ c.toNat

/-- Line feeds in place of carriage returns, of pairs of both, and of next-line characters. -/
def unifyBreaks : List Char → List Char
  | [] => []
  | '\r' :: '\n' :: cs => '\n' :: unifyBreaks cs
  | c :: cs => (if c = '\r' ∨ c = '\x85' then '\n' else c) :: unifyBreaks cs

theorem return_notMem_unifyBreaks (text : List Char) : '\r' ∉ unifyBreaks text := by
  fun_induction unifyBreaks text with
  | case1 => simp
  | case2 cs ih => simpa using ih
  | case3 c cs _ ih =>
    simp only [List.mem_cons, not_or]
    refine ⟨?_, ih⟩
    split
    · decide
    next h => exact fun e => h (.inl e.symm)

namespace Cell

/-- The cells of a text that starts in a given place. -/
def placed (line column : Nat) : List Char → List Cell
  | [] => []
  | c :: cs => ⟨c, line, column⟩ :: if isBreak c then placed (line + 1) 0 cs else placed line (column + 1) cs

/-- The cells of a text, which may begin with a byte order mark. -/
def ofText? (text : List Char) : Option (List Cell) :=
  let text := match text with
    | '\uFEFF' :: cs => cs
    | cs => cs
  if text.all isPrintable then some (placed 0 0 (unifyBreaks text)) else none

theorem map_char_placed (line column : Nat) (text : List Char) : (placed line column text).map char = text := by
  induction text generalizing line column with
  | nil => rfl
  | cons c cs ih =>
    simp only [placed, List.map_cons]
    split <;> rw [ih]

end Cell

/-- Nothing more of a word. -/
def endsWord : List Cell → Bool
  | [] => true
  | x :: _ => isSpace x.char

/-- Three hyphens or three points on their own at the start of a line, which separate documents. -/
def isDocumentMark (mark : Char) : List Cell → Bool
  | a :: b :: c :: rest => a.column = 0 && a.char = mark && b.char = mark && c.char = mark && endsWord rest
  | _ => false

/-- Either mark of a document. -/
def atDocumentMark (cells : List Cell) : Bool := isDocumentMark '-' cells || isDocumentMark '.' cells

end FlowSuite.Yaml
