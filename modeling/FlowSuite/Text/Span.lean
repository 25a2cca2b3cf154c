/-!
# Positions in a text

Texts are lists of characters, and positions in them are offsets into their UTF-8 form.

- a text has as many bytes as its parts together (`byteCount_append`);
- cutting a text at an offset loses nothing (`cutAt_append`), and cutting it where a prefix ends gives that prefix
  (`cutAt_byteCount`);
- `Location` counts lines and columns in characters, both from 1.
-/

namespace FlowSuite

/-- A half-open range of byte offsets. -/
structure Span where
  start : Nat
  stop : Nat
deriving DecidableEq, Repr

namespace Span

/-- The empty range at an offset. -/
def point (offset : Nat) : Span := ⟨offset, offset⟩

/-- The smallest range that covers both. -/
def merge (a b : Span) : Span := ⟨min a.start b.start, max a.stop b.stop⟩

end Span

namespace Text

/-- How many bytes a text has in UTF-8. -/
def byteCount : List Char → Nat
  | [] => 0
  | c :: cs => c.utf8Size + byteCount cs

@[simp] theorem byteCount_nil : byteCount [] = 0 := rfl

@[simp] theorem byteCount_cons (c : Char) (cs : List Char) : byteCount (c :: cs) = c.utf8Size + byteCount cs := rfl

@[simp] theorem byteCount_append (a b : List Char) : byteCount (a ++ b) = byteCount a + byteCount b := by
  induction a with
  | nil => simp
  | cons c cs ih => simp [ih, Nat.add_assoc]

/-- The text before and from a byte offset; an offset inside a character cuts before it. -/
def cutAt : Nat → List Char → List Char × List Char
  | _, [] => ([], [])
  | n, c :: cs => if c.utf8Size ≤ n then (c :: (cutAt (n - c.utf8Size) cs).1, (cutAt (n - c.utf8Size) cs).2)
    else ([], c :: cs)

theorem cutAt_append (n : Nat) (cs : List Char) : (cutAt n cs).1 ++ (cutAt n cs).2 = cs := by
  induction cs generalizing n with
  | nil => rfl
  | cons c cs ih =>
    unfold cutAt
    split
    · simp [ih]
    · rfl

theorem cutAt_byteCount (a b : List Char) : cutAt (byteCount a) (a ++ b) = (a, b) := by
  induction a with
  | nil =>
    cases b with
    | nil => rfl
    | cons c cs =>
      have := c.utf8Size_pos
      simp only [byteCount_nil, List.nil_append, cutAt]
      rw [if_neg (by omega)]
  | cons c cs ih => simp [cutAt, ih]

/-- The part of a text that a range covers. -/
def slice (s : Span) (text : List Char) : List Char :=
  (cutAt (s.stop - s.start) (cutAt s.start text).2).1

/-- How many characters begin before a byte offset. -/
def charIndex : Nat → List Char → Nat
  | _, [] => 0
  | 0, _ :: _ => 0
  | n + 1, c :: cs => charIndex (n + 1 - c.utf8Size) cs + 1

/-- A byte range as a range of character indices, never backwards. -/
def charRange (text : List Char) (s : Span) : Nat × Nat :=
  let start := charIndex s.start text
  (start, max (charIndex s.stop text) start)

end Text

/-- A place in a text as people count it. -/
structure Location where
  /-- The byte offset asked for. -/
  offset : Nat
  line : Nat
  column : Nat
deriving DecidableEq, Repr

namespace Location

/-- The line feeds in a text, and the characters after the last of them. -/
def countLines : List Char → Nat × Nat
  | [] => (0, 0)
  | c :: cs =>
    let (lines, column) := countLines cs
    if lines = 0 ∧ c ≠ '\n' then (0, column + 1)
    else (if c = '\n' then lines + 1 else lines, column)

/-- The place of a byte offset; an offset past the end counts as the end. -/
def ofOffset (text : List Char) (offset : Nat) : Location :=
  let (lines, column) := countLines (Text.cutAt offset text).1
  ⟨offset, lines + 1, column + 1⟩

end Location

end FlowSuite
