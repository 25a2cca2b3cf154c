import FlowSuite.Decimal.Binary64

/-!
# Reading numbers from text

Whole numbers are digits with an optional sign. A decimal number is digits with at most one point among or beside
them, an optional sign in front and an optional power of ten behind.
-/

namespace FlowSuite.Decimal

/-- The value of a digit of a base up to 16, in either case. -/
def digitValue? (base : Nat) (c : Char) : Option Nat :=
  let value : Option Nat :=
    if '0' ≤ c ∧ c ≤ '9' then some (c.toNat - 48)
    else if 'a' ≤ c ∧ c ≤ 'f' then some (c.toNat - 87)
    else if 'A' ≤ c ∧ c ≤ 'F' then some (c.toNat - 55)
    else none
  value.filter (· < base)

/-- The number that digits write after those already read. -/
def readDigits? (base : Nat) : Nat → List Char → Option Nat
  | n, [] => some n
  | n, c :: cs =>
    match digitValue? base c with
    | some d => readDigits? base (n * base + d) cs
    | none => none

/-- The number that one or more digits write. -/
def readNat? (base : Nat) : List Char → Option Nat
  | [] => none
  | cs => readDigits? base 0 cs

/-- Splits off a leading sign. -/
def splitSign : List Char → Bool × List Char
  | '-' :: cs => (true, cs)
  | '+' :: cs => (false, cs)
  | cs => (false, cs)

/-- The whole number that an optional sign and decimal digits write. -/
def readInt? (cs : List Char) : Option Int :=
  let (negative, digits) := splitSign cs
  (readNat? 10 digits).map fun n => if negative then -(n : Int) else n

/-- Fits in a number of bits and a sign. -/
def fitsSigned (bits : Nat) (n : Int) : Bool := -(pow2 bits : Int) ≤ n && n < (pow2 bits : Int)

/-- Fits in a number of bits without a sign. -/
def fitsUnsigned (bits : Nat) (n : Int) : Bool := 0 ≤ n && n < (pow2 bits : Int)

/-- Fits in 64 bits with a sign. -/
def isInt64 (n : Int) : Bool := fitsSigned 63 n

/-- The signed 64-bit number that a text writes. -/
def readInt64? (cs : List Char) : Option Int := (readInt? cs).filter isInt64

/-- The power of ten behind a decimal number: nothing, or `e` with a whole number. -/
def readPower? : List Char → Option Int
  | [] => some 0
  | c :: cs => if c = 'e' ∨ c = 'E' then readInt? cs else none

/-- The binary64 number nearest to what a decimal text writes; none for other texts and past the largest number. -/
def readBinary64? (cs : List Char) : Option Binary64 :=
  let (negative, cs) := splitSign cs
  let whole := cs.takeWhile Char.isDigit
  let (places, rest) := match cs.dropWhile Char.isDigit with
    | '.' :: r => (r.takeWhile Char.isDigit, r.dropWhile Char.isDigit)
    | r => ([], r)
  match readNat? 10 (whole ++ places), readPower? rest with
  | some digits, some power => Binary64.ofDecimal? negative digits (power - places.length)
  | _, _ => none

end FlowSuite.Decimal
