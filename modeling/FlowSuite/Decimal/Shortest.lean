import FlowSuite.Decimal.Binary64

/-!
# The shortest decimal text of a binary64 number

Of the decimals that round to a number, those with the fewest digits are candidates and the nearest of them is taken.
`Binary64.shortest` finds its digits; a `NumberStyle` says how they are laid out.
-/

namespace FlowSuite

/-- Which way a candidate goes that lies halfway between two others. -/
inductive Halfway where
  | up
  | toEven
deriving DecidableEq, Repr

/-- How the digits of a number are laid out. -/
structure NumberStyle where
  /-- Positional notation is used while the decimal point stands after more places than this. -/
  leastPoint : Option Int
  /-- Positional notation is used while the decimal point stands after at most this many places. -/
  greatestPoint : Option Int
  /-- A whole number ends in `.0`. -/
  showsFraction : Bool
  halfway : Halfway

/-- The script language and messages: always positional, no empty fraction. -/
def NumberStyle.plain : NumberStyle := ⟨none, none, false, .up⟩

/-- Printed data: a fraction is always shown, and very large and very small numbers have an exponent. -/
def NumberStyle.data : NumberStyle := ⟨some (-5), some 16, true, .toEven⟩

namespace Binary64

open Decimal (pow2 pow10)

/-- A quotient of whole numbers equal to `n * 2 ^ power`. -/
def quotient (n : Nat) (power : Int) : Nat × Nat :=
  if 0 ≤ power then (n * pow2 power.toNat, 1) else (n, pow2 (-power).toNat)

/-- The number of decimal places before the point: the quotient is below `10 ^ k` and not below `10 ^ (k - 1)`. -/
def pointOf (num den : Nat) : Int :=
  if den ≤ num then (Nat.toDigits 10 (num / den)).length
  else
    let places := (Nat.toDigits 10 (den / num)).length
    if den ≤ num * pow10 (places - 1) then 2 - places else 1 - places

/-- Candidate digits in units of `10 ^ power`, if a decimal of that grid lies in the range that rounds to the number. -/
def onGrid (x : Binary64) (halfway : Halfway) (power : Int) : Option Nat :=
  let step : Nat := if x.mantissa = pow2 52 ∧ -1074 < x.exponent then 1 else 2
  -- everything is counted in quarters of the last place of the mantissa
  let (low, high, value) := (4 * x.mantissa - step, 4 * x.mantissa + 2, 4 * x.mantissa)
  let (scale, unit) := quotient 1 (x.exponent - 2)
  let (scale, unit) :=
    if 0 ≤ power then (scale, unit * pow10 power.toNat) else (scale * pow10 (-power).toNat, unit)
  let closed := x.mantissa % 2 = 0
  let inside (d : Nat) : Bool :=
    if closed then low * scale ≤ d * unit && d * unit ≤ high * scale
    else low * scale < d * unit && d * unit < high * scale
  let below := value * scale / unit
  let rest := 2 * (value * scale % unit)
  match inside below, inside (below + 1) with
  | true, false => some below
  | false, true => some (below + 1)
  | false, false => none
  | true, true =>
    if rest < unit then some below
    else if unit < rest then some (below + 1)
    else match halfway with
      | .up => some (below + 1)
      | .toEven => some (below + below % 2)

/-- The first grid, from one digit on, that has a candidate: its digits and its power of ten. -/
def firstGrid (x : Binary64) (halfway : Halfway) (point : Int) : List Nat → Nat × Int
  | [] => (0, 0)
  | n :: more =>
    match onGrid x halfway (point - n) with
    | some d => (d, point - n)
    | none => firstGrid x halfway point more

/-- Digits without the zeros at their end. -/
def dropZeros (digits : List Char) : List Char := (digits.reverse.dropWhile (· = '0')).reverse

/-- The digits of the shortest decimal, none of them zero at the end, and how many stand before the point. -/
def shortest (x : Binary64) (halfway : Halfway) : List Char × Int :=
  if x.mantissa = 0 then (['0'], 1)
  else
    let (num, den) := quotient x.mantissa x.exponent
    let (d, power) := firstGrid x halfway (pointOf num den) (List.range' 1 17)
    let digits := Nat.toDigits 10 d
    (dropZeros digits, power + digits.length)

/-- Digits with the point after a number of places, filled up with zeros. -/
def positional (digits : List Char) (point : Int) (showsFraction : Bool) : List Char :=
  if point ≤ 0 then ['0', '.'] ++ List.replicate (-point).toNat '0' ++ digits
  else if (digits.length : Int) ≤ point then
    digits ++ List.replicate (point - digits.length).toNat '0' ++ if showsFraction then ['.', '0'] else []
  else digits.take point.toNat ++ '.' :: digits.drop point.toNat

/-- Digits with the point after the first of them, and a power of ten. -/
def scientific (digits : List Char) (point : Int) : List Char :=
  let places := match digits with
    | d :: [] => [d]
    | d :: more => d :: '.' :: more
    | [] => []
  places ++ 'e' :: (toString (point - 1)).toList

/-- The text of a number in a style. -/
def text (x : Binary64) (style : NumberStyle) : List Char :=
  let (digits, point) := shortest x style.halfway
  let isPositional := style.leastPoint.all (· < point) && style.greatestPoint.all (point ≤ ·)
  (if x.negative then ['-'] else []) ++
    if isPositional then positional digits point style.showsFraction else scientific digits point

end Binary64

end FlowSuite
