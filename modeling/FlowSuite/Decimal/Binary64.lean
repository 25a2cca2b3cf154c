/-!
# Finite binary64 numbers

A number of this kind is a sign and `mantissa * 2 ^ exponent`, with at most 53 bits of mantissa and the exponent
between -1074 and 971. It is reached from a quotient of whole numbers by rounding to the nearest one, a half going to
the even mantissa; past the largest there is none.

- rounding a quotient is off by at most half (`roundHalfEven_close`), and exact where the division is
  (`roundHalfEven_mul`).
-/

namespace FlowSuite

/-- A finite binary64 number. -/
structure Binary64 where
  negative : Bool
  mantissa : Nat
  exponent : Int
deriving DecidableEq, Repr, Inhabited

namespace Decimal

/-- A power of two. -/
def pow2 (n : Nat) : Nat := Nat.pow 2 n

/-- A power of ten. -/
def pow10 (n : Nat) : Nat := Nat.pow 10 n

/-- The quotient to the nearest whole number, a half going to the even neighbour. -/
def roundHalfEven (num den : Nat) : Nat :=
  if 2 * (num % den) < den then num / den
  else if den < 2 * (num % den) then num / den + 1
  else num / den + num / den % 2

theorem roundHalfEven_mul (q : Nat) {den : Nat} (h : 0 < den) : roundHalfEven (q * den) den = q := by
  simp [roundHalfEven, h]

theorem roundHalfEven_close (num : Nat) {den : Nat} (h : 0 < den) :
    2 * num ≤ 2 * (roundHalfEven num den * den) + den ∧ 2 * (roundHalfEven num den * den) ≤ 2 * num + den := by
  have hd : den * (num / den) + num % den = num := Nat.div_add_mod num den
  have hm : num % den < den := Nat.mod_lt num h
  have hc : num / den * den = den * (num / den) := Nat.mul_comm _ _
  have hs : (num / den + 1) * den = num / den * den + den := Nat.succ_mul _ _
  unfold roundHalfEven
  split
  · omega
  · split
    · omega
    · rcases Nat.mod_two_eq_zero_or_one (num / den) with h2 | h2
      · rw [h2, Nat.add_zero]; omega
      · rw [h2]; omega

end Decimal

namespace Binary64

open Decimal (pow2 pow10)

/-- Zero with a sign. -/
def zero (negative : Bool) : Binary64 := ⟨negative, 0, -1074⟩

/-- The quotient counted in units of `2 ^ exponent`, rounded. -/
def scaled (num den : Nat) (exponent : Int) : Nat :=
  if 0 ≤ exponent then Decimal.roundHalfEven num (den * pow2 exponent.toNat)
  else Decimal.roundHalfEven (num * pow2 (-exponent).toNat) den

/-- The least exponent of at least -1074 with which the quotient has fewer than 54 bits. -/
def exponentFor (num den : Nat) : Int :=
  let e : Int := num.log2 - den.log2 - 53
  let full : Bool := if 0 ≤ e + 53 then den * pow2 (e + 53).toNat ≤ num else den ≤ num * pow2 (-(e + 53)).toNat
  max (-1074) (if full then e + 1 else e)

/-- The number nearest to a quotient, or none where that is past the largest one. -/
def nearest? (negative : Bool) (num den : Nat) : Option Binary64 :=
  if num = 0 then some (zero negative)
  else
    let e := exponentFor num den
    let m := scaled num den e
    let (m, e) := if m = pow2 53 then (pow2 52, e + 1) else (m, e)
    if 971 < e then none else some ⟨negative, m, e⟩

/-- The number nearest to `digits * 10 ^ power`, or none where that is past the largest one. -/
def ofDecimal? (negative : Bool) (digits : Nat) (power : Int) : Option Binary64 :=
  let magnitude : Int := (Nat.toDigits 10 digits).length + power
  if digits = 0 ∨ magnitude < -400 then some (zero negative)
  else if 400 < magnitude then none
  else if 0 ≤ power then nearest? negative (digits * pow10 power.toNat) 1
  else nearest? negative digits (pow10 (-power).toNat)

/-- The number nearest to a whole number, or none where that is past the largest one. -/
def ofInt? (n : Int) : Option Binary64 := nearest? (n < 0) n.natAbs 1

end Binary64

end FlowSuite
