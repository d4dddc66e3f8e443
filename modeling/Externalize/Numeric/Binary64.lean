/-
Binary floating-point numbers of 64 bits, in exact arithmetic.

A finite number is a whole number of units of a power of two. Each operation takes the exact result,
a quotient of natural numbers, to the nearest number, and of two equally near to the one with the
even significand.

* `Magnitude.round?`: the rounding; none if the result is too large.
* `Magnitude.mul?`, `Magnitude.div?`: product and quotient.
* `Magnitude.ofDecimal?`: a significand times a power of ten, by one multiplication or division with
  a rounded power of ten, so that the result need not be the nearest number.
-/
namespace Externalize

/-- A finite number without its sign: `significand * 2 ^ exponent`. -/
structure Magnitude where
  significand : Nat
  exponent : Int
deriving DecidableEq

namespace Magnitude

/-- The exponent of the smallest unit. -/
def minExponent : Int := -1074

/-- The exponent of the largest unit. -/
def maxExponent : Int := 971

/-- The least significand that has 53 bits. -/
def leastNormal : Nat := 0x10000000000000

/-- Zero. -/
def zero : Magnitude := ⟨0, minExponent⟩

/-- A quotient rounded to the nearest natural number, a half to the even one. -/
def roundQuotient (num den : Nat) : Nat :=
  let q := num / den
  let twice := 2 * (num % den)
  if twice < den ∨ (twice = den ∧ q % 2 = 0) then q else q + 1

/-- The quotient in units of `2 ^ e`, as numerator and denominator. -/
def inUnits (num den : Nat) (e : Int) : Nat × Nat :=
  if e < 0 then (num * Nat.pow 2 (-e).toNat, den) else (num, den * Nat.pow 2 e.toNat)

/-- The exponent of the unit in which a positive quotient has 53 bits, but at least the smallest. -/
def unitExponent (num den : Nat) : Int :=
  let estimate : Int := (num.log2 : Int) - den.log2 - 53
  let (n, d) := inUnits num den estimate
  max (if n / d < 2 * leastNormal then estimate else estimate + 1) minExponent

/-- The number nearest to a quotient; none if there is no unit large enough. -/
def round? (num den : Nat) : Option Magnitude :=
  if num = 0 then some zero
  else
    let e := unitExponent num den
    let (n, d) := inUnits num den e
    let m := roundQuotient n d
    let r : Magnitude := if m = 2 * leastNormal then ⟨leastNormal, e + 1⟩ else ⟨m, e⟩
    if maxExponent < r.exponent then none else some r

/-- The product. -/
def mul? (a b : Magnitude) : Option Magnitude :=
  let (n, d) := inUnits (a.significand * b.significand) 1 (-(a.exponent + b.exponent))
  round? n d

/-- The quotient by a positive number. -/
def div? (a b : Magnitude) : Option Magnitude :=
  let (n, d) := inUnits a.significand b.significand (b.exponent - a.exponent)
  round? n d

/-- The natural number. -/
def ofNat? (n : Nat) : Option Magnitude := round? n 1

/-- Divides by powers of ten: by the largest one, `10 ^ 308`, until the rest of the exponent is
smaller or nothing is left, `steps` bounding the number of divisions. -/
def divPowerOfTen? : (steps : Nat) → Magnitude → Nat → Option Magnitude
  | 0, _, _ => some zero
  | steps + 1, m, k =>
    if k ≤ 308 then (ofNat? (Nat.pow 10 k)).bind m.div?
    else if m.significand = 0 then some zero
    else ((ofNat? (Nat.pow 10 308)).bind m.div?).bind fun q => divPowerOfTen? steps q (k - 308)

/-- The significand, below `2 ^ 64`, times a power of ten; none if that is too large. Three
divisions by `10 ^ 308` take every such significand to zero. -/
def ofDecimal? (significand : Nat) (exponent : Int) : Option Magnitude :=
  (ofNat? significand).bind fun m =>
    if 0 ≤ exponent then
      if significand = 0 then some zero
      else if 308 < exponent then none
      else (ofNat? (Nat.pow 10 exponent.toNat)).bind m.mul?
    else divPowerOfTen? 4 m (-exponent).toNat

end Magnitude

/-- A finite number of 64 bits. -/
structure Binary64 where
  negative : Bool
  magnitude : Magnitude
deriving DecidableEq

end Externalize
