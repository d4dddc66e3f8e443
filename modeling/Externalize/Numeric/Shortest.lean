import Externalize.Numeric.Binary64
import Externalize.Text.Basic

/-
The decimal text of a number.

The digits are the fewest that read back to the number, and of those the nearest to it. Exponents
from -5 to 15 are written with a point, others with an `e` and a sign.

* `Decimal.shortest`: the digits.
* `Binary64.text`: the text.
-/
namespace Externalize

/-- A decimal number: `digits * 10 ^ exponent`. -/
structure Decimal where
  digits : Nat
  exponent : Int
deriving DecidableEq

/-- A positive quotient with the two ends of the quotients that round to the same number, all with
one denominator, and whether these ends round to it as well. -/
structure RoundingInterval where
  low : Nat
  value : Nat
  high : Nat
  denominator : Nat
  closed : Bool

namespace RoundingInterval

/-- The interval of a positive number: half a unit to either side, but a quarter below where the
units change. -/
def of (m : Magnitude) : RoundingInterval :=
  let isFirst := m.significand = Magnitude.leastNormal ∧ m.exponent ≠ Magnitude.minExponent
  let below := if isFirst then 1 else 2
  let (n, d) := Magnitude.inUnits 1 1 (-(m.exponent - 2))
  { low := (4 * m.significand - below) * n
    value := 4 * m.significand * n
    high := (4 * m.significand + 2) * n
    denominator := d
    closed := m.significand % 2 = 0 }

/-- Numerator and denominator of a decimal number. -/
def quotient (d : Decimal) : Nat × Nat :=
  if d.exponent < 0 then (d.digits, Nat.pow 10 (-d.exponent).toNat)
  else (d.digits * Nat.pow 10 d.exponent.toNat, 1)

/-- Whether a decimal number rounds to the number of the interval. -/
def holds (i : RoundingInterval) (d : Decimal) : Bool :=
  let (n, e) := quotient d
  let x := n * i.denominator
  if i.closed then i.low * e ≤ x && x ≤ i.high * e else i.low * e < x && x < i.high * e

/-- Twice the distance of a decimal number from the value, on a scale that depends on the exponent
alone. -/
def distance (i : RoundingInterval) (d : Decimal) : Nat :=
  let (n, e) := quotient d
  let x := n * i.denominator
  let v := i.value * e
  (x - v) + (v - x)

/-- The number of zeros between the point and the first digit of a quotient below one, `steps`
bounding the search. -/
def leadingZeros : (steps : Nat) → (num den : Nat) → Nat
  | 0, _, _ => 0
  | steps + 1, num, den => if den ≤ num * 10 then 0 else leadingZeros steps (num * 10) den + 1

/-- The exponent of the first digit of the value. -/
def firstDigit (i : RoundingInterval) : Int :=
  if i.denominator ≤ i.value then ((Nat.toDigits 10 (i.value / i.denominator)).length : Int) - 1
  else -(leadingZeros 400 i.value i.denominator : Int) - 1

/-- The two neighbours of the value with a given exponent. -/
def neighbours (i : RoundingInterval) (exponent : Int) : Decimal × Decimal :=
  let q :=
    if exponent < 0 then i.value * Nat.pow 10 (-exponent).toNat / i.denominator
    else i.value / (i.denominator * Nat.pow 10 exponent.toNat)
  (⟨q, exponent⟩, ⟨q + 1, exponent⟩)

/-- Of the two neighbours with a given exponent the nearer one that rounds back, the even one if
both are equally near. -/
def best? (i : RoundingInterval) (exponent : Int) : Option Decimal :=
  let (a, b) := i.neighbours exponent
  match i.holds a, i.holds b with
  | false, false => none
  | true, false => some a
  | false, true => some b
  | true, true =>
    let (x, y) := (i.distance a, i.distance b)
    some (if x < y ∨ (x = y ∧ a.digits % 2 = 0) then a else b)

end RoundingInterval

/-- The shortest decimal number that rounds to a positive number: the first hit with one digit, two,
and so on. Seventeen always suffice. -/
def Decimal.shortest (m : Magnitude) : Decimal :=
  let i := RoundingInterval.of m
  let first := i.firstDigit
  ((List.range 17).findSome? fun k : Nat => i.best? (first - k)).getD ⟨0, 0⟩

namespace Binary64

/-- Digits that say nothing are left away at the end; the second number counts them. -/
def trimZeros : (steps : Nat) → Nat → Nat × Nat
  | 0, n => (n, 0)
  | steps + 1, n =>
    if n ≠ 0 ∧ n % 10 = 0 then
      let (m, k) := trimZeros steps (n / 10)
      (m, k + 1)
    else (n, 0)

/-- Digits and exponent as a text. -/
def decimalText (d : Decimal) : Text :=
  let (n, k) := trimZeros 18 d.digits
  let digits := Nat.toDigits 10 n
  let last : Int := d.exponent + k
  let first : Int := last + digits.length - 1
  if first < -5 ∨ 15 < first then
    let fraction := if digits.length = 1 then [] else '.' :: digits.drop 1
    let sign := if first < 0 then '-' else '+'
    digits.take 1 ++ fraction ++ 'e' :: sign :: Nat.toDigits 10 first.natAbs
  else if first < 0 then '0' :: '.' :: List.replicate (first.natAbs - 1) '0' ++ digits
  else if 0 ≤ last then digits ++ List.replicate last.toNat '0' ++ ['.', '0']
  else digits.take (first.toNat + 1) ++ '.' :: digits.drop (first.toNat + 1)

/-- The text of a number. Zero keeps its sign. -/
def text (x : Binary64) : Text :=
  let sign := if x.negative then ['-'] else []
  let digits :=
    if x.magnitude.significand = 0 then ['0', '.', '0']
    else decimalText (Decimal.shortest x.magnitude)
  sign ++ digits

end Binary64

end Externalize
