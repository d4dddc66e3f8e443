import Externalize.Proofs.Numeric.Shortest

/-
Decimal numbers that come back.

* `Magnitude.RoundsTo`: a quotient and the number nearest to it, with the unit in which it was
  found; `Magnitude.roundsTo_of_round?` says that this is what is rounded to.
* `Magnitude.value_of_round?`: a number that needs no rounding is kept.
* `Magnitude.ofDecimal?_eq_round?`: a decimal number that is made with one rounding.
* `RoundingInterval.holds_of_roundsTo`: the interval of a number holds what rounds to it.
* `Decimal.value_shortest_of_roundsTo`: a decimal number of fifteen digits is found again from the
  number that it rounds to.
* `Decimal.value_shortest_of_ofDecimal?`: so it is from the number that is made of it, if the power
  of ten is at most the twenty-second.
-/
namespace Externalize

namespace Magnitude

variable {num den : Nat} {r x : Magnitude}

/-! ### The nearest number -/

/-- A rounded quotient is at most a half off, and even if it is that far off. -/
lemma roundQuotient_spec (num : Nat) (hden : 0 < den) :
    |(num / den : ℚ) - roundQuotient num den| ≤ 1 / 2 ∧
      (|(num / den : ℚ) - roundQuotient num den| = 1 / 2 → roundQuotient num den % 2 = 0) := by
  have hpos : (0 : ℚ) < den := by exact_mod_cast hden
  have hmod : num % den < den := Nat.mod_lt num hden
  have hquotient : (num / den : ℚ) = (num / den : ℕ) + (num % den : ℕ) / den := by
    rw [eq_comm, ← mul_right_inj' hpos.ne', mul_add, mul_div_cancel₀ _ hpos.ne',
      mul_div_cancel₀ _ hpos.ne']
    exact_mod_cast Nat.div_add_mod num den
  have hrest : (0 : ℚ) ≤ (num % den : ℕ) / den := by positivity
  rw [hquotient, roundQuotient]
  split_ifs with hhalf
  · rw [add_sub_cancel_left, abs_of_nonneg hrest, div_le_iff₀ hpos, div_eq_iff hpos.ne']
    refine ⟨?_, fun heq => ?_⟩
    · have : 2 * (num % den) ≤ den := hhalf.elim le_of_lt fun h => h.1.le
      have : (2 * (num % den : ℕ) : ℚ) ≤ den := by exact_mod_cast this
      linarith
    · have : (2 * (num % den : ℕ) : ℚ) = den := by linarith
      exact (hhalf.resolve_left (ne_of_lt · (by exact_mod_cast this))).2
  · have hlarge : den ≤ 2 * (num % den) := not_lt.mp fun h => hhalf (.inl h)
    have hlarge' : (den : ℚ) ≤ 2 * (num % den : ℕ) := by exact_mod_cast hlarge
    have hless : ((num % den : ℕ) / den : ℚ) ≤ 1 := by
      rw [div_le_one hpos]
      exact_mod_cast hmod.le
    have habs : |(((num / den : ℕ) : ℚ) + (num % den : ℕ) / den) - (num / den + 1 : ℕ)| =
        1 - (num % den : ℕ) / den := by
      rw [abs_sub_comm, Nat.cast_add_one, add_sub_add_left_eq_sub, abs_of_nonneg (by linarith)]
    rw [habs]
    refine ⟨?_, fun heq => ?_⟩
    · rw [sub_le_comm, le_div_iff₀ hpos]
      linarith
    · rw [sub_eq_iff_eq_add, ← sub_eq_iff_eq_add', eq_div_iff hpos.ne'] at heq
      have htwice : 2 * (num % den) = den := by
        have : (2 * (num % den : ℕ) : ℚ) = den := by linarith
        exact_mod_cast this
      have hodd : ¬ num / den % 2 = 0 := fun h => hhalf (.inr ⟨htwice, h⟩)
      omega

/-- Whole numbers of one unit that are less than a unit apart are the same. -/
lemma eq_of_near {u : ℚ} (hu : 0 < u) {a b : Nat} (h : |(a * u : ℚ) - b * u| < u) : a = b := by
  rw [← sub_mul, abs_mul, abs_of_pos hu, mul_lt_iff_lt_one_left hu] at h
  have hless : |(a : ℤ) - b| < 1 := by exact_mod_cast h
  have := Int.abs_lt_one_iff.mp hless
  omega

/-- A quotient, and a number that is so many units of the size that the quotient has, at most half
a unit off, and an even number of them if it is that far off. -/
structure RoundsTo (q : ℚ) (e : Int) (k : Nat) (r : Magnitude) : Prop where
  least : minExponent ≤ e
  above : q < 2 ^ 53 * 2 ^ e
  below : minExponent < e → 2 ^ 52 * 2 ^ e ≤ q
  near : |q - k * 2 ^ e| ≤ 2 ^ e / 2
  even : |q - k * 2 ^ e| = 2 ^ e / 2 → k % 2 = 0
  result : r = ⟨k, e⟩ ∨ k = 2 * leastNormal ∧ r = ⟨leastNormal, e + 1⟩

/-- **A rounded number is nearest to the quotient.** -/
theorem roundsTo_of_round? (hnum : num ≠ 0) (hden : den ≠ 0) (h : round? num den = some r) :
    ∃ e k, RoundsTo (num / den) e k r := by
  obtain ⟨hmin, habove, hbelow⟩ := unitExponent_spec hnum hden
  have hpos : 0 < (inUnits num den (unitExponent num den)).2 :=
    inUnits_pos (Nat.pos_of_ne_zero hden)
  obtain ⟨hnear, heven⟩ := roundQuotient_spec (inUnits num den (unitExponent num den)).1 hpos
  rw [div_inUnits] at hnear heven
  rw [round?, if_neg hnum] at h
  simp only at h
  generalize roundQuotient _ _ = k at *
  generalize unitExponent num den = e at *
  have hunit : (0 : ℚ) < 2 ^ e := zpow_pos two_pos e
  have hscale : |(num / den : ℚ) - k * 2 ^ e| = |num / den / 2 ^ e - (k : ℚ)| * 2 ^ e := by
    rw [← abs_of_pos hunit, ← abs_mul, abs_of_pos hunit, sub_mul, div_mul_cancel₀ _ hunit.ne']
  refine ⟨e, k, hmin, habove, hbelow, ?_, fun htie => heven ?_, ?_⟩
  · rw [hscale]
    nlinarith
  · rw [hscale, ← eq_div_iff hunit.ne'] at htie
    rw [htie, div_right_comm, div_self hunit.ne']
  · split_ifs at h with hcarry
    · cases h
      exact .inr ⟨hcarry, rfl⟩
    · cases h
      exact .inl rfl

namespace RoundsTo

variable {q : ℚ} {e : Int} {k : Nat} (h : RoundsTo q e k r)
include h

lemma value_eq : r.value = k * 2 ^ e := by
  rcases h.result with rfl | ⟨rfl, rfl⟩
  · rfl
  · exact value_carry e

lemma exponent_le : r.exponent ≤ e + 1 := by
  rcases h.result with rfl | ⟨-, rfl⟩
  · exact (lt_add_one e).le
  · exact le_rfl

/-- A quotient that is a whole number of units is the number that it rounds to. -/
lemma value_eq_of_units {n : Nat} (hn : q = n * 2 ^ e) : r.value = q := by
  have hunit : (0 : ℚ) < 2 ^ e := zpow_pos two_pos e
  have hnear := h.near
  rw [hn] at hnear
  rw [h.value_eq, hn, eq_of_near hunit (hnear.trans_lt (half_lt_self hunit))]

end RoundsTo

/-- A number that needs no rounding is kept. -/
theorem value_of_round? (hden : den ≠ 0) (h : round? num den = some r) (hx : x.IsValid)
    (hvalue : (num / den : ℚ) = x.value) : r.value = x.value := by
  rw [← hvalue]
  by_cases hnum : num = 0
  · rw [round?, if_pos hnum] at h
    cases h
    simp [hnum, value, zero]
  · obtain ⟨e, k, hr⟩ := roundsTo_of_round? hnum hden h
    rcases le_or_gt e x.exponent with hunit | hunit
    · exact hr.value_eq_of_units (hvalue.trans (x.value_eq_of_le hunit))
    · -- a number of so many bits is too small to be rounded to a larger unit
      have hleast := hr.below (lt_of_le_of_lt hx.least hunit)
      have hsmall : x.value < 2 ^ 53 * 2 ^ x.exponent := by
        have hbits : (x.significand : ℚ) < 2 ^ 53 := by
          rw [← cast_two_mul_leastNormal]
          exact_mod_cast hx.significand
        exact mul_lt_mul_of_pos_right hbits (zpow_pos two_pos _)
      rw [hvalue] at hleast
      exact absurd (hsmall.trans_le (pow_mul_le_of_lt hunit)) (not_lt.mpr hleast)

/-! ### Decimal numbers that are made with one rounding -/

lemma value_of_ofNat? {n : Nat} (hn : n < 2 * leastNormal) (h : ofNat? n = some r) :
    r.value = n := by
  have hx : (⟨n, 0⟩ : Magnitude).IsValid :=
    ⟨hn, (by decide : minExponent ≤ 0), (by decide : 0 ≤ maxExponent)⟩
  have hvalue : (⟨n, 0⟩ : Magnitude).value = n := by rw [value, zpow_zero, mul_one]
  rw [← hvalue]
  exact value_of_round? one_ne_zero h hx (by rw [hvalue, Nat.cast_one, div_one])

/-- A power of ten has few bits besides those of its power of two. -/
lemma value_of_ofNat?_pow {k : Nat} (hk : k ≤ 22) (h : ofNat? (Nat.pow 10 k) = some r) :
    r.value = 10 ^ k := by
  have hfive : 5 ^ k < 2 * leastNormal :=
    (Nat.pow_le_pow_right (by decide) hk).trans_lt (by decide : 5 ^ 22 < 2 * leastNormal)
  have hx : (⟨5 ^ k, k⟩ : Magnitude).IsValid :=
    ⟨hfive, by simp only [minExponent]; omega, by simp only [maxExponent]; omega⟩
  have hvalue : (⟨5 ^ k, k⟩ : Magnitude).value = 10 ^ k := by
    rw [value, zpow_natCast, Nat.cast_pow, ← mul_pow]
    norm_num
  rw [← hvalue]
  exact value_of_round? one_ne_zero h hx (by rw [hvalue, Nat.pow_eq]; push_cast; rw [div_one])

/-- With so few bits and so small a power of ten, both exact, a decimal number is rounded once. -/
theorem ofDecimal?_eq_round? {n : Nat} {e : Int} (hn : n < 2 * leastNormal) (he : e.natAbs ≤ 22) :
    ∃ num den : Nat, den ≠ 0 ∧ (num / den : ℚ) = n * 10 ^ e ∧ ofDecimal? n e = round? num den := by
  obtain ⟨m, hm⟩ := exists_ofNat? (hn.trans (by decide))
  have hvalue := value_of_ofNat? hn hm
  obtain ⟨p, hp, hone, -⟩ := exists_powerOfTen (k := e.natAbs) (by omega)
  have hpower := value_of_ofNat?_pow he hp
  rw [ofDecimal?, hm, Option.bind_some]
  split_ifs with hnonneg hzero hlarge
  · exact ⟨0, 1, one_ne_zero, by simp [hzero], by rw [round?, if_pos rfl]⟩
  · omega
  · have habs : e.toNat = e.natAbs := by omega
    rw [habs, hp, Option.bind_some]
    refine ⟨(inUnits (m.significand * p.significand) 1 (-(m.exponent + p.exponent))).1, _,
      (inUnits_pos Nat.one_pos).ne', ?_, rfl⟩
    rw [div_inUnits_mul, hvalue, hpower, ← zpow_natCast, Int.natAbs_of_nonneg hnonneg]
  · have habs : (-e).toNat = e.natAbs := by omega
    rw [habs, divPowerOfTen?]
    generalize hlast : 308 = last
    rw [if_pos (by omega), hp, Option.bind_some]
    refine ⟨(inUnits m.significand p.significand (p.exponent - m.exponent)).1, _,
      (inUnits_pos (significand_pos_of_one_le hone)).ne', ?_, rfl⟩
    rw [div_inUnits_div, hvalue, hpower, ← zpow_natCast, div_eq_mul_inv, ← zpow_neg,
      show -(e.natAbs : ℤ) = e by omega]

end Magnitude

namespace RoundingInterval

open Magnitude

variable {q : ℚ} {e : Int} {k : Nat} {r : Magnitude} {d : Decimal} {i : RoundingInterval}

/-! ### What rounds to a number -/

/-- **The interval of a number holds what rounds to it.** -/
theorem holds_of_roundsTo (h : RoundsTo q e k r) (hpos : 0 < r.significand) (hd : d.value = q) :
    (of r).holds d = true := by
  have hunit : (0 : ℚ) < 2 ^ e := zpow_pos two_pos e
  obtain ⟨hlow, hhigh⟩ := abs_le.mp h.near
  obtain ⟨hden, -, -, hends⟩ := of_spec hpos
  have hclosed : (of r).closed = decide (r.significand % 2 = 0) := rfl
  have hfirst : leastNormal % 2 = 0 := by decide
  rw [holds_iff hden, hends.1, hends.2, hclosed, hd]
  rcases h.result with rfl | ⟨rfl, rfl⟩ <;> simp only [decide_eq_true_eq]
  · by_cases hleast : k = leastNormal ∧ e ≠ minExponent
    · obtain ⟨rfl, hleast⟩ := hleast
      have hbelow := h.below (lt_of_le_of_ne h.least hleast.symm)
      have hbits : (2 : ℚ) ^ 52 = leastNormal := by norm_num [leastNormal]
      rw [hbits] at hbelow
      rw [if_pos hfirst, if_pos ⟨rfl, hleast⟩]
      constructor <;> linarith
    · rw [if_neg hleast]
      split_ifs with heven
      · constructor <;> linarith
      · obtain ⟨hlow', hhigh'⟩ := abs_lt.mp (lt_of_le_of_ne h.near fun heq => heven (h.even heq))
        constructor <;> linarith
  · -- below the first number of a unit, the numbers lie twice as close
    have hleast : e + 1 ≠ minExponent := by
      have := h.least
      omega
    push_cast at hlow hhigh
    rw [if_pos hfirst, if_pos ⟨trivial, hleast⟩, zpow_add_one₀ two_ne_zero]
    constructor <;> linarith

/-! ### The search for the digits -/

lemma le_mul_pow_leadingZeros (steps : Nat) {num den : Nat} (h : den ≤ num * 10 ^ steps) :
    den ≤ num * 10 ^ (leadingZeros steps num den + 1) := by
  induction steps generalizing num with
  | zero => exact h.trans (Nat.mul_le_mul_left num (Nat.pow_le_pow_right (by decide) (by omega)))
  | succ steps ih =>
      rw [leadingZeros]
      split_ifs with hten
      · simpa using hten
      · have hnext : den ≤ num * 10 * 10 ^ (leadingZeros steps (num * 10) den + 1) :=
          ih (by rwa [mul_assoc, ← Nat.pow_succ'])
        rwa [mul_assoc, ← Nat.pow_succ'] at hnext

/-- The value is no smaller than the power of ten of its first digit. -/
lemma pow_firstDigit_le (hden : 0 < i.denominator)
    (hvalue : (1 / 10 ^ 400 : ℚ) ≤ i.value / i.denominator) :
    (10 : ℚ) ^ i.firstDigit ≤ i.value / i.denominator := by
  have hden' : (0 : ℚ) < i.denominator := by exact_mod_cast hden
  rw [firstDigit, le_div_iff₀ hden']
  split_ifs with hle
  · have hone : 0 < i.value / i.denominator := Nat.div_pos hle hden
    have hlength := (pow_length_toDigits (i.value / i.denominator)).2 hone.ne'
    have hpos : 0 < (Nat.toDigits 10 (i.value / i.denominator)).length := Nat.length_toDigits_pos
    rw [← Nat.cast_pred hpos, zpow_natCast]
    exact_mod_cast (Nat.le_div_iff_mul_le hden).mp hlength
  · rw [div_le_div_iff₀ (by positivity) hden', one_mul] at hvalue
    have hreach := le_mul_pow_leadingZeros 400 (by exact_mod_cast hvalue)
    rw [← neg_add', zpow_neg, ← div_eq_inv_mul, div_le_iff₀ (by positivity)]
    exact_mod_cast hreach

/-- A decimal number that is held and lies next to the value is found, or another one with the same
exponent. -/
lemma best?_ne_none (h : i.holds d = true)
    (hd : d = (i.neighbours e).1 ∨ d = (i.neighbours e).2) : i.best? e ≠ none := by
  rw [best?]
  rcases hn : i.neighbours e with ⟨a, b⟩
  rw [hn] at hd
  simp only at hd ⊢
  rcases hd with rfl | rfl <;> rw [h]
  · cases i.holds b <;> simp
  · cases i.holds a <;> simp

/-- A decimal number less than one unit of its last digit from the value is next to it. -/
lemma eq_neighbour (hden : 0 < i.denominator) {s : Nat}
    (hnear : |(i.value / i.denominator : ℚ) - s * 10 ^ e| < 10 ^ e) :
    (⟨s, e⟩ : Decimal) = (i.neighbours e).1 ∨ (⟨s, e⟩ : Decimal) = (i.neighbours e).2 := by
  have hunit : (0 : ℚ) < 10 ^ e := zpow_pos (by norm_num) e
  obtain ⟨q, hneighbours, hlow, hhigh⟩ := neighbours_spec hden e
  obtain ⟨hleft, hright⟩ := abs_lt.mp hnear
  have hq : (q : ℚ) < s + 1 := lt_of_mul_lt_mul_right (by linarith) hunit.le
  have hs : (s : ℚ) < q + 2 := lt_of_mul_lt_mul_right (by linarith) hunit.le
  have hq' : q < s + 1 := by exact_mod_cast hq
  have hs' : s < q + 2 := by exact_mod_cast hs
  rw [hneighbours]
  rcases (by omega : s = q ∨ s = q + 1) with rfl | rfl
  · exact .inl rfl
  · exact .inr rfl

end RoundingInterval

namespace Decimal

open Magnitude RoundingInterval

variable {q : ℚ} {e j : Int} {k s : Nat} {m r : Magnitude} {d : Decimal}

/-! ### Fifteen digits -/

/-- The units of a quotient of fifteen digits are small against its last digit. -/
lemma unit_lt_of_roundsTo (h : RoundsTo q e k r) (hq : q = s * 10 ^ j) (hs : s < 10 ^ 15)
    (hj : -300 ≤ j) : 4 * (2 : ℚ) ^ e < 10 ^ j := by
  have hten : (0 : ℚ) < 10 ^ j := zpow_pos (by norm_num) j
  rcases h.least.lt_or_eq with hlt | rfl
  · have hbelow := h.below hlt
    have hs' : (s : ℚ) < 10 ^ 15 := by exact_mod_cast hs
    rw [hq] at hbelow
    have hless : (s : ℚ) * 10 ^ j < 10 ^ 15 * 10 ^ j := mul_lt_mul_of_pos_right hs' hten
    linarith
  · have hpow : (4 * 10 ^ 300 : ℚ) < 2 ^ 1074 := by
      exact_mod_cast (by decide +kernel : 4 * 10 ^ 300 < 2 ^ 1074)
    have hleast : (4 : ℚ) * 2 ^ minExponent < 10 ^ (-300 : ℤ) := by
      rw [show minExponent = -((1074 : ℕ) : ℤ) from rfl,
        show (-300 : ℤ) = -((300 : ℕ) : ℤ) from rfl, zpow_neg, zpow_neg, zpow_natCast,
        zpow_natCast, ← div_eq_mul_inv, div_lt_iff₀ (by positivity), inv_mul_eq_div,
        lt_div_iff₀ (by positivity)]
      exact hpow
    exact hleast.trans_le (zpow_le_zpow_right₀ (by norm_num) hj)

/-- The number that a quotient rounds to is near it, and so is what the interval of the number
holds. -/
lemma near_of_holds (h : RoundsTo q e k r) (hpos : 0 < r.significand)
    (hd : (of r).holds d = true) : |d.value - q| ≤ 2 ^ e + 2 ^ e / 2 := by
  obtain ⟨hden, -, -, hhigh, hlow⟩ := of_spec hpos
  obtain ⟨hleft, hright⟩ := between_of_holds hden hd
  obtain ⟨hleft', hright'⟩ := abs_le.mp h.near
  have hunit : (0 : ℚ) < 2 ^ r.exponent := zpow_pos two_pos _
  have hunit' : (2 : ℚ) ^ r.exponent ≤ 2 * 2 ^ e := by
    rw [mul_comm, ← zpow_add_one₀ two_ne_zero]
    exact zpow_le_zpow_right₀ one_le_two h.exponent_le
  have hvalue := h.value_eq
  rw [Magnitude.value] at hvalue
  rw [hhigh] at hright
  rw [hlow] at hleft
  rw [abs_le]
  constructor
  · split_ifs at hleft <;> linarith
  · linarith

/-- The number that a quotient of fifteen digits rounds to has its first digit at most one place
off. -/
lemma firstDigit_between (h : RoundsTo q e k r) (hpos : 0 < r.significand) (hq : q = s * 10 ^ j)
    (hlow : 10 ^ 14 ≤ s) (hs : s < 10 ^ 15) (hj : -300 ≤ j) :
    j + 13 ≤ (of r).firstDigit ∧ (of r).firstDigit ≤ j + 14 := by
  have hten : (0 : ℚ) < 10 ^ j := zpow_pos (by norm_num) j
  have hunit := unit_lt_of_roundsTo h hq hs hj
  obtain ⟨hleft, hright⟩ := abs_le.mp h.near
  obtain ⟨hden, -, hvalue, -⟩ := of_spec hpos
  have hshift : ∀ n : Nat, (10 : ℚ) ^ (j + n) = 10 ^ n * 10 ^ j := fun n => by
    rw [zpow_add₀ (by norm_num), zpow_natCast, mul_comm]
  have hlow' : ((10 ^ 14 : ℕ) : ℚ) ≤ s := by exact_mod_cast hlow
  have hs' : (s : ℚ) + 1 ≤ (10 ^ 15 : ℕ) := by exact_mod_cast hs
  push_cast at hlow' hs'
  have habove : (10 : ℚ) ^ (j + (13 : ℕ)) < r.value := by
    rw [hshift, h.value_eq]
    nlinarith
  have hbelow : r.value < (10 : ℚ) ^ (j + (15 : ℕ)) := by
    rw [hshift, h.value_eq]
    nlinarith
  have hfar : (1 / 10 ^ 400 : ℚ) ≤ r.value := by
    refine le_trans ?_ habove.le
    rw [one_div, ← zpow_natCast, ← zpow_neg]
    exact zpow_le_zpow_right₀ (by norm_num) (by push_cast; omega)
  rw [← hvalue] at habove hbelow hfar
  have hfirst := (zpow_lt_zpow_iff_right₀ (by norm_num)).mp (habove.trans (firstDigit_spec hden).1)
  have hfirst' := (zpow_lt_zpow_iff_right₀ (by norm_num)).mp
    ((pow_firstDigit_le hden hfar).trans_lt hbelow)
  push_cast at hfirst hfirst'
  omega

/-- A number that is at least so large is no zero. -/
lemma significand_pos_of_roundsTo (h : RoundsTo q e k r) (hq : q = s * 10 ^ j) (hpos : 0 < s)
    (hs : s < 10 ^ 15) (hj : -300 ≤ j) : 0 < r.significand := by
  refine Nat.pos_of_ne_zero fun hzero => ?_
  have hten : (0 : ℚ) < 10 ^ j := zpow_pos (by norm_num) j
  have hunit := unit_lt_of_roundsTo h hq hs hj
  have hunit' : (0 : ℚ) < 2 ^ e := zpow_pos two_pos e
  have hvalue := h.value_eq
  rw [Magnitude.value, hzero, Nat.cast_zero, zero_mul] at hvalue
  have hnear := h.near
  rw [← hvalue, sub_zero, hq, abs_of_nonneg (by positivity)] at hnear
  have hone : (1 : ℚ) ≤ s := by exact_mod_cast hpos
  nlinarith

/-- **A decimal number of fifteen digits is found again** from the number that it rounds to. -/
theorem value_shortest_of_roundsTo (h : RoundsTo q e k r) (hq : q = s * 10 ^ j) (hlow : 10 ^ 14 ≤ s)
    (hs : s < 10 ^ 15) (hj : -300 ≤ j) : (shortest r).value = q := by
  have hten : (0 : ℚ) < 10 ^ j := zpow_pos (by norm_num) j
  have hunit := unit_lt_of_roundsTo h hq hs hj
  have hpos := significand_pos_of_roundsTo h hq (by omega) hs hj
  obtain ⟨hden, -, hvalue, -⟩ := of_spec hpos
  obtain ⟨hfirst, hfirst'⟩ := firstDigit_between h hpos hq hlow hs hj
  obtain ⟨n, hn⟩ : ∃ n : Nat, (of r).firstDigit - n = j := ⟨((of r).firstDigit - j).toNat, by omega⟩
  -- the number itself is a hit at its own exponent, so that the search ends there or before
  have hhit : (of r).best? ((of r).firstDigit - n) ≠ none := by
    rw [hn]
    refine best?_ne_none (holds_of_roundsTo (d := ⟨s, j⟩) h hpos hq.symm) (eq_neighbour hden ?_)
    rw [hvalue, ← hq, abs_sub_comm, h.value_eq]
    linarith [h.near]
  rw [shortest]
  cases hfound : (List.range 17).findSome? fun n : Nat => (of r).best? ((of r).firstDigit - n) with
  | none =>
      rw [List.findSome?_eq_none_iff] at hfound
      exact absurd (hfound n (List.mem_range.mpr (by omega))) hhit
  | some d =>
      obtain ⟨before, i, after, hrange, hbest, hmissed⟩ := List.findSome?_eq_some_iff.mp hfound
      have hin : i ≤ n := by
        have hmem : n ∈ before ++ i :: after := hrange ▸ List.mem_range.mpr (by omega)
        have hnot : n ∉ before := fun hmem => hhit (hmissed n hmem)
        have hsorted := hrange ▸ List.pairwise_lt_range (n := 17)
        rcases List.mem_append.mp hmem with hmem | hmem
        · exact absurd hmem hnot
        · rcases List.mem_cons.mp hmem with rfl | hmem
          · exact le_rfl
          · exact (List.rel_of_pairwise_cons (List.pairwise_append.mp hsorted).2.1 hmem).le
      obtain ⟨hholds, hd⟩ := best?_spec hbest
      have hexponent : d.exponent = (of r).firstDigit - i := by
        obtain ⟨c, hneighbours, -⟩ := neighbours_spec hden ((of r).firstDigit - i)
        rw [hneighbours] at hd
        rcases hd with rfl | rfl <;> rfl
      have hwhole : d.value = (d.digits * 10 ^ (n - i) : ℕ) * 10 ^ j := by
        rw [value, hexponent, show (of r).firstDigit - i = (n - i : ℕ) + j by omega,
          zpow_add₀ (by norm_num), zpow_natCast]
        push_cast
        ring
      have hnear := near_of_holds h hpos hholds
      rw [hwhole, hq] at hnear
      rw [Option.getD_some, hwhole, hq, eq_of_near hten (hnear.trans_lt (by linarith))]

/-- **A decimal number of at most fifteen digits and with a small power of ten is found again** from
the number that is made of it. -/
theorem value_shortest_of_ofDecimal? {n : Nat} (hpos : 0 < n) (hn : n < 10 ^ 15)
    (he : e.natAbs ≤ 22)
    (h : ofDecimal? n e = some r) : 0 < r.significand ∧ (shortest r).value = n * 10 ^ e := by
  obtain ⟨num, den, hden, hq, hround⟩ := ofDecimal?_eq_round? (hn.trans (by decide)) he
  have hnum : num ≠ 0 := by
    rintro rfl
    have hten : (0 : ℚ) < n * 10 ^ e := by positivity
    rw [Nat.cast_zero, zero_div] at hq
    linarith
  obtain ⟨u, k, hr⟩ := roundsTo_of_round? hnum hden (hround ▸ h)
  -- zeros at the end make it fifteen digits
  obtain ⟨i, hi, hlow, hhigh⟩ : ∃ i ≤ 14, 10 ^ 14 ≤ n * 10 ^ i ∧ n * 10 ^ i < 10 ^ 15 := by
    have hlog : Nat.log 10 n ≤ 14 := Nat.lt_succ_iff.mp (Nat.log_lt_of_lt_pow hpos.ne' hn)
    refine ⟨14 - Nat.log 10 n, Nat.sub_le _ _, ?_, ?_⟩
    · calc 10 ^ 14 = 10 ^ Nat.log 10 n * 10 ^ (14 - Nat.log 10 n) := by
            rw [← Nat.pow_add, Nat.add_sub_cancel' hlog]
        _ ≤ n * 10 ^ (14 - Nat.log 10 n) := by
            gcongr
            exact Nat.pow_log_le_self 10 hpos.ne'
    · calc n * 10 ^ (14 - Nat.log 10 n)
          < 10 ^ (Nat.log 10 n + 1) * 10 ^ (14 - Nat.log 10 n) := by
            gcongr
            exact Nat.lt_pow_succ_log_self (by decide) n
        _ = 10 ^ 15 := by
            rw [← Nat.pow_add]
            congr 1
            omega
  have hpadded : (num / den : ℚ) = (n * 10 ^ i : ℕ) * 10 ^ (e - i) := by
    rw [hq, zpow_sub₀ (by norm_num), zpow_natCast]
    push_cast
    field_simp
  refine ⟨significand_pos_of_roundsTo hr hpadded (by omega) hhigh (by omega), ?_⟩
  rw [value_shortest_of_roundsTo hr hpadded hlow hhigh (by omega), hq]

end Decimal

end Externalize
