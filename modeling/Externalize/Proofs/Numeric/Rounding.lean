import Mathlib.Tactic
import Externalize.Numeric.Binary64

/-
Rounding to numbers of 64 bits.

* `Magnitude.value`, `Magnitude.IsValid`: the rational number, and the range of significand and
  unit.
* `Magnitude.isValid_of_round?`, `Magnitude.value_le_of_round?`, `Magnitude.exists_round?`: a
  rounded number is valid, it does not pass a number that the quotient does not pass, and there is
  one unless the quotient is too large.
* `Magnitude.isValid_of_ofDecimal?`, `Magnitude.exists_ofDecimal?`: so is what is made of a decimal
  number, and a number is made of those that are not too large.
-/
namespace Externalize.Magnitude

/-- The rational number. -/
def value (m : Magnitude) : ℚ := m.significand * 2 ^ m.exponent

/-- A number that has a form in 64 bits. -/
structure IsValid (m : Magnitude) : Prop where
  significand : m.significand < 2 * leastNormal
  least : minExponent ≤ m.exponent
  greatest : m.exponent ≤ maxExponent

lemma isValid_zero : zero.IsValid := ⟨by decide, by decide, by decide⟩

/-- A number is a whole number of each unit that is no larger than its own. -/
lemma value_eq_of_le (m : Magnitude) {e : Int} (he : e ≤ m.exponent) :
    m.value = (m.significand * 2 ^ (m.exponent - e).toNat : ℕ) * 2 ^ e := by
  rw [value]
  push_cast
  rw [mul_assoc, ← zpow_natCast, ← zpow_add₀ two_ne_zero, Int.toNat_of_nonneg (by omega),
    sub_add_cancel]

/-- Twice as many units as the least significand of 53 bits are as many of the next size. -/
lemma value_carry (e : Int) : value ⟨leastNormal, e + 1⟩ = (2 * leastNormal : ℕ) * 2 ^ e := by
  rw [value, zpow_add_one₀ two_ne_zero]
  push_cast
  ring

/-- What has 53 bits in one unit has no more than that in a larger one. -/
lemma pow_mul_le_of_lt {u e : Int} (h : u < e) : (2 : ℚ) ^ 53 * 2 ^ u ≤ 2 ^ 52 * 2 ^ e := by
  calc (2 : ℚ) ^ 53 * 2 ^ u = 2 ^ 52 * 2 ^ (u + 1) := by
        rw [zpow_add_one₀ two_ne_zero]
        ring
    _ ≤ 2 ^ 52 * 2 ^ e := by
        gcongr
        · exact one_le_two
        · exact h

lemma cast_two_mul_leastNormal : ((2 * leastNormal : ℕ) : ℚ) = 2 ^ 53 := by
  norm_num [leastNormal]

/-- The least number that is too large to be rounded. -/
def limit : Nat := (4 * leastNormal - 1) * 2 ^ 970

/-- The number that is half a unit above the greatest valid number but one. -/
def middle : Nat := (4 * leastNormal - 3) * 2 ^ 970

lemma halfUnits_eq {k : Nat} (hk : k ≤ 4 * leastNormal) :
    (((4 * leastNormal - k) * 2 ^ 970 : ℕ) : ℚ) = (2 * leastNormal - k / 2) * 2 ^ maxExponent := by
  have hunit : (2 : ℚ) ^ maxExponent = 2 * 2 ^ 970 := by
    rw [show maxExponent = ((970 : ℕ) : ℤ) + 1 from rfl, zpow_add_one₀ two_ne_zero, zpow_natCast,
      mul_comm]
  rw [hunit, Nat.cast_mul, Nat.cast_sub hk, Nat.cast_pow, Nat.cast_two]
  generalize (2 : ℚ) ^ 970 = unit
  push_cast
  ring

/-- The limit is half a unit above the greatest valid number. -/
lemma limit_eq : (limit : ℚ) = (2 * leastNormal - 1 / 2) * 2 ^ maxExponent :=
  (halfUnits_eq (by decide : 1 ≤ 4 * leastNormal)).trans (by rw [Nat.cast_one])

lemma middle_eq : (middle : ℚ) = (2 * leastNormal - 3 / 2) * 2 ^ maxExponent :=
  (halfUnits_eq (by decide : 3 ≤ 4 * leastNormal)).trans (by rw [Nat.cast_ofNat])

/-! ### Units -/

section Units

variable {num den : Nat} {e : Int}

lemma inUnits_pos (hden : 0 < den) : 0 < (inUnits num den e).2 := by
  rw [inUnits]
  split_ifs
  · exact hden
  · exact Nat.mul_pos hden (Nat.pow_pos (by decide))

lemma div_inUnits (num den : Nat) (e : Int) :
    ((inUnits num den e).1 / (inUnits num den e).2 : ℚ) = num / den / 2 ^ e := by
  rw [inUnits]
  split_ifs with he
  · obtain ⟨k, rfl⟩ : ∃ k : Nat, e = -k := ⟨(-e).toNat, by omega⟩
    simp only [neg_neg, Int.toNat_natCast, Nat.pow_eq, zpow_neg, zpow_natCast]
    push_cast
    rw [div_inv_eq_mul, div_mul_eq_mul_div]
  · obtain ⟨k, rfl⟩ : ∃ k : Nat, e = k := ⟨e.toNat, by omega⟩
    simp only [Int.toNat_natCast, Nat.pow_eq, zpow_natCast]
    push_cast
    rw [div_div]

/-- A quotient is rounded to a number unless it is a half above it, or more. -/
lemma roundQuotient_le {k : Nat} (h : 2 * num < (2 * k + 1) * den) : roundQuotient num den ≤ k := by
  have hden : 0 < den := Nat.pos_of_ne_zero fun h0 => by simp [h0] at h
  have hq : num / den ≤ k := by
    rw [← Nat.lt_add_one_iff, Nat.div_lt_iff_lt_mul hden]
    nlinarith
  rw [roundQuotient]
  split_ifs with hhalf
  · exact hq
  · rcases hq.lt_or_eq with hlt | heq
    · exact hlt
    · have hdiv := Nat.div_add_mod num den
      rw [heq] at hdiv
      have : 2 * (num % den) < den := by nlinarith
      exact absurd (.inl this) hhalf

lemma roundQuotient_le_of_div_lt {k : Nat} (hden : 0 < den) (h : (num / den : ℚ) < k + 1 / 2) :
    roundQuotient num den ≤ k := by
  have hq : (0 : ℚ) < den := by exact_mod_cast hden
  rw [div_lt_iff₀ hq] at h
  refine roundQuotient_le ?_
  have : (2 * num : ℚ) < (2 * k + 1) * den := by linarith
  exact_mod_cast this

end Units

/-! ### The unit of a quotient -/

section Exponents

variable {num den : Nat}

/-- A quotient lies between powers of two that the lengths of its parts give. -/
lemma div_between (hnum : num ≠ 0) (hden : den ≠ 0) :
    (2 : ℚ) ^ ((num.log2 : ℤ) - den.log2 - 1) < num / den ∧
      (num / den : ℚ) < 2 ^ ((num.log2 : ℤ) - den.log2 + 1) := by
  have hpos : (0 : ℚ) < den := by exact_mod_cast Nat.pos_of_ne_zero hden
  have hnum₁ : (2 : ℚ) ^ num.log2 ≤ num := by exact_mod_cast Nat.log2_self_le hnum
  have hnum₂ : (num : ℚ) < 2 ^ (num.log2 + 1) := by exact_mod_cast Nat.lt_log2_self
  have hden₁ : (2 : ℚ) ^ den.log2 ≤ den := by exact_mod_cast Nat.log2_self_le hden
  have hden₂ : (den : ℚ) < 2 ^ (den.log2 + 1) := by exact_mod_cast Nat.lt_log2_self
  constructor
  · rw [lt_div_iff₀ hpos]
    calc (2 : ℚ) ^ ((num.log2 : ℤ) - den.log2 - 1) * den
        < 2 ^ ((num.log2 : ℤ) - den.log2 - 1) * 2 ^ (den.log2 + 1) := by gcongr
      _ = 2 ^ num.log2 := by
          rw [← zpow_natCast, ← zpow_natCast, ← zpow_add₀ two_ne_zero]
          congr 1
          push_cast
          ring
      _ ≤ num := hnum₁
  · rw [div_lt_iff₀ hpos]
    calc (num : ℚ) < 2 ^ (num.log2 + 1) := hnum₂
      _ = 2 ^ ((num.log2 : ℤ) - den.log2 + 1) * 2 ^ den.log2 := by
          rw [← zpow_natCast, ← zpow_natCast, ← zpow_add₀ two_ne_zero]
          congr 1
          push_cast
          ring
      _ ≤ 2 ^ ((num.log2 : ℤ) - den.log2 + 1) * den := by gcongr

lemma inUnits_div_lt_iff (num : Nat) (hden : den ≠ 0) (e : Int) (k : Nat) :
    (inUnits num den e).1 / (inUnits num den e).2 < k ↔ (num / den : ℚ) < k * 2 ^ e := by
  have hpos : 0 < (inUnits num den e).2 := inUnits_pos (Nat.pos_of_ne_zero hden)
  have hpos' : (0 : ℚ) < (inUnits num den e).2 := by exact_mod_cast hpos
  rw [Nat.div_lt_iff_lt_mul hpos, ← div_lt_iff₀ (zpow_pos two_pos e), ← div_inUnits,
    div_lt_iff₀ hpos']
  exact_mod_cast Iff.rfl

/-- In its unit a quotient has at most 53 bits, and so many of them unless the unit is the least. -/
lemma unitExponent_spec (hnum : num ≠ 0) (hden : den ≠ 0) :
    minExponent ≤ unitExponent num den ∧
      (num / den : ℚ) < 2 ^ 53 * 2 ^ unitExponent num den ∧
      (minExponent < unitExponent num den →
        (2 : ℚ) ^ 52 * 2 ^ unitExponent num den ≤ num / den) := by
  obtain ⟨hlow, hhigh⟩ := div_between hnum hden
  have hshift : ∀ (k : Nat) (e : ℤ), (2 : ℚ) ^ k * 2 ^ e = 2 ^ (e + k) := by
    intro k e
    rw [← zpow_natCast, ← zpow_add₀ two_ne_zero, add_comm]
  -- the estimate is the unit or one less
  obtain ⟨e, he, hbelow, habove⟩ : ∃ e, unitExponent num den = max e minExponent ∧
      (2 : ℚ) ^ 52 * 2 ^ e ≤ num / den ∧ (num / den : ℚ) < 2 ^ 53 * 2 ^ e := by
    have hfits := inUnits_div_lt_iff num hden ((num.log2 : ℤ) - den.log2 - 53) (2 * leastNormal)
    rw [cast_two_mul_leastNormal] at hfits
    rw [unitExponent]
    simp only
    split_ifs with h
    · refine ⟨_, rfl, ?_, hfits.mp h⟩
      rw [hshift, show (num.log2 : ℤ) - den.log2 - 53 + (52 : ℕ) = num.log2 - den.log2 - 1 by omega]
      exact hlow.le
    · have hle := not_lt.mp fun hlt => h (hfits.mpr hlt)
      refine ⟨_, rfl, ?_, ?_⟩
      · rw [hshift] at hle ⊢
        rwa [show (num.log2 : ℤ) - den.log2 - 53 + 1 + (52 : ℕ) =
          num.log2 - den.log2 - 53 + (53 : ℕ) by omega]
      · rw [hshift, show (num.log2 : ℤ) - den.log2 - 53 + 1 + (53 : ℕ) =
          num.log2 - den.log2 + 1 by omega]
        exact hhigh
  rw [he]
  refine ⟨le_max_right _ _, ?_, fun hlt => ?_⟩
  · refine habove.trans_le ?_
    gcongr
    · exact one_le_two
    · exact le_max_left _ _
  · rw [max_eq_left (by omega)]
    exact hbelow

end Exponents

/-! ### Rounding -/

section Rounding

variable {num den : Nat} {r : Magnitude}

/-- A rounded number is so many units of the quotient, with one unit of the next size in the place
of twice as many as the least significand of 53 bits. -/
lemma round?_cases (hnum : num ≠ 0) (hden : den ≠ 0) : ∃ (e : Int) (k : Nat),
    minExponent ≤ e ∧ (num / den : ℚ) < 2 ^ 53 * 2 ^ e ∧
      (minExponent < e → (2 : ℚ) ^ 52 * 2 ^ e ≤ num / den) ∧
      (∀ n : Nat, (num / den : ℚ) < (n + 1 / 2) * 2 ^ e → k ≤ n) ∧
      round? num den =
        let r : Magnitude := if k = 2 * leastNormal then ⟨leastNormal, e + 1⟩ else ⟨k, e⟩
        if maxExponent < r.exponent then none else some r := by
  obtain ⟨hmin, habove, hbelow⟩ := unitExponent_spec hnum hden
  refine ⟨unitExponent num den, roundQuotient (inUnits num den (unitExponent num den)).1
    (inUnits num den (unitExponent num den)).2, hmin, habove, hbelow, fun n hn => ?_, ?_⟩
  · refine roundQuotient_le_of_div_lt (inUnits_pos (Nat.pos_of_ne_zero hden)) ?_
    rw [div_inUnits, div_lt_iff₀ (zpow_pos two_pos _)]
    exact hn
  · rw [round?, if_neg hnum]

/-- What is rounded is valid. -/
theorem isValid_of_round? (hden : den ≠ 0) (h : round? num den = some r) : r.IsValid := by
  by_cases hnum : num = 0
  · rw [round?, if_pos hnum] at h
    cases h
    exact isValid_zero
  · obtain ⟨e, k, hmin, habove, -, hk, hround⟩ := round?_cases hnum hden
    have hle : k ≤ 2 * leastNormal := by
      refine hk _ (habove.trans_le ?_)
      gcongr
      norm_num [leastNormal]
    rw [hround] at h
    simp only at h
    split_ifs at h with hcarry hmax hmax
    · cases h
      exact ⟨show leastNormal < 2 * leastNormal by decide, Int.le_add_one hmin, not_lt.mp hmax⟩
    · cases h
      exact ⟨lt_of_le_of_ne hle hcarry, hmin, not_lt.mp hmax⟩

/-- A rounded number does not pass a number that the quotient does not pass. -/
theorem value_le_of_round? (hden : den ≠ 0) (h : round? num den = some r) {x : Magnitude}
    (hx : x.significand ≤ 2 * leastNormal) (hmin : minExponent ≤ x.exponent)
    (hle : (num / den : ℚ) ≤ x.value) : r.value ≤ x.value := by
  by_cases hnum : num = 0
  · rw [round?, if_pos hnum] at h
    cases h
    rw [value, zero]
    simp only [CharP.cast_eq_zero, zero_mul]
    exact mul_nonneg (by positivity) (by positivity)
  · obtain ⟨e, k, -, -, hbelow, hk, hround⟩ := round?_cases hnum hden
    have hvalue : r.value = k * 2 ^ e := by
      rw [hround] at h
      simp only at h
      split_ifs at h with hcarry
      · cases h
        rw [value_carry, hcarry]
      · cases h
        rfl
    rw [hvalue]
    have hround_le : ∀ n : Nat, (num / den : ℚ) ≤ n * 2 ^ e → (k : ℚ) * 2 ^ e ≤ n * 2 ^ e := by
      intro n hn
      have hunit : (0 : ℚ) < 2 ^ e := zpow_pos two_pos e
      have hkn : k ≤ n := hk n (by linarith)
      gcongr
    rcases le_or_gt e x.exponent with hunit | hunit
    · -- the number is a whole number of units
      rw [x.value_eq_of_le hunit] at hle ⊢
      exact hround_le _ hle
    · -- the quotient is the least one that has this unit
      have hlast : x.value ≤ 2 ^ 53 * 2 ^ x.exponent := by
        have hbits : (x.significand : ℚ) ≤ 2 ^ 53 := by
          rw [← cast_two_mul_leastNormal]
          exact_mod_cast hx
        exact mul_le_mul_of_nonneg_right hbits (zpow_pos two_pos _).le
      have hpower : (num / den : ℚ) ≤ (2 ^ 52 : ℕ) * 2 ^ e := by
        push_cast
        exact hle.trans (hlast.trans (pow_mul_le_of_lt hunit))
      calc (k : ℚ) * 2 ^ e ≤ (2 ^ 52 : ℕ) * 2 ^ e := hround_le _ hpower
        _ = 2 ^ 52 * 2 ^ e := by norm_num
        _ ≤ num / den := hbelow (by omega)
        _ ≤ x.value := hle

/-- A quotient is rounded unless it is too large. -/
theorem exists_round? (hden : den ≠ 0) (h : (num / den : ℚ) < limit) :
    ∃ r, round? num den = some r := by
  by_cases hnum : num = 0
  · exact ⟨zero, by rw [round?, if_pos hnum]⟩
  · obtain ⟨e, k, -, habove, hbelow, hk, hround⟩ := round?_cases hnum hden
    have hunit : e ≤ maxExponent := by
      by_contra hlarge
      have hleast : (2 : ℚ) ^ 52 * 2 ^ (maxExponent + 1) ≤ 2 ^ 52 * 2 ^ e := by
        gcongr
        · exact one_le_two
        · omega
      have hlimit : (limit : ℚ) < 2 ^ 52 * 2 ^ (maxExponent + 1) := by
        have hpos : (0 : ℚ) < 2 ^ maxExponent := zpow_pos two_pos _
        rw [limit_eq, zpow_add_one₀ two_ne_zero, leastNormal]
        push_cast
        linarith
      have hle := hbelow (by rw [maxExponent] at hlarge; rw [minExponent]; omega)
      linarith
    rw [hround]
    simp only
    split_ifs with hcarry hmax hmax
    · obtain rfl : e = maxExponent := by
        simp only at hmax
        omega
      have hless := hk (2 * leastNormal - 1) (by
        rw [limit_eq] at h
        refine h.trans_eq ?_
        push_cast [leastNormal]
        ring)
      rw [hcarry] at hless
      exact absurd hless (by decide)
    · exact ⟨_, rfl⟩
    · exact absurd hmax (not_lt.mpr hunit)
    · exact ⟨_, rfl⟩

end Rounding

/-! ### Operations -/

section Operations

variable {a b r m : Magnitude}

lemma value_nonneg (m : Magnitude) : 0 ≤ m.value := mul_nonneg (by positivity) (by positivity)

lemma IsValid.value_lt_limit (h : m.IsValid) : m.value < limit := by
  have hbits : (m.significand : ℚ) ≤ 2 * leastNormal - 1 := by
    have := h.significand
    have : (m.significand + 1 : ℚ) ≤ (2 * leastNormal : ℕ) := by exact_mod_cast this
    push_cast at this
    linarith
  have hpos : (0 : ℚ) < 2 ^ maxExponent := zpow_pos two_pos _
  rw [limit_eq]
  calc m.value ≤ (2 * leastNormal - 1) * 2 ^ maxExponent :=
        mul_le_mul hbits (zpow_le_zpow_right₀ one_le_two h.greatest) (zpow_pos two_pos _).le
          ((Nat.cast_nonneg _).trans hbits)
    _ < (2 * leastNormal - 1 / 2) * 2 ^ maxExponent := mul_lt_mul_of_pos_right (by linarith) hpos

/-- Half a unit above a valid number, other than the greatest, is not beyond the middle. -/
lemma IsValid.half_above_le (h : m.IsValid) (hlast : m ≠ ⟨2 * leastNormal - 1, maxExponent⟩) :
    (m.significand + 1 / 2 : ℚ) * 2 ^ m.exponent ≤ middle := by
  have hpos : (0 : ℚ) < 2 ^ maxExponent := zpow_pos two_pos _
  have hpos' : (0 : ℚ) < 2 ^ m.exponent := zpow_pos two_pos _
  have hleast : (2 : ℚ) ≤ leastNormal := by norm_num [leastNormal]
  obtain ⟨s, e⟩ := m
  obtain ⟨hs, -, he⟩ := h
  simp only at hs he hpos' ⊢
  rw [middle_eq]
  rcases he.lt_or_eq with hlt | rfl
  · have hs' : (s : ℚ) ≤ 2 * leastNormal := by exact_mod_cast hs.le
    have hunit : (2 : ℚ) ^ e ≤ 2 ^ maxExponent / 2 := by
      rw [div_eq_mul_inv, ← zpow_sub_one₀ two_ne_zero]
      exact zpow_le_zpow_right₀ one_le_two (by omega)
    nlinarith
  · have hs' : (s : ℚ) + 2 ≤ 2 * leastNormal := by
      have hne : s ≠ 2 * leastNormal - 1 := fun heq => hlast (by rw [heq])
      exact_mod_cast (by omega : s + 2 ≤ 2 * leastNormal)
    exact mul_le_mul_of_nonneg_right (by linarith) hpos.le

lemma div_inUnits_mul (a b : Magnitude) :
    ((inUnits (a.significand * b.significand) 1 (-(a.exponent + b.exponent))).1 /
      (inUnits (a.significand * b.significand) 1 (-(a.exponent + b.exponent))).2 : ℚ) =
        a.value * b.value := by
  rw [div_inUnits, zpow_neg, div_inv_eq_mul, zpow_add₀ two_ne_zero, value, value]
  push_cast
  ring

lemma div_inUnits_div (a b : Magnitude) :
    ((inUnits a.significand b.significand (b.exponent - a.exponent)).1 /
      (inUnits a.significand b.significand (b.exponent - a.exponent)).2 : ℚ) =
        a.value / b.value := by
  rw [div_inUnits, zpow_sub₀ two_ne_zero, value, value]
  field_simp

theorem isValid_of_mul? (h : a.mul? b = some r) : r.IsValid :=
  isValid_of_round? (inUnits_pos Nat.one_pos).ne' h

theorem exists_mul? (h : a.value * b.value < limit) : ∃ r, a.mul? b = some r := by
  rw [← div_inUnits_mul] at h
  exact exists_round? (inUnits_pos Nat.one_pos).ne' h

lemma significand_pos_of_one_le (h : 1 ≤ a.value) : 0 < a.significand := by
  refine Nat.pos_of_ne_zero fun h0 => ?_
  rw [value, h0, Nat.cast_zero, zero_mul] at h
  linarith

theorem isValid_of_div? (hb : 1 ≤ b.value) (h : a.div? b = some r) : r.IsValid :=
  isValid_of_round? (inUnits_pos (significand_pos_of_one_le hb)).ne' h

theorem exists_div? (ha : a.IsValid) (hb : 1 ≤ b.value) : ∃ r, a.div? b = some r := by
  have hless : a.value / b.value < limit :=
    (div_le_self a.value_nonneg hb).trans_lt ha.value_lt_limit
  rw [← div_inUnits_div] at hless
  exact exists_round? (inUnits_pos (significand_pos_of_one_le hb)).ne' hless

theorem isValid_of_ofNat? {n : Nat} (h : ofNat? n = some m) : m.IsValid :=
  isValid_of_round? one_ne_zero h

end Operations

/-! ### Powers of ten -/

section PowersOfTen

variable {m r : Magnitude} {k : Nat}

/-- How many of the smallest units make one. -/
def unitsInOne : Nat := 2 ^ 1074

/-- A number in the smallest units. -/
def units (m : Magnitude) : Nat := m.significand * 2 ^ (m.exponent - minExponent).toNat

lemma IsValid.units_eq (h : m.IsValid) : (m.units : ℚ) = m.value * unitsInOne := by
  have hone : (unitsInOne : ℚ) = 2 ^ (-minExponent) := by
    rw [unitsInOne, show -minExponent = ((1074 : ℕ) : ℤ) from rfl, zpow_natCast, Nat.cast_pow,
      Nat.cast_two]
  rw [hone, value, units, mul_assoc, ← zpow_add₀ two_ne_zero]
  push_cast
  rw [← zpow_natCast, Int.toNat_of_nonneg (by have := h.least; omega)]
  rfl

/-- The greatest significand of a decimal number with this exponent that may be written. -/
def greatestDigits (k : Nat) : Nat := min (10 ^ 17) (middle / 10 ^ k)

/-- The powers of ten in range are rounded to numbers from one on; with the greatest significand,
which is rounded to itself, their products are not too large. -/
lemma powersOfTen_check : ∀ k < 309, (ofNat? (Nat.pow 10 k)).any fun p =>
    unitsInOne ≤ p.units ∧
      (ofNat? (greatestDigits k)).any fun x =>
        x.units = greatestDigits k * unitsInOne ∧
          greatestDigits k * p.units < limit * unitsInOne := by
  decide +kernel

lemma exists_powerOfTen (hk : k ≤ 308) : ∃ p, ofNat? (Nat.pow 10 k) = some p ∧ 1 ≤ p.value ∧
    ∀ n ≤ greatestDigits k, ∀ m, ofNat? n = some m → m.value * p.value < limit := by
  have hcheck := powersOfTen_check k (by omega)
  rw [Option.any_eq_true] at hcheck
  obtain ⟨p, hp, hcheck⟩ := hcheck
  simp only [Bool.decide_and, Bool.and_eq_true, decide_eq_true_eq, Option.any_eq_true] at hcheck
  obtain ⟨hone, x, hx, hexact, hless⟩ := hcheck
  have hpunits := (isValid_of_ofNat? hp).units_eq
  have hxvalid := isValid_of_ofNat? hx
  have hxunits := hxvalid.units_eq
  have hpos : (0 : ℚ) < unitsInOne := by exact_mod_cast (by decide +kernel : 0 < unitsInOne)
  generalize unitsInOne = u at *
  have hxvalue : x.value = greatestDigits k := by
    rw [hexact] at hxunits
    push_cast at hxunits
    exact mul_right_cancel₀ hpos.ne' hxunits.symm
  refine ⟨p, hp, ?_, fun n hn m hm => ?_⟩
  · have hcast : (u : ℚ) ≤ p.units := by exact_mod_cast hone
    rw [hpunits] at hcast
    exact le_of_mul_le_mul_right (by rwa [one_mul]) hpos
  · have hm' : m.value ≤ x.value := by
      refine value_le_of_round? one_ne_zero hm hxvalid.significand.le hxvalid.least ?_
      rw [hxvalue, Nat.cast_one, div_one]
      exact_mod_cast hn
    have hcast : (greatestDigits k * p.units : ℚ) < limit * u := by exact_mod_cast hless
    rw [hpunits, ← hxvalue, ← mul_assoc] at hcast
    exact (mul_le_mul_of_nonneg_right hm' p.value_nonneg).trans_lt
      (lt_of_mul_lt_mul_right hcast hpos.le)

theorem isValid_of_divPowerOfTen? {steps : Nat} (hm : m.IsValid)
    (h : divPowerOfTen? steps m k = some r) : r.IsValid := by
  induction steps generalizing m k with
  | zero =>
      cases h
      exact isValid_zero
  | succ steps ih =>
      rw [divPowerOfTen?] at h
      generalize hlast : 308 = last at h
      split_ifs at h with hk hzero
      · obtain ⟨p, hp, hone, -⟩ := exists_powerOfTen (hk.trans hlast.ge)
        rw [hp, Option.bind_some] at h
        exact isValid_of_div? hone h
      · cases h
        exact isValid_zero
      · obtain ⟨p, hp, hone, -⟩ := exists_powerOfTen hlast.ge
        obtain ⟨q, hq⟩ := exists_div? hm hone
        rw [hp, Option.bind_some, hq, Option.bind_some] at h
        exact ih (isValid_of_div? hone hq) h

theorem exists_divPowerOfTen? (hm : m.IsValid) (steps k : Nat) :
    ∃ r, divPowerOfTen? steps m k = some r := by
  induction steps generalizing m k with
  | zero => exact ⟨zero, rfl⟩
  | succ steps ih =>
      rw [divPowerOfTen?]
      generalize hlast : 308 = last
      split_ifs with hk hzero
      · obtain ⟨p, hp, hone, -⟩ := exists_powerOfTen (hk.trans hlast.ge)
        rw [hp]
        exact exists_div? hm hone
      · exact ⟨zero, rfl⟩
      · obtain ⟨p, hp, hone, -⟩ := exists_powerOfTen hlast.ge
        obtain ⟨q, hq⟩ := exists_div? hm hone
        rw [hp, Option.bind_some, hq]
        exact ih (isValid_of_div? hone hq) (k - last)

end PowersOfTen

/-! ### Decimal numbers -/

section Decimals

variable {n : Nat} {e : Int} {m : Magnitude}

theorem isValid_of_ofDecimal? (h : ofDecimal? n e = some m) : m.IsValid := by
  rw [ofDecimal?, Option.bind_eq_some_iff] at h
  obtain ⟨s, hs, h⟩ := h
  split_ifs at h
  · cases h
    exact isValid_zero
  · rw [Option.bind_eq_some_iff] at h
    obtain ⟨p, -, hmul⟩ := h
    exact isValid_of_mul? hmul
  · exact isValid_of_divPowerOfTen? (isValid_of_ofNat? hs) h

lemma exists_ofNat? (hn : n < 2 ^ 64) : ∃ s, ofNat? n = some s := by
  refine exists_round? one_ne_zero ?_
  have hlimit : n < limit := hn.trans (by decide +kernel)
  rw [Nat.cast_one, div_one]
  exact_mod_cast hlimit

/-- A decimal number is read if it is no larger than the numbers that are written. -/
theorem exists_ofDecimal? (hn : n < 2 ^ 64)
    (he : 0 ≤ e → n ≠ 0 → e ≤ 308 ∧ n ≤ greatestDigits e.toNat) :
    ∃ m, ofDecimal? n e = some m := by
  obtain ⟨s, hs⟩ := exists_ofNat? hn
  rw [ofDecimal?, hs, Option.bind_some]
  split_ifs with hnonneg hzero hlarge
  · exact ⟨zero, rfl⟩
  · exact absurd (he hnonneg hzero).1 (not_le.mpr hlarge)
  · obtain ⟨hle, hdigits⟩ := he hnonneg hzero
    obtain ⟨p, hp, -, hless⟩ := exists_powerOfTen (k := e.toNat) (by omega)
    rw [hp, Option.bind_some]
    exact exists_mul? (hless n hdigits s hs)
  · exact exists_divPowerOfTen? (isValid_of_ofNat? hs) _ _

end Decimals

end Externalize.Magnitude
