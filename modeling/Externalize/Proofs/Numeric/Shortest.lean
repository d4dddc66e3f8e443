import Externalize.Numeric.Shortest
import Externalize.Proofs.Numeric.Rounding

/-
The decimal numbers that are written.

* `Decimal.value`: the rational number.
* `Decimal.IsWritten`: how many digits and which exponent the number has, and that it can be read
  again as far as its size goes.
* `Decimal.isWritten_shortest`: the digits of a valid number are such a number.
-/
namespace Externalize

/-- The rational number. -/
def Decimal.value (d : Decimal) : ℚ := d.digits * 10 ^ d.exponent

/-- A number has as many digits as its size says. -/
lemma pow_length_toDigits (n : Nat) : n < 10 ^ (Nat.toDigits 10 n).length ∧
    (n ≠ 0 → 10 ^ ((Nat.toDigits 10 n).length - 1) ≤ n) := by
  have hpos : 0 < (Nat.toDigits 10 n).length := Nat.length_toDigits_pos
  refine ⟨(Nat.length_toDigits_le_iff (by decide) hpos).mp le_rfl, fun hn => ?_⟩
  rcases Nat.eq_zero_or_pos ((Nat.toDigits 10 n).length - 1) with hone | hmore
  · rw [hone]
    exact Nat.one_le_iff_ne_zero.mpr hn
  · by_contra hlt
    have := (Nat.length_toDigits_le_iff (by decide) hmore).mpr (not_le.mp hlt)
    omega

namespace RoundingInterval

open Magnitude

variable {m : Magnitude} {d : Decimal} {i : RoundingInterval}

/-! ### What an interval holds -/

lemma quotient_spec (d : Decimal) : 0 < (quotient d).2 ∧
    ((quotient d).1 / (quotient d).2 : ℚ) = d.value := by
  rw [quotient, Decimal.value]
  split_ifs with he
  · obtain ⟨k, hk⟩ : ∃ k : Nat, d.exponent = -k := ⟨(-d.exponent).toNat, by omega⟩
    rw [hk]
    simp only [neg_neg, Int.toNat_natCast, Nat.pow_eq, zpow_neg, zpow_natCast]
    exact ⟨Nat.pow_pos (by decide), by push_cast; rw [div_eq_mul_inv]⟩
  · obtain ⟨k, hk⟩ : ∃ k : Nat, d.exponent = k := ⟨d.exponent.toNat, by omega⟩
    rw [hk]
    simp only [Int.toNat_natCast, Nat.pow_eq, zpow_natCast]
    exact ⟨Nat.one_pos, by push_cast; rw [div_one]⟩

/-- What an interval holds lies between its ends, or at one of them if it is closed. -/
lemma holds_iff (hden : 0 < i.denominator) : i.holds d = true ↔
    if i.closed then (i.low / i.denominator : ℚ) ≤ d.value ∧ d.value ≤ i.high / i.denominator
    else (i.low / i.denominator : ℚ) < d.value ∧ d.value < i.high / i.denominator := by
  obtain ⟨hpos, hvalue⟩ := quotient_spec d
  have hpos' : (0 : ℚ) < (quotient d).2 := by exact_mod_cast hpos
  have hden' : (0 : ℚ) < i.denominator := by exact_mod_cast hden
  rw [holds, ← hvalue]
  simp only
  split_ifs <;> simp only [Bool.and_eq_true, decide_eq_true_eq]
  · rw [div_le_div_iff₀ hden' hpos', div_le_div_iff₀ hpos' hden']
    exact_mod_cast Iff.rfl
  · rw [div_lt_div_iff₀ hden' hpos', div_lt_div_iff₀ hpos' hden']
    exact_mod_cast Iff.rfl

/-- What an interval holds is not outside its ends. -/
lemma between_of_holds (hden : 0 < i.denominator) (h : i.holds d = true) :
    (i.low / i.denominator : ℚ) ≤ d.value ∧ d.value ≤ i.high / i.denominator := by
  rw [holds_iff hden] at h
  split_ifs at h
  · exact h
  · exact ⟨h.1.le, h.2.le⟩

/-- An interval that begins above zero does not hold it. -/
lemma digits_ne_zero_of_holds (hlow : 0 < i.low) (h : i.holds d = true) : d.digits ≠ 0 := by
  intro hzero
  obtain ⟨hpos, -⟩ := quotient_spec d
  have hnum : (quotient d).1 = 0 := by
    rw [quotient]
    split_ifs
    · exact hzero
    · rw [hzero, Nat.zero_mul]
  have hmul := Nat.mul_pos hlow hpos
  rw [holds] at h
  simp only [hnum, Nat.zero_mul] at h
  split_ifs at h <;> simp only [Bool.and_eq_true, decide_eq_true_eq] at h <;> omega

/-! ### The interval of a number -/

lemma of_spec (hpos : 0 < m.significand) :
    0 < (of m).denominator ∧ 0 < (of m).low ∧
      ((of m).value / (of m).denominator : ℚ) = m.value ∧
      ((of m).high / (of m).denominator : ℚ) = (m.significand + 1 / 2) * 2 ^ m.exponent ∧
      ((of m).low / (of m).denominator : ℚ) = (m.significand -
        if m.significand = leastNormal ∧ m.exponent ≠ minExponent then 1 / 4 else 1 / 2) *
          2 ^ m.exponent := by
  have hden : 0 < (inUnits 1 1 (-(m.exponent - 2))).2 := inUnits_pos Nat.one_pos
  have hunit := div_inUnits 1 1 (-(m.exponent - 2))
  have hnum : 0 < (inUnits 1 1 (-(m.exponent - 2))).1 := by
    refine Nat.pos_of_ne_zero fun hzero => ?_
    rw [hzero, Nat.cast_zero, zero_div] at hunit
    exact absurd hunit.symm (by positivity)
  rw [zpow_neg, div_inv_eq_mul, Nat.cast_one, div_one, one_mul, zpow_sub₀ two_ne_zero] at hunit
  simp only [of]
  refine ⟨hden, Nat.mul_pos ?_ hnum, ?_, ?_, ?_⟩
  · split_ifs <;> omega
  · push_cast
    rw [mul_div_assoc, hunit, Magnitude.value]
    norm_num
    ring
  · push_cast
    rw [mul_div_assoc, hunit]
    norm_num
    ring
  · rw [Nat.cast_mul, mul_div_assoc, hunit, Nat.cast_sub (by split_ifs <;> omega)]
    push_cast
    split_ifs <;> norm_num <;> ring

/-! ### The first digit -/

/-- So many zeros follow the point: the quotient is smaller than the power of ten that they stand
for. -/
lemma mul_pow_leadingZeros_lt (steps : Nat) {num den : Nat} (h : num < den) :
    num * 10 ^ leadingZeros steps num den < den ∧ leadingZeros steps num den ≤ steps := by
  induction steps generalizing num with
  | zero => exact ⟨by simpa [leadingZeros] using h, le_refl 0⟩
  | succ steps ih =>
      rw [leadingZeros]
      split_ifs with hten
      · exact ⟨by simpa using h, Nat.zero_le _⟩
      · obtain ⟨hlt, hsteps⟩ := ih (by omega : num * 10 < den)
        rw [mul_assoc, ← Nat.pow_succ'] at hlt
        exact ⟨hlt, Nat.succ_le_succ hsteps⟩

/-- The value is smaller than the power of ten after the one of its first digit. -/
lemma firstDigit_spec (hden : 0 < i.denominator) :
    (i.value / i.denominator : ℚ) < 10 ^ (i.firstDigit + 1) ∧ -401 ≤ i.firstDigit := by
  have hden' : (0 : ℚ) < i.denominator := by exact_mod_cast hden
  rw [firstDigit, div_lt_iff₀ hden']
  split_ifs with hle
  · have hlength := (pow_length_toDigits (i.value / i.denominator)).1
    rw [Nat.div_lt_iff_lt_mul hden] at hlength
    refine ⟨?_, by omega⟩
    rw [sub_add_cancel, zpow_natCast]
    exact_mod_cast hlength
  · obtain ⟨hlt, hsteps⟩ := mul_pow_leadingZeros_lt 400 (not_le.mp hle)
    refine ⟨?_, by omega⟩
    rw [sub_add_cancel, zpow_neg, zpow_natCast, ← div_eq_inv_mul, lt_div_iff₀ (by positivity)]
    exact_mod_cast hlt

/-! ### The candidates -/

/-- The lower one of the neighbours is the value cut off after a digit. -/
lemma neighbours_spec (hden : 0 < i.denominator) (e : Int) :
    ∃ q : Nat, i.neighbours e = (⟨q, e⟩, ⟨q + 1, e⟩) ∧
      (q * 10 ^ e : ℚ) ≤ i.value / i.denominator ∧
      (i.value / i.denominator : ℚ) < (q + 1) * 10 ^ e := by
  have hden' : (0 : ℚ) < i.denominator := by exact_mod_cast hden
  refine ⟨_, rfl, ?_⟩
  split_ifs with he
  · obtain ⟨k, hk⟩ : ∃ k : Nat, e = -k := ⟨(-e).toNat, by omega⟩
    have hpow : (0 : ℚ) < 10 ^ k := by positivity
    rw [hk, neg_neg, Int.toNat_natCast, Nat.pow_eq, zpow_neg, zpow_natCast, le_div_iff₀ hden',
      div_lt_iff₀ hden', mul_right_comm, ← div_eq_mul_inv, div_le_iff₀ hpow, mul_right_comm,
      ← div_eq_mul_inv, lt_div_iff₀ hpow]
    exact ⟨by exact_mod_cast Nat.div_mul_le_self _ _,
      by exact_mod_cast (Nat.div_lt_iff_lt_mul hden).mp (Nat.lt_succ_self _)⟩
  · obtain ⟨k, hk⟩ : ∃ k : Nat, e = k := ⟨e.toNat, by omega⟩
    rw [hk, Int.toNat_natCast, Nat.pow_eq, zpow_natCast, le_div_iff₀ hden', div_lt_iff₀ hden',
      mul_right_comm, mul_assoc, mul_right_comm, mul_assoc]
    exact ⟨by exact_mod_cast Nat.div_mul_le_self _ _, by
      exact_mod_cast (Nat.div_lt_iff_lt_mul (Nat.mul_pos hden (Nat.pow_pos (by decide)))).mp
        (Nat.lt_succ_self _)⟩

/-- The best decimal number is one of the neighbours, and it is held. -/
lemma best?_spec {e : Int} (h : i.best? e = some d) :
    i.holds d = true ∧ (d = (i.neighbours e).1 ∨ d = (i.neighbours e).2) := by
  rw [best?] at h
  rcases hn : i.neighbours e with ⟨a, b⟩
  rw [hn] at h
  simp only at h
  split at h
  · cases h
  · next ha hb =>
      cases h
      exact ⟨ha, .inl rfl⟩
  · next ha hb =>
      cases h
      exact ⟨hb, .inr rfl⟩
  · next ha hb =>
      split_ifs at h
      · cases h
        exact ⟨ha, .inl rfl⟩
      · cases h
        exact ⟨hb, .inr rfl⟩

end RoundingInterval

/-! ### The shortest decimal number -/

namespace Decimal

open RoundingInterval Magnitude

variable {m : Magnitude} {d : Decimal}

/-- A decimal number that can be written and read again. -/
structure IsWritten (d : Decimal) : Prop where
  digits : d.digits ≤ 10 ^ 17
  least : -500 ≤ d.exponent
  greatest : d.value < 10 ^ 309
  zero : d.digits = 0 → d.exponent = 0
  readable : ∀ n k : Nat, n * 10 ^ k = d.digits →
    ∃ m, Magnitude.ofDecimal? n (d.exponent + k) = some m

lemma isWritten_zero : IsWritten ⟨0, 0⟩ := by
  refine ⟨by decide, by decide, by simp [value], fun _ => rfl, fun n k h => ?_⟩
  obtain rfl : n = 0 := by simpa using h
  exact exists_ofDecimal? (by decide) fun _ hne => absurd rfl hne

/-- The digits of the greatest valid number. Rounded by themselves they are less than they stand
for, without which their product with the power of ten would be too large. -/
lemma isWritten_greatest : IsWritten ⟨17976931348623157, 292⟩ := by
  refine ⟨by decide, by decide, ?_, fun h => absurd h (by decide), fun n k h => ?_⟩
  · have hless : ((17976931348623157 : ℕ) : ℚ) < 10 ^ (17 : ℤ) := by norm_num
    calc value ⟨17976931348623157, 292⟩ < 10 ^ (17 : ℤ) * 10 ^ (292 : ℤ) :=
          mul_lt_mul_of_pos_right hless (zpow_pos (by norm_num) _)
      _ = 10 ^ 309 := by
          rw [← zpow_add₀ (by norm_num)]
          rfl
  · cases k with
    | zero =>
        obtain rfl : n = 17976931348623157 := by simpa using h
        exact Option.isSome_iff_exists.mp (by decide +kernel)
    | succ k =>
        rw [Nat.pow_succ, ← Nat.mul_assoc] at h
        simp only at h
        omega

/-- A decimal number with so many digits can be read again if it is not beyond the middle. -/
lemma isWritten_of_le (hdigits : d.digits ≤ 10 ^ 17) (hleast : -500 ≤ d.exponent)
    (hzero : d.digits ≠ 0) (hvalue : d.value ≤ middle) : d.IsWritten := by
  have hmiddle : (middle : ℚ) < 10 ^ 309 := by
    exact_mod_cast (by decide +kernel : middle < 10 ^ 309)
  refine ⟨hdigits, hleast, hvalue.trans_lt hmiddle, fun h => absurd h hzero, fun n k hn => ?_⟩
  have hnpos : 0 < n := Nat.pos_of_ne_zero fun h => hzero (by rw [← hn, h, Nat.zero_mul])
  have hnle : n ≤ 10 ^ 17 :=
    (Nat.le_mul_of_pos_right n (Nat.pow_pos (by decide))).trans (hn ▸ hdigits)
  refine exists_ofDecimal? (hnle.trans_lt (by decide)) fun hnonneg _ => ?_
  obtain ⟨e, he⟩ : ∃ e : Nat, d.exponent + k = e := ⟨(d.exponent + k).toNat, by omega⟩
  have hn' : n * 10 ^ e ≤ middle := by
    have hsame : d.value = n * 10 ^ e := by
      rw [value, ← hn, ← zpow_natCast (10 : ℚ) e, ← he, zpow_add₀ (by norm_num), zpow_natCast]
      push_cast
      ring
    rw [hsame] at hvalue
    exact_mod_cast hvalue
  rw [he, Int.toNat_natCast]
  refine ⟨?_, le_min hnle ((Nat.le_div_iff_mul_le (Nat.pow_pos (by decide))).mpr hn')⟩
  by_contra hlarge
  have hpow : 10 ^ 309 ≤ 10 ^ e := by
    gcongr
    · decide
    · omega
  have hle : 10 ^ e ≤ middle := (Nat.le_mul_of_pos_left _ hnpos).trans hn'
  have hmiddle' : middle < 10 ^ 309 := by exact_mod_cast hmiddle
  exact lt_irrefl _ ((hpow.trans hle).trans_lt hmiddle')

theorem isWritten_shortest (hm : m.IsValid) (hpos : 0 < m.significand) :
    (shortest m).IsWritten := by
  by_cases hlast : m = ⟨2 * leastNormal - 1, maxExponent⟩
  · have hdigits : shortest ⟨2 * leastNormal - 1, maxExponent⟩ = ⟨17976931348623157, 292⟩ := by
      decide +kernel
    rw [hlast, hdigits]
    exact isWritten_greatest
  · obtain ⟨hden, hlow, hvalue, hhigh, -⟩ := of_spec hpos
    obtain ⟨hfirst, hleast⟩ := firstDigit_spec hden
    rw [shortest]
    cases hfound : (List.range 17).findSome? fun k : Nat =>
        (of m).best? ((of m).firstDigit - k) with
    | none => exact isWritten_zero
    | some d =>
        rw [Option.getD_some]
        obtain ⟨k, hk, hbest⟩ := List.exists_of_findSome?_eq_some hfound
        rw [List.mem_range] at hk
        obtain ⟨hholds, hd⟩ := best?_spec hbest
        obtain ⟨q, hneighbours, hq, -⟩ := neighbours_spec hden ((of m).firstDigit - k)
        rw [hneighbours] at hd
        have hqlt : q < 10 ^ 17 := by
          have hpow : (q * 10 ^ ((of m).firstDigit - k) : ℚ) <
              10 ^ (k + 1 : ℕ) * 10 ^ ((of m).firstDigit - k) := by
            refine (hq.trans_lt hfirst).trans_eq ?_
            rw [← zpow_natCast, ← zpow_add₀ (by norm_num)]
            congr 1
            push_cast
            ring
          have hlt : q < 10 ^ (k + 1) := by
            exact_mod_cast lt_of_mul_lt_mul_right hpow (zpow_pos (by norm_num) _).le
          exact hlt.trans_le (Nat.pow_le_pow_right (by decide) hk)
        have hle : d.value ≤ middle := by
          refine (between_of_holds hden hholds).2.trans ?_
          rw [hhigh]
          exact hm.half_above_le hlast
        have hne := digits_ne_zero_of_holds hlow hholds
        rcases hd with rfl | rfl
        · exact isWritten_of_le hqlt.le (by simp only; omega) hne hle
        · exact isWritten_of_le hqlt (by simp only; omega) hne hle

end Decimal

end Externalize
