import Externalize.Proofs.Json.Numbers
import Externalize.Proofs.Numeric.Nearest

/-
The rational numbers that numerals denote before they are read and after they are written again.

* `Json.Numeral.textValue_of_isInteger`: integers of 64 bits are kept.
* `Json.Numeral.textValue_of_short`: numerals of fifteen digits are kept, if the power of ten of the
  last one is at most the twenty-second.
* `Json.Number.isWritable_textValue`: what the text of a number can denote at all.
* `Json.Numeral.Becomes`: a numeral, and one that it can become.
-/
namespace Externalize

/-! ### Zero -/

namespace Magnitude

variable {r : Magnitude}

lemma div?_zero (d : Magnitude) : zero.div? d = some zero := by
  have hnum : ∀ den e, (inUnits 0 den e).1 = 0 := by
    intro den e
    rw [inUnits]
    split_ifs <;> simp
  rw [div?]
  simp only [zero, hnum]
  rfl

lemma significand_of_divPowerOfTen?_zero (steps k : Nat)
    (h : divPowerOfTen? steps zero k = some r) : r.significand = 0 := by
  cases steps with
  | zero =>
      cases h
      rfl
  | succ steps =>
      rw [divPowerOfTen?] at h
      split_ifs at h with hk hs
      · obtain ⟨d, -, hd⟩ := Option.bind_eq_some_iff.mp h
        rw [div?_zero] at hd
        cases hd
        rfl
      · cases h
        rfl
      · exact absurd rfl hs

/-- Zero is zero with every power of ten. -/
lemma significand_of_ofDecimal?_zero {e : Int} (h : ofDecimal? 0 e = some r) :
    r.significand = 0 := by
  have hzero : ofNat? 0 = some zero := rfl
  rw [ofDecimal?, hzero, Option.bind_some] at h
  by_cases he : 0 ≤ e
  · rw [if_pos he, if_pos rfl] at h
    cases h
    rfl
  · rw [if_neg he] at h
    exact significand_of_divPowerOfTen?_zero _ _ h

end Magnitude

namespace Json

/-! ### What is kept -/

namespace Numeral

variable {n : Numeral} {m : Number}

/-- A numeral without digits other than zeros is kept. -/
theorem textValue_of_zero (h : n.Reads m) (hn : n.significand = 0) : m.textValue = n.value := by
  have hvalue : n.value = 0 := by simp [value, hn]
  have hfloat : ∀ {b e x r}, Scales 0 e x r → m = .float ⟨b, r⟩ → m.textValue = 0 := by
    rintro b e x r hr rfl
    have hzero : r.significand = 0 := by
      cases hr with
      | none hr => exact Magnitude.significand_of_ofDecimal?_zero hr
      | exponent _ hr => exact Magnitude.significand_of_ofDecimal?_zero hr
      | vanishing _ _ => rfl
    simp [Number.textValue, hzero]
  rw [reads_iff_of_le (by omega), hn] at h
  rw [hvalue]
  split_ifs at h
  · rw [wholeNumber] at h
    split_ifs at h with hnegative hpos
    · cases h
      simp [Number.textValue]
    · omega
    · obtain ⟨-, r, hr, hm⟩ := floatOf_eq_ok_iff.mp h
      exact hfloat hr hm
  · obtain ⟨r, hr, hm⟩ := h
    exact hfloat hr hm

lemma value_of_isInteger (hint : n.IsInteger) :
    n.value = (if n.negative then -1 else 1) * n.significand := by
  rw [value, scale, hint.1, hint.2]
  simp

/-- An integer of 64 bits is kept. -/
theorem textValue_of_isInteger (h : n.Reads m) (hint : n.IsInteger) (hlow : -2 ^ 63 ≤ n.value)
    (hhigh : n.value ≤ 2 ^ 64 - 1) : m.textValue = n.value := by
  rw [value_of_isInteger hint] at hlow hhigh
  by_cases hzero : n.significand = 0
  · exact textValue_of_zero h hzero
  · rw [value_of_isInteger hint]
    cases hnegative : n.negative with
    | false =>
        have hle : n.significand ≤ maxNatural := by
          rw [hnegative, if_neg (by decide), one_mul] at hhigh
          have : (n.significand : ℚ) ≤ maxNatural := hhigh.trans (by norm_num [maxNatural])
          exact_mod_cast this
        rw [reads_iff_of_le hle, if_pos hint, hnegative] at h
        cases h
        simp [Number.textValue]
    | true =>
        have hle : n.significand ≤ 0x8000000000000000 := by
          rw [hnegative, if_pos rfl, neg_one_mul, neg_le_neg_iff] at hlow
          exact_mod_cast hlow.trans (by norm_num : (2 : ℚ) ^ 63 ≤ (0x8000000000000000 : ℕ))
        rw [reads_iff_of_le (hle.trans (by decide)), if_pos hint, hnegative, wholeNumber,
          if_neg (by decide), if_pos ⟨Nat.pos_of_ne_zero hzero, hle⟩] at h
        cases h
        simp [Number.textValue]

/-- A numeral of fifteen digits is kept if the power of ten of the last one is at most the
twenty-second. -/
theorem textValue_of_short (h : n.Reads m) (hn : n.significand < 10 ^ 15)
    (hscale : n.scale.natAbs ≤ 22) : m.textValue = n.value := by
  have hle : n.significand ≤ maxNatural := hn.le.trans (by decide)
  by_cases hzero : n.significand = 0
  · exact textValue_of_zero h hzero
  · by_cases hint : n.IsInteger
    · have hsmall : (n.significand : ℚ) < 10 ^ 15 := by exact_mod_cast hn
      have hnonneg : (0 : ℚ) ≤ n.significand := Nat.cast_nonneg _
      refine textValue_of_isInteger h hint ?_ ?_ <;> rw [value_of_isInteger hint] <;> split_ifs <;>
        linarith
    · rw [reads_iff_of_le hle, if_neg hint] at h
      obtain ⟨r, hr, rfl⟩ := h
      have hdecimal : Magnitude.ofDecimal? n.significand n.scale = some r := by
        rw [scale] at hscale ⊢
        generalize n.exponent = x at hr hscale ⊢
        cases hr with
        | none hr => simpa using hr
        | @exponent x _ _ hr =>
            rw [Option.elim_some, sub_eq_neg_add]
            exact hr
        | @vanishing x hx hr =>
            -- an exponent that is too large does not give so small a scale
            have hsign := hr.resolve_left hzero
            rw [Option.elim_some, Exponent.value, if_pos hsign] at hscale
            simp only [maxExponent] at hx
            omega
      obtain ⟨hpos, hvalue⟩ := Decimal.value_shortest_of_ofDecimal? (Nat.pos_of_ne_zero hzero) hn
        hscale hdecimal
      rw [Number.textValue, if_neg hpos.ne', hvalue, value]

end Numeral

/-! ### What can be written at all -/

/-- An integer of 64 bits, or a number of seventeen digits. -/
def IsWritable (q : ℚ) : Prop :=
  (∃ z : ℤ, q = z ∧ -2 ^ 63 ≤ z ∧ z < 2 ^ 64) ∨ ∃ (a : ℕ) (b : ℤ), a ≤ 10 ^ 17 ∧ |q| = a * 10 ^ b

theorem Number.isWritable_textValue {m : Number} (h : m.IsValid) : IsWritable m.textValue := by
  cases m with
  | natural n =>
      have hn : n ≤ 0xFFFFFFFFFFFFFFFF := h
      exact .inl ⟨n, by simp [textValue], by omega, by omega⟩
  | opposite n =>
      have hn : n ≤ 0x8000000000000000 := h.2
      exact .inl ⟨-n, by simp [textValue], by omega, by omega⟩
  | float x =>
      right
      by_cases hzero : x.magnitude.significand = 0
      · exact ⟨0, 0, by simp, by simp [textValue, hzero]⟩
      · have hwritten := Decimal.isWritten_shortest h (Nat.pos_of_ne_zero hzero)
        refine ⟨_, (Decimal.shortest x.magnitude).exponent, hwritten.digits, ?_⟩
        have hsign : |(if x.negative then -1 else 1 : ℚ)| = 1 := by split_ifs <;> simp
        rw [textValue, if_neg hzero, abs_mul, hsign, one_mul, Decimal.value,
          abs_of_nonneg (by positivity)]

/-! ### What becomes of a numeral -/

/-- A numeral, and one that stands in its place after it was read as a number and this was written:
it denotes what the text of that number does. It denotes the same if the first one is an integer of
64 bits, or has fifteen digits and a power of ten of at most the twenty-second, or no digit but
zeros; and it is always an integer of 64 bits or a number of seventeen digits, so that others are
lost. -/
structure Numeral.Becomes (n n' : Numeral) : Prop where
  read : ∃ m, n.Reads m ∧ n'.value = m.textValue
  integer : n.IsInteger → -2 ^ 63 ≤ n.value → n.value ≤ 2 ^ 64 - 1 → n'.value = n.value
  short : n.significand < 10 ^ 15 → n.scale.natAbs ≤ 22 → n'.value = n.value
  zero : n.significand = 0 → n'.value = n.value
  writable : IsWritable n'.value

theorem Numeral.becomes_of_reads {n n' : Numeral} {m : Number} (h : n.Reads m)
    (hvalue : n'.value = m.textValue) : n.Becomes n' where
  read := ⟨m, h, hvalue⟩
  integer hint hlow hhigh := hvalue.trans (textValue_of_isInteger h hint hlow hhigh)
  short hn hscale := hvalue.trans (textValue_of_short h hn hscale)
  zero hn := hvalue.trans (textValue_of_zero h hn)
  writable := by
    rw [hvalue]
    exact Number.isWritable_textValue (isValid_of_readNumber (h [] endsNumber_nil))

end Json

end Externalize
