import Externalize.Proofs.Json.Numerals
import Externalize.Proofs.Numeric.Shortest

/-
The text of a decimal number.

* `Json.Numeral.Stands`: a numeral with this text, these digits and this scale.
* `Json.exists_scientific`, `Json.exists_small`, `Json.exists_large`, `Json.exists_middle`: the four
  ways in which digits are written.
* `Json.exists_numeral_decimalText`: the text of a decimal number is a numeral that denotes it.
-/
namespace Externalize.Json

open Nat (toDigits ofDigitChars)

section Writing

open Binary64 (trimZeros decimalText)

variable {n : Nat} {last : Int} {d : Decimal} {negative : Bool} {t : Text}

/-- A numeral with this text, whose digits and whose scale are these. -/
structure Numeral.Stands (w : Numeral) (negative : Bool) (t : Text) (n : Nat) (last : Int) :
    Prop where
  negative : w.negative = negative
  unsigned : w.unsigned = t
  notInteger : ¬ w.IsInteger
  size_le : ∀ x ∈ w.exponent, x.size ≤ maxExponent
  significand : w.significand = n
  scale : w.scale = last

lemma Numeral.Stands.reads {w : Numeral} {r : Magnitude} (h : w.Stands negative t n last)
    (hn : n ≤ maxNatural) (hr : Magnitude.ofDecimal? n last = some r) :
    w.Reads (.float ⟨negative, r⟩) := by
  obtain rfl := h.negative
  obtain rfl := h.significand
  obtain rfl := h.scale
  rw [reads_iff_of_le hn, if_neg h.notInteger]
  refine ⟨r, ?_, rfl⟩
  cases hx : w.exponent with
  | none =>
      rw [Numeral.scale, hx, Option.elim_none, zero_sub] at hr
      exact .none hr
  | some x =>
      rw [Numeral.scale, hx, Option.elim_some, sub_eq_neg_add] at hr
      exact .exponent (h.size_le x hx) hr

/-- Digits with an exponent. -/
lemma exists_scientific (negative : Bool) {first : Int}
    (hfirst : first = last + (toDigits 10 n).length - 1) (hmax : first.natAbs ≤ maxExponent) :
    ∃ w : Numeral, w.Stands negative ((toDigits 10 n).take 1 ++
      (if (toDigits 10 n).length = 1 then [] else '.' :: (toDigits 10 n).drop 1) ++
        'e' :: (if first < 0 then '-' else '+') :: toDigits 10 first.natAbs) n last := by
  have hpos : 0 < (toDigits 10 n).length := Nat.length_toDigits_pos
  have hall : ∀ c ∈ toDigits 10 n, c.isDigit = true := isDigit_of_mem_toDigits
  let x : Exponent := ⟨'e', some (if first < 0 then '-' else '+'), toDigits 10 first.natAbs,
    .inl rfl, by split_ifs <;> simp, Nat.toDigits_ne_nil, isDigit_of_mem_toDigits⟩
  have hsize : x.size = first.natAbs := Nat.ofDigitChars_ten_toDigits
  have hvalue : x.value = first := by
    rw [Exponent.value, hsize]
    split_ifs with hsign
    · have hneg : first < 0 := by
        by_contra hcon
        simp [x, hcon] at hsign
      omega
    · have hnonneg : ¬ first < 0 := fun hcon => hsign (by simp [x, hcon])
      omega
  refine ⟨⟨negative, (toDigits 10 n).take 1, (toDigits 10 n).drop 1, some x, ?_,
    fun c hc => hall c (List.mem_of_mem_take hc), ?_,
    fun c hc => hall c (List.mem_of_mem_drop hc)⟩, rfl, ?_,
    fun h => (Option.some_ne_none _ h.2).elim, ?_, ?_, ?_⟩
  · exact List.ne_nil_of_length_pos (by rw [List.length_take]; omega)
  · intro r hr
    have hlength := congrArg List.length hr
    rw [List.length_take, List.length_cons] at hlength
    exact List.eq_nil_of_length_eq_zero (by omega)
  · have hone : (toDigits 10 n).drop 1 = [] ↔ (toDigits 10 n).length = 1 := by
      rw [List.drop_eq_nil_iff]
      omega
    rw [Numeral.unsigned, Numeral.scaleText, List.append_assoc]
    simp only [hone]
    rfl
  · rintro y hy
    obtain rfl : x = y := by simpa using hy
    exact hsize.trans_le hmax
  · rw [Numeral.significand, List.take_append_drop, Nat.ofDigitChars_ten_toDigits]
  · rw [Numeral.scale, Option.elim_some, hvalue, List.length_drop]
    omega

/-- Digits after a point and zeros. -/
lemma exists_small (negative : Bool) {zeros : Nat}
    (hzeros : last = -(zeros + (toDigits 10 n).length : Nat)) :
    ∃ w : Numeral, w.Stands negative ('0' :: '.' :: List.replicate zeros '0' ++ toDigits 10 n) n
      last := by
  have hne : List.replicate zeros '0' ++ toDigits 10 n ≠ [] := by simp [Nat.toDigits_ne_nil]
  refine ⟨⟨negative, ['0'], List.replicate zeros '0' ++ toDigits 10 n, none, by simp,
    isDigit_of_mem_zero, by simp, fun c hc => ?_⟩, rfl, ?_, fun h => hne h.1, by simp, ?_, ?_⟩
  · rcases List.mem_append.mp hc with hc | hc
    · rw [List.eq_of_mem_replicate hc]
      rfl
    · exact isDigit_of_mem_toDigits c hc
  · simp [Numeral.unsigned, Numeral.scaleText, Nat.toDigits_ne_nil]
  · rw [Numeral.significand, Nat.ofDigitChars_append, Nat.ofDigitChars_append,
      Nat.ofDigitChars_replicate_zero]
    simp [Nat.ofDigitChars_cons]
  · simp only [Numeral.scale, Option.elim_none, List.length_append, List.length_replicate]
    omega

/-- Digits and zeros before a point. -/
lemma exists_large (negative : Bool) {zeros : Nat} (hzero : n = 0 → zeros = 0) :
    ∃ w : Numeral, w.Stands negative (toDigits 10 n ++ List.replicate zeros '0' ++ ['.', '0'])
      (n * 10 ^ zeros * 10) (-1) := by
  have hvalue : ofDigitChars 10 (toDigits 10 n ++ List.replicate zeros '0' ++ ['0']) 0 =
      n * 10 ^ zeros * 10 := by
    rw [Nat.ofDigitChars_append, Nat.ofDigitChars_append, Nat.ofDigitChars_replicate_zero,
      Nat.ofDigitChars_ten_toDigits]
    simp [Nat.ofDigitChars_cons, Nat.mul_comm]
  refine ⟨⟨negative, toDigits 10 n ++ List.replicate zeros '0', ['0'], none,
    by simp [Nat.toDigits_ne_nil], fun c hc => ?_, fun r hr => ?_, isDigit_of_mem_zero⟩, rfl, rfl,
    fun h => List.cons_ne_nil _ _ h.1, by simp, hvalue, rfl⟩
  · rcases List.mem_append.mp hc with hc | hc
    · exact isDigit_of_mem_toDigits c hc
    · rw [List.eq_of_mem_replicate hc]
      rfl
  · cases hds : toDigits 10 n with
    | nil => exact absurd hds Nat.toDigits_ne_nil
    | cons c ds =>
        rw [hds, List.cons_append] at hr
        obtain ⟨rfl, htail⟩ := List.cons.inj hr
        obtain rfl := toDigits_eq_zero_cons hds
        have hn0 : n = 0 := by
          rw [← Nat.ofDigitChars_ten_toDigits (n := n), hds]
          rfl
        rw [← htail, hzero hn0]
        rfl

/-- Digits with a point between them. -/
lemma exists_middle (negative : Bool) {k : Nat} (hk : 0 < k)
    (hlast : last = k - (toDigits 10 n).length) (hneg : last < 0) :
    ∃ w : Numeral,
      w.Stands negative ((toDigits 10 n).take k ++ '.' :: (toDigits 10 n).drop k) n last := by
  have hlength : k < (toDigits 10 n).length := by omega
  have hdrop : (toDigits 10 n).drop k ≠ [] := by
    refine List.ne_nil_of_length_pos ?_
    rw [List.length_drop]
    omega
  refine ⟨⟨negative, (toDigits 10 n).take k, (toDigits 10 n).drop k, none, ?_,
    fun c hc => isDigit_of_mem_toDigits c (List.mem_of_mem_take hc), fun r hr => ?_,
    fun c hc => isDigit_of_mem_toDigits c (List.mem_of_mem_drop hc)⟩, rfl, ?_,
    fun h => hdrop h.1, by simp, ?_, ?_⟩
  · refine List.ne_nil_of_length_pos ?_
    rw [List.length_take]
    omega
  · cases hds : toDigits 10 n with
    | nil => exact absurd hds Nat.toDigits_ne_nil
    | cons c ds =>
        rw [hds] at hr hlength
        obtain ⟨k, rfl⟩ : ∃ k', k = k' + 1 := ⟨k - 1, by omega⟩
        obtain ⟨rfl, -⟩ := List.cons.inj hr
        obtain rfl := toDigits_eq_zero_cons hds
        simp at hlength
  · rw [Numeral.unsigned, Numeral.scaleText, if_neg hdrop, Option.elim_none, List.append_nil]
  · rw [Numeral.significand, List.take_append_drop, Nat.ofDigitChars_ten_toDigits]
  · rw [Numeral.scale, Option.elim_none, List.length_drop]
    omega

lemma trimZeros_spec (steps n : Nat) :
    (trimZeros steps n).1 * 10 ^ (trimZeros steps n).2 = n ∧
      (n = 0 → (trimZeros steps n).2 = 0) := by
  induction steps generalizing n with
  | zero => exact ⟨by simp [trimZeros], fun _ => rfl⟩
  | succ steps ih =>
      rw [trimZeros]
      split_ifs with hzeros
      · obtain ⟨hmul, -⟩ := ih (n / 10)
        refine ⟨?_, fun hn => absurd hn hzeros.1⟩
        simp only [Nat.pow_succ, ← Nat.mul_assoc, hmul]
        omega
      · exact ⟨by simp, fun _ => rfl⟩

/-- The exponent of the first digit is in the range of those that are written. -/
lemma natAbs_first_le (hd : d.IsWritten) {k : Nat} (hn : n * 10 ^ k = d.digits)
    (hzero : n = 0 → d.exponent + k = 0) :
    (d.exponent + k + (toDigits 10 n).length - 1).natAbs ≤ 500 := by
  have hpos : 0 < (toDigits 10 n).length := Nat.length_toDigits_pos
  have hleast := hd.least
  have hgreatest : d.exponent + k + (toDigits 10 n).length - 1 < 309 := by
    rcases Nat.eq_zero_or_pos n with hn0 | hnpos
    · have := hzero hn0
      subst hn0
      simp only [Nat.toDigits_zero, List.length_singleton]
      omega
    · have hpow := (pow_length_toDigits n).2 hnpos.ne'
      have hvalue : d.value = n * 10 ^ (d.exponent + k) := by
        rw [Decimal.value, ← hn, zpow_add₀ (by norm_num), zpow_natCast]
        push_cast
        ring
      have hless := hd.greatest
      rw [hvalue] at hless
      have hpow' : (10 : ℚ) ^ (d.exponent + k + (toDigits 10 n).length - 1) ≤
          n * 10 ^ (d.exponent + k) := by
        rw [show d.exponent + k + (toDigits 10 n).length - 1 =
          ((toDigits 10 n).length - 1 : ℕ) + (d.exponent + k) by omega,
          zpow_add₀ (by norm_num), zpow_natCast]
        exact mul_le_mul_of_nonneg_right (by exact_mod_cast hpow) (zpow_pos (by norm_num) _).le
      have hless' := hpow'.trans_lt hless
      rw [← zpow_natCast] at hless'
      exact (zpow_lt_zpow_iff_right₀ (by norm_num)).mp hless'
  omega

/-- Digits and zeros before a point, sixteen at most, denote an integer that is read as a number. -/
lemma exists_reads_large (negative : Bool) {zeros : Nat} (hzero : n = 0 → zeros = 0)
    (hlength : (toDigits 10 n).length + zeros ≤ 16) :
    ∃ w : Numeral, w.negative = negative ∧
      w.unsigned = toDigits 10 n ++ List.replicate zeros '0' ++ ['.', '0'] ∧
      (w.significand * 10 ^ w.scale : ℚ) = n * 10 ^ zeros ∧
      ∃ r, w.Reads (.float ⟨negative, r⟩) := by
  obtain ⟨w, hw⟩ := exists_large negative hzero
  have hle : n * 10 ^ zeros * 10 ≤ maxNatural := by
    have hlt := (pow_length_toDigits n).1
    calc n * 10 ^ zeros * 10
        ≤ 10 ^ (toDigits 10 n).length * 10 ^ zeros * 10 := by gcongr
      _ = 10 ^ ((toDigits 10 n).length + zeros + 1) := by rw [← Nat.pow_add, ← Nat.pow_succ]
      _ ≤ 10 ^ 17 := Nat.pow_le_pow_right (by decide) (by omega)
      _ ≤ maxNatural := by decide
  obtain ⟨r, hr⟩ : ∃ r, Magnitude.ofDecimal? (n * 10 ^ zeros * 10) (-1) = some r :=
    Magnitude.exists_ofDecimal? (Nat.lt_succ_of_le hle) fun h => absurd h (by decide)
  refine ⟨w, hw.negative, hw.unsigned, ?_, r, hw.reads hle hr⟩
  rw [hw.significand, hw.scale]
  push_cast
  ring

/-- **The text of a decimal number is a numeral that denotes it**, and is read as a number. -/
theorem exists_numeral_decimalText (negative : Bool) (hd : d.IsWritten) :
    ∃ w : Numeral, w.negative = negative ∧ w.unsigned = decimalText d ∧
      (w.significand * 10 ^ w.scale : ℚ) = d.value ∧ ∃ r, w.Reads (.float ⟨negative, r⟩) := by
  obtain ⟨htrim, hnone⟩ := trimZeros_spec 18 d.digits
  rw [decimalText]
  rcases heq : trimZeros 18 d.digits with ⟨n, k⟩
  rw [heq] at htrim hnone
  simp only at htrim hnone ⊢
  obtain ⟨r, hr⟩ := hd.readable n k htrim
  have hdigits : n ≤ 10 ^ 17 :=
    (Nat.le_mul_of_pos_right n (Nat.pow_pos (by decide))).trans (htrim ▸ hd.digits)
  have hn : n ≤ maxNatural := hdigits.trans (by decide)
  have hzero : n = 0 → d.exponent + k = 0 := by
    intro hn0
    have h0 : d.digits = 0 := by rw [← htrim, hn0, Nat.zero_mul]
    rw [hd.zero h0, hnone h0]
    rfl
  have hmax := natAbs_first_le hd htrim hzero
  have hvalue : (n * 10 ^ (d.exponent + k) : ℚ) = d.value := by
    rw [Decimal.value, ← htrim, zpow_add₀ (by norm_num), zpow_natCast]
    push_cast
    ring
  generalize d.exponent + k = last at *
  obtain ⟨first, hfirst⟩ : ∃ first, first = last + (toDigits 10 n).length - 1 := ⟨_, rfl⟩
  rw [← hfirst] at hmax ⊢
  have hstands : ∀ {t : Text} (w : Numeral), w.Stands negative t n last →
      ∃ w : Numeral, w.negative = negative ∧ w.unsigned = t ∧
        (w.significand * 10 ^ w.scale : ℚ) = d.value ∧ ∃ r, w.Reads (.float ⟨negative, r⟩) :=
    fun w hw => ⟨w, hw.negative, hw.unsigned, by rw [hw.significand, hw.scale, hvalue],
      r, hw.reads hn hr⟩
  by_cases hscientific : first < -5 ∨ 15 < first
  · rw [if_pos hscientific]
    obtain ⟨w, hw⟩ := exists_scientific negative hfirst (hmax.trans (by decide))
    exact hstands w hw
  · rw [if_neg hscientific]
    by_cases hsmall : first < 0
    · rw [if_pos hsmall]
      obtain ⟨w, hw⟩ := exists_small negative (n := n)
        (show last = -((first.natAbs - 1) + (toDigits 10 n).length : ℕ) by omega)
      exact hstands w hw
    · rw [if_neg hsmall]
      by_cases hlarge : 0 ≤ last
      · rw [if_pos hlarge]
        obtain ⟨w, hnegative, hunsigned, hw, hreads⟩ := exists_reads_large negative (n := n)
          (show n = 0 → last.toNat = 0 from fun h => by rw [hzero h]; rfl) (by omega)
        refine ⟨w, hnegative, hunsigned, ?_, hreads⟩
        rw [hw, ← hvalue, ← zpow_natCast, Int.toNat_of_nonneg hlarge]
      · rw [if_neg hlarge]
        obtain ⟨w, hw⟩ := exists_middle negative (Nat.succ_pos first.toNat)
          (show last = (first.toNat + 1 : ℕ) - (toDigits 10 n).length by omega) (by omega)
        exact hstands w hw

end Writing

end Externalize.Json
