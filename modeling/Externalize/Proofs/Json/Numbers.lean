import Externalize.Proofs.Json.Decimals

/-
Numbers and their texts.

* `Json.Number.IsValid`: the numbers that there are; `Json.isValid_of_readNumber` says that what is
  read is one of them.
* `Json.Number.textValue`: the rational number that the text of a number denotes.
* `Json.Number.exists_numeral`: the text of a valid number is a numeral that denotes this number,
  and is read as a number again, though it need not be the same one. It is the same one if the
  number is whole (`Json.Number.exists_numeral_of_isWhole`).
-/
namespace Externalize.Json

open Nat (toDigits)

/-- The numbers that there are. -/
def Number.IsValid : Number → Prop
  | natural n => n ≤ maxNatural
  | opposite n => 0 < n ∧ n ≤ 0x8000000000000000
  | float x => x.magnitude.IsValid

/-! ### What is read is valid -/

section Reading

variable {negative : Bool} {significand : Nat} {exponent : Int} {t rest : Text} {n : Number}

lemma fst_appendDigits_le {k : Nat} (h : k ≤ maxNatural) (t : Text) :
    (appendDigits k t).1 ≤ maxNatural := by
  induction t generalizing k with
  | nil => exact h
  | cons c r ih =>
      rw [appendDigits]
      split_ifs with hle
      · exact h
      · exact ih (not_lt.mp hle)

lemma isValid_of_floatOf (h : floatOf negative significand exponent t = .ok (n, rest)) :
    n.IsValid := by
  rw [floatOf] at h
  split at h
  · next m hm =>
      cases h
      exact Magnitude.isValid_of_ofDecimal? hm
  · cases h

lemma isValid_of_readExponent (h : readExponent negative significand exponent t = .ok (n, rest)) :
    n.IsValid := by
  rw [readExponent.eq_def] at h
  split at h
  next down u _ =>
    cases u with
    | nil => cases h
    | cons c r =>
        simp only at h
        split at h
        · cases h
        · split at h
          · split at h
            · cases h
            · cases h
              exact Magnitude.isValid_zero
          · exact isValid_of_floatOf h

lemma isValid_of_readScale (h : readScale negative significand exponent t = .ok (n, rest)) :
    n.IsValid := by
  rw [readScale.eq_def] at h
  split at h
  · split_ifs at h
    · exact isValid_of_readExponent h
    · exact isValid_of_floatOf h
  · exact isValid_of_floatOf h

lemma isValid_of_readFraction (h : readFraction negative significand exponent t = .ok (n, rest)) :
    n.IsValid := by
  rw [readFraction] at h
  simp only at h
  split_ifs at h
  exact isValid_of_readScale h

lemma isValid_of_wholeNumber (hle : significand ≤ maxNatural)
    (h : wholeNumber negative significand t = .ok (n, rest)) : n.IsValid := by
  rw [wholeNumber] at h
  split_ifs at h with hnegative hrange
  · cases h
    exact hle
  · cases h
    exact hrange
  · exact isValid_of_floatOf h

/-- What is read is valid. -/
theorem isValid_of_readNumber (h : readNumber negative t = .ok (n, rest)) : n.IsValid := by
  cases t with
  | nil => cases h
  | cons c r =>
      rw [readNumber] at h
      split_ifs at h
      have hle := fst_appendDigits_le (Nat.zero_le maxNatural) ((c :: r).takeWhile (·.isDigit))
      simp only at h
      split at h
      · exact isValid_of_readFraction h
      · split_ifs at h
        · exact isValid_of_readExponent h
        · exact isValid_of_wholeNumber hle h
        · exact isValid_of_floatOf h
      · split_ifs at h
        · exact isValid_of_wholeNumber hle h
        · exact isValid_of_floatOf h

end Reading

/-! ### Integers -/

/-- The digits of a number, with a sign. -/
def Numeral.ofNat (negative : Bool) (n : Nat) : Numeral where
  negative := negative
  whole := toDigits 10 n
  fraction := []
  exponent := none
  ne_nil := Nat.toDigits_ne_nil
  isDigit := isDigit_of_mem_toDigits
  noZeros _ := toDigits_eq_zero_cons
  isFraction := by simp

namespace Numeral

variable {negative : Bool} {n : Nat} {m : Number}

lemma text_ofNat : (ofNat negative n).text = (if negative then ['-'] else []) ++ toDigits 10 n := by
  have hunsigned : (ofNat negative n).unsigned = toDigits 10 n := List.append_nil _
  rw [text, hunsigned]
  rfl

lemma significand_ofNat : (ofNat negative n).significand = n := by
  simp [significand, ofNat]

lemma value_ofNat : (ofNat negative n).value = (if negative then -1 else 1) * n := by
  have hscale : (ofNat negative n).scale = 0 := by simp [scale, ofNat]
  rw [value, hscale, zpow_zero, mul_one, significand_ofNat]
  rfl

lemma reads_ofNat (hn : n ≤ maxNatural) :
    (ofNat negative n).Reads m ↔ wholeNumber negative n [] = .ok (m, []) := by
  have hint : (ofNat negative n).IsInteger := ⟨rfl, rfl⟩
  rw [reads_iff_of_le (by rwa [significand_ofNat]), if_pos hint, significand_ofNat]
  rfl

end Numeral

/-! ### The text of a number -/

namespace Number

/-- The rational number that the text of a number denotes. -/
def textValue : Number → ℚ
  | natural n => n
  | opposite n => -n
  | float x => (if x.negative then -1 else 1) *
      if x.magnitude.significand = 0 then 0 else (Decimal.shortest x.magnitude).value

variable {n : Number}

/-- The zero of floating-point numbers. -/
lemma exists_numeral_zero (negative : Bool) : ∃ w : Numeral,
    w.text = (if negative then ['-'] else []) ++ ['0', '.', '0'] ∧ w.value = 0 ∧
      w.Reads (.float ⟨negative, .zero⟩) := by
  obtain ⟨w, hw⟩ := exists_large negative (show 0 = 0 → 0 = 0 from fun _ => rfl)
  have hzero : Magnitude.ofDecimal? 0 (-1) = some .zero := by decide
  exact ⟨w, by rw [Numeral.text, hw.negative, hw.unsigned]; rfl,
    by rw [Numeral.value, hw.significand]; simp, hw.reads (by decide) hzero⟩

/-- **The text of a whole number** is a numeral that denotes it and is read as it. -/
theorem exists_numeral_of_isWhole (h : n.isWhole = true) :
    ∃ w : Numeral, w.text = n.text ∧ w.value = n.textValue ∧ w.Reads n := by
  cases n with
  | natural n =>
      have hn : n ≤ maxNatural := by simpa [isWhole] using h
      exact ⟨.ofNat false n, Numeral.text_ofNat, by simp [Numeral.value_ofNat, textValue],
        (Numeral.reads_ofNat hn).mpr rfl⟩
  | opposite n =>
      obtain ⟨hpos, hn⟩ : 0 < n ∧ n ≤ 0x8000000000000000 := by simpa [isWhole] using h
      exact ⟨.ofNat true n, Numeral.text_ofNat, by simp [Numeral.value_ofNat, textValue],
        (Numeral.reads_ofNat (hn.trans (by decide))).mpr (by simp [wholeNumber, hpos, hn])⟩
  | float x =>
      obtain rfl : x = ⟨true, .zero⟩ := by simpa [isWhole] using h
      obtain ⟨w, htext, hvalue, hreads⟩ := exists_numeral_zero true
      exact ⟨w, htext, by simp [hvalue, textValue, Magnitude.zero], hreads⟩

/-- **The text of a valid number** is a numeral that denotes what the text does, and is read as some
number. -/
theorem exists_numeral (h : n.IsValid) :
    ∃ w : Numeral, w.text = n.text ∧ w.value = n.textValue ∧ ∃ m, w.Reads m := by
  have hwhole : n.isWhole = true →
      ∃ w : Numeral, w.text = n.text ∧ w.value = n.textValue ∧ ∃ m, w.Reads m := fun hn => by
    obtain ⟨w, htext, hvalue, hreads⟩ := exists_numeral_of_isWhole hn
    exact ⟨w, htext, hvalue, n, hreads⟩
  cases n with
  | natural n => exact hwhole (by simpa [isWhole, IsValid] using h)
  | opposite n => exact hwhole (by simpa [isWhole, IsValid] using h)
  | float x =>
      rw [text, Binary64.text, textValue]
      by_cases hzero : x.magnitude.significand = 0
      · obtain ⟨w, htext, hvalue, hreads⟩ := exists_numeral_zero x.negative
        exact ⟨w, by simp [htext, hzero], by simp [hvalue, hzero], _, hreads⟩
      · obtain ⟨w, hnegative, hunsigned, hvalue, r, hreads⟩ := exists_numeral_decimalText x.negative
          (Decimal.isWritten_shortest h (Nat.pos_of_ne_zero hzero))
        exact ⟨w, by rw [Numeral.text, hnegative, hunsigned, if_neg hzero],
          by rw [Numeral.value, hnegative, hvalue, if_neg hzero], _, hreads⟩

end Number

end Externalize.Json
