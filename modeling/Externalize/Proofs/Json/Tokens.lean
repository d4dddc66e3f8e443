import Mathlib.Tactic
import Externalize.Json.Printer
import Externalize.Json.Token

/-
The tokens of a text, read one after the other.

* `Json.skipBlanks_indent`: a new line is passed over.
* `Json.EndsNumber`, `Json.EndsDigits`: what does not go on with a number, or with its digits;
  `Json.appendDigits_of_le` says what number digits make that fit.
* `Json.Number.isWhole`: an integer of 64 bits. The text `-0` is kept as a floating-point zero.
-/
namespace Externalize.Json

open Nat (toDigits ofDigitChars)

/-! ### Blanks -/

lemma skipBlanks_cons {c : Char} {r : Text} (h : isSpace c = false) :
    skipBlanks (c :: r) = c :: r := by
  simp [skipBlanks, h]

lemma isSpace_of_isDigit {c : Char} (h : c.isDigit = true) : isSpace c = false := by
  by_contra hs
  simp only [isSpace, Bool.not_eq_false, Bool.or_eq_true, beq_iff_eq] at hs
  rcases hs with ((rfl | rfl) | rfl) | rfl <;> cases h

/-- A new line is passed over with its indentation. -/
lemma skipBlanks_indent (depth : Nat) (t : Text) :
    skipBlanks (indent depth ++ t) = skipBlanks t := by
  have hspaces : ∀ n, (List.replicate n ' ' ++ t).dropWhile isSpace = t.dropWhile isSpace := by
    intro n
    induction n with
    | zero => rfl
    | succ n ih =>
        rw [List.replicate_succ, List.cons_append, List.dropWhile_cons_of_pos (by decide), ih]
  rw [skipBlanks, indent, List.cons_append, List.dropWhile_cons_of_pos (by decide), hspaces,
    skipBlanks]

/-! ### Numbers -/

/-- A number that is an integer from `-2 ^ 63` to `2 ^ 64 - 1`. -/
def Number.isWhole : Number → Bool
  | natural n => n ≤ maxNatural
  | opposite n => 0 < n && n ≤ 0x8000000000000000
  | float x => x = ⟨true, .zero⟩

/-- What follows a number does not go on with it. -/
def EndsNumber (t : Text) : Prop :=
  ∀ c ∈ t.head?, c.isDigit = false ∧ c ≠ '.' ∧ c ≠ 'e' ∧ c ≠ 'E'

lemma endsNumber_comma (t : Text) : EndsNumber (',' :: t) := by
  intro c hc
  obtain rfl : ',' = c := by simpa using hc
  decide

lemma endsNumber_indent (depth : Nat) (t : Text) : EndsNumber (indent depth ++ t) := by
  intro c hc
  obtain rfl : '\n' = c := by simpa [indent] using hc
  decide

lemma endsNumber_nil : EndsNumber [] := by simp [EndsNumber]

/-- What follows some digits does not go on with them. -/
def EndsDigits (t : Text) : Prop := ∀ c ∈ t.head?, c.isDigit = false

lemma EndsNumber.endsDigits {t : Text} (h : EndsNumber t) : EndsDigits t := fun c hc => (h c hc).1

lemma takeWhile_digits_append {ds rest : Text} (hd : ∀ c ∈ ds, c.isDigit = true)
    (h : EndsDigits rest) : (ds ++ rest).takeWhile (·.isDigit) = ds := by
  rw [List.takeWhile_append_of_pos hd]
  cases rest with
  | nil => simp
  | cons c r => simp [h c (by simp)]

lemma dropWhile_digits_append {ds rest : Text} (hd : ∀ c ∈ ds, c.isDigit = true)
    (h : EndsDigits rest) : (ds ++ rest).dropWhile (·.isDigit) = rest := by
  rw [List.dropWhile_append_of_pos hd]
  cases rest with
  | nil => rfl
  | cons c r => simp [h c (by simp)]

/-- Digits never make a number smaller. -/
lemma le_ofDigitChars (ds : Text) (n : Nat) : n ≤ ofDigitChars 10 ds n := by
  induction ds generalizing n with
  | nil => simp
  | cons c r ih =>
      rw [Nat.ofDigitChars_cons]
      exact le_trans (by omega) (ih _)

/-- Digits are appended in full if the result is in range. -/
lemma appendDigits_of_le {ds : Text} {n : Nat} (h : ofDigitChars 10 ds n ≤ maxNatural) :
    appendDigits n ds = (ofDigitChars 10 ds n, []) := by
  induction ds generalizing n with
  | nil => rw [Nat.ofDigitChars_nil]; rfl
  | cons c r ih =>
      rw [Nat.ofDigitChars_cons] at h ⊢
      have hm : n * 10 + digitValue c = 10 * n + (c.toNat - '0'.toNat) := by
        rw [digitValue]
        omega
      have hle := le_trans (le_ofDigitChars r _) h
      rw [appendDigits]
      simp only [hm]
      rw [if_neg (by omega), ih h]

lemma isDigit_of_mem_toDigits {n : Nat} : ∀ c ∈ toDigits 10 n, c.isDigit = true := fun _ hc =>
  Nat.isDigit_of_mem_toDigits (by decide) (by decide) hc

lemma isDigit_of_mem_zero : ∀ c ∈ ['0'], c.isDigit = true := List.forall_mem_singleton.mpr rfl

/-- The digits of a number begin with a zero only if it is the one digit. -/
lemma toDigits_eq_zero_cons {n : Nat} {r : Text} (h : toDigits 10 n = '0' :: r) : r = [] := by
  induction n using Nat.strong_induction_on generalizing r with
  | _ n ih =>
      by_cases hn : n < 10
      · rw [Nat.toDigits_of_lt_base hn] at h
        simpa using (List.cons.inj h).2.symm
      · rw [Nat.toDigits_of_base_le (by decide) (by omega)] at h
        cases hq : toDigits 10 (n / 10) with
        | nil => exact absurd hq Nat.toDigits_ne_nil
        | cons c s =>
            rw [hq, List.cons_append] at h
            obtain ⟨rfl, -⟩ := List.cons.inj h
            obtain rfl := ih (n / 10) (by omega) hq
            -- the rest is no positive number that begins with a zero
            have hz := Nat.ofDigitChars_ten_toDigits (n := n / 10)
            rw [hq] at hz
            have : ofDigitChars 10 ['0'] 0 = 0 := by decide
            omega

end Externalize.Json
