import Mathlib.Data.List.TakeWhile
import Externalize.CommandLine.Selection
import Externalize.Proofs.Json.Tokens

/-
The texts that are ranges.

* `Word64.Writes`: a numeral and its value. `Word64.ofText_eq_ok_iff` says that the numerals in
  range are what is read as a number.
* `Text.trim_append`, `Text.exists_trim`: trimming takes the blanks at the ends away, and nothing
  else.
* `Selection.Writes`: two numerals with two dots between them and blanks around each of them, and
  the two values.
* `Selection.ofText_iff_writes`: **the texts that are read as a range are these, if the values are
  in order and in range**.
-/
namespace Externalize

open Nat (toDigits ofDigitChars)

/-! ### Numerals -/

namespace Word64

variable {n m : Nat} {t : Text}

/-- One or more decimal digits, with or without a plus before them, and the number that the digits
write. -/
inductive Writes : Text → Nat → Prop
  | plain {ds : Text} (hne : ds ≠ []) (hds : ∀ c ∈ ds, c.isDigit = true) :
      Writes ds (ofDigitChars 10 ds 0)
  | signed {ds : Text} (hne : ds ≠ []) (hds : ∀ c ∈ ds, c.isDigit = true) :
      Writes ('+' :: ds) (ofDigitChars 10 ds 0)

/-- What stands in a numeral is a digit, or the plus. -/
lemma Writes.isDigit_or_eq (h : Writes t n) : ∀ c ∈ t, c.isDigit = true ∨ c = '+' := by
  intro c hc
  cases h with
  | plain _ hds => exact .inl (hds c hc)
  | signed _ hds =>
      rcases List.mem_cons.mp hc with rfl | hc
      · exact .inr rfl
      · exact .inl (hds c hc)

/-- The digits of a number are a numeral. -/
lemma writes_toDigits (n : Nat) : Writes (toDigits 10 n) n := by
  have h : Writes (toDigits 10 n) (ofDigitChars 10 (toDigits 10 n) 0) :=
    .plain Nat.toDigits_ne_nil Json.isDigit_of_mem_toDigits
  rwa [Nat.ofDigitChars_ten_toDigits] at h

/-- Digits are read to their end, if the number stays in range. -/
theorem digits_eq_ok_iff (hn : n ≤ largest) :
    digits n t = .ok m ↔ (∀ c ∈ t, c.isDigit = true) ∧ ofDigitChars 10 t n = m ∧ m ≤ largest := by
  induction t generalizing n with
  | nil =>
      rw [digits, Except.ok.injEq, Nat.ofDigitChars_nil]
      exact ⟨fun h => ⟨by simp, h, h ▸ hn⟩, fun h => h.2.1⟩
  | cons c r ih =>
      have hstep : n * 10 + (c.toNat - '0'.toNat) = 10 * n + (c.toNat - '0'.toNat) := by omega
      rw [digits, digit?, Nat.ofDigitChars_cons, List.forall_mem_cons, ← hstep]
      by_cases hc : c.isDigit = true
      · simp only [hc, if_true, true_and]
        split_ifs with hle
        · exact ih hle
        · -- digits never make a number smaller again
          refine iff_of_false (by simp) ?_
          rintro ⟨-, rfl, hle'⟩
          exact hle ((Json.le_ofDigitChars r _).trans hle')
      · simp [hc]

/-- **What is read as a number is a numeral** whose value is in range. -/
theorem ofText_eq_ok_iff : ofText t = .ok n ↔ Writes t n ∧ n ≤ largest := by
  have hdigits : ∀ ds : Text, digits 0 ds = .ok n ↔
      (∀ c ∈ ds, c.isDigit = true) ∧ ofDigitChars 10 ds 0 = n ∧ n ≤ largest := fun _ =>
    digits_eq_ok_iff (Nat.zero_le _)
  constructor
  · intro h
    unfold ofText at h
    split at h
    next => cases h
    next => cases h
    next r hne =>
      obtain ⟨hr, rfl, hle⟩ := (hdigits r).mp h
      exact ⟨.signed (fun hnil => hne (by rw [hnil])) hr, hle⟩
    next hne _ _ =>
      obtain ⟨ht, rfl, hle⟩ := (hdigits t).mp h
      exact ⟨.plain hne ht, hle⟩
  · rintro ⟨h, hle⟩
    cases h with
    | plain hne hds =>
        have hread := (hdigits t).mpr ⟨hds, rfl, hle⟩
        unfold ofText
        split
        next => exact absurd rfl hne
        next => exact absurd (hds '+' List.mem_cons_self) (by decide)
        next => exact absurd (hds '+' List.mem_cons_self) (by decide)
        next => exact hread
    | @signed ds hne hds =>
        have hread := (hdigits ds).mpr ⟨hds, rfl, hle⟩
        obtain ⟨c, r, rfl⟩ := List.exists_cons_of_ne_nil hne
        exact hread

end Word64

/-! ### Blanks at the ends -/

namespace Text

variable {a b t : Text}

/-- Trimming takes blanks from the two ends. -/
lemma exists_trim (t : Text) : ∃ a b, t = a ++ t.trim ++ b ∧ (∀ c ∈ a, isBlank c = true) ∧
    ∀ c ∈ b, isBlank c = true := by
  have hstart := List.takeWhile_append_dropWhile (p := isBlank) (l := t)
  have hend := List.takeWhile_append_dropWhile (p := isBlank) (l := t.trimStart.reverse)
  refine ⟨t.takeWhile isBlank, (t.trimStart.reverse.takeWhile isBlank).reverse, ?_,
    List.all_eq_true.mp List.all_takeWhile, fun c hc => ?_⟩
  · rw [List.append_assoc, trim, trimEnd, dropEndWhile, ← List.reverse_append, hend,
      List.reverse_reverse, trimStart, hstart]
  · exact List.all_eq_true.mp List.all_takeWhile c (List.mem_reverse.mp hc)

/-- Blanks after a text without blanks are trimmed. -/
lemma trimEnd_append (ht : ∀ c ∈ t, isBlank c = false) (hb : ∀ c ∈ b, isBlank c = true) :
    trimEnd (t ++ b) = t := by
  induction t with
  | nil =>
      have hrev : ∀ c ∈ b.reverse, isBlank c = true := fun c hc => hb c (List.mem_reverse.mp hc)
      rw [trimEnd, dropEndWhile, List.nil_append, List.dropWhile_eq_nil_iff.mpr hrev]
      rfl
  | cons c t ih =>
      obtain ⟨hc, ht⟩ := List.forall_mem_cons.mp ht
      rw [trimEnd] at ih ⊢
      rw [List.cons_append, dropEndWhile_cons, if_neg (by simp [hc]), ih ht]

/-- Blanks around a text without blanks are trimmed, and nothing else is. -/
lemma trim_append (ht : ∀ c ∈ t, isBlank c = false) (ha : ∀ c ∈ a, isBlank c = true)
    (hb : ∀ c ∈ b, isBlank c = true) : trim (a ++ t ++ b) = t := by
  rw [trim, trimStart, List.append_assoc, List.dropWhile_append_of_pos ha]
  cases t with
  | nil =>
      rw [List.nil_append, List.dropWhile_eq_nil_iff.mpr hb]
      rfl
  | cons c t =>
      have hc : ¬ isBlank c = true := by simp [ht c List.mem_cons_self]
      rw [List.cons_append, List.dropWhile_cons_of_neg hc, ← List.cons_append, trimEnd_append ht hb]

end Text

/-! ### Ranges -/

namespace Selection

variable {t s : Text} {m n : Nat} {fault : Text → SelectionFault}

/-- A numeral with blanks around it, and its value. -/
def Pads (t : Text) (n : Nat) : Prop :=
  ∃ a x b, t = a ++ x ++ b ∧ (∀ c ∈ a, isBlank c = true) ∧ (∀ c ∈ b, isBlank c = true) ∧
    Word64.Writes x n

/-- Two numerals with two dots between them, and blanks around each of them, and the two values. -/
def Writes (t : Text) (m n : Nat) : Prop := ∃ s u, t = s ++ '.' :: '.' :: u ∧ Pads s m ∧ Pads u n

/-- No character of a numeral is a blank. -/
lemma isBlank_of_writes (h : Word64.Writes t n) : ∀ c ∈ t, isBlank c = false := by
  intro c hc
  rcases h.isDigit_or_eq c hc with hdigit | rfl
  · have hcode : 48 ≤ c.val.toNat ∧ c.val.toNat ≤ 57 := by
      have hcodes : '0'.val.toNat = 48 ∧ '9'.val.toNat = 57 := by decide
      simp only [Char.isDigit, Bool.and_eq_true, decide_eq_true_eq, ge_iff_le,
        UInt32.le_iff_toNat_le] at hdigit
      omega
    by_contra hblank
    simp only [Bool.not_eq_false, isBlank, Bool.or_eq_true, Bool.and_eq_true, decide_eq_true_eq,
      beq_iff_eq] at hblank
    omega
  · rfl

/-- There is no dot in a numeral and the blanks around it. -/
lemma Pads.dot_notMem (h : Pads t n) : '.' ∉ t := by
  obtain ⟨a, x, b, rfl, ha, hb, hx⟩ := h
  intro hmem
  rcases List.mem_append.mp hmem with hmem | hmem
  · rcases List.mem_append.mp hmem with hmem | hmem
    · exact absurd (ha _ hmem) (by decide)
    · exact absurd (hx.isDigit_or_eq _ hmem) (by decide)
  · exact absurd (hb _ hmem) (by decide)

/-- One side of a range is read if it is a numeral in range with blanks around it. -/
theorem side_eq_ok_iff : side fault t = .ok n ↔ Pads t n ∧ n ≤ Word64.largest := by
  have hside : side fault t = .ok n ↔ Word64.ofText t.trim = .ok n := by
    rw [side]
    split <;> simp_all
  rw [hside, Word64.ofText_eq_ok_iff]
  refine and_congr_left' ⟨fun h => ?_, ?_⟩
  · obtain ⟨a, b, ht, ha, hb⟩ := Text.exists_trim t
    exact ⟨a, t.trim, b, ht, ha, hb, h⟩
  · rintro ⟨a, x, b, rfl, ha, hb, hx⟩
    rwa [Text.trim_append (isBlank_of_writes hx) ha hb]

/-- Two dots after a text without one are the first two. -/
lemma cut?_append (hs : '.' ∉ s) (u : Text) : cut? (s ++ '.' :: '.' :: u) = some (s, u) := by
  induction s with
  | nil => rfl
  | cons c s ih =>
      rw [List.mem_cons, not_or] at hs
      rw [List.cons_append, cut?, ih hs.2]
      · rfl
      · rintro r rfl
        exact absurd rfl hs.1

/-- A range is read from its two sides. -/
theorem ofText_eq_ok_iff :
    ofText t = .ok (m, n) ↔ Writes t m n ∧ m ≤ n ∧ n ≤ Word64.largest := by
  constructor
  · intro h
    have hle := ofText_le h
    unfold ofText at h
    split at h
    next => cases h
    next s u hcut =>
      split at h
      next => cases h
      next => cases h
      next hm hn =>
        split_ifs at h
        cases h
        obtain ⟨hs, -⟩ := side_eq_ok_iff.mp hm
        obtain ⟨hu, hlargest⟩ := side_eq_ok_iff.mp hn
        exact ⟨⟨s, u, eq_of_cut? hcut, hs, hu⟩, hle, hlargest⟩
  · rintro ⟨⟨s, u, rfl, hs, hu⟩, hle, hlargest⟩
    rw [ofText, cut?_append hs.dot_notMem]
    simp only [side_eq_ok_iff.mpr ⟨hs, hle.trans hlargest⟩, side_eq_ok_iff.mpr ⟨hu, hlargest⟩,
      if_pos hle]

/-- **A text is read as a range if and only if it is two numerals with two dots between them**, and
blanks around each of them, whose values are in order and below `2 ^ 64`; and these values are what
is read. So the decimal digits of two such numbers with two dots between them are read as these
numbers. -/
theorem ofText_iff_writes (t : Text) :
    ((∃ r, ofText t = .ok r) ↔ ∃ m n, Writes t m n ∧ m ≤ n ∧ n < 2 ^ 64) ∧
    (∀ m n, ofText t = .ok (m, n) ↔ Writes t m n ∧ m ≤ n ∧ n < 2 ^ 64) ∧
    ∀ a b, a ≤ b → b < 2 ^ 64 →
      ofText (toDigits 10 a ++ ['.', '.'] ++ toDigits 10 b) = .ok (a, b) := by
  have hlargest : ∀ n, n ≤ Word64.largest ↔ n < 2 ^ 64 := fun n => by
    rw [Word64.largest]
    omega
  have hread : ∀ t m n, ofText t = .ok (m, n) ↔ Writes t m n ∧ m ≤ n ∧ n < 2 ^ 64 := fun t m n => by
    rw [ofText_eq_ok_iff, hlargest]
  refine ⟨⟨fun ⟨r, hr⟩ => ⟨r.1, r.2, (hread t r.1 r.2).mp hr⟩,
    fun ⟨m, n, h⟩ => ⟨_, (hread t m n).mpr h⟩⟩, hread t,
    fun a b hab hb => (hread _ a b).mpr ⟨?_, hab, hb⟩⟩
  have hpads : ∀ k, Pads (toDigits 10 k) k := fun k =>
    ⟨[], toDigits 10 k, [], by simp, by simp, by simp, Word64.writes_toDigits k⟩
  exact ⟨_, _, by simp, hpads a, hpads b⟩

/-- A range with a sign, zeros and odd blanks, and one that a third dot spoils. -/
theorem ofText_iff_writes_padded :
    Writes "\u3000+007..\t8 ".toList 7 8 ∧ ofText "\u3000+007..\t8 ".toList = .ok (7, 8) ∧
    ¬ (∃ m n, Writes "3...8".toList m n ∧ m ≤ n ∧ n < 2 ^ 64) ∧
    ofText (toDigits 10 3 ++ ['.', '.'] ++ toDigits 10 18446744073709551615) =
      .ok (3, 18446744073709551615) := by
  have hread : ofText "\u3000+007..\t8 ".toList = .ok (7, 8) := by decide +kernel
  have hdots : ¬ ∃ r, ofText "3...8".toList = .ok r := by
    have hfault : ofText "3...8".toList = .error (.stop ".8".toList) := by decide +kernel
    rw [hfault]
    rintro ⟨r, ⟨⟩⟩
  obtain ⟨-, hpadded, hdecimal⟩ := ofText_iff_writes "\u3000+007..\t8 ".toList
  exact ⟨((hpadded 7 8).mp hread).1, hread,
    (not_congr (ofText_iff_writes "3...8".toList).1).mp hdots,
    hdecimal 3 18446744073709551615 (by decide) (by decide)⟩

end Selection

end Externalize
