import Externalize.Proofs.Key.Runs

/-
The characters that a key can be made of.

* `Key.exists_isKeyChar_iff`: the characters with a key character in their lower case. These are the
  letters and digits of ASCII and two more: the dotted capital I, which is a small i with a dot
  above, and the Kelvin sign, which is a small k.
* `Key.Keyless`: a text without such a character; `Key.derive?_eq_none_iff_keyless` says that these
  are the texts from which no key is derived.
-/
namespace Externalize.Key

open Text

variable {t : Text} {c : Char} {n : Nat}

/-! ### Characters -/

/-- In lower case an ASCII character is a key character if it is a letter or a digit. -/
lemma isKeyChar_toLower (hc : c.toNat < 0x80) : isKeyChar c.toLower = c.isAlphanum := by
  have hall : ∀ n < 0x80, isKeyChar (Char.ofNat n).toLower = (Char.ofNat n).isAlphanum := by
    decide +kernel
  have hchar := hall c.toNat hc
  rwa [Char.ofNat_toNat] at hchar

/-- Key characters are in ASCII. -/
lemma toNat_lt_of_isKeyChar (h : isKeyChar c = true) : c.toNat < 0x7B := by
  have hcodes : 'z'.val.toNat = 122 ∧ '9'.val.toNat = 57 := by decide
  simp only [isKeyChar, Bool.or_eq_true, Bool.and_eq_true, decide_eq_true_eq, Char.le_def,
    UInt32.le_iff_toNat_le] at h
  rw [Char.toNat]
  omega

/-- A letter or digit of ASCII is in ASCII. -/
lemma isAlphanum_eq_false (hc : 0x80 ≤ c.toNat) : c.isAlphanum = false := by
  by_contra h
  have hcodes : 'Z'.val.toNat = 90 ∧ 'z'.val.toNat = 122 ∧ '9'.val.toNat = 57 := by decide
  have hranges : c.isAlphanum = ((decide ('A'.val ≤ c.val ∧ c.val ≤ 'Z'.val) ||
      decide ('a'.val ≤ c.val) && decide (c.val ≤ 'z'.val)) ||
      decide ('0'.val ≤ c.val) && decide (c.val ≤ '9'.val)) := rfl
  simp only [hranges, Bool.not_eq_false, Bool.or_eq_true, Bool.and_eq_true, decide_eq_true_eq,
    UInt32.le_iff_toNat_le] at h
  rw [Char.toNat] at hc
  omega

/-- A code point beyond the small z gives no key character, valid or not. -/
lemma isKeyChar_ofNat (hn : 0x7B ≤ n) : isKeyChar (Char.ofNat n) = false := by
  by_contra h
  have hlt := toNat_lt_of_isKeyChar (by simpa using h)
  by_cases hvalid : n.isValidChar
  · rw [Char.ofNat, dif_pos hvalid] at hlt
    exact absurd hlt (not_lt.mpr hn)
  · rw [Char.ofNat, dif_neg hvalid] at h
    exact h rfl

/-- No range of the mappings reaches the key characters from outside ASCII, but for that of the
Kelvin sign. -/
lemma lowercaseRanges_spec : ∀ r ∈ lowercaseRanges,
    r.2.1 < 0x80 ∨ r = (0x212A, 0x212A, 1, -8383) ∨ (0x7B : Int) ≤ r.1 + r.2.2.2 := by
  decide +kernel

/-- **The characters with a key character in their lower case** are the letters and digits of ASCII,
the dotted capital I and the Kelvin sign. -/
theorem exists_isKeyChar_iff :
    (∃ d ∈ lowercaseChar c, isKeyChar d = true) ↔
      c.isAlphanum = true ∨ c = '\u0130' ∨ c = '\u212A' := by
  rcases eq_or_ne c '\u0130' with rfl | hdotted
  · exact iff_of_true ⟨'i', List.mem_cons_self, rfl⟩ (.inr (.inl rfl))
  rcases eq_or_ne c '\u212A' with rfl | hkelvin
  · exact iff_of_true ⟨'k', by decide, rfl⟩ (.inr (.inr rfl))
  rw [or_iff_left (not_or.mpr ⟨hdotted, hkelvin⟩)]
  have hdotted' : c.toNat ≠ 0x130 := fun h => hdotted (Char.toNat_inj.mp h)
  have hkelvin' : c.toNat ≠ 0x212A := fun h => hkelvin (Char.toNat_inj.mp h)
  rw [lowercaseChar]
  simp only [if_neg hdotted']
  split_ifs with hascii
  · rw [← isKeyChar_toLower hascii]
    simp
  · have hbeyond := isAlphanum_eq_false (not_lt.mp hascii)
    refine iff_of_false ?_ (by simp [hbeyond])
    split
    · next first last step shift hfound =>
        have hin := List.find?_some hfound
        simp only [Bool.and_eq_true, decide_eq_true_eq] at hin
        have hhigh : 0x7B ≤ (c.toNat + shift).toNat := by
          rcases lowercaseRanges_spec _ (List.mem_of_find?_eq_some hfound) with hlow | heq | hhigh
          · simp only at hlow
            omega
          · simp only [Prod.mk.injEq] at heq
            omega
          · simp only at hhigh
            omega
        simp [isKeyChar_ofNat hhigh]
    · simp only [List.mem_singleton, exists_eq_left]
      exact fun h => absurd (toNat_lt_of_isKeyChar h) (by omega)

/-! ### Texts -/

/-- A text in which nothing can be part of a key: it has no letter and no digit of ASCII, no dotted
capital I and no Kelvin sign. -/
def Keyless (t : Text) : Prop := ∀ c ∈ t, c.isAlphanum = false ∧ c ≠ '\u0130' ∧ c ≠ '\u212A'

instance (t : Text) : Decidable (Keyless t) := List.decidableBAll _ t

lemma keyless_iff : Keyless t ↔
    (∀ c ∈ t, c.isAlphanum = false) ∧ ∀ c ∈ t, c ≠ '\u0130' ∧ c ≠ '\u212A' :=
  forall₂_and

/-- A text has no runs if it has no key characters. -/
lemma runs_eq_nil_iff : runs t = [] ↔ ∀ c ∈ t, isKeyChar c = false := by
  refine ⟨fun h => ?_, fun h => by simpa using runs_append_of_forall h []⟩
  have hnil : ∀ a : Text, (∀ c ∈ a, isKeyChar c = true) → runs a = [] → a = [] := by
    intro a ha hruns
    by_contra hne
    rw [runs_of_forall hne ha] at hruns
    cases hruns
  induction t using runs_induction with
  | last a ha => simp [hnil a ha h]
  | more a c b ha hc ih =>
      rw [runs_append_cons hc, List.append_eq_nil_iff] at h
      rw [hnil a ha h.1, List.nil_append, List.forall_mem_cons]
      exact ⟨hc, ih h.2⟩

/-- A text has no runs in its lower case if it is keyless. -/
lemma runs_lowercase_eq_nil_iff : runs t.lowercase = [] ↔ Keyless t := by
  have hchar : ∀ c, (∀ d ∈ lowercaseChar c, isKeyChar d = false) ↔
      c.isAlphanum = false ∧ c ≠ '\u0130' ∧ c ≠ '\u212A' := by
    intro c
    have hiff := not_congr (exists_isKeyChar_iff (c := c))
    push Not at hiff
    simpa using hiff
  rw [runs_eq_nil_iff, lowercase, List.forall_mem_flatMap]
  exact forall₂_congr fun c _ => hchar c

/-- **No key is derived from a keyless text**, and from every other text one is. -/
theorem derive?_eq_none_iff_keyless : derive? t = none ↔ Keyless t := by
  rw [derive?_eq_none_iff, normalize_eq, join_runs_eq_nil_iff, runs_lowercase_eq_nil_iff]

end Externalize.Key
