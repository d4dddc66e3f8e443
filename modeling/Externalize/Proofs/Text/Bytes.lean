import Externalize.Proofs.Text.Lines

/-
The bytes of a text.

* `Text.bytes`: the UTF-8 form, as it is written to files.
* `Text.mem_bytes_iff`, `Text.getLast?_bytes_iff`: an ASCII byte stands for its character, and is no
  part of another one.
* `Text.exists_around`: an offset lies between two characters, or within one that is not ASCII.
-/
namespace Externalize.Text

variable {t a b : Text} {c d : Char} {o : Nat}

/-- The UTF-8 form of a text. -/
def bytes (t : Text) : List UInt8 := t.flatMap String.utf8EncodeChar

@[simp] lemma bytes_nil : bytes [] = [] := rfl

lemma bytes_cons (c : Char) (t : Text) : bytes (c :: t) = String.utf8EncodeChar c ++ bytes t :=
  List.flatMap_cons

@[simp] lemma bytes_append (a b : Text) : bytes (a ++ b) = bytes a ++ bytes b :=
  List.flatMap_append

@[simp] lemma length_bytes (t : Text) : (bytes t).length = size t := by
  induction t with
  | nil => rfl
  | cons c t ih => rw [bytes_cons, List.length_append, String.length_utf8EncodeChar, ih, size_cons]

/-! ### ASCII bytes -/

/-- A character is one byte, with its own code, or bytes from 128 on. -/
lemma utf8EncodeChar_cases (c : Char) :
    c.val.toNat < 128 ∧ String.utf8EncodeChar c = [c.toUInt8] ∨
      128 ≤ c.val.toNat ∧ ∀ b ∈ String.utf8EncodeChar c, 128 ≤ b.toNat := by
  rcases Nat.lt_or_ge c.val.toNat 128 with hsmall | hlarge
  · refine .inl ⟨hsmall, ?_⟩
    rw [String.utf8EncodeChar, if_pos (Nat.le_of_lt_succ hsmall)]
    rfl
  · refine .inr ⟨hlarge, fun b hb => ?_⟩
    rw [String.utf8EncodeChar, if_neg (by omega)] at hb
    split_ifs at hb <;> simp only [List.mem_cons, List.not_mem_nil, or_false] at hb
    · rcases hb with rfl | rfl <;> rw [UInt8.toNat_ofNat'] <;> omega
    · rcases hb with rfl | rfl | rfl <;> rw [UInt8.toNat_ofNat'] <;> omega
    · rcases hb with rfl | rfl | rfl | rfl <;> rw [UInt8.toNat_ofNat'] <;> omega

lemma toNat_toUInt8 (hc : c.val.toNat < 128) : c.toUInt8.toNat = c.val.toNat := by
  rw [Char.toUInt8, UInt32.toNat_toUInt8]
  exact Nat.mod_eq_of_lt (hc.trans (by decide))

/-- The byte of an ASCII character is in that character alone. -/
lemma mem_utf8EncodeChar_iff (hd : d.val.toNat < 128) :
    d.toUInt8 ∈ String.utf8EncodeChar c ↔ c = d := by
  have hcode := toNat_toUInt8 hd
  rcases utf8EncodeChar_cases c with ⟨hc, hbytes⟩ | ⟨hc, hbytes⟩
  · rw [hbytes, List.mem_singleton]
    constructor
    · intro heq
      have hval := toNat_toUInt8 hc
      rw [← heq, hcode] at hval
      exact Char.ext (UInt32.toNat_inj.mp hval.symm)
    · rintro rfl
      rfl
  · refine iff_of_false (fun hmem => ?_) ?_
    · have hbyte := hbytes _ hmem
      omega
    · rintro rfl
      omega

theorem mem_bytes_iff (hd : d.val.toNat < 128) : d.toUInt8 ∈ bytes t ↔ d ∈ t := by
  rw [bytes, List.mem_flatMap]
  constructor
  · rintro ⟨c, hc, hmem⟩
    exact (mem_utf8EncodeChar_iff hd).mp hmem ▸ hc
  · exact fun hmem => ⟨d, hmem, (mem_utf8EncodeChar_iff hd).mpr rfl⟩

/-- The last byte of a text is that of an ASCII character if the text ends with the character. -/
theorem getLast?_bytes_iff (hd : d.val.toNat < 128) :
    (bytes t).getLast? = some d.toUInt8 ↔ t.getLast? = some d := by
  rcases List.eq_nil_or_concat t with rfl | ⟨init, c, rfl⟩
  · exact iff_of_false (fun h => nomatch h) (fun h => nomatch h)
  · have hne : String.utf8EncodeChar c ≠ [] := by
      have hpos := c.utf8Size_pos
      rw [← List.length_pos_iff, String.length_utf8EncodeChar]
      exact hpos
    rw [List.concat_eq_append, List.getLast?_concat, bytes_append, bytes_cons, bytes_nil,
      List.append_nil, List.getLast?_append_of_ne_nil _ hne, Option.some_inj]
    constructor
    · exact fun h => (mem_utf8EncodeChar_iff hd).mp (List.mem_of_getLast? h)
    · rintro rfl
      rcases utf8EncodeChar_cases c with ⟨-, hbytes⟩ | ⟨hc, -⟩
      · rw [hbytes]
        rfl
      · omega

/-! ### Offsets -/

/-- What comes after an offset begins at the offset, or after the rest of a character that is not
ASCII. -/
theorem exists_around (ho : o ≤ size t) : ∃ u, t = u ++ after t o ∧ o ≤ size u ∧
    ∀ b ∈ (bytes u).drop o, 128 ≤ b.toNat := by
  induction t generalizing o with
  | nil => exact ⟨[], rfl, ho, fun b hb => by simp at hb⟩
  | cons c t ih =>
      rw [after]
      split_ifs with hzero
      · subst hzero
        exact ⟨[], rfl, Nat.zero_le _, fun b hb => by simp at hb⟩
      · rcases Nat.lt_or_ge o c.utf8Size with hlt | hge
        · -- the offset splits the character
          refine ⟨[c], ?_, ?_, fun b hb => ?_⟩
          · rw [Nat.sub_eq_zero_of_le hlt.le, after_zero]
            rfl
          · rw [size_cons]
            omega
          · rw [bytes_cons, bytes_nil, List.append_nil] at hb
            rcases utf8EncodeChar_cases c with ⟨-, hbytes⟩ | ⟨-, hbytes⟩
            · have hlength := String.length_utf8EncodeChar c
              rw [hbytes, List.length_singleton] at hlength
              omega
            · exact hbytes b (List.mem_of_mem_drop hb)
        · rw [size_cons] at ho
          obtain ⟨u, hu, hle, hbytes⟩ := ih (o := o - c.utf8Size) (by omega)
          refine ⟨c :: u, by rw [List.cons_append, ← hu], by rw [size_cons]; omega, ?_⟩
          rwa [bytes_cons, List.drop_append, String.length_utf8EncodeChar,
            List.drop_eq_nil_of_le (by rwa [String.length_utf8EncodeChar]), List.nil_append]

lemma before_of_size_le (h : size t ≤ o) : before t o = t := by
  induction t generalizing o with
  | nil => rfl
  | cons c t ih =>
      rw [size_cons] at h
      rw [before, if_pos (by omega), ih (by omega)]

lemma after_of_size_le (h : size t ≤ o) : after t o = [] := by
  have hsize := size_after_le t o
  exact eq_nil_of_size_eq_zero (by omega)

/-- An offset past the end is as good as the end. -/
lemma before_min_size (t : Text) (o : Nat) : before t (min o (size t)) = before t o := by
  rcases Nat.le_total o (size t) with hle | hge
  · rw [Nat.min_eq_left hle]
  · rw [Nat.min_eq_right hge, before_of_size_le le_rfl, before_of_size_le hge]

lemma after_min_size (t : Text) (o : Nat) : after t (min o (size t)) = after t o := by
  rcases Nat.le_total o (size t) with hle | hge
  · rw [Nat.min_eq_left hle]
  · rw [Nat.min_eq_right hge, after_of_size_le le_rfl, after_of_size_le hge]

lemma lineStart_min_size (t : Text) (o : Nat) : lineStart t (min o (size t)) = lineStart t o := by
  rw [lineStart, lineStart, before_min_size]

lemma lineEnd_min_size (t : Text) (o : Nat) : lineEnd t (min o (size t)) = lineEnd t o := by
  rw [lineEnd, lineEnd, after_min_size]

end Externalize.Text
