import Externalize.Text.Lowercase

/-
Resource keys.

A key is one or more runs of `a`–`z` and `0`–`9`, joined by single underscores.

* `Key.IsValid`: the grammar, as a predicate that evaluates.
* `Key.normalize`: any text made into a key: lower case, each run of other characters turned into
  one underscore, none of them at either end. It is empty if nothing is left.
* `Key.isValid_normalize`: what is left of a text is always a key.
-/
namespace Externalize

/-- The characters of a key, underscores apart. -/
def isKeyChar (c : Char) : Bool := ('a' ≤ c && c ≤ 'z') || ('0' ≤ c && c ≤ '9')

namespace Key

/-- Reads the rest of a key; the flag tells whether the last character read was a key character. -/
def accepts : Bool → Text → Bool
  | inRun, [] => inRun
  | inRun, c :: r => if isKeyChar c then accepts true r else inRun && c == '_' && accepts false r

/-- The grammar of keys. -/
def IsValid (t : Text) : Prop := accepts false t = true

instance (t : Text) : Decidable (IsValid t) := inferInstanceAs (Decidable (accepts false t = true))

/-- Each run of characters outside the key alphabet as one underscore; the flag tells whether the
last character read belongs to such a run. -/
def squeeze : Bool → Text → Text
  | _, [] => []
  | inGap, c :: r =>
    if isKeyChar c then c :: squeeze false r
    else if inGap then squeeze true r
    else '_' :: squeeze true r

/-- The text without the underscores at its ends. -/
def trimUnderscores (t : Text) : Text := Text.dropEndWhile (· == '_') (t.dropWhile (· == '_'))

/-- The text made into a key; empty if it has nothing that a key can be made of. -/
def normalize (raw : Text) : Text := trimUnderscores (squeeze false raw.lowercase)

end Key

/-- A resource key. -/
structure Key where
  text : Text
  isValid : Key.IsValid text

namespace Key

instance : DecidableEq Key := fun a b =>
  decidable_of_iff (a.text = b.text) ⟨fun h => by cases a; cases b; simp_all, fun h => h ▸ rfl⟩

/-- The key with exactly this text. -/
def parse? (t : Text) : Option Key := if h : IsValid t then some ⟨t, h⟩ else none

/-! ### The characters of a key -/

theorem forall_mem_of_accepts {inRun : Bool} {t : Text} (h : accepts inRun t = true) :
    ∀ c ∈ t, isKeyChar c = true ∨ c = '_' := by
  fun_induction accepts inRun t with
  | case1 => exact fun _ hmem => nomatch hmem
  | case2 inRun c r hkey ih =>
    intro d hd
    rcases List.mem_cons.mp hd with rfl | hd
    · exact .inl hkey
    · exact ih h d hd
  | case3 inRun c r hkey ih =>
    simp only [Bool.and_eq_true, beq_iff_eq] at h
    intro d hd
    rcases List.mem_cons.mp hd with rfl | hd
    · exact .inr h.1.2
    · exact ih h.2 d hd

/-- A key has key characters and underscores only. -/
theorem isKeyChar_of_mem (k : Key) {c : Char} (h : c ∈ k.text) : isKeyChar c = true ∨ c = '_' :=
  forall_mem_of_accepts k.isValid c h

/-! ### Normal texts are keys -/

@[simp] theorem isKeyChar_underscore : isKeyChar '_' = false := by decide

theorem ne_underscore_of_isKeyChar {c : Char} (h : isKeyChar c = true) : (c == '_') = false := by
  rw [beq_eq_false_iff_ne]
  rintro rfl
  simp at h

/-- Without the underscore at its start a squeezed text is squeezed as if inside a gap. -/
theorem dropWhile_squeeze (t : Text) (inGap : Bool) :
    (squeeze inGap t).dropWhile (· == '_') = squeeze true t := by
  induction t generalizing inGap with
  | nil => rfl
  | cons c r ih =>
    by_cases h : isKeyChar c = true
    · simp [squeeze, h, ne_underscore_of_isKeyChar h]
    · cases inGap <;> simp [squeeze, h, ih]

/-- Without the underscore at its end a squeezed text is the rest of a key; after an underscore it
may also be empty. -/
theorem accepts_dropEndWhile_squeeze (t : Text) :
    accepts true (Text.dropEndWhile (· == '_') (squeeze false t)) = true ∧
      (squeeze true t = [] ∨
        accepts false (Text.dropEndWhile (· == '_') (squeeze true t)) = true) := by
  induction t with
  | nil => exact ⟨rfl, .inl rfl⟩
  | cons c r ih =>
    obtain ⟨ih₁, ih₂⟩ := ih
    by_cases h : isKeyChar c = true
    · have hc := ne_underscore_of_isKeyChar h
      simp [squeeze, h, Text.dropEndWhile_cons, hc, accepts, ih₁]
    · refine ⟨?_, by simpa [squeeze, h] using ih₂⟩
      rcases ih₂ with he | ha
      · simp [squeeze, h, he, Text.dropEndWhile, accepts]
      · have hne : Text.dropEndWhile (· == '_') (squeeze true r) ≠ [] := by
          intro he
          rw [he] at ha
          simp [accepts] at ha
        simp [squeeze, h, Text.dropEndWhile_cons, hne, accepts, ha]

/-- What is left of a text is a key. -/
theorem isValid_normalize {raw : Text} (h : normalize raw ≠ []) : IsValid (normalize raw) := by
  have hn : normalize raw = Text.dropEndWhile (· == '_') (squeeze true raw.lowercase) := by
    simp only [normalize, trimUnderscores, dropWhile_squeeze]
  rw [hn] at h ⊢
  exact (accepts_dropEndWhile_squeeze raw.lowercase).2.resolve_left fun he =>
    h (by simp [he, Text.dropEndWhile])

/-- The key made of a text, if anything of it can be part of a key. -/
def derive? (raw : Text) : Option Key :=
  if h : normalize raw = [] then none else some ⟨normalize raw, isValid_normalize h⟩

end Key

end Externalize
