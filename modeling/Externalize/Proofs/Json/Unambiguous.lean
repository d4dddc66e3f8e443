import Externalize.Proofs.Json.Forms

/-
A text spells one form at most.

* `Json.Numeral.eq_of_append`: numerals are told apart by their texts.
* `Json.Spells.unique`, `Json.SpellsText.unique`: so are forms.
-/
namespace Externalize.Json

/-! ### Digits -/

section Digits

variable {ds ds' r r' : Text}

lemma eq_of_digits_append (hds : ∀ c ∈ ds, c.isDigit = true) (hds' : ∀ c ∈ ds', c.isDigit = true)
    (hr : EndsDigits r) (hr' : EndsDigits r') (h : ds ++ r = ds' ++ r') : ds = ds' ∧ r = r' := by
  have htake := takeWhile_digits_append hds hr
  rw [h, takeWhile_digits_append hds' hr'] at htake
  have hdrop := dropWhile_digits_append hds hr
  rw [h, dropWhile_digits_append hds' hr'] at hdrop
  exact ⟨htake.symm, hdrop.symm⟩

end Digits

/-! ### Numerals -/

section Numerals

variable {x x' : Exponent} {n n' : Numeral} {r r' : Text}

lemma Exponent.sign_not_digits {c : Char} {u : Text} (hc : c ∈ x.sign) :
    c :: u ≠ x'.digits ++ r := by
  intro h
  obtain ⟨d, ds, hcons⟩ := List.exists_cons_of_ne_nil x'.ne_nil
  rw [hcons, List.cons_append] at h
  obtain rfl := (List.cons.inj h).1
  have hdigit := x'.isDigit c (by simp [hcons])
  rcases x.isSign c hc with rfl | rfl <;> cases hdigit

lemma Exponent.eq_of_append (hr : EndsDigits r) (hr' : EndsDigits r')
    (h : x.text ++ r = x'.text ++ r') : x = x' ∧ r = r' := by
  simp only [text, List.cons_append, List.append_assoc] at h
  obtain ⟨hmark, h⟩ := List.cons.inj h
  have hsign : x.sign = x'.sign ∧ x.digits ++ r = x'.digits ++ r' := by
    cases hs : x.sign with
    | none =>
        cases hs' : x'.sign with
        | none => exact ⟨rfl, by simpa [hs, hs'] using h⟩
        | some c => exact absurd (by simpa [hs, hs'] using h.symm) (sign_not_digits hs')
    | some c =>
        cases hs' : x'.sign with
        | none => exact absurd (by simpa [hs, hs'] using h) (sign_not_digits hs)
        | some d => simpa [hs, hs'] using h
  obtain ⟨hdigits, hrest⟩ := eq_of_digits_append x.isDigit x'.isDigit hr hr' hsign.2
  exact ⟨Exponent.ext hmark hsign.1 hdigits, hrest⟩

lemma Exponent.mark_not_endsNumber (hr : EndsNumber r) (u : Text) : x.text ++ u ≠ r := by
  rintro rfl
  obtain ⟨-, -, he, hE⟩ := hr x.mark (by simp [text])
  exact x.isMark.elim he hE

lemma eq_of_exponent_append {x x' : Option Exponent} (hr : EndsNumber r) (hr' : EndsNumber r')
    (h : x.elim [] Exponent.text ++ r = x'.elim [] Exponent.text ++ r') : x = x' ∧ r = r' := by
  cases x with
  | none =>
      cases x' with
      | none => exact ⟨rfl, h⟩
      | some x' => exact absurd h.symm (Exponent.mark_not_endsNumber hr r')
  | some x =>
      cases x' with
      | none => exact absurd h (Exponent.mark_not_endsNumber hr' r)
      | some x' =>
          obtain ⟨rfl, hrest⟩ := Exponent.eq_of_append hr.endsDigits hr'.endsDigits h
          exact ⟨rfl, hrest⟩

/-- A fraction begins with a point, and nothing else that follows digits does. -/
lemma point_not_exponent {x : Option Exponent} (hr : EndsNumber r) (u : Text) :
    '.' :: u ≠ x.elim [] Exponent.text ++ r := by
  intro h
  cases x with
  | none => exact (hr '.' (by rw [← List.nil_append r]; exact h ▸ rfl)).2.1 rfl
  | some x =>
      have hmark := x.isMark
      rw [← (List.cons.inj h).1] at hmark
      simp at hmark

namespace Numeral

lemma head_isDigit (n : Numeral) : ∃ c u, n.unsigned = c :: u ∧ c.isDigit = true := by
  obtain ⟨c, ds, hcons⟩ := List.exists_cons_of_ne_nil n.ne_nil
  exact ⟨c, ds ++ n.scaleText, by rw [unsigned, hcons, List.cons_append],
    n.isDigit c (by simp [hcons])⟩

/-- A numeral begins with its sign or with a digit. -/
def Begins (c : Char) : Bool := c == '-' || c.isDigit

lemma text_eq_cons (n : Numeral) : ∃ c u, n.text = c :: u ∧ Begins c = true := by
  obtain ⟨c, u, hcons, hc⟩ := n.head_isDigit
  rw [text]
  split_ifs
  · exact ⟨'-', _, rfl, rfl⟩
  · exact ⟨c, u, hcons, by simp [Begins, hc]⟩

lemma eq_of_scaleText_append (hr : EndsNumber r) (hr' : EndsNumber r')
    (h : n.scaleText ++ r = n'.scaleText ++ r') :
    n.fraction = n'.fraction ∧ n.exponent = n'.exponent ∧ r = r' := by
  have hpoint : ∀ {n : Numeral}, n.fraction ≠ [] → ∀ {r}, n.scaleText ++ r =
      '.' :: (n.fraction ++ (n.exponent.elim [] Exponent.text ++ r)) := fun hf r => by
    simp [scaleText, hf]
  have hnone : ∀ {n : Numeral}, n.fraction = [] → ∀ {r}, n.scaleText ++ r =
      n.exponent.elim [] Exponent.text ++ r := fun hf r => by
    simp [scaleText, hf]
  by_cases hf : n.fraction = [] <;> by_cases hf' : n'.fraction = []
  · rw [hnone hf, hnone hf'] at h
    obtain ⟨hx, hrest⟩ := eq_of_exponent_append hr hr' h
    exact ⟨hf.trans hf'.symm, hx, hrest⟩
  · rw [hnone hf, hpoint hf'] at h
    exact absurd h.symm (point_not_exponent hr _)
  · rw [hpoint hf, hnone hf'] at h
    exact absurd h (point_not_exponent hr' _)
  · rw [hpoint hf, hpoint hf'] at h
    obtain ⟨hfraction, h⟩ := eq_of_digits_append n.isFraction n'.isFraction
      (endsDigits_exponent _ hr) (endsDigits_exponent _ hr') (List.cons.inj h).2
    obtain ⟨hx, hrest⟩ := eq_of_exponent_append hr hr' h
    exact ⟨hfraction, hx, hrest⟩

lemma eq_of_unsigned_append (hr : EndsNumber r) (hr' : EndsNumber r')
    (hnegative : n.negative = n'.negative) (h : n.unsigned ++ r = n'.unsigned ++ r') :
    n = n' ∧ r = r' := by
  rw [unsigned, unsigned, List.append_assoc, List.append_assoc] at h
  obtain ⟨hwhole, h⟩ := eq_of_digits_append n.isDigit n'.isDigit (n.endsDigits_scaleText hr)
    (n'.endsDigits_scaleText hr') h
  obtain ⟨hfraction, hx, hrest⟩ := eq_of_scaleText_append hr hr' h
  exact ⟨Numeral.ext hnegative hwhole hfraction hx, hrest⟩

/-- **Numerals are told apart by their texts.** -/
theorem eq_of_append (hr : EndsNumber r) (hr' : EndsNumber r') (h : n.text ++ r = n'.text ++ r') :
    n = n' ∧ r = r' := by
  have hminus : ∀ (n : Numeral) {u v : Text}, '-' :: u ≠ n.unsigned ++ v := by
    intro n u v h
    obtain ⟨c, w, hcons, hc⟩ := n.head_isDigit
    rw [hcons, List.cons_append] at h
    rw [← (List.cons.inj h).1] at hc
    cases hc
  rw [text, text] at h
  split_ifs at h with hn hn' hn'
  · exact eq_of_unsigned_append hr hr' (hn.trans hn'.symm) (List.cons.inj h).2
  · exact absurd h (hminus n')
  · exact absurd h.symm (hminus n)
  · exact eq_of_unsigned_append hr hr' (by simp_all) h

end Numeral

end Numerals

/-! ### Forms -/

section Forms

variable {f f' : Form} {t u u' r r' : Text}

/-- A character that begins no number. -/
lemma cons_ne_numeral {c : Char} {n : Numeral} (hc : Numeral.Begins c = false) :
    c :: t ≠ n.text ++ r := by
  intro h
  obtain ⟨d, v, hcons, hd⟩ := n.text_eq_cons
  rw [hcons, List.cons_append] at h
  rw [← (List.cons.inj h).1, hc] at hd
  cases hd

/-- A form begins with no blank. -/
lemma skipBlanks_of_spells (h : Spells f t r) : skipBlanks t = t := by
  cases h with
  | number n ht _ =>
      obtain ⟨c, u, hcons, hc⟩ := n.text_eq_cons
      rw [ht, hcons, List.cons_append, skipBlanks_cons]
      rcases Bool.or_eq_true _ _ |>.mp hc with hminus | hdigit
      · rw [beq_iff_eq.mp hminus]
        rfl
      · exact isSpace_of_isDigit hdigit
  | _ => exact skipBlanks_cons rfl

/-- A form does not begin with the end of an array. -/
lemma not_spells_bracket : ¬ Spells f (']' :: t) r := by
  intro h
  cases h with
  | number n ht _ => exact cons_ne_numeral rfl ht

lemma spells_numeral {n : Numeral} (hr : EndsNumber r) (h : Spells f' (n.text ++ r) r') :
    .number n = f' ∧ r = r' := by
  generalize ht : n.text ++ r = t at h
  cases h with
  | number n' ht' hr' =>
      obtain ⟨rfl, rfl⟩ := Numeral.eq_of_append hr hr' (ht.trans ht')
      exact ⟨rfl, rfl⟩
  | _ => exact absurd ht.symm (cons_ne_numeral rfl)

/-- Blanks end where the next thing begins. -/
lemma Blanks.unique (h : Blanks t u) (h' : Blanks t u') (hu : skipBlanks u = u)
    (hu' : skipBlanks u' = u') : u = u' := by
  have hskip : ∀ {v}, Blanks t v → skipBlanks t = skipBlanks v := by
    rintro v ⟨b, hb, rfl⟩
    rw [skipBlanks, skipBlanks, List.dropWhile_append_of_pos hb]
  rw [← hu, ← hu', ← hskip h, ← hskip h']

lemma Blanks.cons_unique {c c' : Char} (h : Blanks t (c :: u)) (h' : Blanks t (c' :: u'))
    (hc : isSpace c = false) (hc' : isSpace c' = false) : c = c' ∧ u = u' :=
  List.cons.inj (h.unique h' (skipBlanks_cons hc) (skipBlanks_cons hc'))

mutual

/-- **A text begins with the spelling of one form at most.** -/
theorem Spells.unique : ∀ {f f' : Form} {t r r' : Text}, Spells f t r → Spells f' t r' →
    f = f' ∧ r = r'
  | _, _, _, _, _, .null, h' => by
      cases h' with
      | null => exact ⟨rfl, rfl⟩
      | number n ht _ => exact absurd ht (cons_ne_numeral rfl)
  | _, _, _, _, _, .true, h' => by
      cases h' with
      | true => exact ⟨rfl, rfl⟩
      | number n ht _ => exact absurd ht (cons_ne_numeral rfl)
  | _, _, _, _, _, .false, h' => by
      cases h' with
      | false => exact ⟨rfl, rfl⟩
      | number n ht _ => exact absurd ht (cons_ne_numeral rfl)
  | _, _, _, _, _, .number n ht hr, h' => spells_numeral hr (ht ▸ h')
  | _, _, _, _, _, .string hs, h' => by
      cases h' with
      | string hs' =>
          obtain ⟨rfl, rfl⟩ := hs.unique hs'
          exact ⟨rfl, rfl⟩
      | number n ht _ => exact absurd ht (cons_ne_numeral rfl)
  | _, _, _, _, _, .emptyArray hb, h' => by
      cases h' with
      | emptyArray hb' =>
          obtain ⟨-, rfl⟩ := hb.cons_unique hb' rfl rfl
          exact ⟨rfl, rfl⟩
      | array hb' hf' _ =>
          obtain rfl := hb.unique hb' (skipBlanks_cons rfl) (skipBlanks_of_spells hf')
          exact absurd hf' not_spells_bracket
      | number n ht _ => exact absurd ht (cons_ne_numeral rfl)
  | _, _, _, _, _, .array hb hf hfs, h' => by
      cases h' with
      | emptyArray hb' =>
          obtain rfl := hb.unique hb' (skipBlanks_of_spells hf) (skipBlanks_cons rfl)
          exact absurd hf not_spells_bracket
      | array hb' hf' hfs' =>
          obtain rfl := hb.unique hb' (skipBlanks_of_spells hf) (skipBlanks_of_spells hf')
          obtain ⟨rfl, rfl⟩ := hf.unique hf'
          obtain ⟨rfl, rfl⟩ := hfs.unique hfs'
          exact ⟨rfl, rfl⟩
      | number n ht _ => exact absurd ht (cons_ne_numeral rfl)
  | _, _, _, _, _, .emptyObject hb, h' => by
      cases h' with
      | emptyObject hb' =>
          obtain ⟨-, rfl⟩ := hb.cons_unique hb' rfl rfl
          exact ⟨rfl, rfl⟩
      | object hb' _ _ => cases (hb.cons_unique hb' rfl rfl).1
      | number n ht _ => exact absurd ht (cons_ne_numeral rfl)
  | _, _, _, _, _, .object hb hm hms, h' => by
      cases h' with
      | emptyObject hb' => cases (hb.cons_unique hb' rfl rfl).1
      | object hb' hm' hms' =>
          obtain ⟨-, rfl⟩ := hb.cons_unique hb' rfl rfl
          obtain ⟨rfl, rfl, rfl⟩ := hm.unique hm'
          obtain ⟨rfl, rfl⟩ := hms.unique hms'
          exact ⟨rfl, rfl⟩
      | number n ht _ => exact absurd ht (cons_ne_numeral rfl)
termination_by structural _ _ _ _ _ h => h

theorem SpellsElements.unique : ∀ {fs fs' : List Form} {t r r' : Text}, SpellsElements fs t r →
    SpellsElements fs' t r' → fs = fs' ∧ r = r'
  | _, _, _, _, _, .done hb, h' => by
      cases h' with
      | done hb' =>
          obtain ⟨-, rfl⟩ := hb.cons_unique hb' rfl rfl
          exact ⟨rfl, rfl⟩
      | next hc' _ _ _ => cases (hb.cons_unique hc' rfl rfl).1
  | _, _, _, _, _, .next hc hb hf hfs, h' => by
      cases h' with
      | done hb' => cases (hc.cons_unique hb' rfl rfl).1
      | next hc' hb' hf' hfs' =>
          obtain ⟨-, rfl⟩ := hc.cons_unique hc' rfl rfl
          obtain rfl := hb.unique hb' (skipBlanks_of_spells hf) (skipBlanks_of_spells hf')
          obtain ⟨rfl, rfl⟩ := hf.unique hf'
          obtain ⟨rfl, rfl⟩ := hfs.unique hfs'
          exact ⟨rfl, rfl⟩
termination_by structural _ _ _ _ _ h => h

theorem SpellsMember.unique : ∀ {k k' : Text} {f f' : Form} {t r r' : Text}, SpellsMember k f t r →
    SpellsMember k' f' t r' → k = k' ∧ f = f' ∧ r = r'
  | _, _, _, _, _, _, _, .colon hk hc hb hf, h' => by
      cases h' with
      | colon hk' hc' hb' hf' =>
          obtain ⟨rfl, rfl⟩ := hk.unique hk'
          obtain ⟨-, rfl⟩ := hc.cons_unique hc' rfl rfl
          obtain rfl := hb.unique hb' (skipBlanks_of_spells hf) (skipBlanks_of_spells hf')
          obtain ⟨rfl, rfl⟩ := hf.unique hf'
          exact ⟨rfl, rfl, rfl⟩
termination_by structural _ _ _ _ _ _ _ h => h

theorem SpellsMembers.unique : ∀ {ms ms' : List (Text × Form)} {t r r' : Text},
    SpellsMembers ms t r → SpellsMembers ms' t r' → ms = ms' ∧ r = r'
  | _, _, _, _, _, .done hb, h' => by
      cases h' with
      | done hb' =>
          obtain ⟨-, rfl⟩ := hb.cons_unique hb' rfl rfl
          exact ⟨rfl, rfl⟩
      | next hc' _ _ _ => cases (hb.cons_unique hc' rfl rfl).1
  | _, _, _, _, _, .next hc hb hm hms, h' => by
      cases h' with
      | done hb' => cases (hc.cons_unique hb' rfl rfl).1
      | next hc' hb' hm' hms' =>
          obtain ⟨-, rfl⟩ := hc.cons_unique hc' rfl rfl
          obtain ⟨-, rfl⟩ := hb.cons_unique hb' rfl rfl
          obtain ⟨rfl, rfl, rfl⟩ := hm.unique hm'
          obtain ⟨rfl, rfl⟩ := hms.unique hms'
          exact ⟨rfl, rfl⟩
termination_by structural _ _ _ _ _ h => h

end

/-- A text holds the spelling of one form at most. -/
theorem SpellsText.unique (h : SpellsText f t) (h' : SpellsText f' t) : f = f' := by
  obtain ⟨u, r, hb, hf, -⟩ := h
  obtain ⟨u', r', hb', hf', -⟩ := h'
  obtain rfl := hb.unique hb' (skipBlanks_of_spells hf) (skipBlanks_of_spells hf')
  exact (hf.unique hf').1

end Forms

end Externalize.Json
