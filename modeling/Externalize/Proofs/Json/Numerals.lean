import Externalize.Proofs.Json.Tokens

/-
Numerals: numbers as they are written.

* `Json.Numeral`: a sign, digits, digits after a point and an exponent; `Json.Numeral.value` is the
  rational number that it denotes.
* `Json.exists_numeral_of_readNumber`: what is read as a number is a numeral.
* `Json.Numeral.Reads`: the number that a numeral is read as, whatever follows it;
  `Json.Numeral.readNumber_eq_ok_iff` says which one it is.
-/
namespace Externalize.Json

open Nat (toDigits ofDigitChars)

/-! ### Numerals -/

/-- The exponent of a numeral. -/
@[ext]
structure Exponent where
  mark : Char
  sign : Option Char
  digits : Text
  isMark : mark = 'e' ∨ mark = 'E'
  isSign : ∀ c ∈ sign, c = '+' ∨ c = '-'
  ne_nil : digits ≠ []
  isDigit : ∀ c ∈ digits, c.isDigit = true

namespace Exponent

/-- The exponent as it is written. -/
def text (x : Exponent) : Text := x.mark :: (x.sign.toList ++ x.digits)

/-- The number that its digits stand for. -/
def size (x : Exponent) : Nat := ofDigitChars 10 x.digits 0

/-- The power of ten that it stands for. -/
def value (x : Exponent) : Int := if x.sign = some '-' then -x.size else x.size

end Exponent

/-- A number as it is written: a sign, digits without a zero before them, digits after a point if
there are any, and an exponent if there is one. -/
@[ext]
structure Numeral where
  negative : Bool
  whole : Text
  fraction : Text
  exponent : Option Exponent
  ne_nil : whole ≠ []
  isDigit : ∀ c ∈ whole, c.isDigit = true
  noZeros : ∀ r, whole = '0' :: r → r = []
  isFraction : ∀ c ∈ fraction, c.isDigit = true

namespace Numeral

/-- What is written after the digits before the point. -/
def scaleText (n : Numeral) : Text :=
  (if n.fraction = [] then [] else '.' :: n.fraction) ++ n.exponent.elim [] Exponent.text

/-- The numeral without its sign. -/
def unsigned (n : Numeral) : Text := n.whole ++ n.scaleText

/-- The numeral as it is written. -/
def text (n : Numeral) : Text := (if n.negative then ['-'] else []) ++ n.unsigned

/-- The number that its digits stand for, without the point. -/
def significand (n : Numeral) : Nat := ofDigitChars 10 (n.whole ++ n.fraction) 0

/-- The power of ten of its last digit. -/
def scale (n : Numeral) : Int := n.exponent.elim 0 Exponent.value - n.fraction.length

/-- The rational number that it denotes. -/
def value (n : Numeral) : ℚ := (if n.negative then -1 else 1) * (n.significand * 10 ^ n.scale)

/-- A numeral without point and exponent. -/
def IsInteger (n : Numeral) : Prop := n.fraction = [] ∧ n.exponent = none

instance (n : Numeral) : Decidable n.IsInteger :=
  inferInstanceAs (Decidable (n.fraction = [] ∧ n.exponent = none))

end Numeral

/-! ### What is read is a numeral -/

section Reading

variable {negative : Bool} {significand : Nat} {exponent : Int} {t rest : Text} {m : Number}

lemma rest_of_floatOf (h : floatOf negative significand exponent t = .ok (m, rest)) : t = rest := by
  rw [floatOf] at h
  split at h <;> cases h
  rfl

/-- The digits of an exponent are read to their end, or up to the one that makes it too large. -/
lemma exists_of_readExponentDigits (k : Nat) (t : Text) :
    ∃ ds, (∀ c ∈ ds, c.isDigit = true) ∧ t = ds ++ (readExponentDigits k t).2.1 ∧
      (ds = [] → ∀ c ∈ t.head?, c.isDigit = false) := by
  induction t generalizing k with
  | nil => exact ⟨[], by simp, rfl, by simp⟩
  | cons c r ih =>
      rw [readExponentDigits]
      split_ifs with hc
      · simp only
        split_ifs
        · exact ⟨[c], by simpa using hc, rfl, by simp⟩
        · obtain ⟨ds, hds, hr, -⟩ := ih (k * 10 + digitValue c)
          exact ⟨c :: ds, List.forall_mem_cons.mpr ⟨hc, hds⟩, congrArg (c :: ·) hr, by simp⟩
      · exact ⟨[], by simp, rfl, by simpa using hc⟩

lemma exists_exponent_of_readExponent {mark : Char} (hmark : mark = 'e' ∨ mark = 'E')
    (h : readExponent negative significand exponent t = .ok (m, rest)) :
    ∃ x : Exponent, mark :: t = x.text ++ rest := by
  rw [readExponent.eq_def] at h
  split at h
  next down u hu =>
    have hsign : ∃ sign : Option Char, (∀ c ∈ sign, c = '+' ∨ c = '-') ∧ t = sign.toList ++ u := by
      split at hu <;> cases hu
      · exact ⟨some '+', by simp, rfl⟩
      · exact ⟨some '-', by simp, rfl⟩
      · exact ⟨none, by simp, rfl⟩
    have hdigits : ∃ ds, ds ≠ [] ∧ (∀ c ∈ ds, c.isDigit = true) ∧ u = ds ++ rest := by
      cases u with
      | nil => cases h
      | cons c r =>
          obtain ⟨ds, hds, hr, hnil⟩ := exists_of_readExponentDigits 0 (c :: r)
          simp only at h
          split at h
          · cases h
          · next hc =>
              have hne : ds ≠ [] := fun h0 => hc (by simpa using hnil h0 c (by simp))
              split at h
              · next e r' hread =>
                  rw [hread] at hr
                  split at h
                  · cases h
                  · cases h
                    -- the digits after the one that makes the exponent too large are passed over
                    refine ⟨ds ++ r'.takeWhile (·.isDigit), by simp [hne], fun d hd => ?_, ?_⟩
                    · rcases List.mem_append.mp hd with hd | hd
                      · exact hds d hd
                      · exact List.all_eq_true.mp List.all_takeWhile d hd
                    · rw [List.append_assoc, List.takeWhile_append_dropWhile, hr]
              · next e r' hread =>
                  rw [hread] at hr
                  exact ⟨ds, hne, hds, hr.trans (congrArg (ds ++ ·) (rest_of_floatOf h))⟩
    obtain ⟨sign, hsign, rfl⟩ := hsign
    obtain ⟨ds, hne, hds, rfl⟩ := hdigits
    exact ⟨⟨mark, sign, ds, hmark, hsign, hne, hds⟩, by simp [Exponent.text]⟩

lemma exists_exponent_of_readScale
    (h : readScale negative significand exponent t = .ok (m, rest)) :
    ∃ x : Option Exponent, t = x.elim [] Exponent.text ++ rest := by
  cases t with
  | nil => exact ⟨none, rest_of_floatOf h⟩
  | cons c r =>
      rw [readScale] at h
      split_ifs at h with hc
      · obtain ⟨x, hx⟩ := exists_exponent_of_readExponent hc h
        exact ⟨some x, hx⟩
      · exact ⟨none, rest_of_floatOf h⟩

lemma exists_digits_of_readFraction
    (h : readFraction negative significand exponent t = .ok (m, rest)) :
    ∃ fs, ∃ x : Option Exponent, fs ≠ [] ∧ (∀ c ∈ fs, c.isDigit = true) ∧
      t = fs ++ (x.elim [] Exponent.text ++ rest) := by
  rw [readFraction] at h
  simp only at h
  split_ifs at h with hempty
  obtain ⟨x, hx⟩ := exists_exponent_of_readScale h
  refine ⟨t.takeWhile (·.isDigit), x, by simpa using hempty,
    fun c hc => List.all_eq_true.mp List.all_takeWhile c hc, ?_⟩
  rw [← hx, List.takeWhile_append_dropWhile]

lemma rest_of_wholeNumber (h : wholeNumber negative significand t = .ok (m, rest)) : t = rest := by
  rw [wholeNumber] at h
  split_ifs at h
  · cases h
    rfl
  · cases h
    rfl
  · exact rest_of_floatOf h

/-- **What is read as a number is a numeral.** -/
theorem exists_numeral_of_readNumber (h : readNumber negative t = .ok (m, rest)) :
    ∃ n : Numeral, n.negative = negative ∧ t = n.unsigned ++ rest := by
  cases t with
  | nil => cases h
  | cons c r =>
      have happ := List.takeWhile_append_dropWhile (p := (·.isDigit)) (l := c :: r)
      have hds : ∀ d ∈ (c :: r).takeWhile (·.isDigit), d.isDigit = true :=
        fun d hd => List.all_eq_true.mp List.all_takeWhile d hd
      rw [readNumber] at h
      split_ifs at h with hc hzero
      have hne : (c :: r).takeWhile (·.isDigit) ≠ [] := by
        rw [List.takeWhile_cons_of_pos (by simpa using hc)]
        exact List.cons_ne_nil _ _
      have hzeros : ∀ s, (c :: r).takeWhile (·.isDigit) = '0' :: s → s = [] := by
        intro s hs
        rw [List.takeWhile_cons_of_pos (by simpa using hc)] at hs
        obtain ⟨rfl, htail⟩ := List.cons.inj hs
        cases r with
        | nil => exact htail.symm
        | cons d r =>
            have hd : ¬ d.isDigit = true := fun hd => hzero ⟨rfl, by simpa using hd⟩
            rw [← htail, List.takeWhile_cons_of_neg hd]
      simp only at h
      generalize (c :: r).takeWhile (·.isDigit) = ds at *
      generalize (c :: r).dropWhile (·.isDigit) = u at *
      -- what follows the digits is a fraction, an exponent or nothing
      have hscale : ∃ fs, ∃ x : Option Exponent, (∀ c ∈ fs, c.isDigit = true) ∧
          u = ((if fs = [] then [] else '.' :: fs) ++ x.elim [] Exponent.text) ++ rest := by
        split at h
        · obtain ⟨fs, x, hne, hfs, hr⟩ := exists_digits_of_readFraction h
          exact ⟨fs, x, hfs, by simp [hne, hr]⟩
        · split_ifs at h with he
          · obtain ⟨x, hx⟩ := exists_exponent_of_readExponent he h
            exact ⟨[], some x, by simp, hx⟩
          · exact ⟨[], none, by simp, rest_of_wholeNumber h⟩
          · exact ⟨[], none, by simp, rest_of_floatOf h⟩
        · split_ifs at h
          · exact ⟨[], none, by simp, rest_of_wholeNumber h⟩
          · exact ⟨[], none, by simp, rest_of_floatOf h⟩
      obtain ⟨fs, x, hfs, hu⟩ := hscale
      refine ⟨⟨negative, ds, fs, x, hne, hds, hzeros, hfs⟩, rfl, ?_⟩
      rw [Numeral.unsigned, Numeral.scaleText, List.append_assoc, ← hu, happ]

end Reading

/-! ### What a numeral is read as -/

section Evaluation

variable {negative : Bool} {significand k : Nat} {exponent : Int}
  {ds rest rest' : Text} {m : Number}

/-- The magnitude of digits with a scale. An exponent that is too large makes zero of them, if it is
negative or they are zero. -/
inductive Scales (significand : Nat) (exponent : Int) : Option Exponent → Magnitude → Prop
  | none {r : Magnitude} (h : Magnitude.ofDecimal? significand exponent = some r) :
      Scales significand exponent none r
  | exponent {x : Exponent} {r : Magnitude} (hx : x.size ≤ maxExponent)
      (h : Magnitude.ofDecimal? significand (exponent + x.value) = some r) :
      Scales significand exponent (some x) r
  | vanishing {x : Exponent} (hx : maxExponent < x.size) (h : significand = 0 ∨ x.sign = some '-') :
      Scales significand exponent (some x) .zero

lemma scales_none_iff {r : Magnitude} :
    Scales significand exponent none r ↔ Magnitude.ofDecimal? significand exponent = some r := by
  refine ⟨fun h => ?_, .none⟩
  cases h with
  | none h => exact h

lemma floatOf_eq_ok_iff : floatOf negative significand exponent rest = .ok (m, rest') ↔
    rest' = rest ∧ ∃ r, Scales significand exponent none r ∧ m = .float ⟨negative, r⟩ := by
  simp only [floatOf, scales_none_iff]
  cases Magnitude.ofDecimal? significand exponent with
  | none => simp
  | some r => simp [eq_comm, and_comm]

lemma readExponentDigits_of_le (hds : ∀ c ∈ ds, c.isDigit = true)
    (hrest : EndsDigits rest) (hle : ofDigitChars 10 ds k ≤ maxExponent) :
    readExponentDigits k (ds ++ rest) = (ofDigitChars 10 ds k, rest, false) := by
  induction ds generalizing k with
  | nil =>
      cases rest with
      | nil => simp [readExponentDigits]
      | cons c r => simp [readExponentDigits, hrest c (by simp)]
  | cons c r ih =>
      rw [Nat.ofDigitChars_cons] at hle ⊢
      have hk : k * 10 + digitValue c = 10 * k + (c.toNat - '0'.toNat) := by
        rw [digitValue]
        omega
      have hle' := (le_ofDigitChars r _).trans hle
      rw [List.cons_append, readExponentDigits, if_pos (hds c List.mem_cons_self)]
      simp only [hk]
      rw [if_neg (by omega), ih (fun d hd => hds d (List.mem_cons_of_mem _ hd)) hle]

lemma readExponentDigits_of_lt (hds : ∀ c ∈ ds, c.isDigit = true)
    (hrest : EndsDigits rest) (hk : k ≤ maxExponent) (hlt : maxExponent < ofDigitChars 10 ds k) :
    ∃ e r, readExponentDigits k (ds ++ rest) = (e, r, true) ∧ r.dropWhile (·.isDigit) = rest := by
  induction ds generalizing k with
  | nil => exact absurd hlt (by simpa using hk)
  | cons c r ih =>
      rw [Nat.ofDigitChars_cons] at hlt
      have hvalue : k * 10 + digitValue c = 10 * k + (c.toNat - '0'.toNat) := by
        rw [digitValue]
        omega
      have hr : ∀ d ∈ r, d.isDigit = true := fun d hd => hds d (List.mem_cons_of_mem _ hd)
      rw [List.cons_append, readExponentDigits, if_pos (hds c List.mem_cons_self)]
      simp only [hvalue]
      split_ifs with hlarge
      · exact ⟨_, _, rfl, dropWhile_digits_append hr hrest⟩
      · exact ih hr (not_lt.mp hlarge) hlt

/-- The sign of an exponent is read apart from its digits, which decide how to go on. -/
lemma readExponent_sign (x : Exponent) (rest : Text) :
    readExponent negative significand exponent (x.sign.toList ++ (x.digits ++ rest)) =
      match readExponentDigits 0 (x.digits ++ rest) with
      | (_, r, true) =>
        if significand ≠ 0 ∧ x.sign ≠ some '-' then .error (.before .numberOutOfRange r)
        else .ok (.float ⟨negative, .zero⟩, r.dropWhile (·.isDigit))
      | (e, r, false) =>
        floatOf negative significand
          (if x.sign = some '-' then exponent - e else exponent + e) r := by
  obtain ⟨c, ds, hcons⟩ : ∃ c ds, x.digits = c :: ds := List.exists_cons_of_ne_nil x.ne_nil
  have hc : c.isDigit = true := x.isDigit c (by simp [hcons])
  rw [readExponent.eq_def, hcons, List.cons_append]
  split
  next down u hu =>
    obtain ⟨rfl, rfl⟩ : down = decide (x.sign = some '-') ∧ u = c :: (ds ++ rest) := by
      cases hs : x.sign with
      | none =>
          rw [hs] at hu
          split at hu
          · next heq => cases heq; cases hc
          · next heq => cases heq; cases hc
          · cases hu
            simp
      | some sign =>
          rw [hs] at hu
          rcases x.isSign sign (by simp [hs]) with rfl | rfl <;> cases hu <;> simp
    simp only [hc]
    rcases readExponentDigits 0 (c :: (ds ++ rest)) with ⟨e, r, _ | _⟩ <;> simp

lemma scales_some_iff_of_le {x : Exponent} {r : Magnitude} (hx : x.size ≤ maxExponent) :
    Scales significand exponent (some x) r ↔
      Magnitude.ofDecimal? significand (exponent + x.value) = some r := by
  refine ⟨fun h => ?_, .exponent hx⟩
  cases h with
  | exponent _ h => exact h
  | vanishing hx' _ => omega

lemma scales_some_iff_of_lt {x : Exponent} {r : Magnitude} (hx : maxExponent < x.size) :
    Scales significand exponent (some x) r ↔
      r = .zero ∧ (significand = 0 ∨ x.sign = some '-') := by
  refine ⟨fun h => ?_, fun ⟨hr, h⟩ => hr ▸ .vanishing hx h⟩
  cases h with
  | exponent hx' _ => omega
  | vanishing _ h => exact ⟨rfl, h⟩

lemma readExponent_eq_ok_iff (x : Exponent) (hrest : EndsDigits rest) :
    readExponent negative significand exponent (x.sign.toList ++ (x.digits ++ rest)) =
        .ok (m, rest') ↔
      rest' = rest ∧ ∃ r, Scales significand exponent (some x) r ∧ m = .float ⟨negative, r⟩ := by
  rw [readExponent_sign]
  rcases le_or_gt x.size maxExponent with hsize | hsize
  · have hvalue : (if x.sign = some '-' then exponent - x.size else exponent + x.size) =
        exponent + x.value := by
      rw [Exponent.value]
      split_ifs <;> simp [sub_eq_add_neg]
    have hdigits : _ = (x.size, rest, false) := readExponentDigits_of_le x.isDigit hrest hsize
    simp only [hdigits, scales_some_iff_of_le hsize]
    rw [hvalue, floatOf_eq_ok_iff]
    simp only [scales_none_iff]
  · obtain ⟨e, r, hdigits, hr⟩ :=
      readExponentDigits_of_lt x.isDigit hrest (Nat.zero_le _) hsize
    simp only [hdigits, hr, scales_some_iff_of_lt hsize]
    by_cases hs : significand = 0 <;> by_cases hsign : x.sign = some '-' <;>
      simp [hs, hsign, eq_comm, and_comm]

lemma readScale_eq_ok_iff (x : Option Exponent) (hrest : EndsNumber rest) :
    readScale negative significand exponent (x.elim [] Exponent.text ++ rest) = .ok (m, rest') ↔
      rest' = rest ∧ ∃ r, Scales significand exponent x r ∧ m = .float ⟨negative, r⟩ := by
  cases x with
  | none =>
      have hscale : readScale negative significand exponent rest =
          floatOf negative significand exponent rest := by
        cases rest with
        | nil => rfl
        | cons c r =>
            obtain ⟨-, -, he, hE⟩ := hrest c (by simp)
            rw [readScale, if_neg (by simp [he, hE])]
      rw [Option.elim_none, List.nil_append, hscale]
      exact floatOf_eq_ok_iff
  | some x =>
      rw [Option.elim_some, Exponent.text, List.cons_append, List.append_assoc, readScale,
        if_pos x.isMark]
      exact readExponent_eq_ok_iff x hrest.endsDigits

lemma Exponent.endsDigits_text (x : Exponent) (rest : Text) : EndsDigits (x.text ++ rest) := by
  intro c hc
  obtain rfl : x.mark = c := by simpa [text] using hc
  rcases x.isMark with h | h <;> rw [h] <;> rfl

lemma endsDigits_exponent (x : Option Exponent) (hrest : EndsNumber rest) :
    EndsDigits (x.elim [] Exponent.text ++ rest) := by
  cases x with
  | none => exact hrest.endsDigits
  | some x => exact x.endsDigits_text rest

lemma readFraction_digits (hds : ∀ c ∈ ds, c.isDigit = true) (hne : ds ≠ [])
    (hrest : EndsDigits rest) : readFraction negative significand exponent (ds ++ rest) =
      readScale negative (appendDigits significand ds).1
        (exponent - (ds.length - (appendDigits significand ds).2.length : ℕ)) rest := by
  simp only [readFraction, takeWhile_digits_append hds hrest, dropWhile_digits_append hds hrest,
    List.isEmpty_iff, hne]
  rfl

namespace Numeral

variable (n : Numeral)

lemma endsDigits_scaleText (hrest : EndsNumber rest) : EndsDigits (n.scaleText ++ rest) := by
  rw [scaleText]
  split_ifs with hf
  · exact endsDigits_exponent n.exponent hrest
  · intro c hc
    obtain rfl : '.' = c := by simpa using hc
    rfl

/-- The digits that fit, as a number and the power of ten of the last one of them. -/
def kept : Nat × Int :=
  let whole := appendDigits 0 n.whole
  let all := appendDigits whole.1 n.fraction
  (all.1, whole.2.length - (n.fraction.length - all.2.length : ℕ))

/-- What a numeral is read as: the integer that its digits make if they all fit and there is nothing
else, and a floating-point number otherwise. -/
def IsReadAs (m : Number) : Prop :=
  if n.IsInteger ∧ (appendDigits 0 n.whole).2 = [] then
    wholeNumber n.negative (appendDigits 0 n.whole).1 [] = .ok (m, [])
  else ∃ r, Scales n.kept.1 n.kept.2 n.exponent r ∧ m = .float ⟨n.negative, r⟩

/-- The digits before the point are read to their end; what follows them decides how to go on. -/
lemma readNumber_whole : EndsDigits rest → readNumber n.negative (n.whole ++ rest) =
    let left := (appendDigits 0 n.whole).2
    match rest with
    | '.' :: r => readFraction n.negative (appendDigits 0 n.whole).1 left.length r
    | d :: r =>
      if d = 'e' ∨ d = 'E' then readExponent n.negative (appendDigits 0 n.whole).1 left.length r
      else if left.isEmpty then wholeNumber n.negative (appendDigits 0 n.whole).1 (d :: r)
      else floatOf n.negative (appendDigits 0 n.whole).1 left.length (d :: r)
    | [] =>
      if left.isEmpty then wholeNumber n.negative (appendDigits 0 n.whole).1 []
      else floatOf n.negative (appendDigits 0 n.whole).1 left.length [] := by
  intro hrest
  obtain ⟨c, ds, hcons⟩ := List.exists_cons_of_ne_nil n.ne_nil
  have happ : n.whole ++ rest = c :: (ds ++ rest) := by rw [hcons, List.cons_append]
  have hhead : ¬ (c = '0' ∧ (ds ++ rest).head?.any (·.isDigit)) := by
    rintro ⟨rfl, hc⟩
    obtain rfl := n.noZeros ds hcons
    cases rest with
    | nil => simp at hc
    | cons d r => simp [hrest d (by simp)] at hc
  rw [happ, readNumber, if_neg (by simp [n.isDigit c (by simp [hcons])]), if_neg hhead, ← happ]
  simp only [takeWhile_digits_append n.isDigit hrest, dropWhile_digits_append n.isDigit hrest]
  rfl

lemma wholeNumber_eq_ok_iff : wholeNumber negative significand rest = .ok (m, rest') ↔
    rest' = rest ∧ wholeNumber negative significand [] = .ok (m, []) := by
  simp only [wholeNumber]
  split_ifs
  · simp [eq_comm, and_comm]
  · simp [eq_comm, and_comm]
  · rw [floatOf_eq_ok_iff, floatOf_eq_ok_iff]
    simp

/-- After the digits, a number that goes on has no point and no exponent. -/
lemma readNumber_whole_end (hrest : EndsNumber rest) : readNumber n.negative (n.whole ++ rest) =
    if (appendDigits 0 n.whole).2 = [] then wholeNumber n.negative (appendDigits 0 n.whole).1 rest
    else floatOf n.negative (appendDigits 0 n.whole).1 (appendDigits 0 n.whole).2.length rest := by
  rw [n.readNumber_whole hrest.endsDigits]
  cases rest with
  | nil => simp
  | cons c r =>
      obtain ⟨-, hpoint, he, hE⟩ := hrest c (by simp)
      split
      · next heq => exact absurd (List.cons.inj heq).1 hpoint
      · next heq =>
          obtain ⟨rfl, rfl⟩ := List.cons.inj heq
          simp [he, hE]
      · next heq => cases heq

lemma readNumber_whole_exponent (x : Exponent) (rest : Text) :
    readNumber n.negative (n.whole ++ (x.text ++ rest)) =
      readExponent n.negative (appendDigits 0 n.whole).1 (appendDigits 0 n.whole).2.length
        (x.sign.toList ++ (x.digits ++ rest)) := by
  rw [n.readNumber_whole (x.endsDigits_text rest), Exponent.text, List.cons_append,
    List.append_assoc]
  split
  · next heq =>
      have hmark := x.isMark
      rw [(List.cons.inj heq).1] at hmark
      simp at hmark
  · next heq =>
      obtain ⟨rfl, rfl⟩ := List.cons.inj heq
      rw [if_pos x.isMark]
  · next heq => cases heq

lemma kept_of_fraction_eq_nil (h : n.fraction = []) :
    n.kept = ((appendDigits 0 n.whole).1, ((appendDigits 0 n.whole).2.length : ℤ)) := by
  simp [kept, h, appendDigits]

/-- **A numeral is read to its end**, whatever follows it. -/
theorem readNumber_eq_ok_iff (hrest : EndsNumber rest) :
    readNumber n.negative (n.unsigned ++ rest) = .ok (m, rest') ↔ rest' = rest ∧ n.IsReadAs m := by
  rw [unsigned, List.append_assoc, IsReadAs]
  by_cases hf : n.fraction = []
  · have hkept := n.kept_of_fraction_eq_nil hf
    cases hx : n.exponent with
    | none =>
        have hscale : n.scaleText ++ rest = rest := by simp [scaleText, hf, hx]
        rw [hscale, n.readNumber_whole_end hrest, hkept]
        split_ifs with hleft hboth hboth
        · exact wholeNumber_eq_ok_iff
        · exact absurd ⟨⟨hf, hx⟩, hleft⟩ hboth
        · exact absurd hboth.2 hleft
        · exact floatOf_eq_ok_iff
    | some x =>
        have hint : ¬ n.IsInteger := fun h => by cases hx.symm.trans h.2
        have hscale : n.scaleText ++ rest = x.text ++ rest := by simp [scaleText, hf, hx]
        rw [hscale, n.readNumber_whole_exponent, if_neg fun h => hint h.1, hkept]
        exact readExponent_eq_ok_iff x hrest.endsDigits
  · have hint : ¬ n.IsInteger := fun h => hf h.1
    have hscale : n.scaleText ++ rest =
        '.' :: (n.fraction ++ (n.exponent.elim [] Exponent.text ++ rest)) := by
      simp [scaleText, hf]
    rw [hscale, n.readNumber_whole (hscale ▸ n.endsDigits_scaleText hrest),
      if_neg fun h => hint h.1]
    simp only [readFraction_digits n.isFraction hf (endsDigits_exponent n.exponent hrest)]
    exact readScale_eq_ok_iff n.exponent hrest

/-- A numeral is read as this number, whatever follows it. -/
def Reads (n : Numeral) (m : Number) : Prop :=
  ∀ rest, EndsNumber rest → readNumber n.negative (n.unsigned ++ rest) = .ok (m, rest)

variable {n}

lemma reads_iff : n.Reads m ↔ n.IsReadAs m :=
  ⟨fun h => ((n.readNumber_eq_ok_iff endsNumber_nil).mp (h [] endsNumber_nil)).2,
    fun h _ hrest => (n.readNumber_eq_ok_iff hrest).mpr ⟨rfl, h⟩⟩

/-- What a numeral is read as does not depend on what follows it. -/
lemma reads_of_readNumber (hrest : EndsNumber rest)
    (h : readNumber n.negative (n.unsigned ++ rest) = .ok (m, rest')) : n.Reads m :=
  reads_iff.mpr ((n.readNumber_eq_ok_iff hrest).mp h).2

/-- If all digits fit, they are the number that is read, or they are scaled. -/
lemma reads_iff_of_le (hle : n.significand ≤ maxNatural) : n.Reads m ↔
    if n.IsInteger then wholeNumber n.negative n.significand [] = .ok (m, [])
    else ∃ r, Scales n.significand (-n.fraction.length) n.exponent r ∧
      m = .float ⟨n.negative, r⟩ := by
  rw [significand, Nat.ofDigitChars_append] at hle
  have hwhole := appendDigits_of_le ((le_ofDigitChars n.fraction _).trans hle)
  have hall := appendDigits_of_le hle
  have hkept : n.kept = (n.significand, (-n.fraction.length : ℤ)) := by
    rw [kept, significand, Nat.ofDigitChars_append]
    simp [hwhole, hall]
  rw [reads_iff, IsReadAs, hkept, hwhole]
  by_cases hint : n.IsInteger
  · have hsignificand : n.significand = ofDigitChars 10 n.whole 0 := by
      rw [significand, hint.1, List.append_nil]
    rw [if_pos ⟨hint, rfl⟩, if_pos hint, hsignificand]
  · rw [if_neg fun h => hint h.1, if_neg hint]

end Numeral

end Evaluation

end Externalize.Json
