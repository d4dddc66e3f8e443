import Externalize.Proofs.Json.Tokens

/-
Strings as they are written.

* `Json.SpellsString`: what stands after the quote of a string, apart from any reader of it.
* `Json.readString_eq_ok_iff`: a string is read exactly if it is spelled, so that a text spells one
  string at most (`Json.SpellsString.unique`).
* `Json.spellsString_quote`: the written form of a text spells it; `Json.readString_quote` says that
  it is read back.
-/
namespace Externalize.Json

/-- What stands after the quote of a string, with the quote at its end. -/
inductive SpellsString : Text → Text → Text → Prop
  | done {rest : Text} : SpellsString [] ('"' :: rest) rest
  | plain {c : Char} {s t rest : Text} (hc : c ≠ '"' ∧ c ≠ '\\' ∧ 0x20 ≤ c.toNat)
      (h : SpellsString s t rest) : SpellsString (c :: s) (c :: t) rest
  | escape {e c : Char} {s t rest : Text} (he : simpleEscape? e = some c)
      (h : SpellsString s t rest) : SpellsString (c :: s) ('\\' :: e :: t) rest
  | point {a b c d : Char} {n : Nat} {s t rest : Text} (hn : hexValue4? a b c d = some n)
      (hpoint : n < 0xD800 ∨ 0xDFFF < n) (h : SpellsString s t rest) :
      SpellsString (Char.ofNat n :: s) ('\\' :: 'u' :: a :: b :: c :: d :: t) rest
  | pair {a b c d a' b' c' d' : Char} {n m : Nat} {s t rest : Text}
      (hn : hexValue4? a b c d = some n) (hm : hexValue4? a' b' c' d' = some m)
      (hfirst : 0xD800 ≤ n ∧ n ≤ 0xDBFF) (hsecond : 0xDC00 ≤ m ∧ m ≤ 0xDFFF)
      (h : SpellsString s t rest) :
      SpellsString (Char.ofNat ((n - 0xD800) * 1024 + (m - 0xDC00) + 0x10000) :: s)
        ('\\' :: 'u' :: a :: b :: c :: d :: '\\' :: 'u' :: a' :: b' :: c' :: d' :: t) rest

/-! ### What is read is spelled -/

section Strings

variable {c : Char} {n : Nat} {s t r rest : Text}

lemma eq_of_readHex (h : readHex t = .ok (n, r)) :
    ∃ a b c d, t = a :: b :: c :: d :: r ∧ hexValue4? a b c d = some n := by
  rw [readHex.eq_def] at h
  split_ifs at h
  split at h
  · next a b c d r' _ =>
      split at h
      · next m hm =>
          cases h
          exact ⟨a, b, c, d, rfl, hm⟩
      · cases h
  · cases h

lemma eq_of_readPairMark {mark : Char} (h : readPairMark mark t = .ok r) : t = mark :: r := by
  cases t with
  | nil => cases h
  | cons c t =>
      rw [readPairMark] at h
      split_ifs at h with hc
      cases h
      rw [hc]

/-- A character given by number that is read, with the string that goes on after it. -/
lemma spellsString_of_readCodePoint (h : readCodePoint t = .ok (c, r)) :
    (∃ e, t = e ++ r) ∧
      ∀ s rest, SpellsString s r rest → SpellsString (c :: s) ('\\' :: 'u' :: t) rest := by
  have hbind : ∀ {α β : Type} {x : Except Fault α} {f : α → Except Fault β} {b : β},
      x >>= f = .ok b → ∃ a, x = .ok a ∧ f a = .ok b := by
    intro α β x f b hx
    cases x with
    | error e => cases hx
    | ok a => exact ⟨a, rfl, hx⟩
  obtain ⟨⟨n, u⟩, hn, hnext⟩ := hbind h
  obtain ⟨a₁, a₂, a₃, a₄, rfl, hhex⟩ := eq_of_readHex hn
  simp only at hnext
  split_ifs at hnext with hlow hsingle
  · cases hnext
    exact ⟨⟨[a₁, a₂, a₃, a₄], rfl⟩, fun _ _ => .point hhex (by omega)⟩
  · obtain ⟨v, hv, hnext⟩ := hbind hnext
    obtain ⟨w, hw, hnext⟩ := hbind hnext
    obtain ⟨⟨m, x⟩, hm, hend⟩ := hbind hnext
    obtain rfl := eq_of_readPairMark hv
    obtain rfl := eq_of_readPairMark hw
    obtain ⟨b₁, b₂, b₃, b₄, rfl, hhex'⟩ := eq_of_readHex hm
    simp only at hend
    split_ifs at hend with hlone
    have hfirst : 0xD800 ≤ n ∧ n ≤ 0xDBFF := by omega
    have hsecond : 0xDC00 ≤ m ∧ m ≤ 0xDFFF := by omega
    simp only [Except.ok.injEq, Prod.mk.injEq] at hend
    obtain ⟨rfl, rfl⟩ := hend
    exact ⟨⟨[a₁, a₂, a₃, a₄, '\\', 'u', b₁, b₂, b₃, b₄], rfl⟩,
      fun _ _ hs => hs.pair hhex hhex' hfirst hsecond⟩

/-- An escape that is read, with the string that goes on after it. -/
lemma spellsString_of_readEscape (h : readEscape t = .ok (c, r)) :
    (∃ e, t = e ++ r) ∧
      ∀ s rest, SpellsString s r rest → SpellsString (c :: s) ('\\' :: t) rest := by
  cases t with
  | nil => cases h
  | cons d t =>
      rw [readEscape] at h
      split_ifs at h with hu
      · subst hu
        obtain ⟨⟨e, rfl⟩, hspells⟩ := spellsString_of_readCodePoint h
        exact ⟨⟨'u' :: e, rfl⟩, hspells⟩
      · split at h
        · next c' hc =>
            cases h
            exact ⟨⟨[d], rfl⟩, fun _ _ => .escape hc⟩
        · cases h

lemma readStringFrom_drop (skip : Nat) (t : Text) :
    readStringFrom skip t = readStringFrom 0 (t.drop skip) := by
  induction t generalizing skip with
  | nil => simp [readStringFrom]
  | cons c r ih =>
      cases skip with
      | zero => rfl
      | succ k => rw [readStringFrom, ih, List.drop_succ_cons]

/-- A string that is read is spelled. -/
theorem spellsString_of_readString (h : readString t = .ok (s, rest)) : SpellsString s t rest := by
  rw [readString] at h
  induction hk : t.length using Nat.strong_induction_on generalizing t s with
  | _ k ih =>
      cases t with
      | nil => cases h
      | cons c r =>
          have hnext : ∀ {d : Char} {u : Text}, u.length < k →
              ((readStringFrom 0 u).map fun p => (d :: p.1, p.2)) = .ok (s, rest) →
              ∃ s', s = d :: s' ∧ SpellsString s' u rest := by
            intro d u hu h
            cases hr : readStringFrom 0 u with
            | error f => simp [hr, Except.map] at h
            | ok p =>
                obtain ⟨rfl, rfl⟩ : d :: p.1 = s ∧ p.2 = rest := by simpa [hr, Except.map] using h
                exact ⟨p.1, rfl, ih _ hu hr rfl⟩
          rw [List.length_cons] at hk
          rw [readStringFrom] at h
          split_ifs at h with hquote hescape hcontrol
          · subst hquote
            cases h
            exact .done
          · subst hescape
            split at h
            · cases h
            · next d u hread =>
                obtain ⟨⟨e, rfl⟩, hspells⟩ := spellsString_of_readEscape hread
                have hskip : (e ++ u).length - u.length = e.length := by simp
                rw [hskip, readStringFrom_drop, List.drop_left] at h
                obtain ⟨s', rfl, hs'⟩ := hnext (by simp at hk; omega) h
                exact hspells _ _ hs'
          · obtain ⟨s', rfl, hs'⟩ := hnext (by omega) h
            exact .plain ⟨hquote, hescape, not_lt.mp hcontrol⟩ hs'

/-! ### What is spelled is read -/

/-- An escape that is read as a character stands for it within a string. -/
lemma readStringFrom_backslash {c : Char} {e t : Text} (h : readEscape (e ++ t) = .ok (c, t)) :
    readStringFrom 0 ('\\' :: (e ++ t)) =
      (readStringFrom 0 t).map fun (s, rest) => (c :: s, rest) := by
  have hskip : (e ++ t).length - t.length = e.length := by simp
  rw [readStringFrom, if_neg (by decide), if_pos rfl]
  simp only [h, hskip]
  rw [readStringFrom_drop, List.drop_left]

lemma readHex_of_hexValue4? {a b d e : Char} (h : hexValue4? a b d e = some n) :
    readHex (a :: b :: d :: e :: t) = .ok (n, t) := by
  have hsize : ¬ Text.size (a :: b :: d :: e :: t) < 4 := by
    have ha := a.utf8Size_pos
    have hb := b.utf8Size_pos
    have hd := d.utf8Size_pos
    have he := e.utf8Size_pos
    simp only [Text.size_cons]
    omega
  rw [readHex, if_neg hsize]
  simp only [h]

/-- A string that is spelled is read. -/
theorem readString_of_spellsString (h : SpellsString s t rest) :
    readString t = .ok (s, rest) := by
  rw [readString]
  induction h with
  | done => rfl
  | plain hc _ ih =>
      rw [readStringFrom, if_neg hc.1, if_neg hc.2.1, if_neg (not_lt.mpr hc.2.2), ih]
      rfl
  | @escape e c _ t _ he _ ih =>
      have hu : e ≠ 'u' := by
        rintro rfl
        cases he
      have hread : readEscape ([e] ++ t) = .ok (c, t) := by
        rw [List.singleton_append, readEscape, if_neg hu, he]
      exact (readStringFrom_backslash hread).trans (by rw [ih]; rfl)
  | @point a b c d n _ t _ hn hpoint _ ih =>
      have hread : readEscape (['u', a, b, c, d] ++ t) = .ok (Char.ofNat n, t) := by
        have hhex : readHex (a :: b :: c :: d :: t) = .ok (n, t) := readHex_of_hexValue4? hn
        simp only [List.cons_append, List.nil_append]
        rw [readEscape, if_pos rfl, readCodePoint, hhex]
        simp only [bind, Except.bind]
        rw [if_neg (by omega), if_pos (by omega)]
      exact (readStringFrom_backslash hread).trans (by rw [ih]; rfl)
  | @pair a b c d a' b' c' d' n m _ t _ hn hm hfirst hsecond _ ih =>
      have hread : readEscape (['u', a, b, c, d, '\\', 'u', a', b', c', d'] ++ t) =
          .ok (Char.ofNat ((n - 0xD800) * 1024 + (m - 0xDC00) + 0x10000), t) := by
        have hhex : readHex (a :: b :: c :: d :: '\\' :: 'u' :: a' :: b' :: c' :: d' :: t) =
            .ok (n, '\\' :: 'u' :: a' :: b' :: c' :: d' :: t) := readHex_of_hexValue4? hn
        have hhex' : readHex (a' :: b' :: c' :: d' :: t) = .ok (m, t) := readHex_of_hexValue4? hm
        have hmark : ∀ (mark : Char) (u : Text), readPairMark mark (mark :: u) = .ok u :=
          fun _ _ => if_pos rfl
        simp only [List.cons_append, List.nil_append]
        rw [readEscape, if_pos rfl, readCodePoint, hhex]
        simp only [bind, Except.bind, hmark, hhex']
        rw [if_neg (by omega), if_neg (by omega), if_neg (by omega)]
      exact (readStringFrom_backslash hread).trans (by rw [ih]; rfl)

/-- **A string is read exactly if it is spelled.** -/
theorem readString_eq_ok_iff : readString t = .ok (s, rest) ↔ SpellsString s t rest :=
  ⟨spellsString_of_readString, readString_of_spellsString⟩

/-- A text spells one string at most. -/
theorem SpellsString.unique {s' r' : Text} (h : SpellsString s t r) (h' : SpellsString s' t r') :
    s = s' ∧ r = r' := by
  have hsame := (readString_of_spellsString h).symm.trans (readString_of_spellsString h')
  simpa using hsame

end Strings

/-! ### What is written is spelled -/

lemma hexValue?_hexDigit (n : Nat) : hexValue? (hexDigit n) = some (n % 16) := by
  have hall : ∀ k < 16, hexValue? (Nat.digitChar k) = some k := by decide
  exact hall _ (Nat.mod_lt n (by decide))

/-- The written form of a character stands for it. -/
lemma spellsString_escape {c : Char} {s t rest : Text} (h : SpellsString s t rest) :
    SpellsString (c :: s) (escape c ++ t) rest := by
  have hnat : ∀ d : Char, c.toNat = d.toNat → c = d := fun d h => Char.toNat_inj.mp h
  unfold escape
  split_ifs with h1 h2 h3 h4 h5 h6 h7 h8
  · subst h1; exact .escape (e := '"') rfl h
  · subst h2; exact .escape (e := '\\') rfl h
  · rw [hnat '\x08' h3]; exact .escape (e := 'b') rfl h
  · rw [hnat '\x0c' h4]; exact .escape (e := 'f') rfl h
  · subst h5; exact .escape (e := 'n') rfl h
  · subst h6; exact .escape (e := 'r') rfl h
  · subst h7; exact .escape (e := 't') rfl h
  · have hhex : hexValue4? '0' '0' (hexDigit (c.toNat / 16)) (hexDigit c.toNat) = some c.toNat := by
      have h0 : hexValue? '0' = some 0 := by decide
      simp only [hexValue4?, h0, hexValue?_hexDigit, Option.bind_eq_bind, Option.bind_some,
        Option.pure_def, Option.some.injEq]
      omega
    have hpoint := h.point hhex (.inl (by omega))
    rwa [Char.ofNat_toNat] at hpoint
  · exact .plain ⟨h1, h2, not_lt.mp h8⟩ h

/-- The written form of a text spells it. -/
lemma spellsString_quote (s rest : Text) :
    SpellsString s (s.flatMap escape ++ '"' :: rest) rest := by
  induction s with
  | nil => exact .done
  | cons c s ih =>
      rw [List.flatMap_cons, List.append_assoc]
      exact spellsString_escape ih

/-- A written string is read back, whatever follows it. -/
theorem readString_quote (s rest : Text) :
    readString (s.flatMap escape ++ '"' :: rest) = .ok (s, rest) :=
  readString_of_spellsString (spellsString_quote s rest)

end Externalize.Json
