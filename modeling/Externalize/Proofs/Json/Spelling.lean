import Externalize.Proofs.Json.Forms
import Externalize.Proofs.Json.RoundTrip

/-
What is read is spelled, and what is written is.

* `Json.exists_spells_of_readValue`: what is read as a value is the spelling of a form that agrees
  with it, each of its numbers being one that the numeral in its place is read as.
* `Json.exists_spells_renderAt`: the written form of a value spells a form that agrees with it, each
  of its numerals denoting what the text of the number in its place does.
-/
namespace Externalize.Json

/-! ### Blanks -/

section Blanks

variable {t : Text}

lemma blanks_indent (depth : Nat) (t : Text) : Blanks (indent depth ++ t) t := by
  refine ⟨indent depth, fun c hc => ?_, rfl⟩
  rcases List.mem_cons.mp hc with rfl | hc
  · rfl
  · rw [List.eq_of_mem_replicate hc]
    rfl

/-- Blanks do not go on with a number. -/
lemma endsNumber_of_skipBlanks (h : EndsNumber (skipBlanks t)) : EndsNumber t := by
  cases t with
  | nil => exact endsNumber_nil
  | cons c r =>
      by_cases hc : isSpace c = true
      · intro d hd
        obtain rfl : c = d := by simpa using hd
        simp only [isSpace, Bool.or_eq_true, beq_iff_eq] at hc
        rcases hc with ((rfl | rfl) | rfl) | rfl <;> decide
      · rwa [skipBlanks_cons (by simpa using hc)] at h

end Blanks

/-! ### Values that are read -/

section Reading

variable {item : Reader Value} {t rest : Text}

/-- What a reader reads is the spelling of a form that agrees with it, after blanks and before what
ends a number. -/
def ReadsSpelled (item : Reader Value) : Prop :=
  ∀ t v rest, item t = .ok (v, rest) → EndsNumber rest →
    ∃ f u, Blanks t u ∧ Spells f u rest ∧ Agree Numeral.Reads f v

lemma spellsElements_of_readElements (hitem : ReadsSpelled item) (room : Nat) {vs : List Value}
    (h : readElements item room t = .ok (vs, rest)) : EndsNumber t ∧
      ∃ fs, SpellsElements fs t rest ∧ List.Forall₂ (Agree Numeral.Reads) fs vs := by
  induction room generalizing t vs with
  | zero => cases h
  | succ room ih =>
      rw [readElements] at h
      split at h
      · cases h
      · next r hskip =>
          obtain ⟨rfl, rfl⟩ : [] = vs ∧ r = rest := by simpa using h
          exact ⟨endsNumber_of_skipBlanks (by rw [hskip]; simp [EndsNumber]), [],
            .done (blanks_of_skipBlanks hskip), .nil⟩
      · next r hskip =>
          refine ⟨endsNumber_of_skipBlanks (by rw [hskip]; exact endsNumber_comma r), ?_⟩
          split at h
          · cases h
          · cases h
          · split at h
            · cases h
            · next v u hv =>
                obtain ⟨vs, hvs, rfl⟩ := eq_ok_of_map (f := (v :: ·)) h
                obtain ⟨hu, fs, hfs, hagree⟩ := ih hvs
                obtain ⟨f, w, hblanks, hf, hfv⟩ := hitem _ _ _ hv hu
                exact ⟨f :: fs, .next (blanks_of_skipBlanks hskip)
                  ((blanks_of_skipBlanks rfl).trans hblanks) hf hfs, .cons hfv hagree⟩
      · cases h

lemma spells_of_readArray (hitem : ReadsSpelled item) {vs : List Value}
    (h : readArray item t = .ok (vs, rest)) :
    ∃ fs, Spells (.array fs) ('[' :: t) rest ∧ List.Forall₂ (Agree Numeral.Reads) fs vs := by
  rw [readArray] at h
  split at h
  · cases h
  · next r hskip =>
      obtain ⟨rfl, rfl⟩ : [] = vs ∧ r = rest := by simpa using h
      exact ⟨[], .emptyArray (blanks_of_skipBlanks hskip), .nil⟩
  · split at h
    · cases h
    · next v u hv =>
        obtain ⟨vs, hvs, rfl⟩ := eq_ok_of_map (f := (v :: ·)) h
        obtain ⟨hu, fs, hfs, hagree⟩ := spellsElements_of_readElements hitem _ hvs
        obtain ⟨f, w, hblanks, hf, hfv⟩ := hitem _ _ _ hv hu
        exact ⟨f :: fs, .array ((blanks_of_skipBlanks rfl).trans hblanks) hf hfs, .cons hfv hagree⟩

lemma spellsMember_of_readMember (hitem : ReadsSpelled item) {k : Text} {v : Value}
    (h : readMember item t = .ok ((k, v), rest)) (hrest : EndsNumber rest) :
    ∃ f, SpellsMember k f t rest ∧ Agree Numeral.Reads f v := by
  rw [readMember] at h
  split at h
  · cases h
  · next k' u hk =>
      split at h
      · cases h
      · next w hcolon =>
          obtain ⟨v', hv, hpair⟩ := eq_ok_of_map (f := fun v => (k', v)) h
          obtain ⟨rfl, rfl⟩ : k' = k ∧ v' = v := by simpa using hpair
          obtain ⟨f, x, hblanks, hf, hfv⟩ := hitem _ _ _ hv hrest
          have hc : Blanks u (':' :: w) := by
            rw [readColon] at hcolon
            split at hcolon
            · cases hcolon
            · next r hskip =>
                cases hcolon
                exact blanks_of_skipBlanks hskip
            · cases hcolon
          exact ⟨f, .colon (spellsString_of_readString hk) hc hblanks hf, hfv⟩

lemma spellsMembers_of_readMembers (hitem : ReadsSpelled item) (room : Nat)
    {vs : List (Text × Value)} (h : readMembers item room t = .ok (vs, rest)) : EndsNumber t ∧
      ∃ ms, SpellsMembers ms t rest ∧ AgreeMembers Numeral.Reads ms vs := by
  induction room generalizing t vs with
  | zero => cases h
  | succ room ih =>
      rw [readMembers] at h
      split at h
      · cases h
      · next r hskip =>
          obtain ⟨rfl, rfl⟩ : [] = vs ∧ r = rest := by simpa using h
          exact ⟨endsNumber_of_skipBlanks (by rw [hskip]; simp [EndsNumber]), [],
            .done (blanks_of_skipBlanks hskip), .nil⟩
      · next r hskip =>
          refine ⟨endsNumber_of_skipBlanks (by rw [hskip]; exact endsNumber_comma r), ?_⟩
          split at h
          · cases h
          · next u hquote =>
              split at h
              · cases h
              · next m w hm =>
                  obtain ⟨k, v⟩ := m
                  obtain ⟨vs, hvs, rfl⟩ := eq_ok_of_map (f := ((k, v) :: ·)) h
                  obtain ⟨hw, ms, hms, hagree⟩ := ih hvs
                  obtain ⟨f, hf, hfv⟩ := spellsMember_of_readMember hitem hm hw
                  exact ⟨(k, f) :: ms, .next (blanks_of_skipBlanks hskip)
                    (blanks_of_skipBlanks hquote) hf hms, .cons ⟨rfl, hfv⟩ hagree⟩
          · cases h
          · cases h
      · cases h

lemma spells_of_readObject (hitem : ReadsSpelled item) {vs : List (Text × Value)}
    (h : readObject item t = .ok (vs, rest)) :
    ∃ ms, Spells (.object ms) ('\x7b' :: t) rest ∧ AgreeMembers Numeral.Reads ms vs := by
  rw [readObject] at h
  split at h
  · cases h
  · next r hskip =>
      obtain ⟨rfl, rfl⟩ : [] = vs ∧ r = rest := by simpa using h
      exact ⟨[], .emptyObject (blanks_of_skipBlanks hskip), .nil⟩
  · next u hquote =>
      split at h
      · cases h
      · next m w hm =>
          obtain ⟨k, v⟩ := m
          obtain ⟨vs, hvs, rfl⟩ := eq_ok_of_map (f := ((k, v) :: ·)) h
          obtain ⟨hw, ms, hms, hagree⟩ := spellsMembers_of_readMembers hitem _ hvs
          obtain ⟨f, hf, hfv⟩ := spellsMember_of_readMember hitem hm hw
          exact ⟨(k, f) :: ms, .object (blanks_of_skipBlanks hquote) hf hms,
            .cons ⟨rfl, hfv⟩ hagree⟩
  · cases h

lemma eq_of_readWord {w t : Text} {a : Unit} (h : readWord w t = .ok (a, rest)) :
    t = w ++ rest := by
  induction w generalizing t with
  | nil =>
      cases h
      rfl
  | cons c w ih =>
      cases t with
      | nil => cases h
      | cons d t =>
          rw [readWord] at h
          split_ifs at h with hcd
          rw [hcd, ih h, List.cons_append]

/-- A number that is read, with its sign, is a numeral. -/
lemma exists_spells_number {negative : Bool} {n : Number}
    (h : readNumber negative t = .ok (n, rest)) (hrest : EndsNumber rest) :
    ∃ f, Spells f ((if negative then ['-'] else []) ++ t) rest ∧
      Agree Numeral.Reads f (.number n) := by
  obtain ⟨w, rfl, rfl⟩ := exists_numeral_of_readNumber h
  have happ : (if w.negative then ['-'] else []) ++ (w.unsigned ++ rest) = w.text ++ rest :=
    (List.append_assoc ..).symm
  exact ⟨.number w, .number w happ hrest, .number (Numeral.reads_of_readNumber hrest h)⟩

/-- A value that is read with nothing nested in it is spelled. -/
lemma readsSpelled_readValueWith {nested : Option (Reader Value)}
    (hnested : ∀ item ∈ nested, ReadsSpelled item) : ReadsSpelled (readValueWith nested) := by
  intro t v rest h hrest
  rw [readValueWith] at h
  split at h
  · cases h
  · next c r hskip =>
      have hblanks := blanks_of_skipBlanks hskip
      suffices hf : ∃ f, Spells f (c :: r) rest ∧ Agree Numeral.Reads f v by
        obtain ⟨f, hf, hagree⟩ := hf
        exact ⟨f, _, hblanks, hf, hagree⟩
      split_ifs at h with hn ht hf hminus hdigit hquote harray hobject
      · obtain ⟨a, hword, rfl⟩ := eq_ok_of_map (f := fun _ => Value.null) h
        exact ⟨.null, by rw [hn, eq_of_readWord hword]; exact .null, .null⟩
      · obtain ⟨a, hword, rfl⟩ := eq_ok_of_map (f := fun _ => Value.bool true) h
        exact ⟨.bool true, by rw [ht, eq_of_readWord hword]; exact .true, .bool true⟩
      · obtain ⟨a, hword, rfl⟩ := eq_ok_of_map (f := fun _ => Value.bool false) h
        exact ⟨.bool false, by rw [hf, eq_of_readWord hword]; exact .false, .bool false⟩
      · obtain ⟨n, hnumber, rfl⟩ := eq_ok_of_map (f := Value.number) h
        rw [hminus]
        exact exists_spells_number hnumber hrest
      · obtain ⟨n, hnumber, rfl⟩ := eq_ok_of_map (f := Value.number) h
        exact exists_spells_number hnumber hrest
      · obtain ⟨s, hstring, rfl⟩ := eq_ok_of_map (f := Value.string) h
        rw [hquote]
        exact ⟨.string s, .string (spellsString_of_readString hstring), .string s⟩
      · split at h
        · cases h
        · next item =>
            obtain ⟨vs, hvs, rfl⟩ := eq_ok_of_map (f := Value.array) h
            obtain ⟨fs, hfs, hagree⟩ := spells_of_readArray (hnested item rfl) hvs
            exact ⟨.array fs, harray ▸ hfs, .array hagree⟩
      · split at h
        · cases h
        · next item =>
            obtain ⟨ms, hms, rfl⟩ :=
              eq_ok_of_map (f := fun ms => Value.object (Members.ofPairs ms)) h
            obtain ⟨fs, hfs, hagree⟩ := spells_of_readObject (hnested item rfl) hms
            refine ⟨.object fs, hobject ▸ hfs, .object fun name => ?_⟩
            rw [Members.lookup_ofPairs]
            exact hagree.lastOf name

/-- **What is read is spelled.** -/
theorem exists_spells_of_readValue (depth : Nat) : ReadsSpelled (readValue depth) := by
  induction depth with
  | zero => exact readsSpelled_readValueWith (by simp)
  | succ depth ih =>
      refine readsSpelled_readValueWith fun item hitem => ?_
      obtain rfl : readValue depth = item := by simpa using hitem
      exact ih

/-- A text that is read holds the spelling of a form that agrees with its value. -/
theorem exists_spellsText_of_parse {v : Value} (h : parse t = .ok v) :
    ∃ f, SpellsText f t ∧ Agree Numeral.Reads f v := by
  cases hv : readValue maxDepth t with
  | error f => simp [parse, hv, bind, Except.bind] at h
  | ok p =>
      obtain ⟨v', r⟩ := p
      have hend : atEnd (v', r) = .ok v := by simpa [parse, hv, bind, Except.bind] using h
      rw [atEnd] at hend
      split at hend
      · next hskip =>
          cases hend
          obtain ⟨f, u, hblanks, hf, hagree⟩ := exists_spells_of_readValue _ _ _ _ hv
            (endsNumber_of_skipBlanks (hskip ▸ endsNumber_nil))
          exact ⟨f, ⟨u, r, hblanks, hf, blanks_of_skipBlanks hskip⟩, hagree⟩
      · cases hend

end Reading

/-! ### Values that are written -/

section Writing

variable {depth : Nat}

/-- A form and a value agree after the value was written. -/
abbrev AgreeWritten : Form → Value → Prop := Agree fun w n => w.value = n.textValue

/-- The written form of a value spells a form that agrees with it. -/
def WritesSpelled (depth : Nat) (v : Value) : Prop :=
  ∀ rest, EndsNumber rest → ∃ f, Spells f (v.renderAt depth ++ rest) rest ∧ AgreeWritten f v

lemma exists_spellsElements {vs : List Value} (h : ∀ v ∈ vs, WritesSpelled depth v) (outer : Nat)
    (rest : Text) : ∃ fs,
      SpellsElements fs (renderElements depth vs ++ (indent outer ++ ']' :: rest)) rest ∧
        List.Forall₂ AgreeWritten fs vs := by
  induction vs with
  | nil => exact ⟨[], .done (blanks_indent outer _), .nil⟩
  | cons v vs ih =>
      obtain ⟨fs, hfs, hagree⟩ := ih fun w hw => h w (List.mem_cons_of_mem _ hw)
      obtain ⟨f, hf, hfv⟩ := h v List.mem_cons_self _
        (endsNumber_renderElements depth vs outer (']' :: rest))
      refine ⟨f :: fs, ?_, .cons hfv hagree⟩
      rw [renderElements_cons_append]
      exact .next (.refl _) (blanks_indent depth _) hf hfs

lemma exists_spells_array {vs : List Value} (h : ∀ v ∈ vs, WritesSpelled (depth + 1) v) :
    WritesSpelled depth (.array vs) := by
  intro rest _
  cases vs with
  | nil => exact ⟨.array [], .emptyArray (.refl _), .array .nil⟩
  | cons v vs =>
      obtain ⟨fs, hfs, hagree⟩ :=
        exists_spellsElements (fun w hw => h w (List.mem_cons_of_mem _ hw)) depth rest
      obtain ⟨f, hf, hfv⟩ := h v List.mem_cons_self _
        (endsNumber_renderElements (depth + 1) vs depth (']' :: rest))
      refine ⟨.array (f :: fs), ?_, .array (.cons hfv hagree)⟩
      rw [renderAt_array_append]
      exact .array (blanks_indent _ _) hf hfs

lemma exists_spellsMember {k : Text} {v : Value} (h : WritesSpelled depth v) {rest : Text}
    (hrest : EndsNumber rest) : ∃ f, SpellsMember k f
      (k.flatMap escape ++ '"' :: ':' :: ' ' :: (v.renderAt depth ++ rest)) rest ∧
        AgreeWritten f v := by
  obtain ⟨f, hf, hfv⟩ := h rest hrest
  have hspace : Blanks (' ' :: (v.renderAt depth ++ rest)) (v.renderAt depth ++ rest) :=
    ⟨[' '], by simp [isSpace], rfl⟩
  exact ⟨f, .colon (spellsString_quote k _) (.refl _) hspace hf, hfv⟩

lemma exists_spellsMembers {ms : List (Text × Value)} (h : ∀ m ∈ ms, WritesSpelled depth m.2)
    (outer : Nat) (rest : Text) : ∃ fs,
      SpellsMembers fs (renderMembers depth ms ++ (indent outer ++ '\x7d' :: rest)) rest ∧
        AgreeMembers (fun w n => w.value = n.textValue) fs ms := by
  induction ms with
  | nil => exact ⟨[], .done (blanks_indent outer _), .nil⟩
  | cons m ms ih =>
      obtain ⟨k, v⟩ := m
      obtain ⟨fs, hfs, hagree⟩ := ih fun w hw => h w (List.mem_cons_of_mem _ hw)
      obtain ⟨f, hf, hfv⟩ := exists_spellsMember (k := k) (h (k, v) List.mem_cons_self)
        (endsNumber_renderMembers depth ms outer ('\x7d' :: rest))
      refine ⟨(k, f) :: fs, ?_, .cons ⟨rfl, hfv⟩ hagree⟩
      rw [renderMembers_cons_append]
      exact .next (.refl _) (blanks_indent depth _) hf hfs

lemma exists_spells_object {ms : Members} (hkeys : ms.keys.Nodup)
    (h : ∀ m ∈ ms, WritesSpelled (depth + 1) m.2) : WritesSpelled depth (.object ms) := by
  intro rest _
  suffices hms : ∃ fs, Spells (.object fs) ((Value.object ms).renderAt depth ++ rest) rest ∧
      AgreeMembers (fun w n => w.value = n.textValue) fs ms by
    obtain ⟨fs, hfs, hagree⟩ := hms
    refine ⟨.object fs, hfs, .object fun name => ?_⟩
    rw [Members.lookup_eq_lastOf hkeys]
    exact hagree.lastOf name
  cases ms with
  | nil => exact ⟨[], .emptyObject (.refl _), .nil⟩
  | cons m ms =>
      obtain ⟨k, v⟩ := m
      obtain ⟨fs, hfs, hagree⟩ :=
        exists_spellsMembers (fun w hw => h w (List.mem_cons_of_mem _ hw)) depth rest
      obtain ⟨f, hf, hfv⟩ := exists_spellsMember (k := k) (h (k, v) List.mem_cons_self)
        (endsNumber_renderMembers (depth + 1) ms depth ('\x7d' :: rest))
      refine ⟨(k, f) :: fs, ?_, .cons ⟨rfl, hfv⟩ hagree⟩
      rw [renderAt_object_append]
      exact .object (blanks_indent _ _) hf hfs

/-- **What is written is spelled.** -/
theorem exists_spells_renderAt {bound : Nat} {v : Value} (hfits : v.Fits bound) (depth : Nat) :
    WritesSpelled depth v := by
  induction hfits generalizing depth with
  | null => exact fun rest _ => ⟨.null, .null, .null⟩
  | bool b => cases b <;> exact fun rest _ => ⟨.bool _, by constructor, .bool _⟩
  | number h =>
      intro rest hrest
      obtain ⟨w, htext, hvalue, -⟩ := Number.exists_numeral h
      refine ⟨.number w, ?_, .number hvalue⟩
      rw [Value.renderAt, ← htext]
      exact .number w rfl hrest
  | string s =>
      intro rest _
      have happ : (Value.string s).renderAt depth ++ rest =
          '"' :: (s.flatMap escape ++ '"' :: rest) := by
        simp [Value.renderAt, quote]
      exact ⟨.string s, happ ▸ .string (spellsString_quote s rest), .string s⟩
  | array _ ih => exact exists_spells_array fun v hv => ih v hv (depth + 1)
  | object hkeys _ ih => exact exists_spells_object hkeys fun m hm => ih m hm (depth + 1)

end Writing

end Externalize.Json
