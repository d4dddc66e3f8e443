import Externalize.Proofs.Json.Reading
import Externalize.Proofs.Json.Strings

/-
Values read back.

* `Json.Number.Rereads`: the number that the text of a number is read as, whatever follows it. A
  floating-point number need not be read as the same one; whole numbers are.
* `Json.Value.reread`: a value with its numbers as they are read back, which is the same value if
  its numbers are whole (`Json.Value.reread_of_isWhole`).
* `Json.readValue_renderAt`: a value that fits is read back from its written form, whatever follows
  it, with its numbers as they are read back.
-/
namespace Externalize.Json

/-! ### Numbers -/

/-- The text of a number is read as this number, whatever follows it. -/
def Number.Rereads (n m : Number) : Prop :=
  ∃ negative t, n.text = (if negative then ['-'] else []) ++ t ∧
    ∀ rest, EndsNumber rest → readNumber negative (t ++ rest) = .ok (m, rest)

/-- The number that the text of a number is read as. -/
def Number.reread (n : Number) : Number :=
  match readValueWith none n.text with
  | .ok (.number m, _) => m
  | _ => n

namespace Number

variable {n m : Number}

lemma rereads_of_numeral {w : Numeral} (htext : w.text = n.text) (h : w.Reads m) : n.Rereads m :=
  ⟨w.negative, w.unsigned, htext.symm, h⟩

/-- A whole number is read back. -/
theorem rereads_of_isWhole (h : n.isWhole = true) : n.Rereads n := by
  obtain ⟨w, htext, -, hreads⟩ := exists_numeral_of_isWhole h
  exact rereads_of_numeral htext hreads

/-- The text of a valid number is read as a number. -/
theorem exists_rereads (h : n.IsValid) : ∃ m, n.Rereads m := by
  obtain ⟨w, htext, -, m, hreads⟩ := exists_numeral h
  exact ⟨m, rereads_of_numeral htext hreads⟩

namespace Rereads

variable (h : n.Rereads m)
include h

/-- The text of a number begins with its sign or with a digit. -/
lemma text_eq_cons : ∃ c r, n.text = c :: r ∧ (c = '-' ∨ c.isDigit = true) := by
  obtain ⟨negative, t, htext, hread⟩ := h
  cases negative with
  | true => exact ⟨'-', t, htext, .inl rfl⟩
  | false =>
      have hnil := hread [] endsNumber_nil
      cases t with
      | nil => cases hnil
      | cons c r =>
          refine ⟨c, r, htext, .inr ?_⟩
          by_contra hc
          rw [List.append_nil, readNumber, if_pos (by simpa using hc)] at hnil
          cases hnil

lemma skipBlanks_text (rest : Text) : skipBlanks (n.text ++ rest) = n.text ++ rest := by
  obtain ⟨c, r, htext, hc⟩ := h.text_eq_cons
  rw [htext, List.cons_append, skipBlanks_cons]
  rcases hc with rfl | hc
  · rfl
  · exact isSpace_of_isDigit hc

lemma readValueWith_eq (nested : Option (Reader Value)) {t rest : Text}
    (ht : skipBlanks t = n.text ++ rest) (hrest : EndsNumber rest) :
    readValueWith nested t = .ok (.number m, rest) := by
  obtain ⟨c, r, hcons, hc⟩ := h.text_eq_cons
  obtain ⟨negative, u, htext, hread⟩ := h
  have hnumber := hread rest hrest
  rw [readValueWith, ht]
  cases negative with
  | true =>
      rw [htext, if_pos rfl, List.singleton_append, List.cons_append]
      simp only [hnumber]
      rfl
  | false =>
      rw [if_neg (by decide), List.nil_append] at htext
      rw [← htext, hcons, List.cons_append] at hnumber
      rw [hcons, List.cons_append]
      rcases hc with rfl | hc
      · cases hnumber
      · have hne : ∀ d : Char, d.isDigit = false → c ≠ d := by
          rintro d hd rfl
          rw [hc] at hd
          cases hd
        simp only [if_neg (hne 'n' rfl), if_neg (hne 't' rfl), if_neg (hne 'f' rfl),
          if_neg (hne '-' rfl), if_pos hc, hnumber]
        rfl

lemma reread_eq : n.reread = m := by
  have hread := h.readValueWith_eq none (h.skipBlanks_text []) endsNumber_nil
  rw [List.append_nil] at hread
  rw [reread, hread]

end Rereads

/-- The text of a valid number is read as the number that is read back. -/
theorem rereads (h : n.IsValid) : n.Rereads n.reread := by
  obtain ⟨m, hm⟩ := exists_rereads h
  rwa [hm.reread_eq]

lemma reread_of_isWhole (h : n.isWhole = true) : n.reread = n := (rereads_of_isWhole h).reread_eq

end Number

/-! ### Values as they are read back -/

mutual

/-- A value with its numbers as they are read back. -/
def Value.reread : Value → Value
  | .number n => .number n.reread
  | .array vs => .array (rereadElements vs)
  | .object ms => .object (rereadMembers ms)
  | v => v

/-- Elements with their numbers as they are read back. -/
def rereadElements : List Value → List Value
  | [] => []
  | v :: vs => v.reread :: rereadElements vs

/-- Members with their numbers as they are read back. -/
def rereadMembers : List (Text × Value) → List (Text × Value)
  | [] => []
  | (k, v) :: ms => (k, v.reread) :: rereadMembers ms

end

lemma keys_rereadMembers (ms : Members) : Members.keys (rereadMembers ms) = ms.keys := by
  induction ms with
  | nil => rfl
  | cons m ms ih =>
      simp only [Members.keys] at ih ⊢
      rw [rereadMembers, List.map_cons, List.map_cons, ih]

lemma lookup_rereadMembers (key : Text) (ms : Members) :
    Members.lookup key (rereadMembers ms) = (ms.lookup key).map Value.reread := by
  induction ms with
  | nil => rfl
  | cons m ms ih =>
      rw [rereadMembers, Members.lookup, Members.lookup]
      split_ifs
      · rfl
      · exact ih

mutual

/-- All numbers of a value are whole. -/
def Value.isWhole : Value → Bool
  | .number n => n.isWhole
  | .array vs => areWhole vs
  | .object ms => membersAreWhole ms
  | _ => true

/-- All numbers of some values are whole. -/
def areWhole : List Value → Bool
  | [] => true
  | v :: vs => v.isWhole && areWhole vs

/-- All numbers of some members are whole. -/
def membersAreWhole : List (Text × Value) → Bool
  | [] => true
  | (_, v) :: ms => v.isWhole && membersAreWhole ms

end

lemma membersAreWhole_iff (ms : List (Text × Value)) :
    membersAreWhole ms = true ↔ ∀ m ∈ ms, m.2.isWhole = true := by
  induction ms with
  | nil => simp [membersAreWhole]
  | cons m ms ih => simp [membersAreWhole, ih]

mutual

/-- A value with whole numbers is the same as it is read back. -/
theorem Value.reread_of_isWhole : ∀ v : Value, v.isWhole = true → v.reread = v
  | .null, _ => rfl
  | .bool _, _ => rfl
  | .number _, h => congrArg Value.number (Number.reread_of_isWhole h)
  | .string _, _ => rfl
  | .array vs, h => congrArg Value.array (rereadElements_of_areWhole vs h)
  | .object ms, h => congrArg Value.object (rereadMembers_of_membersAreWhole ms h)

lemma rereadElements_of_areWhole : ∀ vs : List Value, areWhole vs = true → rereadElements vs = vs
  | [], _ => rfl
  | v :: vs, h => by
      obtain ⟨hv, hvs⟩ : v.isWhole = true ∧ areWhole vs = true := by simpa [areWhole] using h
      rw [rereadElements, v.reread_of_isWhole hv, rereadElements_of_areWhole vs hvs]

lemma rereadMembers_of_membersAreWhole :
    ∀ ms : List (Text × Value), membersAreWhole ms = true → rereadMembers ms = ms
  | [], _ => rfl
  | (k, v) :: ms, h => by
      obtain ⟨hv, hms⟩ : v.isWhole = true ∧ membersAreWhole ms = true := by
        simpa [membersAreWhole] using h
      rw [rereadMembers, v.reread_of_isWhole hv, rereadMembers_of_membersAreWhole ms hms]

end

/-! ### The written form of a value -/

/-- A written value begins with a character that is neither a blank nor the end of an array. -/
lemma renderAt_eq_cons {bound : Nat} {v : Value} (hv : v.Fits bound) (depth : Nat) :
    ∃ c r, v.renderAt depth = c :: r ∧ isSpace c = false ∧ c ≠ ']' := by
  cases hv with
  | null => exact ⟨'n', _, rfl, by decide, by decide⟩
  | bool b => cases b <;> exact ⟨_, _, rfl, by decide, by decide⟩
  | number h =>
      obtain ⟨c, r, htext, rfl | hc⟩ := (Number.rereads h).text_eq_cons
      · exact ⟨'-', r, htext, by decide, by decide⟩
      · refine ⟨c, r, htext, isSpace_of_isDigit hc, ?_⟩
        rintro rfl
        cases hc
  | string s => exact ⟨'"', _, rfl, by decide, by decide⟩
  | @array _ vs _ => cases vs <;> exact ⟨'[', _, rfl, by decide, by decide⟩
  | @object _ ms _ _ => cases ms <;> exact ⟨'\x7b', _, rfl, by decide, by decide⟩

/-! ### Entries, one after the other -/

section Entries

variable {v : Value} {vs : List Value} {m : Text × Value} {ms : List (Text × Value)}

lemma renderElements_cons_append (depth : Nat) (rest : Text) :
    renderElements depth (v :: vs) ++ rest =
      ',' :: (indent depth ++ (v.renderAt depth ++ (renderElements depth vs ++ rest))) := by
  simp [renderElements, List.append_assoc]

lemma renderAt_array_append (depth : Nat) (rest : Text) :
    (Value.array (v :: vs)).renderAt depth ++ rest =
      '[' :: (indent (depth + 1) ++ (v.renderAt (depth + 1) ++
        (renderElements (depth + 1) vs ++ (indent depth ++ ']' :: rest)))) := by
  simp [Value.renderAt, List.append_assoc]

lemma renderMembers_cons_append (depth : Nat) (rest : Text) :
    renderMembers depth (m :: ms) ++ rest =
      ',' :: (indent depth ++ '"' :: (m.1.flatMap escape ++ '"' :: ':' :: ' ' ::
        (m.2.renderAt depth ++ (renderMembers depth ms ++ rest)))) := by
  simp [renderMembers, quote, List.append_assoc]

lemma renderAt_object_append (depth : Nat) (rest : Text) :
    (Value.object (m :: ms)).renderAt depth ++ rest =
      '\x7b' :: (indent (depth + 1) ++ '"' :: (m.1.flatMap escape ++ '"' :: ':' :: ' ' ::
        (m.2.renderAt (depth + 1) ++
          (renderMembers (depth + 1) ms ++ (indent depth ++ '\x7d' :: rest))))) := by
  simp [Value.renderAt, quote, List.append_assoc]

end Entries

/-! ### Reading a written value -/

section Containers

variable {item : Reader Value} {bound depth : Nat}

/-- A reader reads a value back from its written form, whatever follows it. -/
def ReadsBack (item : Reader Value) (depth : Nat) (v : Value) : Prop :=
  ∀ t rest, skipBlanks t = v.renderAt depth ++ rest → EndsNumber rest →
    item t = .ok (v.reread, rest)

lemma skipBlanks_renderAt {v : Value} (hv : v.Fits bound) (depth : Nat) (rest : Text) :
    skipBlanks (v.renderAt depth ++ rest) = v.renderAt depth ++ rest := by
  obtain ⟨c, r, hcr, hspace, -⟩ := renderAt_eq_cons hv depth
  rw [hcr, List.cons_append, skipBlanks_cons hspace]

lemma endsNumber_renderElements (depth : Nat) (vs : List Value) (outer : Nat) (t : Text) :
    EndsNumber (renderElements depth vs ++ (indent outer ++ t)) := by
  cases vs with
  | nil => exact endsNumber_indent outer t
  | cons v vs => exact endsNumber_comma _

lemma endsNumber_renderMembers (depth : Nat) (ms : List (Text × Value)) (outer : Nat) (t : Text) :
    EndsNumber (renderMembers depth ms ++ (indent outer ++ t)) := by
  cases ms with
  | nil => exact endsNumber_indent outer t
  | cons m ms => exact endsNumber_comma _

lemma length_le_renderElements (depth : Nat) (vs : List Value) :
    vs.length ≤ (renderElements depth vs).length := by
  induction vs with
  | nil => simp
  | cons v vs ih =>
      simp only [renderElements, List.length_cons, List.length_append]
      omega

lemma length_le_renderMembers (depth : Nat) (ms : List (Text × Value)) :
    ms.length ≤ (renderMembers depth ms).length := by
  induction ms with
  | nil => simp
  | cons m ms ih =>
      simp only [renderMembers, List.length_cons, List.length_append]
      omega

/-- An element on a line of its own begins with a character that does not end the array, and is read
back from there. -/
lemma exists_element_render {v : Value} (hv : v.Fits bound) (hback : ReadsBack item depth v)
    {tail : Text} (htail : EndsNumber tail) :
    ∃ c r, skipBlanks (indent depth ++ (v.renderAt depth ++ tail)) = c :: r ∧ c ≠ ']' ∧
      item (c :: r) = .ok (v.reread, tail) := by
  have hskip := skipBlanks_renderAt hv depth tail
  obtain ⟨c, r, hcr, -, hc⟩ := renderAt_eq_cons hv depth
  have hitem := hback _ _ hskip htail
  rw [hcr, List.cons_append] at hskip hitem
  refine ⟨c, r ++ tail, ?_, hc, hitem⟩
  rw [skipBlanks_indent, hcr, List.cons_append, hskip]

/-- The elements after the first one are read back with the end of the array. -/
lemma readElements_renderElements {vs : List Value}
    (h : ∀ v ∈ vs, v.Fits bound ∧ ReadsBack item depth v) {room : Nat}
    (hroom : vs.length < room) (outer : Nat) (rest : Text) :
    readElements item room (renderElements depth vs ++ (indent outer ++ ']' :: rest)) =
      .ok (rereadElements vs, rest) := by
  induction vs generalizing room with
  | nil =>
      obtain ⟨room, rfl⟩ : ∃ k, room = k + 1 := ⟨room - 1, by simp at hroom; omega⟩
      have hskip : skipBlanks (indent outer ++ ']' :: rest) = ']' :: rest := by
        rw [skipBlanks_indent, skipBlanks_cons (by decide)]
      rw [renderElements, List.nil_append, readElements, hskip]
      rfl
  | cons v vs ih =>
      obtain ⟨room, rfl⟩ : ∃ k, room = k + 1 := ⟨room - 1, by simp at hroom; omega⟩
      obtain ⟨hv, hback⟩ := h v List.mem_cons_self
      have hvs := ih (fun w hw => h w (List.mem_cons_of_mem _ hw))
        (show vs.length < room by simpa using hroom)
      have hnumber := endsNumber_renderElements depth vs outer (']' :: rest)
      rw [renderElements_cons_append]
      generalize renderElements depth vs ++ (indent outer ++ ']' :: rest) = tail at hvs hnumber ⊢
      obtain ⟨c, r, hskip, hc, hitem⟩ := exists_element_render hv hback hnumber
      rw [readElements, skipBlanks_cons (by decide)]
      simp only [hskip]
      split
      · next heq => exact absurd heq (by simp)
      · next heq => exact absurd (List.cons.inj heq).1 hc
      · simp only [hitem, hvs]
        rfl

/-- An array is read back. -/
lemma readArray_render {vs : List Value}
    (h : ∀ v ∈ vs, v.Fits bound ∧ ReadsBack item (depth + 1) v) (rest : Text) :
    ∃ t, (Value.array vs).renderAt depth ++ rest = '[' :: t ∧ 
      readArray item t = .ok (rereadElements vs, rest) := by
  cases vs with
  | nil => exact ⟨']' :: rest, rfl, rfl⟩
  | cons v vs =>
      obtain ⟨hv, hback⟩ := h v List.mem_cons_self
      have hlength := length_le_renderElements (depth + 1) vs
      have hroom : vs.length <
          (renderElements (depth + 1) vs ++ (indent depth ++ ']' :: rest)).length := by
        simp only [List.length_append, List.length_cons]
        omega
      have hvs := readElements_renderElements (fun w hw => h w (List.mem_cons_of_mem _ hw)) hroom
        depth rest
      have hnumber := endsNumber_renderElements (depth + 1) vs depth (']' :: rest)
      refine ⟨_, renderAt_array_append depth rest, ?_⟩
      generalize renderElements (depth + 1) vs ++ (indent depth ++ ']' :: rest) = tail
        at hvs hnumber ⊢
      obtain ⟨c, r, hskip, hc, hitem⟩ := exists_element_render hv hback hnumber
      rw [readArray]
      simp only [hskip]
      split
      · next heq => exact absurd heq (by simp)
      · next heq => exact absurd (List.cons.inj heq).1 hc
      · simp only [hitem, hvs]
        rfl

/-- A member is read back, once the quote of its name is read. -/
lemma readMember_render {k : Text} {v : Value} (hv : v.Fits bound)
    (hback : ReadsBack item depth v) {rest : Text} (hrest : EndsNumber rest) :
    readMember item (k.flatMap escape ++ '"' :: ':' :: ' ' :: (v.renderAt depth ++ rest)) =
      .ok ((k, v.reread), rest) := by
  have hskip : skipBlanks (' ' :: (v.renderAt depth ++ rest)) = v.renderAt depth ++ rest :=
    skipBlanks_renderAt hv depth rest
  have hcolon : ∀ t, readColon (':' :: t) = .ok t := fun t => by
    rw [readColon, skipBlanks_cons (by decide)]
    rfl
  rw [readMember, readString_quote]
  simp only [hcolon, hback _ _ hskip hrest]
  rfl

/-- The members after the first one are read back with the end of the object. -/
lemma readMembers_renderMembers {ms : List (Text × Value)}
    (h : ∀ m ∈ ms, m.2.Fits bound ∧ ReadsBack item depth m.2) {room : Nat}
    (hroom : ms.length < room) (outer : Nat) (rest : Text) :
    readMembers item room (renderMembers depth ms ++ (indent outer ++ '\x7d' :: rest)) =
      .ok (rereadMembers ms, rest) := by
  induction ms generalizing room with
  | nil =>
      obtain ⟨room, rfl⟩ : ∃ k, room = k + 1 := ⟨room - 1, by simp at hroom; omega⟩
      have hskip : skipBlanks (indent outer ++ '\x7d' :: rest) = '\x7d' :: rest := by
        rw [skipBlanks_indent, skipBlanks_cons (by decide)]
      rw [renderMembers, List.nil_append, readMembers, hskip]
      rfl
  | cons m ms ih =>
      obtain ⟨k, v⟩ := m
      obtain ⟨room, rfl⟩ : ∃ k, room = k + 1 := ⟨room - 1, by simp at hroom; omega⟩
      obtain ⟨hv, hback⟩ := h (k, v) List.mem_cons_self
      have hms := ih (fun w hw => h w (List.mem_cons_of_mem _ hw))
        (show ms.length < room by simpa using hroom)
      have hnumber := endsNumber_renderMembers depth ms outer ('\x7d' :: rest)
      rw [renderMembers_cons_append]
      generalize renderMembers depth ms ++ (indent outer ++ '\x7d' :: rest) = tail at hms hnumber ⊢
      have hquote : ∀ t, skipBlanks (indent depth ++ '"' :: t) = '"' :: t := fun t => by
        rw [skipBlanks_indent, skipBlanks_cons (by decide)]
      rw [readMembers, skipBlanks_cons (by decide)]
      simp only [hquote, readMember_render hv hback hnumber, hms]
      rfl

/-- An object whose members have different names is read back. -/
lemma readObject_render {ms : Members}
    (h : ∀ m ∈ ms, m.2.Fits bound ∧ ReadsBack item (depth + 1) m.2) (rest : Text) :
    ∃ t, (Value.object ms).renderAt depth ++ rest = '\x7b' :: t ∧
      readObject item t = .ok (rereadMembers ms, rest) := by
  cases ms with
  | nil => exact ⟨'\x7d' :: rest, rfl, rfl⟩
  | cons m ms =>
      obtain ⟨k, v⟩ := m
      obtain ⟨hv, hback⟩ := h (k, v) List.mem_cons_self
      have hlength := length_le_renderMembers (depth + 1) ms
      have hroom : ms.length <
          (renderMembers (depth + 1) ms ++ (indent depth ++ '\x7d' :: rest)).length := by
        simp only [List.length_append, List.length_cons]
        omega
      have hms := readMembers_renderMembers (fun w hw => h w (List.mem_cons_of_mem _ hw)) hroom
        depth rest
      have hnumber := endsNumber_renderMembers (depth + 1) ms depth ('\x7d' :: rest)
      refine ⟨_, renderAt_object_append depth rest, ?_⟩
      generalize renderMembers (depth + 1) ms ++ (indent depth ++ '\x7d' :: rest) = tail
        at hms hnumber ⊢
      have hquote : ∀ t, skipBlanks (indent (depth + 1) ++ '"' :: t) = '"' :: t := fun t => by
        rw [skipBlanks_indent, skipBlanks_cons (by decide)]
      rw [readObject]
      simp only [hquote, readMember_render hv hback hnumber, hms]
      rfl

end Containers

/-- A value without a container in it is read back at every depth. -/
lemma readsBack_of_scalar (nested : Option (Reader Value)) (depth : Nat) {bound : Nat} {v : Value}
    (hv : v.Fits bound) (harray : ∀ vs, v ≠ .array vs) (hobject : ∀ ms, v ≠ .object ms) :
    ReadsBack (readValueWith nested) depth v := by
  intro t rest ht hrest
  cases hv with
  | null =>
      rw [readValueWith, ht]
      rfl
  | bool b =>
      rw [readValueWith, ht]
      cases b <;> rfl
  | number h => exact (Number.rereads h).readValueWith_eq nested ht hrest
  | string s =>
      have hread := readString_quote s rest
      rw [readValueWith, ht]
      simp only [Value.renderAt, quote, List.cons_append, List.append_assoc, List.nil_append, hread]
      rfl
  | @array _ vs _ => exact absurd rfl (harray vs)
  | @object _ ms _ _ => exact absurd rfl (hobject ms)

/-- **A value that fits is read back** from its written form, whatever follows it, with its numbers
as they are read back. -/
theorem readValue_renderAt {bound : Nat} {v : Value} (hfits : v.Fits bound) (depth : Nat) :
    ReadsBack (readValue bound) depth v := by
  induction bound generalizing v depth with
  | zero =>
      rw [readValue]
      refine readsBack_of_scalar none depth hfits ?_ ?_ <;> rintro _ rfl <;> cases hfits
  | succ bound ih =>
      have hscalar := readsBack_of_scalar (some (readValue bound)) depth hfits
      rw [readValue]
      cases hfits with
      | @array _ vs h =>
          have hvs : ∀ v ∈ vs, v.Fits bound ∧ ReadsBack (readValue bound) (depth + 1) v :=
            fun v hv => ⟨h v hv, ih (h v hv) (depth + 1)⟩
          intro t rest ht hrest
          obtain ⟨u, hu, hread⟩ := readArray_render hvs rest
          rw [readValueWith, ht, hu]
          simp only [hread]
          rfl
      | @object _ ms hkeys h =>
          have hms : ∀ m ∈ ms, m.2.Fits bound ∧ ReadsBack (readValue bound) (depth + 1) m.2 :=
            fun m hm => ⟨h m hm, ih (h m hm) (depth + 1)⟩
          intro t rest ht hrest
          obtain ⟨u, hu, hread⟩ := readObject_render hms rest
          have hmembers : Members.ofPairs (rereadMembers ms) = rereadMembers ms :=
            Members.ofPairs_of_nodup (by rwa [keys_rereadMembers])
          rw [readValueWith, ht, hu]
          simp only [hread]
          exact congrArg (fun m => Except.ok (Value.object m, rest)) hmembers
      | null => exact hscalar (by simp) (by simp)
      | bool b => exact hscalar (by simp) (by simp)
      | number h => exact hscalar (by simp) (by simp)
      | string s => exact hscalar (by simp) (by simp)

/-- The written form of a value, with a line end, holds the value as it is read back. -/
theorem parse_render {v : Value} (hfits : v.Fits maxDepth) :
    parse (v.render ++ ['\n']) = .ok v.reread := by
  have hread : readValue maxDepth (v.render ++ ['\n']) = .ok (v.reread, ['\n']) :=
    readValue_renderAt hfits 0 _ _ (skipBlanks_renderAt hfits 0 _) (by
      simpa [indent] using endsNumber_indent 0 [])
  rw [parse, hread]
  rfl

end Externalize.Json
