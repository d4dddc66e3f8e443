import Externalize.Proofs.Json.Reading
import Externalize.Proofs.Json.Strings

/-
The grammar of JSON, apart from any reader of it.

* `Json.Form`: what a text spells, with its numbers as they are written and its members as often as
  they occur.
* `Json.Spells`: a text begins with the spelling of a form; `Json.SpellsText`: it holds nothing else
  but blanks.
* `Json.Form.at?`, `Json.Value.at?`: what is found along a path; of members of one name the last one
  counts.
* `Json.Agree`: a form and a value that have their numbers along the same paths.
-/
namespace Externalize.Json

/-! ### Forms -/

/-- What a text spells. -/
inductive Form where
  | null
  | bool (b : Bool)
  | number (n : Numeral)
  | string (s : Text)
  | array (elements : List Form)
  | object (members : List (Text × Form))

/-- Nothing but blanks stands before the rest of a text. -/
def Blanks (t rest : Text) : Prop := ∃ b, (∀ c ∈ b, isSpace c = true) ∧ t = b ++ rest

section Blanks

variable {t u r : Text}

lemma Blanks.refl (t : Text) : Blanks t t := ⟨[], by simp, rfl⟩

lemma Blanks.trans (h : Blanks t u) (h' : Blanks u r) : Blanks t r := by
  obtain ⟨b, hb, rfl⟩ := h
  obtain ⟨b', hb', rfl⟩ := h'
  exact ⟨b ++ b', List.forall_mem_append.mpr ⟨hb, hb'⟩, (List.append_assoc ..).symm⟩

lemma blanks_of_skipBlanks (h : skipBlanks t = u) : Blanks t u :=
  ⟨t.takeWhile isSpace, List.all_eq_true.mp List.all_takeWhile, by
    rw [← h, skipBlanks, List.takeWhile_append_dropWhile]⟩

end Blanks

mutual

/-- A text begins with the spelling of a form, after which the rest stands. -/
inductive Spells : Form → Text → Text → Prop
  | null {rest : Text} : Spells .null ('n' :: 'u' :: 'l' :: 'l' :: rest) rest
  | true {rest : Text} : Spells (.bool true) ('t' :: 'r' :: 'u' :: 'e' :: rest) rest
  | false {rest : Text} : Spells (.bool false) ('f' :: 'a' :: 'l' :: 's' :: 'e' :: rest) rest
  | number (n : Numeral) {t rest : Text} (ht : t = n.text ++ rest) (h : EndsNumber rest) :
      Spells (.number n) t rest
  | string {s t rest : Text} (h : SpellsString s t rest) : Spells (.string s) ('"' :: t) rest
  | emptyArray {t rest : Text} (h : Blanks t (']' :: rest)) : Spells (.array []) ('[' :: t) rest
  | array {f : Form} {fs : List Form} {t u r rest : Text} (hb : Blanks t u) (hf : Spells f u r)
      (hfs : SpellsElements fs r rest) : Spells (.array (f :: fs)) ('[' :: t) rest
  | emptyObject {t rest : Text} (h : Blanks t ('\x7d' :: rest)) :
      Spells (.object []) ('\x7b' :: t) rest
  | object {k : Text} {f : Form} {ms : List (Text × Form)} {t u r rest : Text}
      (hb : Blanks t ('"' :: u)) (hm : SpellsMember k f u r) (hms : SpellsMembers ms r rest) :
      Spells (.object ((k, f) :: ms)) ('\x7b' :: t) rest

/-- The elements after the first one, with the end of the array. -/
inductive SpellsElements : List Form → Text → Text → Prop
  | done {t rest : Text} (h : Blanks t (']' :: rest)) : SpellsElements [] t rest
  | next {f : Form} {fs : List Form} {t u v r rest : Text} (hc : Blanks t (',' :: u))
      (hb : Blanks u v) (hf : Spells f v r) (hfs : SpellsElements fs r rest) :
      SpellsElements (f :: fs) t rest

/-- A member after the quote of its name. -/
inductive SpellsMember : Text → Form → Text → Text → Prop
  | colon {k : Text} {f : Form} {t u v w rest : Text} (hk : SpellsString k t u)
      (hc : Blanks u (':' :: v)) (hb : Blanks v w) (hf : Spells f w rest) :
      SpellsMember k f t rest

/-- The members after the first one, with the end of the object. -/
inductive SpellsMembers : List (Text × Form) → Text → Text → Prop
  | done {t rest : Text} (h : Blanks t ('\x7d' :: rest)) : SpellsMembers [] t rest
  | next {k : Text} {f : Form} {ms : List (Text × Form)} {t u v r rest : Text}
      (hc : Blanks t (',' :: u)) (hb : Blanks u ('"' :: v)) (hm : SpellsMember k f v r)
      (hms : SpellsMembers ms r rest) : SpellsMembers ((k, f) :: ms) t rest

end

/-- A text holds the spelling of a form, and blanks around it. -/
def SpellsText (f : Form) (t : Text) : Prop :=
  ∃ u r, Blanks t u ∧ Spells f u r ∧ Blanks r []

/-! ### Paths -/

/-- A step from an array or an object to what it holds. -/
inductive Step where
  | element (i : Nat)
  | member (name : Text)

/-- The last one of some members with this name. -/
def lastOf {α : Type} (name : Text) : List (Text × α) → Option α
  | [] => none
  | (k, a) :: r => (lastOf name r).or (if k = name then some a else none)

/-- What is found in a form along a path. -/
def Form.at? : List Step → Form → Option Form
  | [], f => some f
  | .element i :: steps, .array fs => fs[i]?.bind (Form.at? steps)
  | .member name :: steps, .object ms => (lastOf name ms).bind (Form.at? steps)
  | _ :: _, _ => none

/-- What is found in a value along a path. -/
def Value.at? : List Step → Value → Option Value
  | [], v => some v
  | .element i :: steps, .array vs => vs[i]?.bind (Value.at? steps)
  | .member name :: steps, .object ms => (Members.lookup name ms).bind (Value.at? steps)
  | _ :: _, _ => none

/-! ### Agreement -/

/-- A form and a value have numbers along the same paths, and these are related. -/
def Agree (R : Numeral → Number → Prop) (f : Form) (v : Value) : Prop :=
  ∀ steps, (∀ n, f.at? steps = some (.number n) → ∃ m, v.at? steps = some (.number m) ∧ R n m) ∧
    ∀ m, v.at? steps = some (.number m) → ∃ n, f.at? steps = some (.number n) ∧ R n m

namespace Agree

variable {R : Numeral → Number → Prop} {n : Numeral} {m : Number}

/-- What is related is found by the first step of a path. -/
lemma of_bind {x : Option Form} {y : Option Value} (h : Option.Rel (Agree R) x y)
    (steps : List Step) :
    (∀ n, x.bind (Form.at? steps) = some (.number n) →
      ∃ m, y.bind (Value.at? steps) = some (.number m) ∧ R n m) ∧
    ∀ m, y.bind (Value.at? steps) = some (.number m) →
      ∃ n, x.bind (Form.at? steps) = some (.number n) ∧ R n m := by
  cases h with
  | none => simp
  | some h => exact h steps

lemma null : Agree R .null .null := by
  rintro (_ | ⟨_ | _, _⟩) <;> simp [Form.at?, Value.at?]

lemma bool (b : Bool) : Agree R (.bool b) (.bool b) := by
  rintro (_ | ⟨_ | _, _⟩) <;> simp [Form.at?, Value.at?]

lemma string (s : Text) : Agree R (.string s) (.string s) := by
  rintro (_ | ⟨_ | _, _⟩) <;> simp [Form.at?, Value.at?]

lemma number (h : R n m) : Agree R (.number n) (.number m) := by
  rintro (_ | ⟨_ | _, _⟩) <;> simp [Form.at?, Value.at?, h]

lemma array {fs : List Form} {vs : List Value} (h : List.Forall₂ (Agree R) fs vs) :
    Agree R (.array fs) (.array vs) := by
  rintro (_ | ⟨i | name, steps⟩)
  · simp [Form.at?, Value.at?]
  · rw [Form.at?, Value.at?]
    refine of_bind ?_ steps
    induction h generalizing i with
    | nil => exact .none
    | cons hfv _ ih =>
        cases i with
        | zero => exact .some hfv
        | succ i => exact ih i
  · simp [Form.at?, Value.at?]

lemma object {ms : List (Text × Form)} {vs : Members}
    (h : ∀ name, Option.Rel (Agree R) (lastOf name ms) (vs.lookup name)) :
    Agree R (.object ms) (.object vs) := by
  rintro (_ | ⟨i | name, steps⟩)
  · simp [Form.at?, Value.at?]
  · simp [Form.at?, Value.at?]
  · rw [Form.at?, Value.at?]
    exact of_bind (h name) steps

end Agree

/-- Members of the same names in the same order, whose values are related. -/
def AgreeMembers (R : Numeral → Number → Prop) : List (Text × Form) → List (Text × Value) → Prop :=
  List.Forall₂ fun a b => a.1 = b.1 ∧ Agree R a.2 b.2

lemma AgreeMembers.lastOf {R : Numeral → Number → Prop} {ms : List (Text × Form)}
    {vs : List (Text × Value)} (h : AgreeMembers R ms vs) (name : Text) :
    Option.Rel (Agree R) (Json.lastOf name ms) (Json.lastOf name vs) := by
  induction h with
  | nil => exact .none
  | @cons a b ms vs hab _ ih =>
      obtain ⟨k, f⟩ := a
      obtain ⟨k', v⟩ := b
      obtain ⟨rfl, hfv⟩ : k = k' ∧ Agree R f v := hab
      rw [Json.lastOf, Json.lastOf]
      generalize Json.lastOf name ms = x at ih ⊢
      generalize Json.lastOf name vs = y at ih ⊢
      cases ih with
      | some h => exact .some h
      | none =>
          split_ifs
          · exact .some hfv
          · exact .none

/-- Pairs that are taken together have the last value of each name. -/
lemma Members.lookup_ofPairs (pairs : List (Text × Value)) (name : Text) :
    (ofPairs pairs).lookup name = lastOf name pairs := by
  have hfold : ∀ (pairs : List (Text × Value)) (acc : Members),
      (pairs.foldl (fun m p => m.set p.1 p.2) acc).lookup name =
        (lastOf name pairs).or (acc.lookup name) := by
    intro pairs
    induction pairs with
    | nil => exact fun acc => rfl
    | cons p r ih =>
        obtain ⟨k, v⟩ := p
        intro acc
        rw [List.foldl_cons, ih, lastOf, Option.or_assoc]
        congr 1
        split_ifs with hk
        · rw [hk, lookup_set_self, Option.some_or]
        · rw [lookup_set_of_ne v acc (Ne.symm hk), Option.none_or]
  exact (hfold pairs []).trans (Option.or_none ..)

/-- Members of different names have the last value of each name. -/
lemma Members.lookup_eq_lastOf {ms : Members} (h : ms.keys.Nodup) (name : Text) :
    ms.lookup name = lastOf name ms := by
  rw [← lookup_ofPairs, ofPairs_of_nodup h]

end Externalize.Json
