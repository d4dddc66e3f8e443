import Externalize.Numeric.Shortest

/-
JSON values.

* `Json.Value`: objects keep their members in order.
* `Json.Members`: the members of an object, looked up and set by name.
* `Json.lookup_set_self`, `Json.lookup_set_of_ne`, `Json.keys_set`: what a change does to the values
  and to the order.
-/
namespace Externalize.Json

/-- A number: a natural number below `2 ^ 64`, the opposite of a positive one up to `2 ^ 63`, or a
finite floating-point number. -/
inductive Number where
  | natural (n : Nat)
  | opposite (n : Nat)
  | float (x : Binary64)
deriving DecidableEq

/-- The text of a number. -/
def Number.text : Number → Text
  | natural n => Nat.toDigits 10 n
  | opposite n => '-' :: Nat.toDigits 10 n
  | float x => x.text

/-- A JSON value. -/
inductive Value where
  | null
  | bool (b : Bool)
  | number (n : Number)
  | string (s : Text)
  | array (elements : List Value)
  | object (members : List (Text × Value))

/-- The members of an object in their order. -/
abbrev Members := List (Text × Value)

namespace Members

/-- The value of a member. -/
def lookup (key : Text) : Members → Option Value
  | [] => none
  | (k, v) :: r => if k = key then some v else lookup key r

/-- Sets a member: in its place if the object has it, else at the end. -/
def set (key : Text) (value : Value) : Members → Members
  | [] => [(key, value)]
  | (k, v) :: r => if k = key then (k, value) :: r else (k, v) :: set key value r

/-- The names of the members. -/
def keys (m : Members) : List Text := m.map (·.1)

@[simp] theorem lookup_set_self (key : Text) (value : Value) (m : Members) :
    lookup key (set key value m) = some value := by
  induction m with
  | nil => simp [set, lookup]
  | cons p r ih =>
    obtain ⟨k, v⟩ := p
    by_cases h : k = key <;> simp [set, lookup, h, ih]

theorem lookup_set_of_ne {key other : Text} (value : Value) (m : Members) (h : other ≠ key) :
    lookup other (set key value m) = lookup other m := by
  induction m with
  | nil => simp [set, lookup, Ne.symm h]
  | cons p r ih =>
    obtain ⟨k, v⟩ := p
    by_cases hk : k = key
    · subst hk; simp [set, lookup, Ne.symm h]
    · by_cases ho : k = other
      · subst ho; simp [set, lookup, hk]
      · simp [set, lookup, hk, ho, ih]

/-- The members keep their order, and a new one comes last. -/
theorem keys_set (key : Text) (value : Value) (m : Members) :
    keys (set key value m) = if key ∈ keys m then keys m else keys m ++ [key] := by
  induction m with
  | nil => simp [set, keys]
  | cons p r ih =>
    obtain ⟨k, v⟩ := p
    simp only [keys] at ih ⊢
    by_cases hk : k = key
    · simp [set, hk]
    · by_cases hr : key ∈ r.map (·.1)
      · simp [set, hk, Ne.symm hk, ih, hr]
      · simp [set, hk, Ne.symm hk, ih, hr]

end Members

end Externalize.Json
