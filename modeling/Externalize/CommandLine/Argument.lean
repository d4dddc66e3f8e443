import Externalize.Text.Basic

/-
The forms of a single argument of a command line.

* `Argument.ofText`: two dashes end the options, two dashes and a name make a long option, one dash
  and letters make flags, and all else is a word, the dash alone too.
* `Argument.text`, `Argument.text_ofText`: how a form is written, and that nothing is lost in it.
-/
namespace Externalize

/-- An argument by its form. -/
inductive Argument where
  /-- The mark after which all arguments are words. -/
  | escape
  /-- A long option, with the value that is written after an equals sign. -/
  | long (name : Text) (value : Option Text)
  /-- Flags of one letter each. -/
  | short (letters : Text)
  | word (text : Text)
deriving DecidableEq

namespace Argument

/-- A long option by what follows its dashes. -/
def ofLong (t : Text) : Argument :=
  match t.dropWhile (· != '=') with
  | [] => long t none
  | _ :: v => long (t.takeWhile (· != '=')) (some v)

/-- The form of an argument. -/
def ofText : Text → Argument
  | ['-', '-'] => escape
  | '-' :: '-' :: r => ofLong r
  | ['-'] => word ['-']
  | '-' :: r => short r
  | t => word t

/-- An argument as it is written. -/
def text : Argument → Text
  | escape => ['-', '-']
  | long name none => '-' :: '-' :: name
  | long name (some v) => '-' :: '-' :: name ++ '=' :: v
  | short letters => '-' :: letters
  | word t => t

theorem text_ofLong (t : Text) : (ofLong t).text = '-' :: '-' :: t := by
  unfold ofLong
  split
  next => rfl
  next c v h =>
    have hc : c = '=' := by
      have := List.head?_dropWhile_not (p := (· != '=')) t
      simpa [h] using this
    subst hc
    simp [text, ← h, List.takeWhile_append_dropWhile]

/-- Nothing is lost in the form of an argument. -/
theorem text_ofText (t : Text) : (ofText t).text = t := by
  unfold ofText
  split
  next => rfl
  next => exact text_ofLong _
  next => rfl
  next => rfl
  next => rfl

end Argument

end Externalize
