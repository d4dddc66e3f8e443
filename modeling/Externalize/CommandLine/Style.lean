import Externalize.Text.Basic

/-
Styles of text in a terminal.

* `Style.paint`: a text between the sequence that begins a style and the one that ends it.
* `Style.reopen`: the style is begun anew wherever the text itself ends it.
-/
namespace Externalize

/-- How a text is shown. -/
inductive Style where
  | bold
  | dim
  | red
  | green
  | yellow
  | blue
  | cyan
deriving DecidableEq

namespace Style

/-- The number of a style. -/
def code : Style → String
  | bold => "1"
  | dim => "2"
  | red => "31"
  | green => "32"
  | yellow => "33"
  | blue => "34"
  | cyan => "36"

/-- The sequence that begins a style. -/
def start (s : Style) : Text := '\x1b' :: '[' :: s.code.toList ++ ['m']

/-- The sequence that ends every style. -/
def reset : Text := ['\x1b', '[', '0', 'm']

/-- A text with the style begun anew after each end of styles in it. -/
def reopen (s : Style) : Text → Text
  | '\x1b' :: '[' :: '0' :: 'm' :: r => reset ++ s.start ++ reopen s r
  | c :: r => c :: reopen s r
  | [] => []

/-- A text in a style, if colours are on. -/
def paint (colours : Bool) (s : Style) (t : Text) : Text :=
  if colours then s.start ++ reopen s t ++ reset else t

@[simp] theorem paint_false (s : Style) (t : Text) : paint false s t = t := rfl

end Style

end Externalize
