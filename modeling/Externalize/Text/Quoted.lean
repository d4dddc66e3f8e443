import Externalize.Text.Unprintable

/-
Texts in quotes, as messages show them.

A quote, a backslash and the common controls get a backslash; a character without a shape of its own
is shown by its number.

* `quotedChar`, `Text.quoted`: the quoted form.
-/
namespace Externalize

/-- A number in base 16, in lower case. -/
def hexDigits (n : Nat) : Text := Nat.toDigits 16 n

/-- A character within quotes. -/
def quotedChar (c : Char) : Text :=
  if c = '\x00' then ['\\', '0']
  else if c = '\t' then ['\\', 't']
  else if c = '\r' then ['\\', 'r']
  else if c = '\n' then ['\\', 'n']
  else if c = '"' then ['\\', '"']
  else if c = '\\' then ['\\', '\\']
  else if isUnprintable c then ['\\', 'u', '\x7b'] ++ hexDigits c.toNat ++ ['\x7d']
  else [c]

/-- A text in quotes. -/
def Text.quoted (t : Text) : Text := '"' :: t.flatMap quotedChar ++ ['"']

end Externalize
