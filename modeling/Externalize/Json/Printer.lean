import Externalize.Json.Value

/-
The written form of a JSON value.

Each element and each member stands on a line of its own, two columns to the right of its container;
an empty container stays on its line.

* `Json.escape`, `Json.quote`: the written form of a text.
* `Json.Value.render`: the written form of a value.
-/
namespace Externalize.Json

/-- A digit of base 16, in lower case. -/
def hexDigit (n : Nat) : Char := Nat.digitChar (n % 16)

/-- A character within a written text: quotes, backslashes and controls are escaped. -/
def escape (c : Char) : Text :=
  if c = '"' then ['\\', '"']
  else if c = '\\' then ['\\', '\\']
  else if c.toNat = 0x08 then ['\\', 'b']
  else if c.toNat = 0x0C then ['\\', 'f']
  else if c = '\n' then ['\\', 'n']
  else if c = '\r' then ['\\', 'r']
  else if c = '\t' then ['\\', 't']
  else if c.toNat < 0x20 then
    ['\\', 'u', '0', '0', hexDigit (c.toNat / 16), hexDigit c.toNat]
  else [c]

/-- The written form of a text. -/
def quote (s : Text) : Text := '"' :: s.flatMap escape ++ ['"']

/-- A new line at a depth. -/
def indent (depth : Nat) : Text := '\n' :: List.replicate (2 * depth) ' '

mutual

/-- The written form of a value that stands at a depth. -/
def Value.renderAt (depth : Nat) : Value → Text
  | .null => ['n', 'u', 'l', 'l']
  | .bool true => ['t', 'r', 'u', 'e']
  | .bool false => ['f', 'a', 'l', 's', 'e']
  | .number n => n.text
  | .string s => quote s
  | .array [] => ['[', ']']
  | .array (v :: vs) =>
    '[' :: indent (depth + 1) ++ v.renderAt (depth + 1) ++ renderElements (depth + 1) vs ++
      indent depth ++ [']']
  | .object [] => ['\x7b', '\x7d']
  | .object ((k, v) :: ms) =>
    '\x7b' :: indent (depth + 1) ++ quote k ++ ':' :: ' ' :: v.renderAt (depth + 1) ++
      renderMembers (depth + 1) ms ++ indent depth ++ ['\x7d']

/-- The elements after the first one, each with the comma before it. -/
def renderElements (depth : Nat) : List Value → Text
  | [] => []
  | v :: vs => ',' :: indent depth ++ v.renderAt depth ++ renderElements depth vs

/-- The members after the first one, each with the comma before it. -/
def renderMembers (depth : Nat) : List (Text × Value) → Text
  | [] => []
  | (k, v) :: ms =>
    ',' :: indent depth ++ quote k ++ ':' :: ' ' :: v.renderAt depth ++ renderMembers depth ms

end

/-- The written form of a value. -/
def Value.render (v : Value) : Text := v.renderAt 0

end Externalize.Json
