import Externalize.Text.Line

/-
What can be wrong with a JSON text.

* `Json.Problem`: the kinds of problem, in form and in meaning.
* `Json.Fault`: a problem and where it is, as the number of bytes that are left.
* `Json.Fault.message`: the problem with its line and column. Columns count bytes.
-/
namespace Externalize.Json

/-- What is wrong. -/
inductive Problem where
  | endInList
  | endInObject
  | endInString
  | endInValue
  | expectedColon
  | expectedListEnd
  | expectedObjectEnd
  | expectedWord
  | expectedValue
  | invalidEscape
  | invalidNumber
  | numberOutOfRange
  | controlCharacter
  | keyNotString
  | loneSurrogate
  | trailingComma
  | trailingCharacters
  | endOfHexEscape
  | tooDeep
  /-- A value of one kind stands where another is wanted. -/
  | wrongType (found wanted : String)
  | unknownVariant (found wanted : String)
  | duplicateField (name : String)
deriving DecidableEq

/-- The message of a problem. -/
def Problem.message : Problem → String
  | endInList => "EOF while parsing a list"
  | endInObject => "EOF while parsing an object"
  | endInString => "EOF while parsing a string"
  | endInValue => "EOF while parsing a value"
  | expectedColon => "expected `:`"
  | expectedListEnd => "expected `,` or `]`"
  | expectedObjectEnd => "expected `,` or `\x7d`"
  | expectedWord => "expected ident"
  | expectedValue => "expected value"
  | invalidEscape => "invalid escape"
  | invalidNumber => "invalid number"
  | numberOutOfRange => "number out of range"
  | controlCharacter => "control character (\\u0000-\\u001F) found while parsing a string"
  | keyNotString => "key must be a string"
  | loneSurrogate => "lone leading surrogate in hex escape"
  | trailingComma => "trailing comma"
  | trailingCharacters => "trailing characters"
  | endOfHexEscape => "unexpected end of hex escape"
  | tooDeep => "recursion limit exceeded"
  | wrongType found wanted => s!"invalid type: {found}, expected {wanted}"
  | unknownVariant found wanted => s!"unknown variant `{found}`, expected {wanted}"
  | duplicateField name => s!"duplicate field `{name}`"

/-- A problem, and how many bytes of the text are left where it is found. -/
structure Fault where
  problem : Problem
  remaining : Nat
deriving DecidableEq

namespace Fault

/-- A problem found before the rest of the text. -/
def before (p : Problem) (rest : Text) : Fault := ⟨p, rest.size⟩

/-- A problem found with the first byte of the rest. -/
def within (p : Problem) (rest : Text) : Fault := ⟨p, rest.size - 1⟩

/-- The problem with its place in the text. -/
def message (f : Fault) (t : Text) : String :=
  let offset := t.size - f.remaining
  let line := (t.before offset).count '\n' + 1
  let column := offset - t.lineStart offset
  s!"{f.problem.message} at line {line} column {column}"

end Fault

/-- Reads something at the start of a text; what it leaves is read next. -/
abbrev Reader (α : Type) := Text → Except Fault (α × Text)

end Externalize.Json
