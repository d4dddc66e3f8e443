import Externalize.Json.Fault
import Externalize.Json.Value

/-
The tokens of a JSON text: blanks, words, numbers and strings.

* `Json.skipBlanks`: the text without the blanks at its start.
* `Json.readNumber`: a number, once its sign is read.
* `Json.readString`: a string, once its quote is read.
* `Json.skipNumber`, `Json.skipString`: the same for a value that is not wanted; they accept numbers
  of any size and lone surrogates.
-/
namespace Externalize.Json

/-- The blanks of JSON. -/
def isSpace (c : Char) : Bool := c == ' ' || c == '\n' || c == '\t' || c == '\r'

/-- The text without the blanks at its start. -/
def skipBlanks (t : Text) : Text := t.dropWhile isSpace

/-- Reads the rest of a word. -/
def readWord : (word : Text) → Reader Unit
  | [], t => .ok ((), t)
  | _ :: _, [] => .error (.before .endInValue [])
  | w :: ws, c :: r => if c = w then readWord ws r else .error (.within .expectedWord (c :: r))

/-! ### Numbers -/

/-- The largest natural number that is kept exactly. -/
def maxNatural : Nat := 0xFFFFFFFFFFFFFFFF

/-- The value of a decimal digit. -/
def digitValue (c : Char) : Nat := c.toNat - '0'.toNat

/-- Appends digits to a number as long as it stays in range: the number, and the digits left. -/
def appendDigits : Nat → Text → Nat × Text
  | n, [] => (n, [])
  | n, c :: r =>
    let m := n * 10 + digitValue c
    if maxNatural < m then (n, c :: r) else appendDigits m r

/-- A floating-point number of a significand and a decimal exponent. -/
def floatOf (negative : Bool) (significand : Nat) (exponent : Int) (rest : Text) :
    Except Fault (Number × Text) :=
  match Magnitude.ofDecimal? significand exponent with
  | some m => .ok (.float ⟨negative, m⟩, rest)
  | none => .error (.before .numberOutOfRange rest)

/-- The largest exponent that may be written. -/
def maxExponent : Nat := 0x7FFFFFFF

/-- Reads the digits of an exponent up to the first that makes it too large; the last part of the
answer tells whether there is such a digit. -/
def readExponentDigits : Nat → Text → Nat × Text × Bool
  | e, [] => (e, [], false)
  | e, c :: r =>
    if c.isDigit then
      let e' := e * 10 + digitValue c
      if maxExponent < e' then (e, r, true) else readExponentDigits e' r
    else (e, c :: r, false)

/-- Reads an exponent, once its mark is read; `exponent` is that of the significand. -/
def readExponent (negative : Bool) (significand : Nat) (exponent : Int) : Reader Number := fun t =>
  let (down, t) := match t with
    | '+' :: r => (false, r)
    | '-' :: r => (true, r)
    | _ => (false, t)
  match t with
  | [] => .error (.before .endInValue [])
  | c :: r =>
    if !c.isDigit then .error (.within .invalidNumber (c :: r))
    else
      match readExponentDigits 0 (c :: r) with
      | (_, rest, true) =>
        if significand ≠ 0 ∧ !down then .error (.before .numberOutOfRange rest)
        else .ok (.float ⟨negative, .zero⟩, rest.dropWhile (·.isDigit))
      | (e, rest, false) =>
        floatOf negative significand (if down then exponent - e else exponent + e) rest

/-- Reads what follows the digits of a floating-point number. -/
def readScale (negative : Bool) (significand : Nat) (exponent : Int) : Reader Number
  | c :: r =>
    if c = 'e' ∨ c = 'E' then readExponent negative significand exponent r
    else floatOf negative significand exponent (c :: r)
  | [] => floatOf negative significand exponent []

/-- Reads a fraction, once its point is read. Digits that do not fit the significand are dropped. -/
def readFraction (negative : Bool) (significand : Nat) (exponent : Int) : Reader Number := fun t =>
  let digits := t.takeWhile (·.isDigit)
  let rest := t.dropWhile (·.isDigit)
  if digits.isEmpty then
    .error (.within (if rest.isEmpty then .endInValue else .invalidNumber) rest)
  else
    let (n, left) := appendDigits significand digits
    readScale negative n (exponent - (digits.length - left.length : Nat)) rest

/-- A number without point and mark: exact if it is in range. -/
def wholeNumber (negative : Bool) (significand : Nat) (rest : Text) :
    Except Fault (Number × Text) :=
  if !negative then .ok (.natural significand, rest)
  else if 0 < significand ∧ significand ≤ 0x8000000000000000 then .ok (.opposite significand, rest)
  else floatOf true significand 0 rest

/-- Reads a number, once its sign is read. -/
def readNumber (negative : Bool) : Reader Number
  | [] => .error (.before .endInValue [])
  | c :: r =>
    if !c.isDigit then .error (.within .invalidNumber (c :: r))
    else if c = '0' ∧ r.head?.any (·.isDigit) then .error (.within .invalidNumber r)
    else
      let digits := (c :: r).takeWhile (·.isDigit)
      let rest := (c :: r).dropWhile (·.isDigit)
      let (n, left) := appendDigits 0 digits
      match rest with
      | '.' :: r => readFraction negative n left.length r
      | d :: r =>
        if d = 'e' ∨ d = 'E' then readExponent negative n left.length r
        else if left.isEmpty then wholeNumber negative n (d :: r)
        else floatOf negative n left.length (d :: r)
      | [] =>
        if left.isEmpty then wholeNumber negative n [] else floatOf negative n left.length []

/-- Passes over an exponent, once its mark is read. -/
def skipExponent : Reader Unit := fun t =>
  let t := match t with
    | '+' :: r => r
    | '-' :: r => r
    | _ => t
  match t with
  | [] => .error (.before .invalidNumber [])
  | c :: r =>
    if c.isDigit then .ok ((), r.dropWhile (·.isDigit))
    else .error (.within .invalidNumber (c :: r))

/-- Passes over what follows the first digits of a number. -/
def skipScale : Reader Unit
  | c :: r => if c = 'e' ∨ c = 'E' then skipExponent r else .ok ((), c :: r)
  | [] => .ok ((), [])

/-- Passes over a number, once its sign is read. -/
def skipNumber : Reader Unit
  | [] => .error (.before .invalidNumber [])
  | c :: r =>
    if !c.isDigit then .error (.within .invalidNumber (c :: r))
    else if c = '0' ∧ r.head?.any (·.isDigit) then .error (.within .invalidNumber r)
    else
      match r.dropWhile (·.isDigit) with
      | '.' :: f =>
        let rest := f.dropWhile (·.isDigit)
        if f.head?.any (·.isDigit) then skipScale rest else .error (.within .invalidNumber rest)
      | rest => skipScale rest

/-! ### Strings -/

/-- The value of a digit of base 16. -/
def hexValue? (c : Char) : Option Nat :=
  if c.isDigit then some (c.toNat - '0'.toNat)
  else if 'a' ≤ c ∧ c ≤ 'f' then some (c.toNat - 'a'.toNat + 10)
  else if 'A' ≤ c ∧ c ≤ 'F' then some (c.toNat - 'A'.toNat + 10)
  else none

/-- The number of four digits of base 16. -/
def hexValue4? (a b c d : Char) : Option Nat := do
  return (← hexValue? a) * 4096 + (← hexValue? b) * 256 + (← hexValue? c) * 16 + (← hexValue? d)

/-- Reads four digits of base 16. -/
def readHex (t : Text) : Except Fault (Nat × Text) :=
  if t.size < 4 then .error (.before .endInString [])
  else
    match t with
    | a :: b :: c :: d :: r =>
      match hexValue4? a b c d with
      | some n => .ok (n, r)
      | none => .error ⟨.invalidEscape, t.size - 4⟩
    | _ => .error ⟨.invalidEscape, t.size - 4⟩

/-- Reads one character of the second half of a pair of surrogates. -/
def readPairMark (mark : Char) : Text → Except Fault Text
  | [] => .error (.before .endInString [])
  | c :: r => if c = mark then .ok r else .error (.within .endOfHexEscape (c :: r))

/-- Reads a character given by number, once its mark is read. Two surrogates make one character. -/
def readCodePoint (t : Text) : Except Fault (Char × Text) := do
  let (n, r) ← readHex t
  if 0xDC00 ≤ n ∧ n ≤ 0xDFFF then .error (.before .loneSurrogate r)
  else if n < 0xD800 ∨ 0xDBFF < n then .ok (Char.ofNat n, r)
  else
    let r ← readPairMark '\\' r
    let r ← readPairMark 'u' r
    let (m, r) ← readHex r
    if m < 0xDC00 ∨ 0xDFFF < m then .error (.before .loneSurrogate r)
    else .ok (Char.ofNat ((n - 0xD800) * 1024 + (m - 0xDC00) + 0x10000), r)

/-- The character that an escape of one letter stands for. -/
def simpleEscape? : Char → Option Char
  | '"' => some '"'
  | '\\' => some '\\'
  | '/' => some '/'
  | 'b' => some '\x08'
  | 'f' => some '\x0c'
  | 'n' => some '\n'
  | 'r' => some '\r'
  | 't' => some '\t'
  | _ => none

/-- Reads an escape, once its backslash is read. -/
def readEscape : Text → Except Fault (Char × Text)
  | [] => .error (.before .endInString [])
  | c :: r =>
    if c = 'u' then readCodePoint r
    else
      match simpleEscape? c with
      | some d => .ok (d, r)
      | none => .error (.within .invalidEscape (c :: r))

/-- Reads a string after the first `skip` characters, once its quote is read. -/
def readStringFrom : (skip : Nat) → Reader Text
  | _, [] => .error (.before .endInString [])
  | skip + 1, _ :: r => readStringFrom skip r
  | 0, c :: r =>
    if c = '"' then .ok ([], r)
    else if c = '\\' then
      match readEscape r with
      | .error f => .error f
      | .ok (d, rest) =>
        (readStringFrom (r.length - rest.length) r).map fun (s, rest) => (d :: s, rest)
    else if c.toNat < 0x20 then .error (.before .controlCharacter r)
    else (readStringFrom 0 r).map fun (s, rest) => (c :: s, rest)

/-- Reads a string, once its quote is read. -/
def readString : Reader Text := readStringFrom 0

/-- Passes over a string after the first `skip` characters, once its quote is read. -/
def skipStringFrom : (skip : Nat) → Reader Unit
  | _, [] => .error (.before .endInString [])
  | skip + 1, _ :: r => skipStringFrom skip r
  | 0, c :: r =>
    if c = '"' then .ok ((), r)
    else if c = '\\' then
      match r with
      | [] => .error (.before .endInString [])
      | d :: r' =>
        if d = 'u' then
          match readHex r' with
          | .error f => .error f
          | .ok _ => skipStringFrom 5 r
        else if (simpleEscape? d).isSome then skipStringFrom 1 r
        else .error (.within .invalidEscape r)
    else if c.toNat < 0x20 then .error (.before .controlCharacter (c :: r))
    else skipStringFrom 0 r

/-- Passes over a string, once its quote is read. -/
def skipString : Reader Unit := skipStringFrom 0

end Externalize.Json
