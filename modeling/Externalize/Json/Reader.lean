import Externalize.Json.Token

/-
Reading a JSON value.

* `Json.readValue`: a value at the start of a text, nested at most so deep.
* `Json.parse`: a text that holds one value and nothing else. Of two members of one name the later
  value counts, at the place of the earlier.
* `Json.skipValue`: passes over a value that is not wanted, nested to any depth.
-/
namespace Externalize.Json

/-- How deep arrays and objects may nest. -/
def maxDepth : Nat := 127

/-- Members in the order in which they are read, those of one name taken together. -/
def Members.ofPairs (pairs : List (Text × Value)) : Members :=
  pairs.foldl (fun m (k, v) => m.set k v) []

/-- Reads the elements after the first one and the end of the array. An element takes a character,
so `room` for as many as there are characters suffices. -/
def readElements {α : Type} (item : Reader α) : (room : Nat) → Reader (List α)
  | 0, t => .error (.before .endInList t)
  | room + 1, t =>
    match skipBlanks t with
    | [] => .error (.before .endInList [])
    | ']' :: r => .ok ([], r)
    | ',' :: r =>
      match skipBlanks r with
      | [] => .error (.before .endInValue [])
      | ']' :: r => .error (.within .trailingComma (']' :: r))
      | t =>
        match item t with
        | .error f => .error f
        | .ok (v, t) => (readElements item room t).map fun (vs, t) => (v :: vs, t)
    | t => .error (.within .expectedListEnd t)

/-- Reads an array, once its bracket is read. -/
def readArray {α : Type} (item : Reader α) : Reader (List α) := fun t =>
  match skipBlanks t with
  | [] => .error (.before .endInList [])
  | ']' :: r => .ok ([], r)
  | t =>
    match item t with
    | .error f => .error f
    | .ok (v, t) => (readElements item t.length t).map fun (vs, t) => (v :: vs, t)

/-- Reads the colon after a name. -/
def readColon : Text → Except Fault Text := fun t =>
  match skipBlanks t with
  | [] => .error (.before .endInObject [])
  | ':' :: r => .ok r
  | t => .error (.within .expectedColon t)

/-- Reads a member, once the quote of its name is read. -/
def readMember (item : Reader Value) : Reader (Text × Value) := fun t =>
  match readString t with
  | .error f => .error f
  | .ok (k, t) =>
    match readColon t with
    | .error f => .error f
    | .ok t => (item t).map fun (v, t) => ((k, v), t)

/-- Reads the members after the first one and the end of the object; `room` as for arrays. -/
def readMembers (item : Reader Value) : (room : Nat) → Reader (List (Text × Value))
  | 0, t => .error (.before .endInObject t)
  | room + 1, t =>
    match skipBlanks t with
    | [] => .error (.before .endInObject [])
    | '\x7d' :: r => .ok ([], r)
    | ',' :: r =>
      match skipBlanks r with
      | [] => .error (.before .endInValue [])
      | '"' :: r =>
        match readMember item r with
        | .error f => .error f
        | .ok (m, t) => (readMembers item room t).map fun (ms, t) => (m :: ms, t)
      | '\x7d' :: r => .error (.within .trailingComma ('\x7d' :: r))
      | t => .error (.within .keyNotString t)
    | t => .error (.within .expectedObjectEnd t)

/-- Reads an object, once its brace is read. -/
def readObject (item : Reader Value) : Reader (List (Text × Value)) := fun t =>
  match skipBlanks t with
  | [] => .error (.before .endInObject [])
  | '\x7d' :: r => .ok ([], r)
  | '"' :: r =>
    match readMember item r with
    | .error f => .error f
    | .ok (m, t) => (readMembers item t.length t).map fun (ms, t) => (m :: ms, t)
  | t => .error (.within .keyNotString t)

/-- Reads a value; `nested` reads the values within it, if it may hold any. -/
def readValueWith (nested : Option (Reader Value)) : Reader Value := fun t =>
  match skipBlanks t with
  | [] => .error (.before .endInValue [])
  | c :: r =>
    if c = 'n' then (readWord ['u', 'l', 'l'] r).map fun (_, t) => (.null, t)
    else if c = 't' then (readWord ['r', 'u', 'e'] r).map fun (_, t) => (.bool true, t)
    else if c = 'f' then (readWord ['a', 'l', 's', 'e'] r).map fun (_, t) => (.bool false, t)
    else if c = '-' then (readNumber true r).map fun (n, t) => (.number n, t)
    else if c.isDigit then (readNumber false (c :: r)).map fun (n, t) => (.number n, t)
    else if c = '"' then (readString r).map fun (s, t) => (.string s, t)
    else if c = '[' then
      match nested with
      | none => .error (.within .tooDeep (c :: r))
      | some item => (readArray item r).map fun (vs, t) => (.array vs, t)
    else if c = '\x7b' then
      match nested with
      | none => .error (.within .tooDeep (c :: r))
      | some item => (readObject item r).map fun (ms, t) => (.object (Members.ofPairs ms), t)
    else .error (.within .expectedValue (c :: r))

/-- Reads a value whose arrays and objects nest at most `depth` deep. -/
def readValue : (depth : Nat) → Reader Value
  | 0 => readValueWith none
  | depth + 1 => readValueWith (some (readValue depth))

/-- Checks that nothing but blanks is left. -/
def atEnd {α : Type} : α × Text → Except Fault α := fun (a, t) =>
  match skipBlanks t with
  | [] => .ok a
  | t => .error (.within .trailingCharacters t)

/-- The value that a text holds. -/
def parse (t : Text) : Except Fault Value := readValue maxDepth t >>= atEnd

/-! ### Passing over a value -/

/-- What encloses a value that is passed over. -/
inductive Frame where
  | list
  | object
deriving DecidableEq

/-- Passes over the name and the colon of a member. -/
def skipName (t : Text) : Except Fault Text :=
  match skipBlanks t with
  | [] => .error (.before .endInObject [])
  | '"' :: r => skipString r >>= fun (_, t) => readColon t
  | t => .error (.within .keyNotString t)

/-- Passes over what stands before the next value within the frames: a name, if it is a member. -/
def skipToValue (frame : Frame) (t : Text) : Except Fault Text :=
  match frame with
  | .list => .ok t
  | .object => skipName t

/-- Passes over the ends of frames up to a comma, after a complete value: the frames left and the
text after the comma, or the text after the last frame. -/
def skipEnds : List Frame → Text → Except Fault (List Frame × Text)
  | [], t => .ok ([], t)
  | frame :: frames, t =>
    match skipBlanks t with
    | [] => .error (.before (if frame = .list then .endInList else .endInObject) [])
    | c :: r =>
      if c = ',' then (skipToValue frame r).map fun t => (frame :: frames, t)
      else if c = ']' ∧ frame = .list then skipEnds frames r
      else if c = '\x7d' ∧ frame = .object then skipEnds frames r
      else
        .error (.within (if frame = .list then .expectedListEnd else .expectedObjectEnd) (c :: r))

/-- Passes over the start of a frame: its end, if it is empty, and those of the frames around it. -/
def skipStart (frame : Frame) (frames : List Frame) (t : Text) :
    Except Fault (List Frame × Text) :=
  match skipBlanks t with
  | [] => .error (.before (if frame = .list then .endInList else .endInObject) [])
  | c :: r =>
    if c = ']' ∧ frame = .list then skipEnds frames r
    else if c = '\x7d' ∧ frame = .object then skipEnds frames r
    else (skipToValue frame (c :: r)).map fun t => (frame :: frames, t)

/-- Passes over one value without its elements or members. -/
def skipHead (frames : List Frame) (t : Text) : Except Fault (List Frame × Text) :=
  match skipBlanks t with
  | [] => .error (.before .endInValue [])
  | c :: r =>
    let ends : Unit × Text → Except Fault (List Frame × Text) := fun (_, t) => skipEnds frames t
    if c = 'n' then readWord ['u', 'l', 'l'] r >>= ends
    else if c = 't' then readWord ['r', 'u', 'e'] r >>= ends
    else if c = 'f' then readWord ['a', 'l', 's', 'e'] r >>= ends
    else if c = '-' then skipNumber r >>= ends
    else if c.isDigit then skipNumber (c :: r) >>= ends
    else if c = '"' then skipString r >>= ends
    else if c = '[' then skipStart .list frames r
    else if c = '\x7b' then skipStart .object frames r
    else .error (.within .expectedValue (c :: r))

/-- Passes over the values that are left within the frames; each takes a character, so `room` for
as many as there are characters suffices. -/
def skipValues : (room : Nat) → List Frame → Text → Except Fault Text
  | 0, _, t => .error (.before .endInValue t)
  | room + 1, frames, t =>
    match skipHead frames t with
    | .error f => .error f
    | .ok ([], t) => .ok t
    | .ok (frames, t) => skipValues room frames t

/-- Passes over a value. -/
def skipValue (t : Text) : Except Fault Text := skipValues (t.length + 1) [] t

end Externalize.Json
