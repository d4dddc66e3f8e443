import Externalize.Config.Basic
import Externalize.Json.Reader
import Externalize.Text.Quoted

/-
Reading a configuration.

The file holds an object of settings, or an array of them in their order. A setting that is missing
has its default, and a member that is no setting is passed over.

* `Config.readField`: one setting, as a change of the configuration.
* `Config.parse`: the configuration that a text holds.
-/
namespace Externalize.Config

open Json (Fault Reader)

/-! ### Values of one type -/

/-- A number as a message names it. -/
def numberName : Json.Number → String
  | .float x => s!"floating point `{String.ofList x.text}`"
  | n => s!"integer `{String.ofList n.text}`"

/-- The fault of a value of another type than is wanted; a value that cannot be read has its own. -/
def wrongType (wanted : String) (t : Text) : Fault :=
  let found {α : Type} (name : α → String) : Except Fault (α × Text) → Fault
    | .error f => f
    | .ok (a, t) => .before (.wrongType (name a) wanted) t
  match t with
  | [] => .before .expectedValue []
  | c :: r =>
    if c = 'n' then found (fun _ => "null") (Json.readWord ['u', 'l', 'l'] r)
    else if c = 't' then found (fun _ => "boolean `true`") (Json.readWord ['r', 'u', 'e'] r)
    else if c = 'f' then found (fun _ => "boolean `false`") (Json.readWord ['a', 'l', 's', 'e'] r)
    else if c = '-' then found numberName (Json.readNumber true r)
    else if c.isDigit then found numberName (Json.readNumber false (c :: r))
    else if c = '"' then found (fun s => "string " ++ String.ofList s.quoted) (Json.readString r)
    else if c = '[' then .before (.wrongType "sequence" wanted) (c :: r)
    else if c = '\x7b' then .before (.wrongType "map" wanted) (c :: r)
    else .within .expectedValue (c :: r)

/-- Reads a string. -/
def readText (wanted : String) : Reader Text := fun t =>
  match Json.skipBlanks t with
  | [] => .error (.before .endInValue [])
  | '"' :: r => Json.readString r
  | t => .error (wrongType wanted t)

/-- Reads an array of strings. -/
def readTexts : Reader (List Text) := fun t =>
  match Json.skipBlanks t with
  | [] => .error (.before .endInValue [])
  | '[' :: r => Json.readArray (readText "a string") r
  | t => .error (wrongType "a sequence" t)

/-- Reads a truth value. -/
def readBool : Reader Bool := fun t =>
  match Json.skipBlanks t with
  | [] => .error (.before .endInValue [])
  | 't' :: r => (Json.readWord ['r', 'u', 'e'] r).map fun (_, t) => (true, t)
  | 'f' :: r => (Json.readWord ['a', 'l', 's', 'e'] r).map fun (_, t) => (false, t)
  | t => .error (wrongType "a boolean" t)

/-- Reads a null. -/
def readNull : Reader Unit := fun t =>
  match Json.skipBlanks t with
  | [] => .error (.before .endInValue [])
  | 'n' :: r => Json.readWord ['u', 'l', 'l'] r
  | t => .error (wrongType "unit" t)

/-- Reads the word for a trigger. -/
def readTriggerWord : Reader Trigger := fun t =>
  match readText "variant identifier" t with
  | .error f => .error f
  | .ok (word, t) =>
    match Trigger.ofWord? word with
    | some m => .ok (m, t)
    | none =>
      .error (.before (.unknownVariant (String.ofList word) "`caret` or `selection`") t)

/-- Reads a trigger: its word, or an object that has the word as its one name and a null. -/
def readTrigger : Reader Trigger := fun t =>
  match Json.skipBlanks t with
  | [] => .error (.before .endInValue [])
  | '"' :: r => readTriggerWord ('"' :: r)
  | '\x7b' :: r =>
    match readTriggerWord r with
    | .error f => .error f
    | .ok (m, t) =>
      match Json.readColon t >>= readNull with
      | .error f => .error f
      | .ok (_, t) =>
        match Json.skipBlanks t with
        | [] => .error (.before .endInObject [])
        | '\x7d' :: r => .ok (m, r)
        | t => .error (.before .expectedValue t)
  | t => .error (.within .expectedValue t)

/-! ### Settings -/

/-- Reads a setting: the change that it makes to a configuration. -/
def readField (f : ConfigField) : Reader (Config → Config) := fun t =>
  match f with
  | .directory => (readText "a string" t).map fun (s, t) => (({ · with directory := s }), t)
  | .locale => (readText "a string" t).map fun (s, t) => (({ · with locale := s }), t)
  | .stem => (readText "a string" t).map fun (s, t) => (({ · with stem := s }), t)
  | .resourceExtension =>
    (readText "a string" t).map fun (s, t) => (({ · with resourceExtension := s }), t)
  | .sourceExtensions => (readTexts t).map fun (l, t) => (({ · with sourceExtensions := l }), t)
  | .trigger => (readTrigger t).map fun (m, t) => (({ · with trigger := m }), t)
  | .runHook => (readBool t).map fun (b, t) => (({ · with runHook := b }), t)

/-- Reads the settings of an array in their order, up to its end; `first` tells that none has been
read yet. Settings for which there is no element keep their defaults. -/
def readSequence : (first : Bool) → List ConfigField → Config → Reader Config
  | _, [], c, t =>
    match Json.skipBlanks t with
    | [] => .error (.before .endInList [])
    | ']' :: r => .ok (c, r)
    | ',' :: r =>
      match Json.skipBlanks r with
      | ']' :: r => .error (.within .trailingComma (']' :: r))
      | t => .error (.within .trailingCharacters t)
    | t => .error (.within .trailingCharacters t)
  | first, f :: fs, c, t =>
    let element (t : Text) : Except Fault (Config × Text) :=
      match readField f t with
      | .error fault => .error fault
      | .ok (change, t) => readSequence false fs (change c) t
    match Json.skipBlanks t with
    | [] => .error (.before .endInList [])
    | ']' :: r => .ok (c, r)
    | ',' :: r =>
      if first then element (',' :: r)
      else
        match Json.skipBlanks r with
        | [] => .error (.before .endInValue [])
        | ']' :: r => .error (.within .trailingComma (']' :: r))
        | t => element t
    | t => if first then element t else .error (.within .expectedListEnd t)

/-- The place where a setting that is given twice is found: after its name, and after the end of
the object if that follows. -/
def afterDuplicate (t : Text) : Text :=
  match Json.skipBlanks t with
  | '\x7d' :: r => r
  | t => t

/-- Reads one member, once the quote of its name is read: the settings given so far and the
configuration with it. -/
def readMember (seen : List ConfigField) (c : Config) : Reader (List ConfigField × Config) :=
  fun t =>
    match Json.readString t with
    | .error f => .error f
    | .ok (name, t) =>
      match ConfigField.all.find? fun f => f.name.toList = name with
      | none =>
        (Json.readColon t >>= Json.skipValue).map fun t => ((seen, c), t)
      | some f =>
        if f ∈ seen then .error (.before (.duplicateField f.name) (afterDuplicate t))
        else
          match Json.readColon t >>= readField f with
          | .error fault => .error fault
          | .ok (change, t) => .ok ((f :: seen, change c), t)

/-- Reads the members after the first one and the end of the object; each takes a character, so
`room` for as many as there are characters suffices. -/
def readMembers : (room : Nat) → List ConfigField → Config → Reader Config
  | 0, _, _, t => .error (.before .endInObject t)
  | room + 1, seen, c, t =>
    match Json.skipBlanks t with
    | [] => .error (.before .endInObject [])
    | '\x7d' :: r => .ok (c, r)
    | ',' :: r =>
      match Json.skipBlanks r with
      | [] => .error (.before .endInValue [])
      | '"' :: r =>
        match readMember seen c r with
        | .error f => .error f
        | .ok ((seen, c), t) => readMembers room seen c t
      | '\x7d' :: r => .error (.within .trailingComma ('\x7d' :: r))
      | t => .error (.within .keyNotString t)
    | t => .error (.within .expectedObjectEnd t)

/-- Reads an object of settings, once its brace is read. -/
def readObject : Reader Config := fun t =>
  match Json.skipBlanks t with
  | [] => .error (.before .endInObject [])
  | '\x7d' :: r => .ok (.default, r)
  | '"' :: r =>
    match readMember [] .default r with
    | .error f => .error f
    | .ok ((seen, c), t) => readMembers t.length seen c t
  | t => .error (.within .keyNotString t)

/-- Reads a configuration. -/
def read : Reader Config := fun t =>
  match Json.skipBlanks t with
  | [] => .error (.before .endInValue [])
  | '[' :: r => readSequence true ConfigField.all .default r
  | '\x7b' :: r => readObject r
  | t => .error (wrongType "struct Config" t)

/-- The configuration that a text holds. -/
def parse (t : Text) : Except Fault Config := read t >>= Json.atEnd

end Externalize.Config
