import Externalize.Files.Write
import Externalize.Json.Printer
import Externalize.Json.Reader
import Externalize.Key
import Externalize.Text.Blank

/-
Resource documents.

A document is a JSON object in a file. Members that are no texts, such as the metadata of a key, are
kept as they are.

* `Document.open`: the document of a file; a file that is missing or blank has no members.
* `Document.set`: one key set to a text, and whether that added, changed or kept it.
* `Document.save`: the document written as a whole.
-/
namespace Externalize

/-- What setting a key does to it. -/
inductive KeyAction where
  | added
  | updated
  | unchanged
deriving DecidableEq

/-- The word for an action. -/
def KeyAction.word : KeyAction → String
  | added => "added"
  | updated => "updated"
  | unchanged => "unchanged"

/-- A resource document and the path of its file. -/
structure Document where
  path : Path
  members : Json.Members

/-- Why a key cannot be put into a document. -/
inductive DocumentError where
  | read (path : Path) (e : ReadError)
  /-- The text, which is given with the fault, is no JSON. -/
  | syntaxFault (path : Path) (text : Text) (f : Json.Fault)
  | notObject (path : Path)
  | write (e : WriteError)
deriving DecidableEq

/-- The message of a document error. -/
def DocumentError.message : DocumentError → String
  | read path e => s!"Failed to read file: {path}: {e.message}"
  | syntaxFault path text f => s!"Failed to parse JSON: {path}: {f.message text}"
  | notObject path => s!"Root of resource file must be an object: {path}"
  | write e => e.message

namespace Document

/-- The members that a text holds; a blank text holds none. -/
def parse (path : Path) (t : Text) : Except DocumentError Json.Members :=
  if t.all isBlank then .ok []
  else
    match Json.parse t with
    | .error f => .error (.syntaxFault path t f)
    | .ok (.object members) => .ok members
    | .ok _ => .error (.notObject path)

/-- The document of a file. -/
def «open» (fs : FileSystem) (path : Path) : Except DocumentError Document :=
  if fs.has path then
    match fs.readText path with
    | .error e => .error (.read path e)
    | .ok t => (parse path t).map fun members => ⟨path, members⟩
  else .ok ⟨path, []⟩

/-- What setting a key to a text does to members that have this value of it. -/
def actionOn (value : Text) : Option Json.Value → KeyAction
  | none => .added
  | some (.string s) => if s = value then .unchanged else .updated
  | some _ => .updated

/-- What setting a key to a text does to a document. -/
def action (d : Document) (k : Key) (value : Text) : KeyAction :=
  actionOn value (d.members.lookup k.text)

/-- The document with a key set to a text. -/
def set (d : Document) (k : Key) (value : Text) : Document :=
  { d with members := d.members.set k.text (.string value) }

/-- The text of a key, if its value is one. -/
def get? (d : Document) (key : Text) : Option Text :=
  match d.members.lookup key with
  | some (.string s) => some s
  | _ => none

/-- The written form of a document: its object and a line end. -/
def render (d : Document) : Text := (Json.Value.object d.members).render ++ ['\n']

/-- Writes the document. -/
def save (fs : FileSystem) (d : Document) : FileSystem × Except WriteError Unit :=
  fs.writeAtomically d.path d.render

end Document

end Externalize
