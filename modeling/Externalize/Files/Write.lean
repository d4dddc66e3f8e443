import Externalize.Files.Access

/-
Writing a file as a whole.

The content goes to a new file in the same directory, which then takes the place of the old one, so
that a reader sees the old content or the new one and never a part.

* `FileSystem.freshName`: a name that a directory does not have.
* `FileSystem.createTemporary`, `FileSystem.fillTemporary`, `FileSystem.permitTemporary`,
  `FileSystem.replaceWith`: the steps. Each one can fail.
* `FileSystem.writeAtomically`: all of them, and the removal of the new file if a later one fails.
-/
namespace Externalize

/-- Why a file cannot be written. -/
inductive WriteError where
  | directory (dir : Path) (e : OsError)
  | temporary (dir : Path) (e : OsError)
  | file (path : Path) (e : OsError)
  | permissions (path : Path) (e : OsError)
deriving DecidableEq

/-- The message of a write error. The name of the new file, which is drawn at random, is not
told. -/
def WriteError.message : WriteError → String
  | directory dir e => s!"Failed to create directory: {dir}: {e.message}"
  | temporary dir e => s!"Failed to create temporary file in {dir}: {e.message}"
  | file path e => s!"Failed to write file: {path}: {e.message}"
  | permissions path e => s!"Failed to set permissions for {path}: {e.message}"

/-- The directory that a file is in: the working directory if its path says nothing of it. -/
def Path.directory (p : Path) : Path :=
  match p.parent? with
  | some d => if d.text.isEmpty then ⟨['.']⟩ else d
  | none => ⟨['.']⟩

namespace FileSystem

/-- The mode of a file that nobody else may read. -/
def privateMode : Nat := 0o600

/-- The mode of a new file. -/
def defaultMode : Nat := 0o644

/-- A name that is longer than every name in the directory, and so is none of them. -/
def freshName (fs : FileSystem) (dir : Place) : Name :=
  ".tmp".toList ++ List.replicate ((fs.childNames dir).foldl (fun k n => max k n.length) 0) 'x'

/-- The place of the entry that a write under a path is about, in the directory of the path. -/
def entryIn (p : Path) (dir : Place) : Place := (plainNames p).getLastD [] :: dir

/-- Makes an empty file under a new name in the directory of a path: its place. -/
def createTemporary (fs : FileSystem) (p : Path) : Except OsError (Place × FileSystem) :=
  match fs.directory p.directory with
  | .error e => .error e
  | .ok dir =>
    match fs.volume.fault? .temporary (entryIn p dir) with
    | some e => .error e
    | none =>
      let temporary := fs.freshName dir :: dir
      .ok (temporary, fs.insert temporary (.file .empty privateMode))

/-- Gives the new file of a write its content. -/
def fillTemporary (fs : FileSystem) (p : Path) (temporary : Place) (b : ByteArray) :
    Except OsError FileSystem :=
  match fs.volume.fault? .content (entryIn p temporary.tail) with
  | some e => .error e
  | none => .ok (fs.insert temporary (.file b privateMode))

/-- The mode for the new content of a path: that of what it leads to. -/
def modeFor (fs : FileSystem) (p : Path) : Nat :=
  match fs.resolve true p with
  | .ok ⟨_, some (.file _ mode)⟩ => mode
  | .ok ⟨place, some _⟩ => fs.directoryMode place
  | .ok ⟨_, none⟩ | .error _ => defaultMode

/-- Gives the new file of a write a mode. -/
def permitTemporary (fs : FileSystem) (p : Path) (temporary : Place) (mode : Nat) :
    Except OsError FileSystem :=
  match fs.node? temporary with
  | some (.file b _) =>
    match fs.volume.fault? .mode (entryIn p temporary.tail) with
    | some e => .error e
    | none => .ok (fs.insert temporary (.file b mode))
  | _ => .error .notFound

/-- Puts the file at a place in the place of a path. A link there is replaced, not followed; a
directory is not replaced. -/
def replaceWith (fs : FileSystem) (temporary : Place) (p : Path) : Except OsError FileSystem :=
  match fs.lastPlace p .busy with
  | .error e => .error e
  | .ok ⟨place, node?⟩ =>
    if p.text.getLast? == some '/' then .error .notDirectory
    else if node? = some .directory then .error .isDirectory
    else
      match fs.volume.fault? .rename place with
      | some e => .error e
      | none =>
        match fs.node? temporary with
        | none => .error .notFound
        | some n => .ok ((fs.erase temporary).insert place n)

/-- Replaces the content of a path, and makes the directories above it that are missing. -/
def writeAtomically (fs : FileSystem) (p : Path) (t : Text) :
    FileSystem × Except WriteError Unit :=
  let dir := p.directory
  match fs.createDirectories dir with
  | (fs, .error e) => (fs, .error (.directory dir e))
  | (made, .ok ()) =>
    match made.createTemporary p with
    | .error e => (made, .error (.temporary dir e))
    | .ok (temporary, fs) =>
      match fs.fillTemporary p temporary (bytesOf t) with
      | .error e => (fs.erase temporary, .error (.file p e))
      | .ok fs =>
        match fs.permitTemporary p temporary (made.modeFor p) with
        | .error e => (fs.erase temporary, .error (.permissions p e))
        | .ok fs =>
          match fs.replaceWith temporary p with
          | .error e => (fs.erase temporary, .error (.file p e))
          | .ok fs => (fs, .ok ())

end FileSystem

end Externalize
