import Externalize.Files.FileSystem

/-
Reading and changing files.

* `FileSystem.readText`: the text of a file.
* `FileSystem.createDirectories`: a directory and the directories above it.
* `FileSystem.writeFile`, `FileSystem.makeLink`, `FileSystem.removeTree`: changes of one entry, or
  of a directory with all it holds.
-/
namespace Externalize

/-- Why a text cannot be read. -/
inductive ReadError where
  | os (e : OsError)
  | notUtf8
deriving DecidableEq

/-- The message of a read error. -/
def ReadError.message : ReadError → String
  | os e => e.message
  | notUtf8 => "stream did not contain valid UTF-8"

namespace FileSystem

/-- The bytes of a file. -/
def read (fs : FileSystem) (p : Path) : Except OsError ByteArray :=
  match fs.status p with
  | .error e => .error e
  | .ok (.file b _) => .ok b
  | .ok _ => .error .isDirectory

/-- The text of a file. -/
def readText (fs : FileSystem) (p : Path) : Except ReadError Text :=
  match fs.read p with
  | .error e => .error (.os e)
  | .ok b =>
    match String.fromUTF8? b with
    | some s => .ok s.toList
    | none => .error .notUtf8

/-- The bytes of a text. -/
def bytesOf (t : Text) : ByteArray := (String.ofList t).toUTF8

/-! ### Directories -/

/-- The steps of a path without a slash at its end. -/
def plainNames (p : Path) : List Name :=
  if p.text.getLast? == some '/' then p.names.dropLast else p.names

/-- The place that the last name of a path stands for, without a link there being followed, and
what is there. A path without a last name is in use already. -/
def lastPlace (fs : FileSystem) (p : Path) (inUse : OsError) : Except OsError Found :=
  if '\x00' ∈ p.text then .error .nulInName
  else if p.text.isEmpty then .error .notFound
  else
    match (plainNames p).reverse with
    | [] => .error inUse
    | last :: above =>
      match fs.walk true maxLinks (startOf p fs.current) (above.reverse ++ [['.']]) with
      | .error e => .error e
      | .ok found =>
        if last = ['.'] ∨ last = ['.', '.'] then .error inUse
        else if maxNameSize < last.size then .error .nameTooLong
        else .ok ⟨last :: found.place, fs.node? (last :: found.place)⟩

/-- Makes a directory in one that exists. -/
def createDirectory (fs : FileSystem) (p : Path) : Except OsError FileSystem :=
  match fs.lastPlace p .alreadyExists with
  | .error e => .error e
  | .ok ⟨place, none⟩ =>
    match fs.volume.fault? .directory place with
    | some e => .error e
    | none => .ok (fs.insert place .directory)
  | .ok ⟨_, some _⟩ => .error .alreadyExists

/-- A failure to make a directory does not matter if there is one. -/
def unlessDirectory (fs : FileSystem) (p : Path) (e : OsError) : Except OsError Unit :=
  if fs.isDirectory p then .ok () else .error e

/-- Makes the first of some paths a directory; each path is that of the directory of the one before,
and is made first if it is missing. -/
def createUpwards (fs : FileSystem) : List Path → FileSystem × Except OsError Unit
  | [] => (fs, .ok ())
  | p :: above =>
    if p.text.isEmpty then (fs, .ok ())
    else
      match fs.createDirectory p with
      | .ok fs => (fs, .ok ())
      | .error .notFound =>
        match fs.createUpwards above with
        | (fs, .error e) => (fs, .error e)
        | (fs, .ok ()) =>
          match fs.createDirectory p with
          | .ok fs => (fs, .ok ())
          | .error e => (fs, fs.unlessDirectory p e)
      | .error e => (fs, fs.unlessDirectory p e)

/-- Makes a directory, and those above it that are missing. What is made stays if a later step
fails. -/
def createDirectories (fs : FileSystem) (p : Path) : FileSystem × Except OsError Unit :=
  fs.createUpwards p.ancestors

/-! ### Single entries -/

/-- Writes a file with a mode, in its place if it exists, through a link if there is one. -/
def writeFile (fs : FileSystem) (p : Path) (b : ByteArray) (mode : Nat) :
    Except OsError FileSystem :=
  match fs.resolve true p with
  | .error e => .error e
  | .ok ⟨_, some .directory⟩ => .error .isDirectory
  | .ok ⟨place, _⟩ => .ok (fs.insert place (.file b mode))

/-- Makes a symbolic link. -/
def makeLink (fs : FileSystem) (p target : Path) : Except OsError FileSystem :=
  match fs.lastPlace p .alreadyExists with
  | .error e => .error e
  | .ok ⟨place, none⟩ => .ok (fs.insert place (.link target))
  | .ok ⟨_, some _⟩ => .error .alreadyExists

/-- Removes an entry, and all that a directory holds. -/
def removeTree (fs : FileSystem) (p : Path) : Except OsError FileSystem :=
  match fs.resolve false p with
  | .error e => .error e
  | .ok ⟨_, none⟩ => .error .notFound
  | .ok ⟨place, some _⟩ =>
    let stays (q : Place) : Bool := !place.isSuffixOf q
    .ok { fs with
      entries := fs.entries.filter fun e => stays e.1
      volume := { fs.volume with modes := fs.volume.modes.filter fun e => stays e.1 } }

/-- An entry and all that it holds, if it is a directory, with the names from there down: the
entries of a directory by name, each followed at once by what it holds. `depth` bounds how far the
search goes. -/
def treeBelow (fs : FileSystem) : (depth : Nat) → Place → List Name → List (List Name × Node)
  | 0, _, _ => []
  | depth + 1, place, names =>
    (fs.children place).flatMap fun n =>
      match fs.node? (n :: place) with
      | none => []
      | some node => (names ++ [n], node) :: fs.treeBelow depth (n :: place) (names ++ [n])

/-- All that a directory holds, with the names from there down. No place is deeper than the longest
one. -/
def tree (fs : FileSystem) (place : Place) : List (List Name × Node) :=
  fs.treeBelow (fs.entries.foldl (fun d e => max d e.1.length) 0 + 1) place []

end FileSystem

end Externalize
