import Externalize.Log.Record
import Externalize.Resource.Document

/-
The resource documents of a project.

* `Store`: the directory of the documents and the rule for their names.
* `Store.documents`: the documents in the directory, by name, and the entries that cannot be read.
* `Store.targets`: the documents that a key goes into: all there are, or the default one.
* `Store.merge`: puts a key into all of them. Each one succeeds or fails by itself.
-/
namespace Externalize

/-- The localization directory, and how the files in it are named. -/
structure Store where
  directory : Path
  extension : Text
  defaultName : Text
deriving DecidableEq

/-- A document that holds the key now. -/
structure WrittenDocument where
  path : Path
  action : KeyAction
deriving DecidableEq

/-- A document that does not take the key. -/
structure FailedDocument where
  path : Path
  error : DocumentError
deriving DecidableEq

/-- What became of the documents, by path. -/
structure MergeReport where
  /-- There was no document, and the default one was to be made. -/
  createdDefault : Bool
  written : List WrittenDocument
  failed : List FailedDocument
deriving DecidableEq

namespace MergeReport

/-- Every document took the key. -/
def isComplete (r : MergeReport) : Bool := r.failed.isEmpty

/-- No document took the key. -/
def isTotalFailure (r : MergeReport) : Bool := r.written.isEmpty

/-- The documents that took the key, then those that did not. -/
def paths (r : MergeReport) : List Path := r.written.map (·.path) ++ r.failed.map (·.path)

end MergeReport

/-- Why the merge cannot begin: the directory cannot be made. -/
structure DirectoryError where
  directory : Path
  error : OsError
deriving DecidableEq

/-- The message of a directory error. -/
def DirectoryError.message (e : DirectoryError) : String :=
  s!"Failed to create directory: {e.directory}: {e.error.message}"

namespace Store

/-- The store of a directory; its default document is named after a stem and a locale. -/
def of (directory : Path) (extension stem locale : Text) : Store :=
  ⟨directory, extension, stem ++ '_' :: locale ++ '.' :: extension⟩

/-- The document that is made when there is none. -/
def defaultDocument (s : Store) : Path := s.directory.join ⟨s.defaultName⟩

/-- The target of the records about resources. -/
def logTarget : String := "arbify::core::resource"

/-! ### Documents -/

/-- Why an entry of the directory cannot be read. -/
inductive EntryError where
  | os (path : Path) (e : OsError)
  /-- The entry leads back to the directory that holds it. -/
  | cycle (path directory : Path)
deriving DecidableEq

/-- The message of an entry error. -/
def EntryError.message : EntryError → String
  | os path e => s!"IO error for operation on {path}: {e.message}"
  | cycle path directory => s!"File system loop found: {path} points to an ancestor {directory}"

/-- Whether a file of this path is a resource document. -/
def isDocument (s : Store) (p : Path) : Bool := p.extension? == some s.extension

/-- Whether an entry of the directory is a document; an entry that cannot be read is neither. -/
def entry (s : Store) (fs : FileSystem) (p : Path) : Except EntryError Bool :=
  match fs.resolve true p with
  | .error e => .error (.os p e)
  | .ok ⟨_, none⟩ => .error (.os p .notFound)
  | .ok ⟨_, some (.file _ _)⟩ => .ok (s.isDocument p)
  | .ok ⟨place, some _⟩ =>
    if fs.leadsTo s.directory place then .error (.cycle p s.directory) else .ok false

/-- The paths of the entries of the directory, by name. -/
def entries (s : Store) (fs : FileSystem) : List Path :=
  match fs.directory s.directory with
  | .error _ => []
  | .ok place => (fs.children place).map fun n => s.directory.join ⟨n⟩

/-- The documents, by name. -/
def documents (s : Store) (fs : FileSystem) : List Path :=
  (s.entries fs).filter fun p =>
    match s.entry fs p with
    | .ok isDocument => isDocument
    | .error _ => false

/-- The records of the entries that cannot be read. -/
def entryRecords (s : Store) (fs : FileSystem) : List LogRecord :=
  (s.entries fs).filterMap fun p =>
    match s.entry fs p with
    | .ok _ => none
    | .error e =>
      some { level := .warn, target := logTarget,
             message := s!"Skipping unreadable entry in {s.directory}: {e.message}" }

/-- The documents that a key goes into, and whether that is the default one. -/
def targets (s : Store) (fs : FileSystem) : List Path × Bool :=
  match s.documents fs with
  | [] => ([s.defaultDocument], true)
  | d :: ds => (d :: ds, false)

/-! ### Merging -/

/-- Reads a document, sets the key and writes it back. -/
def mergeDocument (fs : FileSystem) (path : Path) (k : Key) (value : Text) :
    FileSystem × Except DocumentError KeyAction :=
  match Document.open fs path with
  | .error e => (fs, .error e)
  | .ok d =>
    match (d.set k value).save fs with
    | (fs, .error e) => (fs, .error (.write e))
    | (fs, .ok ()) => (fs, .ok (d.action k value))

/-- Merges into one document after the other: what becomes of each. -/
def mergeAll (k : Key) (value : Text) : FileSystem → List Path →
    FileSystem × List (Path × Except DocumentError KeyAction)
  | fs, [] => (fs, [])
  | fs, p :: ps =>
    let (fs, result) := mergeDocument fs p k value
    let (fs, results) := mergeAll k value fs ps
    (fs, (p, result) :: results)

/-- The record of what became of one document. -/
def resultRecord (k : Key) : Path × Except DocumentError KeyAction → LogRecord
  | (path, .ok action) =>
    { level := .debug, target := logTarget, message := s!"{action.word} {path}",
      fields := [("key", String.ofList k.text)] }
  | (path, .error e) =>
    { level := .warn, target := logTarget,
      message := s!"Failed to merge {String.ofList k.text} into {path}: {e.message}" }

/-- An element put into a list that is ordered by paths, before those of the same path. -/
def insertByPath {α : Type} (path : α → Path) (a : α) : List α → List α
  | [] => [a]
  | b :: r => if (path a).le (path b) then a :: b :: r else b :: insertByPath path a r

/-- The report on what became of the documents. -/
def report (createdDefault : Bool) (results : List (Path × Except DocumentError KeyAction)) :
    MergeReport where
  createdDefault
  written :=
    (results.filterMap fun
      | (path, .ok action) => some ⟨path, action⟩
      | (_, .error _) => none).foldr (insertByPath WrittenDocument.path) []
  failed :=
    (results.filterMap fun
      | (_, .ok _) => none
      | (path, .error e) => some ⟨path, e⟩).foldr (insertByPath FailedDocument.path) []

/-- A merge: the files after it, its report, and its records. -/
structure Merge where
  files : FileSystem
  result : Except DirectoryError MergeReport
  records : List LogRecord

/-- Makes the directory if nothing is at its path. -/
def prepareDirectory (s : Store) (fs : FileSystem) :
    FileSystem × Except DirectoryError (List LogRecord) :=
  if fs.has s.directory then (fs, .ok [])
  else
    match fs.createDirectories s.directory with
    | (fs, .error e) => (fs, .error ⟨s.directory, e⟩)
    | (fs, .ok ()) =>
      (fs, .ok [{ level := .info, target := logTarget,
                  message := s!"Created localization directory {s.directory}" }])

/-- Puts a key into every target. Only a directory that cannot be made ends the merge. -/
def merge (s : Store) (fs : FileSystem) (k : Key) (value : Text) : Merge :=
  match s.prepareDirectory fs with
  | (fs, .error e) => ⟨fs, .error e, []⟩
  | (fs, .ok made) =>
    let (targets, createdDefault) := s.targets fs
    let (files, results) := mergeAll k value fs targets
    ⟨files, .ok (report createdDefault results),
      made ++ s.entryRecords fs ++ results.map (resultRecord k)⟩

end Store

end Externalize
