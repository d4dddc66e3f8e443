import Externalize.Files.Path

/-
A file system: files, directories and symbolic links.

* `FileSystem`: the entries by their places, and the working directory.
* `Volume`: what else matters to a write: the modes of directories, and the steps that fail though
  the entries allow them.
* `FileSystem.node?_insert`, `FileSystem.node?_erase`: what a change does to a place and to the
  others.
* `FileSystem.resolve`: the place that a path leads to, through links and steps up.
* `OsError`: why an operation fails.
-/
namespace Externalize

/-- A name in a directory. -/
abbrev Name := Text

/-- A place in the tree: the names from the entry up to the root, which is the empty list. -/
abbrev Place := List Name

/-- Why an operation on files fails. -/
inductive OsError where
  | notFound
  | alreadyExists
  | notDirectory
  | isDirectory
  | busy
  | notEmpty
  | nameTooLong
  | tooManyLinks
  | nulInName
  | notPermitted
  | inputOutput
  | permissionDenied
  | fileTooLarge
  | noSpace
  | readOnly
  | quotaExceeded
deriving DecidableEq

/-- The message of an error. -/
def OsError.message : OsError → String
  | notFound => "No such file or directory (os error 2)"
  | alreadyExists => "File exists (os error 17)"
  | notDirectory => "Not a directory (os error 20)"
  | isDirectory => "Is a directory (os error 21)"
  | busy => "Device or resource busy (os error 16)"
  | notEmpty => "Directory not empty (os error 39)"
  | nameTooLong => "File name too long (os error 36)"
  | tooManyLinks => "Too many levels of symbolic links (os error 40)"
  | nulInName => "file name contained an unexpected NUL byte"
  | notPermitted => "Operation not permitted (os error 1)"
  | inputOutput => "Input/output error (os error 5)"
  | permissionDenied => "Permission denied (os error 13)"
  | fileTooLarge => "File too large (os error 27)"
  | noSpace => "No space left on device (os error 28)"
  | readOnly => "Read-only file system (os error 30)"
  | quotaExceeded => "Disk quota exceeded (os error 122)"

/-- Two contents are compared as core does it. -/
local instance decidableEqBytes : DecidableEq ByteArray := ByteArray.instDecidableEq

/-- What is at a place. -/
inductive Node where
  | file (bytes : ByteArray) (mode : Nat)
  | directory
  | link (target : Path)
deriving DecidableEq

/-- The steps of a write. -/
inductive WriteStep where
  /-- A directory above the file is made. -/
  | directory
  /-- A new file is made beside the old one. -/
  | temporary
  /-- It gets its content. -/
  | content
  /-- It gets its mode. -/
  | mode
  /-- It takes the place of the old one. -/
  | rename
deriving DecidableEq

/-- A step of a write that fails though the entries allow it: for want of a permission or of space,
or for a fault of the device. Its place is that of the entry that is written, or of the directory
that is made. -/
structure WriteFault where
  step : WriteStep
  place : Place
  error : OsError
deriving DecidableEq

/-- What the entries do not tell. No walk asks for the mode of a directory, so that the modes stand
apart from the directories. -/
structure Volume where
  /-- The mode that a directory gets when it is made. -/
  newMode : Nat := 0o755
  /-- The modes of the directories that do not have this one. -/
  modes : List (Place × Nat) := []
  faults : List WriteFault := []
deriving DecidableEq

/-- Why a step of a write fails by itself, if it does. -/
def Volume.fault? (v : Volume) (step : WriteStep) (place : Place) : Option OsError :=
  (v.faults.find? fun f => f.step = step ∧ f.place = place).map (·.error)

/-- The entries below the root by their places, the working directory, and what else matters. -/
structure FileSystem where
  on ::
  entries : List (Place × Node)
  current : Place
  volume : Volume := {}
deriving DecidableEq

/-- These entries where no step fails by itself and all directories have the usual mode. -/
def FileSystem.mk (entries : List (Place × Node)) (current : Place) : FileSystem :=
  { entries, current }

/-- The place of a path: its names from the root down. -/
def Path.ofPlace (p : Place) : Path :=
  if p.isEmpty then ⟨['/']⟩ else ⟨(p.reverse.map fun n => '/' :: n).flatten⟩

namespace FileSystem

/-! ### Places -/

/-- What a list of entries has at a place. -/
def lookup (p : Place) : List (Place × Node) → Option Node
  | [] => none
  | (q, n) :: r => if q = p then some n else lookup p r

/-- A list of entries with a node put at a place. -/
def put (p : Place) (n : Node) : List (Place × Node) → List (Place × Node)
  | [] => [(p, n)]
  | (q, m) :: r => if q = p then (p, n) :: r else (q, m) :: put p n r

/-- What is at a place. The root is a directory. -/
def node? (fs : FileSystem) (p : Place) : Option Node :=
  if p = [] then some .directory else lookup p fs.entries

/-- The mode of the directory at a place. -/
def directoryMode (fs : FileSystem) (p : Place) : Nat :=
  (fs.volume.modes.lookup p).getD fs.volume.newMode

/-- The file system with a node put at a place. -/
def insert (fs : FileSystem) (p : Place) (n : Node) : FileSystem :=
  { fs with entries := put p n fs.entries }

/-- The file system without the entry at a place. -/
def erase (fs : FileSystem) (p : Place) : FileSystem :=
  { fs with entries := fs.entries.filter fun e => e.1 ≠ p }

theorem lookup_put (p q : Place) (n : Node) (es : List (Place × Node)) :
    lookup q (put p n es) = if q = p then some n else lookup q es := by
  induction es with
  | nil => simp [put, lookup, eq_comm]
  | cons e r ih =>
    obtain ⟨s, m⟩ := e
    by_cases hs : s = p
    · subst hs
      by_cases h : q = s
      · simp [put, lookup, h]
      · simp [put, lookup, h, Ne.symm h]
    · by_cases h : q = p
      · subst h; simp [put, lookup, hs, ih]
      · by_cases hq : s = q <;> simp [put, lookup, hs, h, hq, ih]

/-- An insertion changes its own place only. -/
theorem node?_insert (fs : FileSystem) {p : Place} (hp : p ≠ []) (q : Place) (n : Node) :
    (fs.insert p n).node? q = if q = p then some n else fs.node? q := by
  by_cases hq : q = []
  · simp [node?, hq, Ne.symm hp]
  · simp [node?, insert, hq, lookup_put]

theorem lookup_filter_ne (p q : Place) (es : List (Place × Node)) :
    lookup q (es.filter fun e => e.1 ≠ p) = if q = p then none else lookup q es := by
  induction es with
  | nil => simp [lookup]
  | cons e r ih =>
    obtain ⟨s, m⟩ := e
    by_cases hs : s = p
    · subst hs
      by_cases h : q = s
      · simpa [lookup, h] using ih
      · simpa [lookup, h, Ne.symm h] using ih
    · by_cases h : q = p
      · subst h; simpa [lookup, hs] using ih
      · by_cases hq : s = q
        · subst hq; simp [lookup, hs]
        · simpa [lookup, hs, h, hq] using ih

/-- A removal changes its own place only. -/
theorem node?_erase (fs : FileSystem) {p : Place} (hp : p ≠ []) (q : Place) :
    (fs.erase p).node? q = if q = p then none else fs.node? q := by
  by_cases hq : q = []
  · simp [node?, hq, Ne.symm hp]
  · simp only [node?, erase, hq, if_false, lookup_filter_ne]

/-- The names in a directory, in the order in which they were made. -/
def childNames (fs : FileSystem) (p : Place) : List Name :=
  fs.entries.filterMap fun
    | (n :: q, _) => if q = p then some n else none
    | ([], _) => none

/-- A name put into an ordered list of names. -/
def insertName (n : Name) : List Name → List Name
  | [] => [n]
  | m :: r => if m < n then m :: insertName n r else n :: m :: r

/-- The names in a directory, by code points. -/
def children (fs : FileSystem) (p : Place) : List Name :=
  (fs.childNames p).foldr insertName []

/-! ### Paths -/

/-- How many links may stand in the way of a path. -/
def maxLinks : Nat := 40

/-- How many bytes a name may have. -/
def maxNameSize : Nat := 255

/-- Where a path leads: a place whose directory exists, and what is there, if anything. -/
structure Found where
  place : Place
  node? : Option Node
deriving DecidableEq

/-- The place from which a path sets out. -/
def startOf (p : Path) (here : Place) : Place := if p.isAbsolute then [] else here

/-- Follows names from a directory on. A link in the way, and one at the end if `follow` is set, is
left to `onLink`, which gets the directory of the link, its target and the names that are left. -/
def walkNames (fs : FileSystem) (follow : Bool)
    (onLink : Place → Path → List Name → Except OsError Found) :
    Place → List Name → Except OsError Found
  | here, [] => .ok ⟨here, some .directory⟩
  | here, n :: rest =>
    if n = ['.'] then walkNames fs follow onLink here rest
    else if n = ['.', '.'] then walkNames fs follow onLink here.tail rest
    else if maxNameSize < n.size then .error .nameTooLong
    else
      match fs.node? (n :: here) with
      | none => if rest.isEmpty then .ok ⟨n :: here, none⟩ else .error .notFound
      | some .directory => walkNames fs follow onLink (n :: here) rest
      | some (.file b m) =>
        if rest.isEmpty then .ok ⟨n :: here, some (.file b m)⟩ else .error .notDirectory
      | some (.link target) =>
        if rest.isEmpty && !follow then .ok ⟨n :: here, some (.link target)⟩
        else onLink here target rest

/-- Follows names from a directory on, through at most so many links. -/
def walk (fs : FileSystem) (follow : Bool) : (links : Nat) → Place → List Name →
    Except OsError Found
  | 0 => fs.walkNames follow fun _ _ _ => .error .tooManyLinks
  | links + 1 =>
    fs.walkNames follow fun here target rest =>
      walk fs follow links (startOf target here) (target.names ++ rest)

/-- The place that a path leads to; a link at its end is followed if `follow` is set. -/
def resolve (fs : FileSystem) (follow : Bool) (p : Path) : Except OsError Found :=
  if '\x00' ∈ p.text then .error .nulInName
  else if p.text.isEmpty then .error .notFound
  else fs.walk follow maxLinks (startOf p fs.current) p.names

/-- What a path leads to. -/
def status (fs : FileSystem) (p : Path) : Except OsError Node :=
  match fs.resolve true p with
  | .error e => .error e
  | .ok ⟨_, none⟩ => .error .notFound
  | .ok ⟨_, some n⟩ => .ok n

/-- Whether a path leads to anything. -/
def has (fs : FileSystem) (p : Path) : Bool := (fs.status p).isOk

/-- Whether a path leads to a directory. -/
def isDirectory (fs : FileSystem) (p : Path) : Bool :=
  match fs.status p with
  | .ok .directory => true
  | _ => false

/-- The directory that a path leads to. -/
def directory (fs : FileSystem) (p : Path) : Except OsError Place :=
  match fs.resolve true p with
  | .error e => .error e
  | .ok ⟨_, none⟩ => .error .notFound
  | .ok ⟨place, some .directory⟩ => .ok place
  | .ok _ => .error .notDirectory

/-- Whether a path leads to the directory at a place. -/
def leadsTo (fs : FileSystem) (p : Path) (place : Place) : Bool :=
  match fs.directory p with
  | .ok q => q == place
  | .error _ => false

/-- The path without links and steps up. -/
def canonical (fs : FileSystem) (p : Path) : Except OsError Path :=
  match fs.resolve true p with
  | .error e => .error e
  | .ok ⟨_, none⟩ => .error .notFound
  | .ok ⟨place, some _⟩ => .ok (.ofPlace place)

end FileSystem

end Externalize
