import SourceEdit.Path
import SourceEdit.Table
import SourceEdit.Text.Quoted
import SourceEdit.Text.Utf8

/-!
A file system as a value: files, directories and symbolic links by their place below the top
directory, which always exists. Rights are those that the program has.
-/

set_option autoImplicit false

namespace SourceEdit

/-- The names on the way from the top directory, none of them a link. -/
abbrev Location := List Text

structure Rights where
  read : Bool
  write : Bool
  search : Bool
deriving DecidableEq, Repr

def Rights.all : Rights := ⟨true, true, true⟩

def Rights.none : Rights := ⟨false, false, false⟩

/-- What belongs to a file besides its content. Names with the same number are names of one file; a
lock belongs to the path of the lock file with which it was taken. -/
structure FileState where
  mayRead : Bool := true
  mayWrite : Bool := true
  shared : Option Nat := none
  lockedFor : Option Path := none
deriving DecidableEq, Repr

inductive Entry where
  | file (content : Octets) (state : FileState)
  | dir (rights : Rights)
  | link (target : Path)
deriving DecidableEq, Repr

namespace Entry

abbrev directory : Entry := .dir .all

def shared? : Entry → Option Nat
  | .file _ state => state.shared
  | _ => none

end Entry

structure FileSystem where
  entries : Table Location Entry
  workDir : Path
  home : Path

inductive FileCause where
  | notFound
  | denied
  | notDirectory
  | isDirectory
  | alreadyThere
  | notEmpty
  | intoItself
  | nameTooLong
  | tooManyLinks
  | nulCharacter
deriving DecidableEq, Repr

structure FileError where
  cause : FileCause
  path : Path
  goal : Option Path
deriving DecidableEq, Repr

namespace FileCause

def code : FileCause → Nat
  | .notFound => 2
  | .denied => 13
  | .alreadyThere => 17
  | .notDirectory => 20
  | .isDirectory => 21
  | .intoItself => 22
  | .nulCharacter => 22
  | .nameTooLong => 36
  | .notEmpty => 39
  | .tooManyLinks => 40

def describe : FileCause → String
  | .notFound => "No such file or directory"
  | .denied => "Permission denied"
  | .alreadyThere => "File exists"
  | .notDirectory => "Not a directory"
  | .isDirectory => "Is a directory"
  | .intoItself => "Invalid argument"
  | .nulCharacter => "embedded null byte"
  | .nameTooLong => "File name too long"
  | .notEmpty => "Directory not empty"
  | .tooManyLinks => "Too many levels of symbolic links"

end FileCause

namespace FileError

def message (e : FileError) : Text :=
  match e.cause with
  | .nulCharacter => e.cause.describe.toList
  | cause =>
    "[Errno ".toList ++ Text.ofInt cause.code ++ [']', ' '] ++ cause.describe.toList ++
      [':', ' '] ++ Text.quoted e.path ++
      match e.goal with
      | none => []
      | some goal => " -> ".toList ++ Text.quoted goal

end FileError

namespace Location

def toPath (l : Location) : Path := '/' :: Text.joinWith ['/'] l

end Location

namespace FileSystem

def entryAt? (fs : FileSystem) (l : Location) : Option Entry :=
  if l.isEmpty then some .directory else fs.entries.get? l

def isDirAt (fs : FileSystem) (l : Location) : Bool :=
  match fs.entryAt? l with
  | some (.dir _) => true
  | _ => false

def rightsAt (fs : FileSystem) (l : Location) : Rights :=
  match fs.entryAt? l with
  | some (.dir rights) => rights
  | _ => .none

def stateAt (fs : FileSystem) (l : Location) : FileState :=
  match fs.entryAt? l with
  | some (.file _ state) => state
  | _ => {}

def areOneFile (fs : FileSystem) (l m : Location) : Bool :=
  (fs.stateAt l).shared.isSome && (fs.stateAt m).shared = (fs.stateAt l).shared

def mapEntries (fs : FileSystem) (f : Entry → Entry) : FileSystem :=
  { fs with entries := fs.entries.map fun (l, e) => (l, f e) }

def put (fs : FileSystem) (l : Location) (e : Entry) : FileSystem :=
  { fs with entries := fs.entries.insert l e }

def putFile (fs : FileSystem) (l : Location) (content : Octets) (state : FileState) : FileSystem :=
  (fs.mapEntries fun e =>
    if state.shared.isSome ∧ e.shared? = state.shared then .file content state else e).put l
      (.file content state)

def erase (fs : FileSystem) (l : Location) : FileSystem :=
  { fs with entries := fs.entries.erase l }

@[simp] theorem entryAt?_top (fs : FileSystem) : fs.entryAt? [] = some .directory := rfl

theorem entryAt?_of_ne_nil {fs : FileSystem} {l : Location} (hl : l ≠ []) :
    fs.entryAt? l = fs.entries.get? l := by
  rw [entryAt?, if_neg (by simpa using hl)]

theorem isDirAt_iff {fs : FileSystem} {l : Location} :
    fs.isDirAt l = true ↔ ∃ rights, fs.entryAt? l = some (.dir rights) := by
  unfold isDirAt
  cases fs.entryAt? l with
  | none => simp
  | some e => cases e <;> simp

theorem isDirAt_eq_false_iff {fs : FileSystem} {l : Location} :
    fs.isDirAt l = false ↔ ∀ rights, fs.entryAt? l ≠ some (.dir rights) := by
  rw [← Bool.not_eq_true, isDirAt_iff, not_exists]

theorem entryAt?_put (fs : FileSystem) {l : Location} (m : Location) (e : Entry) (hl : l ≠ []) :
    (fs.put l e).entryAt? m = if l = m then some e else fs.entryAt? m := by
  cases m with
  | nil => simp [entryAt?, hl]
  | cons n ns => exact Table.get?_insert fs.entries l (n :: ns) e

theorem entryAt?_erase (fs : FileSystem) {l : Location} (m : Location) (hl : l ≠ []) :
    (fs.erase l).entryAt? m = if l = m then none else fs.entryAt? m := by
  cases m with
  | nil => simp [entryAt?, hl]
  | cons n ns => exact Table.get?_erase fs.entries l (n :: ns)

theorem entryAt?_mapEntries (fs : FileSystem) {f : Entry → Entry}
    (hf : f .directory = .directory) (l : Location) :
    (fs.mapEntries f).entryAt? l = (fs.entryAt? l).map f := by
  cases l with
  | nil => exact (congrArg some hf).symm
  | cons n ns =>
    rw [entryAt?_of_ne_nil (List.cons_ne_nil n ns), entryAt?_of_ne_nil (List.cons_ne_nil n ns)]
    exact Table.get?_mapValues fs.entries f (n :: ns)

def children (fs : FileSystem) (l : Location) : List Text :=
  fs.entries.filterMap fun x =>
    match x.1.getLast? with
    | some name => if x.1.dropLast = l then some name else none
    | none => none

end FileSystem

end SourceEdit
