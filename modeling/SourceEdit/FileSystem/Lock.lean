import SourceEdit.FileSystem.Operations

/-!
Locks. The lock of a path is held on a file beside it, and that file goes away with the lock. How a
lock file is locked and unlocked is the business of a library, which is a parameter.
-/

set_option autoImplicit false

namespace SourceEdit

inductive LockFailure where
  | timeout
  | file (e : FileError)
deriving DecidableEq, Repr

/-- A library that locks files by the path of a lock file. It works on the files alone, and a lock
that is not had leaves them as they are. -/
class FileLock where
  take : FileSystem → Path → Except LockFailure (Table Location Entry)
  giveBack : FileSystem → Path → Table Location Entry

inductive LockError where
  | noDirectory (path : Path)
  | held (path : Path)
  | file (e : FileError)
deriving DecidableEq, Repr

namespace LockError

def message : LockError → Text
  | .noDirectory path => "Failed to create directory for lock ".toList ++ path
  | .held path => "Could not acquire lock for ".toList ++ path
  | .file e => e.message

end LockError

def Entry.unlock (p : Path) : Entry → Entry
  | .file content state =>
    .file content
      { state with lockedFor := if state.lockedFor = some p then none else state.lockedFor }
  | e => e

namespace FileSystem

def lockPath (p : Path) : Path := p ++ ".lock".toList

def unlocked (fs : FileSystem) (p : Path) : FileSystem := fs.mapEntries (Entry.unlock p)

def mayLockAt (fs : FileSystem) (l : Location) : Bool :=
  match fs.entryAt? l with
  | none => fs.mayChangeAt l
  | some (.file _ state) => state.lockedFor.isNone
  | some _ => false

/-- The lock of a lock file's path put on the file at a location, or on a new one. -/
def lockFile (fs : FileSystem) (l : Location) (content : Octets) (p : Path) : FileSystem :=
  fs.putFile l content { fs.stateAt l with lockedFor := some p }

variable [FileLock]

def acquire (fs : FileSystem) (p : Path) : FileSystem × Option LockError :=
  match fs.makeParents (lockPath p) with
  | (fs, some .nulCharacter) => (fs, some (.file ⟨.nulCharacter, lockPath p, none⟩))
  | (fs, some _) => (fs, some (.noDirectory p))
  | (fs, none) =>
    match FileLock.take fs (lockPath p) with
    | .error .timeout => (fs, some (.held p))
    | .error (.file e) => (fs, some (.file e))
    | .ok entries => ({ fs with entries := entries }, none)

def release (fs : FileSystem) (p : Path) : FileSystem :=
  let fs := { fs with entries := FileLock.giveBack fs (lockPath p) }
  if fs.hasPath (lockPath p) then
    match fs.remove (lockPath p) with
    | .ok fs => fs
    | .error _ => fs
  else fs

end FileSystem

/-- What such a library is known to do. A lock is taken on the file that the path leads to, which it
makes if it is not there, and nothing else is touched. It is not had while somebody holds it, and it
is had if nobody does and the file can be read and written or made. To give it back takes it off. -/
class LawfulFileLock [FileLock] : Prop where
  take_touches {fs : FileSystem} {p : Path} {entries : Table Location Entry} :
    FileLock.take fs p = .ok entries →
      ∃ l content, fs.locate p true = .ok l ∧ fs.mayLockAt l = true ∧
        entries = (fs.lockFile l content p).entries
  take_isOk {fs : FileSystem} {p : Path} {l : Location} : fs.locate p false = .ok l →
    fs.mayLockAt l = true → (fs.stateAt l).mayRead = true → (fs.stateAt l).mayWrite = true →
      (FileLock.take fs p).isOk = true
  giveBack_eq (fs : FileSystem) (p : Path) : FileLock.giveBack fs p = (fs.unlocked p).entries

/-- A lock on an open file. The file is empty once it is locked. -/
@[reducible] def FileLock.flock : FileLock where
  take fs p :=
    match fs.locate p true with
    | .error cause => .error (.file ⟨cause, p, none⟩)
    | .ok l =>
      match fs.entryAt? l with
      | some (.file _ state) =>
        if state.lockedFor.isSome then .error .timeout
        else if state.mayRead && state.mayWrite then .ok (fs.lockFile l [] p).entries
        else .error (.file ⟨.denied, p, none⟩)
      | some _ => .error (.file ⟨.isDirectory, p, none⟩)
      | none =>
        if fs.mayChangeAt l then .ok (fs.lockFile l [] p).entries
        else .error (.file ⟨.denied, p, none⟩)
  giveBack fs p := (fs.unlocked p).entries

instance (priority := low) : FileLock := .flock

end SourceEdit
