import SourceEdit.FileSystem.Resolve

/-!
Reading and changing files. An operation that fails changes nothing, except that directories made on
the way to a deeper one stay.
-/

set_option autoImplicit false

namespace SourceEdit.FileSystem

def failed {α : Type} (p : Path) (r : Except FileCause α) : Except FileError α :=
  r.mapError fun cause => ⟨cause, p, none⟩

def read (fs : FileSystem) (p : Path) : Except FileError Octets :=
  match fs.find p true with
  | .ok (_, .file content state) =>
    if state.mayRead then .ok content else .error ⟨.denied, p, none⟩
  | .ok (_, .dir rights) =>
    .error ⟨if rights.read then .isDirectory else .denied, p, none⟩
  | .ok (_, .link _) => .error ⟨.notFound, p, none⟩
  | .error cause => .error ⟨cause, p, none⟩

def content? (fs : FileSystem) (p : Path) : Option Octets := (fs.read p).toOption

def mayChangeAt (fs : FileSystem) (l : Location) : Bool := (fs.rightsAt l.dropLast).write

def mayWriteAt (fs : FileSystem) (l : Location) : Bool :=
  match fs.entryAt? l with
  | none => fs.mayChangeAt l
  | some (.file _ state) => state.mayWrite
  | some _ => false

/-- Writes through links, into a file under all its names; a lock on the file stays. -/
def write (fs : FileSystem) (p : Path) (content : Octets) : Except FileError FileSystem := do
  let l ← failed p (fs.locate p true)
  match fs.entryAt? l with
  | some (.dir _) => .error ⟨.isDirectory, p, none⟩
  | some (.link _) => .error ⟨.tooManyLinks, p, none⟩
  | _ =>
    if fs.mayWriteAt l then .ok (fs.putFile l content (fs.stateAt l))
    else .error ⟨.denied, p, none⟩

def makeDirectory (fs : FileSystem) (p : Path) : Except FileCause FileSystem := do
  let l ← fs.locate p false
  match fs.entryAt? l with
  | some _ => .error .alreadyThere
  | none => if fs.mayChangeAt l then .ok (fs.put l .directory) else .error .denied

/-- Makes a directory and the ones above it that are missing. -/
def makeDirectories : (depth : Nat) → FileSystem → Path → FileSystem × Option FileCause
  | 0, fs, _ => (fs, some .notFound)
  | depth + 1, fs, p =>
    let settle (fs : FileSystem) (r : Except FileCause FileSystem) :
        FileSystem × Option FileCause :=
      match r with
      | .ok fs => (fs, none)
      | .error cause => (fs, if fs.isDirectory p then none else some cause)
    match fs.makeDirectory p with
    | .error .notFound =>
      if Path.dirName p = p then (fs, some .notFound)
      else match makeDirectories depth fs (Path.dirName p) with
        | (fs, none) => settle fs (fs.makeDirectory p)
        | r => r
    | r => settle fs r

def makeParents (fs : FileSystem) (p : Path) : FileSystem × Option FileCause :=
  makeDirectories (p.length + 1) fs (Path.dirName p)

def remove (fs : FileSystem) (p : Path) : Except FileError FileSystem := do
  let (l, e) ← failed p (fs.find p false)
  if !fs.mayChangeAt l then .error ⟨.denied, p, none⟩
  else match e with
    | .dir _ => .error ⟨.isDirectory, p, none⟩
    | _ => .ok (fs.erase l)

def isBelow (l : Location) (x : Location × Entry) : Bool := l.isPrefixOf x.1

def moveEntries (fs : FileSystem) (l goal : Location) : FileSystem :=
  { fs with
    entries := (fs.entries.filter fun x => !isBelow goal x || isBelow l x).map fun x =>
      if isBelow l x then (goal ++ x.1.drop l.length, x.2) else x }

/-- Moves an entry to a path, in place of a file, a link or an empty directory. Links are moved and
replaced, not followed. Between two names of one file there is nothing to move. -/
def move (fs : FileSystem) (p goal : Path) : Except FileError FileSystem :=
  let fail {α : Type} (cause : FileCause) : Except FileError α := .error ⟨cause, p, some goal⟩
  match fs.locate p false, fs.locate goal false with
  | .error cause, _ => fail cause
  | _, .error cause => fail cause
  | .ok l, .ok l' =>
    match fs.entryAt? l, fs.entryAt? l' with
    | none, _ => fail .notFound
    | some e, e' =>
      if l = l' then .ok fs
      else if l.isPrefixOf l' then fail .intoItself
      else if l'.isPrefixOf l then fail .notEmpty
      else if fs.areOneFile l l' then .ok fs
      else if !(fs.mayChangeAt l && fs.mayChangeAt l') then fail .denied
      else match e, e' with
        | .dir _, some (.dir _) =>
          if (fs.children l').isEmpty then .ok (fs.moveEntries l l') else fail .notEmpty
        | .dir _, some _ => fail .notDirectory
        | _, some (.dir _) => fail .isDirectory
        | _, _ => .ok (fs.moveEntries l l')

def removeTree (fs : FileSystem) (p : Path) : Except FileError FileSystem := do
  let (l, _) ← failed p (fs.find p false)
  .ok { fs with entries := fs.entries.filter fun x => !isBelow l x }

end SourceEdit.FileSystem
