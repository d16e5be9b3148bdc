import SourceEdit.FileSystem.Basic

/-!
From paths to locations. `locate` goes through a path as the operations on files do: every name on
the way must be a directory that may be searched, and links are followed, forty of them at most.
`realPath` removes the links from a path whether or not it leads anywhere.
-/

set_option autoImplicit false

namespace SourceEdit.FileSystem

/-- The names of a path. A slash at the end asks for a directory, as a lone dot does. -/
def pathNames (p : Path) : List Text :=
  let names := (Text.fields '/' p).filter (!·.isEmpty)
  if p.getLast? = some '/' then names ++ [['.']] else names

def start (fs : FileSystem) (p : Path) : Location :=
  if Path.isAbsolute p then [] else Path.names fs.workDir

def longestName : Nat := 255

def longestPath : Nat := 4095

/-- Goes through names from a location; `jump` goes on behind a link. Only the last name may be
missing, and whether it is followed as a link is for the caller to say. -/
def follow (fs : FileSystem) (followLast : Bool)
    (jump : List Text → Location → Except FileCause Location) :
    List Text → Location → Except FileCause Location
  | [], here => .ok here
  | name :: rest, here =>
    match fs.entryAt? here with
    | none => .error .notFound
    | some (.file _ _) => .error .notDirectory
    | some (.link _) => .error .notDirectory
    | some (.dir rights) =>
      if !rights.search then .error .denied
      else if name = ['.'] then follow fs followLast jump rest here
      else if Path.isParent name then follow fs followLast jump rest here.dropLast
      else if longestName < (Utf8.encode name).length then .error .nameTooLong
      else
        let there := here ++ [name]
        match fs.entryAt? there with
        | none => if rest.isEmpty then .ok there else .error .notFound
        | some (.link target) =>
          if rest.isEmpty && !followLast then .ok there
          else jump (pathNames target ++ rest) (if Path.isAbsolute target then [] else here)
        | some _ => follow fs followLast jump rest there

def followLinks (fs : FileSystem) (followLast : Bool) :
    (links : Nat) → List Text → Location → Except FileCause Location
  | 0 => follow fs followLast fun _ _ => .error .tooManyLinks
  | links + 1 => follow fs followLast (followLinks fs followLast links)

def mostLinks : Nat := 40

/-- The location of a path; there may be nothing at it yet. -/
def locate (fs : FileSystem) (p : Path) (followLast : Bool) : Except FileCause Location :=
  if '\x00' ∈ p then .error .nulCharacter
  else if p.isEmpty then .error .notFound
  else if longestPath < (Utf8.encode p).length then .error .nameTooLong
  else followLinks fs followLast mostLinks (pathNames p) (fs.start p)

def find (fs : FileSystem) (p : Path) (followLast : Bool) :
    Except FileCause (Location × Entry) := do
  let l ← fs.locate p followLast
  match fs.entryAt? l with
  | some e => .ok (l, e)
  | none => .error .notFound

/-- Something is there, and it is no broken link. -/
def hasPath (fs : FileSystem) (p : Path) : Bool := (fs.find p true).isOk

def isDirectory (fs : FileSystem) (p : Path) : Bool :=
  match fs.find p true with
  | .ok (_, .dir _) => true
  | _ => false

def canList (fs : FileSystem) (p : Path) : Bool :=
  match fs.find p true with
  | .ok (_, .dir rights) => rights.read
  | _ => false

def isFile (fs : FileSystem) (p : Path) : Bool :=
  match fs.find p true with
  | .ok (_, .file _ _) => true
  | _ => false

def isLink (fs : FileSystem) (p : Path) : Bool :=
  match fs.find p false with
  | .ok (_, .link _) => true
  | _ => false

/-- The target of a link that can be seen, as all directories above it may be searched. -/
def linkAt? (fs : FileSystem) (l : Location) : Option Path :=
  match fs.entryAt? l with
  | some (.link target) =>
    if (List.range l.length).all fun k => (fs.rightsAt (l.take k)).search then some target else none
  | _ => none

structure Waypoint where
  location : Location
  fromTop : Bool
deriving DecidableEq, Repr

namespace Waypoint

def top : Waypoint := ⟨[], true⟩

def child (w : Waypoint) (name : Text) : Waypoint := { w with location := w.location ++ [name] }

def parent (w : Waypoint) : Waypoint := { w with location := w.location.dropLast }

end Waypoint

/-- Removes the links from names; `opened` are the links on the way whose targets are being gone
through, and `jump` goes through a target. At a link that leads back to itself the rest of the path
stays as it is. -/
def realNames (fs : FileSystem) (opened : List Waypoint)
    (jump : List Waypoint → List Text → Waypoint → Except Path Waypoint) :
    List Text → Waypoint → Except Path Waypoint
  | [], here => .ok here
  | name :: rest, here =>
    if name.isEmpty ∨ name = ['.'] then realNames fs opened jump rest here
    else if Path.isParent name then realNames fs opened jump rest here.parent
    else
      let there := here.child name
      let unread := Text.joinWith ['/'] rest
      match fs.linkAt? there.location with
      | some target =>
        if there ∈ opened then .error (Path.join there.location.toPath unread)
        else match jump (there :: opened) (Text.fields '/' target)
            (if Path.isAbsolute target then .top else here) with
          | .ok next => realNames fs opened jump rest next
          | .error p => .error (Path.join p unread)
      | none => realNames fs opened jump rest there

def realLinks (fs : FileSystem) :
    (links : Nat) → List Waypoint → List Text → Waypoint → Except Path Waypoint
  | 0, opened => realNames fs opened fun _ _ w => .error w.location.toPath
  | links + 1, opened => realNames fs opened (realLinks fs links)

/-- The absolute path without links. A link can be open once for each of the two ways to it. -/
def realPath (fs : FileSystem) (p : Path) : Path :=
  let links := 2 * fs.entries.length + 1
  match realLinks fs links [] (Text.fields '/' p) ⟨fs.start p, Path.isAbsolute p⟩ with
  | .ok w => w.location.toPath
  | .error q => Path.absolute fs.workDir q

end SourceEdit.FileSystem
