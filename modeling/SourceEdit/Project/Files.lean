import SourceEdit.FileSystem.Resolve
import SourceEdit.Glob
import SourceEdit.Settings

/-!
The files of a project, directory by directory: first the files of a directory, then those of the
directories in it, each in order. Links to directories are left out, and so is every name that
matches one of the patterns to exclude. A directory that cannot be opened by its path is passed over.
-/

set_option autoImplicit false

namespace SourceEdit

structure Project where
  root : Path
  settings : Settings
  opened : Table Path Nat
  current : Option Nat

namespace Project

def new (fs : FileSystem) (root : Path) (settings : Settings) : Except Failure Project :=
  if fs.isDirectory root then .ok ⟨Path.absolute fs.workDir root, settings, [], none⟩
  else .error (.rootNotDirectory root)

theorem eq_of_new {fs : FileSystem} {root : Path} {settings : Settings} {project : Project}
    (h : new fs root settings = .ok project) :
    project = ⟨Path.absolute fs.workDir root, settings, [], none⟩ := by
  unfold new at h
  split at h
  · exact (Except.ok.inj h).symm
  · contradiction

def isExcluded (excludes : List Text) (name : Text) : Bool := excludes.any (Glob.isMatch · name)

def filesBelow (fs : FileSystem) (excludes : List Text) :
    (depth : Nat) → Path → Location → List Path
  | 0, _, _ => []
  | depth + 1, p, l =>
    let names := ((fs.children l).filter fun n => !isExcluded excludes n).mergeSort Text.le
    let isDirectory (n : Text) : Bool := fs.isDirectory (Path.join p n)
    let isOwn (n : Text) : Bool := fs.isDirAt (l ++ [n])
    if !fs.canList p then []
    else
      (names.filter fun n => !isDirectory n && !isOwn n).map (Path.join p) ++
        (names.filter fun n => isDirectory n && isOwn n).flatMap fun n =>
          filesBelow fs excludes depth (Path.join p n) (l ++ [n])

/-- Every directory is an entry of its own, so there are no more levels than entries. -/
def allFiles (project : Project) (fs : FileSystem) : List Path :=
  match fs.locate project.root true with
  | .ok l => filesBelow fs project.settings.excludes (fs.entries.length + 1) project.root l
  | .error _ => []

def relativeFiles (project : Project) (fs : FileSystem) : List Path :=
  (project.allFiles fs).map (Path.relativeTo project.root)

def hasSuffixOf (suffixes : List Text) (p : Path) : Bool :=
  (suffixes.map Settings.cleanSuffix).contains (Text.lower (Path.suffix p))

def filesWithSuffixes (project : Project) (fs : FileSystem) (suffixes : List Text) : List Path :=
  (project.allFiles fs).filter (hasSuffixOf suffixes)

def relativeFilesWithSuffixes (project : Project) (fs : FileSystem) (suffixes : List Text) :
    List Path :=
  (project.relativeFiles fs).filter (hasSuffixOf suffixes)

end Project

end SourceEdit
