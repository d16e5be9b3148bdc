import SourceEdit.Access
import SourceEdit.Project.Editor

/-!
The server: the directories that may be used, and an editor whose project is in the first of them.
Every tool reads its file anew.
-/

set_option autoImplicit false

namespace SourceEdit

structure Server where
  allowed : List Path
  editor : Editor

namespace Server

def new (fs : FileSystem) : Server := ⟨[], ⟨fs, [], .empty, none⟩⟩

def fs (s : Server) : FileSystem := s.editor.fs

def directoryFault? (fs : FileSystem) (d : Path) : Option Failure :=
  if !fs.isDirectory d then some (.allowedNotDirectory d)
  else if !fs.canList d then some (.allowedNotReadable d)
  else none

variable [Users]

/-- Sets the directories, with their links followed, and makes a new project in the first one. -/
def configure (s : Server) (dirs : List Path) (settings : Settings) : Except Failure Server :=
  let fs := s.fs
  match dirs.find? (·.contains '\x00') with
  | some d => .error (.file ⟨.nulCharacter, d, none⟩)
  | none =>
    let real := dirs.map fun d => Path.normalize (fs.realPath (Path.expandHome fs.home d))
    match real with
    | [] => .error .noAllowedDirectory
    | root :: _ =>
      match real.findSome? (directoryFault? fs) with
      | some failure => .error failure
      | none => do
        let project ← Project.new fs root settings
        .ok ⟨real, ⟨fs, [], .empty, some project⟩⟩

def resolvePath (s : Server) (p : Path) : Except Failure Path :=
  match s.editor.project with
  | none => .error .notConfigured
  | some project =>
    if Access.asksForNul p then .error (.access .nulCharacter)
    else
      let p := Path.expandHome s.fs.home p
      let p := if Path.isAbsolute p then p else Path.normalize (Path.join project.root p)
      (Access.validate s.fs s.allowed p).mapError .access

def loadDocument (s : Server) (p : Path) : Except Failure Document := do
  let file ← s.resolvePath p
  if s.fs.isFile file then (Document.ofFile .source s.fs file).mapError .file
  else .error (.fileNotFound p)

def displayPath (s : Server) (p : Path) : Path :=
  match s.editor.project with
  | none => p
  | some project =>
    if (Path.join project.root []).isPrefixOf p then Path.relativeTo project.root p else p

end Server

end SourceEdit
