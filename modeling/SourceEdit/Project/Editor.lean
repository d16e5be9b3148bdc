import SourceEdit.Counterpart.Resolver
import SourceEdit.Document.Storage
import SourceEdit.Project.Files

/-!
An editor at work: its files, its documents, the counterparts found so far, and its project if it
has one. A document keeps its number for good; the project says which documents are open, and under
which paths.
-/

set_option autoImplicit false

namespace SourceEdit

abbrev DocumentId := Nat

structure Editor where
  fs : FileSystem
  documents : List Document
  cache : CounterpartCache
  project : Option Project

namespace Editor

def document? (e : Editor) (id : DocumentId) : Option Document := e.documents[id]?

def setDocument (e : Editor) (id : DocumentId) (d : Document) : Editor :=
  { e with documents := e.documents.set id d }

def addDocument (e : Editor) (d : Document) : Editor × DocumentId :=
  ({ e with documents := e.documents ++ [d] }, e.documents.length)

def settings (e : Editor) : Settings := (e.project.map (·.settings)).getD .standard

def index (e : Editor) (suffixes : List Text) : List Path :=
  match e.project with
  | none => []
  | some project => project.filesWithSuffixes e.fs suffixes

def resolve (e : Editor) (p : Path) : Editor × Option Path :=
  let (cache, q) := Counterpart.resolve e.fs e.settings e.index e.cache p
  ({ e with cache := cache }, q)

end Editor

namespace Project

def documentAt? (project : Project) (p : Path) : Option DocumentId := project.opened.get? p

def pathOf (project : Project) (fs : FileSystem) (p : Path) : Path :=
  Path.absolute fs.workDir (Path.join project.root p)

def unregister (project : Project) (p : Path) : Project :=
  { project with opened := project.opened.erase p }

def register (project : Project) (p : Path) (id : DocumentId) : Project :=
  { project with opened := project.opened.insert p id }

def close (project : Project) (p : Path) : Project :=
  match project.documentAt? p with
  | none => project
  | some id =>
    let project := project.unregister p
    if project.current = some id then { project with current := none } else project

end Project

namespace Editor

def openFile (e : Editor) (project : Project) (p : Path) : Editor × Except Failure DocumentId :=
  let p := project.pathOf e.fs p
  match project.documentAt? p with
  | some id => ({ e with project := some { project with current := some id } }, .ok id)
  | none =>
    match Document.ofFile (project.settings.kindOf p) e.fs p with
    | .error failure => (e, .error (.file failure))
    | .ok d =>
      let (e, id) := e.addDocument d
      ({ e with project := some { project.register p id with current := some id } }, .ok id)

def counterpart (e : Editor) (id : DocumentId) : Editor × Option Path :=
  match (e.document? id).bind (·.fileName) with
  | none => (e, none)
  | some p => e.resolve p

def isSource (e : Editor) (id : DocumentId) : Bool := (e.document? id).any (·.kind = .source)

/-- Opens the counterpart of a document's file. In a project it becomes current, and it may turn out
not to be a source file; then there is no answer. -/
def openCounterpart (e : Editor) (id : DocumentId) : Editor × Except Failure (Option DocumentId) :=
  match e.counterpart id with
  | (e, none) => (e, .ok none)
  | (e, some p) =>
    match e.project with
    | some project =>
      match e.openFile project p with
      | (e, .ok id) => (e, .ok (if e.isSource id then some id else none))
      | (e, .error failure) => (e, .error failure)
    | none =>
      match Document.ofFile .source e.fs p with
      | .error failure => (e, .error (.file failure))
      | .ok d => let (e, id) := e.addDocument d; (e, .ok (some id))

def absolute (e : Editor) (p : Path) : Path := Path.absolute e.fs.workDir p

def closeFile (e : Editor) (p : Path) : Editor :=
  { e with project := e.project.map (·.close (e.absolute p)) }

def fileCreated (e : Editor) (p : Path) : Editor :=
  { e with cache := e.cache.fileCreated (e.absolute p) }

def fileRemoved (e : Editor) (p : Path) : Editor :=
  { e with cache := e.cache.invalidate (e.absolute p) }.closeFile p

def fileRenamed (e : Editor) (old new : Path) : Editor :=
  let old := e.absolute old
  let new := e.absolute new
  let e := { e with cache := e.cache.rename old new }
  match e.project.bind (·.documentAt? old) with
  | none => e
  | some id =>
    let e := match e.document? id with
      | none => e
      | some d => e.setDocument id { d with fileName := some new }
    { e with project := e.project.map fun project => (project.unregister old).register new id }

def saveDocument [FileLock] (e : Editor) (id : DocumentId) (p : Option Path) : Editor × Option Failure :=
  match e.document? id with
  | none => (e, none)
  | some d =>
    let (fs, d, failure) := d.save e.fs p
    ({ e.setDocument id d with fs := fs }, failure)

end Editor

end SourceEdit
