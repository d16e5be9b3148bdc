import SourceEdit.Failure

/-!
Loading and saving. A document is saved under the lock of its file, through a temporary file beside
it; a file that others have changed since it was read or written is left alone.
-/

set_option autoImplicit false

namespace SourceEdit.Document

variable [FileLock]

def load (d : Document) (fs : FileSystem) (p : Path) : Except FileError Document := do
  let p := Path.absolute fs.workDir p
  let content ← fs.read p
  let text := Text.unifyNewlines (Utf8.decodeLossy content)
  .ok { d with
    text := text
    saved := text
    fileName := some p
    position := 0
    anchor := 0
    undos := []
    redos := []
    disk := some content }

def ofFile (kind : DocumentKind) (fs : FileSystem) (p : Path) : Except FileError Document :=
  (new kind [] none).load fs p

def temporaryPath (p : Path) : Path := p ++ ".tmp".toList

/-- Writes a file by way of the temporary one, which is gone afterwards. -/
def replaceFile (fs : FileSystem) (target : Path) (content : Octets) :
    FileSystem × Option FileError :=
  let temporary := temporaryPath target
  let (fs, failure) : FileSystem × Option FileError :=
    match fs.write temporary content with
    | .error e => (fs, some e)
    | .ok fs =>
      match fs.move temporary target with
      | .error e => (fs, some e)
      | .ok fs => (fs, none)
  if fs.hasPath temporary then
    match fs.remove temporary with
    | .ok fs => (fs, failure)
    | .error e => (fs, some e)
  else (fs, failure)

/-- The file is there and is not as this document left it. -/
def isChangedOutside (d : Document) (fs : FileSystem) (target : Path) : Bool :=
  d.fileName = some target &&
    match d.disk, fs.content? target with
    | some known, some content => content != known
    | _, _ => false

def saveLocked (d : Document) (fs : FileSystem) (target : Path) :
    FileSystem × Document × Option Failure :=
  if d.isChangedOutside fs target then (fs, d, some (.edit (.changedOutside target)))
  else match replaceFile fs target (Utf8.encode d.text) with
    | (fs, some e) => (fs, d, some (.file e))
    | (fs, none) =>
      (fs, { d with fileName := some target, saved := d.text, disk := fs.content? target }, none)

def save (d : Document) (fs : FileSystem) (p : Option Path) :
    FileSystem × Document × Option Failure :=
  let target : Option Path :=
    match p.filter (!·.isEmpty) with
    | some p => some (Path.absolute fs.workDir p)
    | none => d.fileName
  match target with
  | none => (fs, d, some (.edit .unnamed))
  | some target =>
    match fs.acquire target with
    | (fs, some e) => (fs, d, some (.lock e))
    | (fs, none) =>
      let (fs, d, failure) := d.saveLocked fs target
      (fs.release target, d, failure)

end SourceEdit.Document
