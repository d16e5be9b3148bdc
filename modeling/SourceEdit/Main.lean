import SourceEdit.CommandLine

set_option autoImplicit false

namespace SourceEdit.Snapshot

def putMissing (fs : FileSystem) (l : Location) (e : Entry) : FileSystem :=
  if (fs.entryAt? l).isSome then fs else fs.put l e

def putBelow (fs : FileSystem) (l : Location) (e : Entry) : FileSystem :=
  let above := (List.range (l.length - 1)).map fun i => l.take (i + 1)
  putMissing (above.foldl (fun fs a => putMissing fs a .directory) fs) l e

def addPath (withContent : Bool) (fs : FileSystem) (p : Path) : IO FileSystem := do
  let p := Path.absolute fs.workDir p
  match ← (IO.FS.realPath (String.ofList p)).toBaseIO with
  | .error _ => pure fs
  | .ok real =>
    let goal := real.toString.toList
    let isDirectory ← real.isDir
    let content ←
      if withContent && !isDirectory then (IO.FS.readBinFile real).toBaseIO
      else pure (.ok ByteArray.empty)
    let mayList := (← real.readDir.toBaseIO).toOption.isSome
    let entry : Entry :=
      if isDirectory then .dir { Rights.all with read := mayList }
      else match content with
        | .ok octets => .file octets.toList {}
        | .error _ => .file [] { mayRead := false }
    let fs := putBelow fs (Path.names goal) entry
    pure (if goal = p then fs else putBelow fs (Path.names p) (.link goal))

def users : IO Users := do
  let lines ← (IO.FS.readFile "/etc/passwd").toBaseIO
  pure (Users.ofLines (lines.toOption.getD "").toList)

def take [Users] (args : List Text) : IO FileSystem := do
  let workDir := (← IO.currentDir).toString.toList
  let home := ((← IO.getEnv "HOME").getD "/").toList
  let fs := putBelow ⟨[], workDir, home⟩ (Path.names workDir) .directory
  match CommandLine.parse args with
  | .error _ => pure fs
  | .ok a =>
    let fs ← (a.directories.map (Path.expandHome home)).foldlM (addPath false) fs
    a.settings.toList.foldlM (addPath true) fs

end SourceEdit.Snapshot

def main (args : List String) : IO UInt32 := do
  let args := args.map (·.toList)
  let _users : SourceEdit.Users ← SourceEdit.Snapshot.users
  let fs ← SourceEdit.Snapshot.take args
  let (_, outcome) := SourceEdit.CommandLine.start (SourceEdit.Server.new fs) args
  IO.eprint (String.ofList outcome.note)
  pure (UInt32.ofNat (outcome.exitCode?.getD 0))
