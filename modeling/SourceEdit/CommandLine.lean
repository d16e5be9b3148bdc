import SourceEdit.Server.Basic

set_option autoImplicit false

namespace SourceEdit.CommandLine

inductive Flag where
  | help
  | settings
  | logLevel
deriving DecidableEq, Repr

def Flag.names : List (Text × Flag) := [
  ("-h".toList, .help), ("--help".toList, .help), ("--settings".toList, .settings),
  ("--log-level".toList, .logLevel)]

inductive Word where
  | plain (t : Text)
  | flag (f : Flag) (value : Option Text)
  | unknown
  /-- The first `--`; all that follows is plain. -/
  | divider

inductive Stop where
  | help
  | usage
deriving DecidableEq, Repr

structure Arguments where
  directories : List Text
  settings : Option Text
  logLevel : Text

def splitValue (t : Text) : Text × Option Text :=
  match t.span (· ≠ '=') with
  | (name, _ :: value) => (name, some value)
  | (name, []) => (name, none)

def isNegativeNumber : Text → Bool
  | '-' :: digits =>
    match digits.span Text.isDecimal with
    | (whole, []) => !whole.isEmpty
    | (_, '.' :: fraction) => !fraction.isEmpty && fraction.all Text.isDecimal
    | _ => false
  | _ => false

def abbreviated (name : Text) : List Flag :=
  (Flag.names.filter fun n => name.isPrefixOf n.1).map (·.2)

def helpLetters : Text → Word
  | [] => .flag .help none
  | 'h' :: rest => helpLetters rest
  | c :: rest => .flag .help (if c = '-' ∨ c = '=' then some rest else none)

def readDashed (t : Text) : Except Stop Word :=
  let other : Word := if isNegativeNumber t || t.contains ' ' then .plain t else .unknown
  match t with
  | '-' :: '-' :: _ =>
    let (name, value) := splitValue t
    match abbreviated name with
    | [] => .ok other
    | [f] => .ok (.flag f value)
    | _ => .error .usage
  | '-' :: 'h' :: rest => .ok (helpLetters rest)
  | _ => .ok other

def readWord (t : Text) : Except Stop Word :=
  match t with
  | '-' :: _ :: _ =>
    match Flag.names.lookup t with
    | some f => .ok (.flag f none)
    | none =>
      let (name, value) := splitValue t
      match Flag.names.lookup name with
      | some f => .ok (.flag f value)
      | none => readDashed t
  | _ => .ok (.plain t)

def readWords : List Text → Except Stop (List Word)
  | [] => .ok []
  | t :: ts =>
    if t = ['-', '-'] then .ok (.divider :: ts.map .plain)
    else do
      let w ← readWord t
      let ws ← readWords ts
      .ok (w :: ws)

inductive Phase where
  | before
  | during
  | after

/-- What has been read. A mistake that does not stop the reader is noticed in the end. -/
structure Progress where
  directories : List Text
  phase : Phase
  settings : Option Text
  logLevel : Text
  awaited : Option Flag
  mistaken : Bool

namespace Progress

def start : Progress := ⟨[], .before, none, "INFO".toList, none, false⟩

def put (p : Progress) (f : Flag) (value : Text) : Progress :=
  match f with
  | .help => p
  | .settings => { p with settings := some value, awaited := none }
  | .logLevel => { p with logLevel := value, awaited := none }

def endRun (p : Progress) : Progress :=
  match p.phase with
  | .during => { p with phase := .after }
  | _ => p

def mistake (p : Progress) : Progress := { p with mistaken := true }

def addPlain (p : Progress) (t : Text) : Progress :=
  match p.phase with
  | .after => p.mistake
  | _ => { p with directories := p.directories ++ [t], phase := .during }

def divide (p : Progress) : Progress :=
  match p.phase with
  | .after => p.mistake
  | _ => p

def read (p : Progress) (w : Word) : Except Stop Progress :=
  match p.awaited, w with
  | some f, .plain value => .ok (p.put f value)
  | some _, _ => .error .usage
  | none, .plain t => .ok (p.addPlain t)
  | none, .divider => .ok p.divide
  | none, .unknown => .ok p.endRun.mistake
  | none, .flag .help none => .error .help
  | none, .flag .help (some _) => .error .usage
  | none, .flag f (some value) => .ok (p.endRun.put f value)
  | none, .flag f none => .ok { p.endRun with awaited := some f }

def finish (p : Progress) : Except Stop Arguments :=
  if p.awaited.isSome || p.directories.isEmpty || p.mistaken then .error .usage
  else .ok ⟨p.directories, p.settings, p.logLevel⟩

end Progress

def parse (args : List Text) : Except Stop Arguments := do
  let ws ← readWords args
  let p ← ws.foldlM Progress.read .start
  p.finish

def levels : List Text :=
  ["CRITICAL", "FATAL", "ERROR", "WARN", "WARNING", "INFO", "DEBUG", "NOTSET"].map (·.toList)

inductive Outcome where
  | stopped (s : Stop)
  | badLevel (failure : Failure)
  | refused (failure : Failure)
  | serving

namespace Outcome

def note : Outcome → Text
  | .stopped _ => []
  | .badLevel failure => failure.message ++ ['\n']
  | .refused failure =>
    "Error processing allowed directories: ".toList ++ failure.message ++ ['\n']
  | .serving => "C/C++ editing MCP server running\n".toList

def exitCode? : Outcome → Option Nat
  | .stopped .help => some 0
  | .stopped .usage => some 2
  | .badLevel _ => some 1
  | .refused _ => some 1
  | .serving => none

end Outcome

def settingsOf (fs : FileSystem) (p : Option Path) : Except Failure Settings :=
  match p.filter (!·.isEmpty) with
  | none => .ok .standard
  | some p => Settings.load fs p

def start [Users] (s : Server) (args : List Text) : Server × Outcome :=
  match parse args with
  | .error stop => (s, .stopped stop)
  | .ok a =>
    let level := Text.upper a.logLevel
    if !levels.contains level then (s, .badLevel (.unknownLogLevel level))
    else
      match (settingsOf s.fs a.settings).bind (s.configure a.directories) with
      | .error failure => (s, .refused failure)
      | .ok s => (s, .serving)

end SourceEdit.CommandLine
