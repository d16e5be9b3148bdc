import SourceEdit.Diff.Unified
import SourceEdit.Document.CommentOut
import SourceEdit.Document.Declaration
import SourceEdit.Document.DialogExchange
import SourceEdit.Document.Includes
import SourceEdit.Server.Basic

set_option autoImplicit false

namespace SourceEdit

inductive Answer where
  | position (offset line : Nat)
  | path (p : Path)
  | noCounterpart (p : Path)
  | bindings (members : List (Text × Text))
  | unchanged (reason : Text)
  | preview (diff : Text)
  | edited (p : Path) (diff : Text)
  | badRange
  | failed (failure : Failure)

namespace Answer

def errorText (message : Text) : Text := "Error: ".toList ++ message

def render : Answer → Text
  | .position offset line =>
    "Position: ".toList ++ Text.ofInt offset ++ " (line ".toList ++ Text.ofInt line ++ [')']
  | .path p => p
  | .noCounterpart p => "No corresponding header or source found for ".toList ++ p
  | .bindings members => Json.writtenTexts members
  | .unchanged reason => "No change: ".toList ++ reason
  | .preview diff => "Dry run, changes not written:\n".toList ++ diff
  | .edited p diff => "Successfully edited ".toList ++ p ++ [':', '\n'] ++ diff
  | .badRange =>
    errorText "line_start must be 1 or greater and line_end must not be before line_start.".toList
  | .failed failure => errorText failure.message

end Answer

namespace Server

variable [Users] [FileLock]

def allowedText (s : Server) : Text :=
  "Allowed directories:\n".toList ++ Text.joinWith ['\n'] s.allowed

def gotoBlock (s : Server) (direction : Direction) (p : Path) (position : Int) (count : Nat) :
    Answer :=
  match s.loadDocument p with
  | .error failure => .failed failure
  | .ok d =>
    let d := (d.setPosition position false).gotoBlock direction count
    .position d.position (d.text.lineOfPosition d.position)

def counterpart (s : Server) (p : Path) : Server × Answer :=
  match s.resolvePath p with
  | .error failure => (s, .failed failure)
  | .ok file =>
    match s.editor.resolve file with
    | (e, some q) => ({ s with editor := e }, .path q)
    | (e, none) => ({ s with editor := e }, .noCounterpart p)

def dialogExchange (s : Server) (p : Path) (className : Text) : Answer :=
  match s.loadDocument p with
  | .error failure => .failed failure
  | .ok d => .bindings (DialogExchange.extract d.text className)

abbrev Operation := Document → Document × Except Failure Bool

def ofEdit (r : Document × Except EditError Bool) : Document × Except Failure Bool :=
  (r.1, r.2.mapError .edit)

def editFile (s : Server) (p : Path) (operation : Operation) (reason : Text) (dryRun : Bool) :
    Server × Answer :=
  match s.loadDocument p with
  | .error failure => (s, .failed failure)
  | .ok d =>
    match operation d with
    | (_, .error failure) => (s, .failed failure)
    | (_, .ok false) => (s, .unchanged reason)
    | (changed, .ok true) =>
      let shown := s.displayPath ((changed.fileName).getD [])
      let diff := Diff.unified d.text changed.text shown shown
      if dryRun then (s, .preview diff)
      else
        let (fs, _, failure) := changed.save s.fs none
        let s := { s with editor := { s.editor with fs := fs } }
        match failure with
        | some failure => (s, .failed failure)
        | none => (s, .edited shown diff)

def addInclude (s : Server) (p : Path) (t : Text) (newGroup dryRun : Bool) : Server × Answer :=
  s.editFile p (fun d => ofEdit (d.insertInclude t newGroup))
    (t ++ " is already included or is not a valid include".toList) dryRun

def removeInclude (s : Server) (p : Path) (t : Text) (dryRun : Bool) : Server × Answer :=
  s.editFile p (fun d => ofEdit (d.removeInclude t))
    (t ++ " is not included in ".toList ++ p) dryRun

def insertForwardDeclaration (s : Server) (p : Path) (t : Text) (dryRun : Bool) :
    Server × Answer :=
  s.editFile p (fun d => ofEdit (d.insertForwardDeclaration t))
    ("could not add '".toList ++ t ++ "' (not a header, invalid or already declared)".toList) dryRun

def commentEach : List Nat → Document → Document × Option EditError
  | [], d => (d, none)
  | line :: lines, d =>
    match (d.setPosition (d.text.positionOfLine line) false).commentSelection with
    | (d, none) => commentEach lines d
    | r => r

def commentRange (first last : Nat) : Operation := fun d =>
  let count := d.text.lineCount
  if count < first then (d, .error (.lineBeyondEnd first count))
  else
    match commentEach ((List.range (min last count + 1 - first)).map (first + ·)) d with
    | (changed, none) => (changed, .ok (changed.text != d.text))
    | (changed, some e) => (changed, .error (.edit e))

def commentLines (s : Server) (p : Path) (first last : Int) (dryRun : Bool) : Server × Answer :=
  if first < 1 ∨ last < first then (s, .badRange)
  else s.editFile p (commentRange first.toNat last.toNat) "nothing to comment".toList dryRun

end Server

end SourceEdit
