import SourceEdit.Document.Edit
import SourceEdit.FileKind
import SourceEdit.Text.Lines
import SourceEdit.Text.Utf8

/-!
A document: a text with a cursor, a selection from the anchor to the cursor, and an edit history.
Every change of the text goes through an edit block. Blocks opened inside a block join it; what was
recorded is applied in one step when the outermost block closes, and is dropped if it is abandoned.
-/

set_option autoImplicit false

namespace SourceEdit

structure Snapshot where
  text : Text
  position : Nat
  anchor : Nat
deriving DecidableEq, Repr

structure CursorRequest where
  position : Int
  anchor : Int
deriving DecidableEq, Repr

structure EditBlock where
  depth : Nat
  edits : List Edit
  cursor : Option CursorRequest
deriving DecidableEq, Repr

structure Document where
  kind : DocumentKind
  text : Text
  saved : Text
  fileName : Option Path
  position : Nat
  anchor : Nat
  undos : List Snapshot
  redos : List Snapshot
  disk : Option Octets
  block : Option EditBlock
deriving DecidableEq, Repr

inductive EditError where
  | misplaced (start stop : Int)
  | unnamed
  | changedOutside (path : Path)
deriving DecidableEq, Repr

namespace EditError

def message : EditError → Text
  | .misplaced start stop =>
    "Invalid or overlapping edit range (".toList ++ Text.ofInt start ++ [',', ' '] ++
      Text.ofInt stop ++ [')']
  | .unnamed => "Cannot save a document without a file name".toList
  | .changedOutside path =>
    "File ".toList ++ path ++ " was modified outside of this document".toList

end EditError

namespace Document

def new (kind : DocumentKind) (text : Text) (fileName : Option Path) : Document :=
  ⟨kind, text, text, fileName, 0, 0, [], [], none, none⟩

def snapshot (d : Document) : Snapshot := ⟨d.text, d.position, d.anchor⟩

def restore (d : Document) (s : Snapshot) : Document :=
  { d with text := s.text, position := s.position, anchor := s.anchor }

def hasChanges (d : Document) : Bool := d.text != d.saved

def undoCount (d : Document) : Nat := d.undos.length

def charAt (d : Document) (position : Int) : Text :=
  if 0 ≤ position then (d.text[position.toNat]?).toList else []

def selectRegion (d : Document) (start stop : Int) : Document :=
  { d with anchor := d.text.clamp start, position := d.text.clamp stop }

def setPosition (d : Document) (position : Int) (keepAnchor : Bool) : Document :=
  let p := d.text.clamp position
  { d with position := p, anchor := if keepAnchor then d.anchor else p }

def hasSelection (d : Document) : Bool := d.anchor != d.position

def selectionStart (d : Document) : Nat := min d.anchor d.position

def selectionEnd (d : Document) : Nat := max d.anchor d.position

def selectedText (d : Document) : Text := d.text.slice d.selectionStart d.selectionEnd

def change (d : Document) (sorted : List Edit) (cursor : Option CursorRequest) : Document :=
  let text := Edit.applyAll d.text sorted
  let request := cursor.getD
    ⟨Edit.mapPosition d.position 0 sorted, Edit.mapPosition d.anchor 0 sorted⟩
  { d with
    text := text
    position := text.clamp request.position
    anchor := text.clamp request.anchor
    undos := d.snapshot :: d.undos
    redos := [] }

/-- Applies what a block has recorded, or names the first edit that does not fit. A block without
edits only moves the cursor. -/
def commit (d : Document) (edits : List Edit) (cursor : Option CursorRequest) :
    Except EditError Document :=
  match edits with
  | [] =>
    match cursor with
    | none => .ok d
    | some c => .ok (d.selectRegion c.anchor c.position)
  | _ =>
    let sorted := Edit.sort edits
    match Edit.firstMisplaced? d.text.length 0 sorted with
    | some e => .error (.misplaced e.start e.stop)
    | none => .ok (d.change sorted cursor)

def openBlock (d : Document) : Document :=
  match d.block with
  | none => { d with block := some ⟨1, [], none⟩ }
  | some b => { d with block := some { b with depth := b.depth + 1 } }

def record (d : Document) (e : Edit) : Document :=
  { d with block := d.block.map fun b => { b with edits := b.edits ++ [e] } }

def requestCursor (d : Document) (position : Int) (anchor : Option Int) : Document :=
  let c : CursorRequest := ⟨position, anchor.getD position⟩
  { d with block := d.block.map fun b => { b with cursor := some c } }

/-- Leaves the innermost block. Leaving the outermost one commits, unless the block is abandoned; a
commit that fails changes nothing else. -/
def closeBlock (d : Document) (abandoned : Bool) : Document × Option EditError :=
  match d.block with
  | none => (d, none)
  | some b =>
    if 1 < b.depth then ({ d with block := some { b with depth := b.depth - 1 } }, none)
    else
      let d := { d with block := none }
      if abandoned then (d, none)
      else match d.commit b.edits b.cursor with
        | .ok d => (d, none)
        | .error e => (d, some e)

def edit (d : Document) (edits : List Edit) (cursor : Option CursorRequest) :
    Document × Option EditError :=
  let d := edits.foldl record d.openBlock
  let d := match cursor with
    | none => d
    | some c => d.requestCursor c.position (some c.anchor)
  d.closeBlock false

def editOrFail (d : Document) (edits : List Edit) (cursor : Option CursorRequest) :
    Document × Except EditError Bool :=
  match d.edit edits cursor with
  | (d, none) => (d, .ok true)
  | (d, some e) => (d, .error e)

def undo (d : Document) : Document × Bool :=
  match d.undos with
  | [] => (d, false)
  | s :: undos => ({ d.restore s with undos := undos, redos := d.snapshot :: d.redos }, true)

def redo (d : Document) : Document × Bool :=
  match d.redos with
  | [] => (d, false)
  | s :: redos => ({ d.restore s with redos := redos, undos := d.snapshot :: d.undos }, true)

end Document

end SourceEdit
