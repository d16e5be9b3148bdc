import SourceEdit.Document.Basic
import SourceEdit.Text.CharClass

/-!
Commenting out. Without a selection the line of the cursor gets a line comment. A selection whose
ends have only blanks in front of them has its lines commented; any other one is wrapped.
-/

set_option autoImplicit false

namespace SourceEdit.Document

def lineStart (d : Document) (position : Nat) : Nat :=
  d.text.positionOfLine (d.text.lineOfPosition position)

def keepSide (d : Document) (start stop : Nat) : CursorRequest :=
  if d.position = d.selectionEnd then ⟨stop, start⟩ else ⟨start, stop⟩

def commentCursorLine (d : Document) : Document × Option EditError :=
  if (d.text.line (d.text.lineOfPosition d.position)).isEmpty then d.edit [] none
  else
    d.edit [.insertion (d.lineStart d.position) ['/', '/']]
      (some ⟨d.position + 2, d.position + 2⟩)

/-- The lines of the selection, from the first to the last. A selection that ends at the start of a
line goes up to the line before, but it always has its first line. -/
def selectedLines (d : Document) : Nat × Nat :=
  let first := d.text.lineOfPosition d.selectionStart
  let last := d.text.lineOfPosition d.selectionEnd
  let last := if d.lineStart d.selectionEnd = d.selectionEnd then last - 1 else last
  (first, max first last)

def commentSelectedLines (d : Document) : Document × Option EditError :=
  let (first, last) := d.selectedLines
  let count := last + 1 - first
  let edits := (List.range count).map fun i =>
    Edit.insertion (d.text.positionOfLine (first + i : Nat)) ['/', '/']
  d.edit edits (some (d.keepSide (d.lineStart d.selectionStart) (d.selectionEnd + 2 * count)))

def wrapSelection (d : Document) : Document × Option EditError :=
  d.edit [.insertion d.selectionEnd ['*', '/'], .insertion d.selectionStart ['/', '*']]
    (some (d.keepSide d.selectionStart (d.selectionEnd + 4)))

def commentSelection (d : Document) : Document × Option EditError :=
  if !d.hasSelection then d.commentCursorLine
  else
    let before (p : Nat) := d.text.slice (d.lineStart p) p
    if Text.allBlank (before d.selectionStart) && Text.allBlank (before d.selectionEnd) then
      d.commentSelectedLines
    else d.wrapSelection

end SourceEdit.Document
