import SourceEdit.Document.Basic
import SourceEdit.Include.Placement

set_option autoImplicit false

namespace SourceEdit.Document

def inventory (d : Document) : Inventory := .ofSource d.text

def isFilled (line : Text) : Bool := !(Text.strip line).isEmpty

def directiveLines (d : Document) (i : Include) (line : Nat) (newGroup : Bool) : Text :=
  let above := newGroup && decide (1 < line) && isFilled (d.text.line (line - 1 : Nat))
  let below := newGroup && decide (line ≤ d.text.lineCount) && isFilled (d.text.line line)
  (if above then ['\n'] else []) ++ "#include ".toList ++ i.target ++
    (if below then ['\n', '\n'] else ['\n'])

def lineStarter (d : Document) (line : Nat) : Text :=
  if d.text.lineCount < line ∧ d.text.getLast? ≠ some '\n' then ['\n'] else []

def insertInclude (d : Document) (t : Text) (newGroup : Bool) : Document × Except EditError Bool :=
  match Include.parse? t with
  | none => (d, .ok false)
  | some i =>
    match d.inventory.place d.text i newGroup with
    | .present => (d, .ok false)
    | .atLine line newGroup =>
      let text := d.lineStarter line ++ d.directiveLines i line newGroup
      d.editOrFail [.insertion (d.text.positionOfLine line) text] none

def removeInclude (d : Document) (t : Text) : Document × Except EditError Bool :=
  match d.inventory.lineOfText? t with
  | none => (d, .ok false)
  | some line =>
    d.editOrFail
      [.removal (d.text.positionOfLine line) (d.text.positionOfLine (line + 1 : Nat))] none

end SourceEdit.Document
