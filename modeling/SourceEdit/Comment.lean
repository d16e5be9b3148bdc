import SourceEdit.Text.Basic
import SourceEdit.Text.CharClass

/-!
Blanking of comments. The scan goes through a source character by character and shows each one as it
is or as a space, so every line and column stays where it is. Comment markers inside string and
character literals and inside the target of an include directive have no effect.
-/

set_option autoImplicit false

namespace SourceEdit.Comment

structure Markers where
  line : Text := ['/', '/']
  blockStart : Text := ['/', '*']
  blockEnd : Text := ['*', '/']

/-- Where the scan stands in front of a character. -/
inductive Mode where
  | code
  /-- Inside a literal up to `quote` or the end of the line. -/
  | literal (quote : Char) (escaped : Bool)
  | line
  /-- Inside a block comment; `skip` characters of its start marker are still to come. -/
  | block (skip : Nat)
  /-- Inside the end marker of a block comment with `left` characters to come. -/
  | blockEnd (left : Nat)
deriving DecidableEq, Repr

/-- Nothing but `#include` stands on the line, which is given from its end. -/
def isIncludePrefix (line : Text) : Bool :=
  let word := ['e', 'd', 'u', 'l', 'c', 'n', 'i']
  let rest := line.dropWhile Text.isSpaceOrTab
  word.isPrefixOf rest &&
    match (rest.drop word.length).dropWhile Text.isSpaceOrTab with
    | '#' :: before => before.all Text.isSpaceOrTab
    | _ => false

def blank (c : Char) : Char := if c = '\n' then c else ' '

def Mode.behindEnd (left : Nat) : Mode := if left = 0 then .code else .blockEnd left

/-- A character outside comments and literals: how it is shown and the mode behind it. `line` is the
line in front of it, from its end, and `rest` is the text behind it. -/
def stepCode (m : Markers) (line : Text) (c : Char) (rest : Text) : Char × Mode :=
  if m.line.isPrefixOf (c :: rest) then (blank c, .line)
  else if m.blockStart.isPrefixOf (c :: rest) then (blank c, .block (m.blockStart.length - 1))
  else if c = '"' ∨ c = '\'' then (c, .literal c false)
  else if c = '<' ∧ isIncludePrefix line then (c, .literal '>' false)
  else (c, .code)

def step (m : Markers) (mode : Mode) (line : Text) (c : Char) (rest : Text) : Char × Mode :=
  match mode with
  | .code => stepCode m line c rest
  | .literal quote true => (c, .literal quote false)
  | .literal quote false =>
    if c = '\\' ∧ quote ≠ '>' then (c, .literal quote true)
    else if c = quote ∨ c = '\n' then (c, .code)
    else (c, .literal quote false)
  | .line => if c = '\n' then stepCode m line c rest else (' ', .line)
  | .block (skip + 1) => (blank c, .block skip)
  | .block 0 =>
    if m.blockEnd.isPrefixOf (c :: rest) then (blank c, .behindEnd (m.blockEnd.length - 1))
    else (blank c, .block 0)
  | .blockEnd left => (blank c, .behindEnd (left - 1))

def nextLine (line : Text) (c : Char) : Text := if c = '\n' then [] else c :: line

def scan (m : Markers) : Mode → Text → Text → Text
  | _, _, [] => []
  | mode, line, c :: rest =>
    let (shown, next) := step m mode line c rest
    shown :: scan m next (nextLine line c) rest

def modeAfter (m : Markers) : Mode → Text → Text → Mode
  | mode, _, [] => mode
  | mode, line, c :: rest => modeAfter m (step m mode line c rest).2 (nextLine line c) rest

def blankOutWith (m : Markers) (source : Text) : Text := scan m .code [] source

def blankOut (source : Text) : Text := blankOutWith {} source

theorem length_scan (m : Markers) (mode : Mode) (line t : Text) :
    (scan m mode line t).length = t.length := by
  induction t generalizing mode line with
  | nil => rfl
  | cons c rest ih => simp [scan, ih]

@[simp] theorem length_blankOutWith (m : Markers) (source : Text) :
    (blankOutWith m source).length = source.length :=
  length_scan m .code [] source

@[simp] theorem length_blankOut (source : Text) : (blankOut source).length = source.length :=
  length_blankOutWith {} source

end SourceEdit.Comment
