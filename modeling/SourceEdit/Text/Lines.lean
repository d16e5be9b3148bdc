import SourceEdit.Text.Basic

/-!
Lines of a text. A line ends at a newline; lines are numbered from one, and every text has at least
one. `LineIndex` counts lines and columns from zero instead and answers for every integer.
-/

set_option autoImplicit false

namespace SourceEdit.Text

def lines (t : Text) : List Text := fields '\n' t

def lineCount (t : Text) : Nat := t.count '\n' + 1

def line (t : Text) (number : Int) : Text :=
  if 1 ≤ number then (t.lines[(number - 1).toNat]?).getD [] else []

/-- The offset behind the first `n` newlines, or the length where there are fewer. -/
def afterNewlines : Nat → Text → Nat
  | 0, _ => 0
  | _ + 1, [] => 0
  | n + 1, c :: rest => 1 + afterNewlines (if c = '\n' then n else n + 1) rest

def positionOfLine (t : Text) (number : Int) : Nat := afterNewlines (number - 1).toNat t

def lineOfPosition (t : Text) (position : Int) : Nat := (t.take position.toNat).count '\n' + 1

def isLineBreak (c : Char) : Bool :=
  (0x0a ≤ c.toNat && c.toNat ≤ 0x0d) || (0x1c ≤ c.toNat && c.toNat ≤ 0x1e) ||
    c.toNat = 0x85 || c.toNat = 0x2028 || c.toNat = 0x2029

/-- The lines with their line breaks, where a carriage return and a newline are one break. The
text behind the last break is a line if it is not empty. -/
def splitLines : Text → List Text
  | [] => []
  | '\r' :: '\n' :: rest => ['\r', '\n'] :: splitLines rest
  | c :: rest =>
    if isLineBreak c then [c] :: splitLines rest
    else match splitLines rest with
      | [] => [[c]]
      | l :: ls => (c :: l) :: ls

end SourceEdit.Text

namespace SourceEdit

structure LineIndex where
  starts : List Nat

namespace LineIndex

def startsFrom (offset : Nat) : Text → List Nat
  | [] => []
  | c :: rest =>
    if c = '\n' then (offset + 1) :: startsFrom (offset + 1) rest else startsFrom (offset + 1) rest

def ofText (t : Text) : LineIndex := ⟨0 :: startsFrom 0 t⟩

def lineCount (index : LineIndex) : Nat := index.starts.length

/-- The start of a line; a negative number counts from the last line. -/
def start? (index : LineIndex) (line : Int) : Option Nat :=
  if 0 ≤ line then index.starts[line.toNat]?
  else if 0 ≤ index.starts.length + line then index.starts[(index.starts.length + line).toNat]?
  else none

/-- The line that holds an offset and the column in it. An offset before the text has line -1 and
is counted from the start of the last line. -/
def lineCol (index : LineIndex) (offset : Int) : Int × Int :=
  let line : Int := (index.starts.takeWhile fun (s : Nat) => (s : Int) ≤ offset).length - 1
  (line, offset - ((index.start? line).getD 0 : Nat))

def offset? (index : LineIndex) (line column : Int) : Option Int :=
  (index.start? line).map fun (s : Nat) => (s : Int) + column

end LineIndex

end SourceEdit
