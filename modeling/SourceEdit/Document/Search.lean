import SourceEdit.Block
import SourceEdit.Document.Basic
import SourceEdit.Pattern.Parser
import SourceEdit.Pattern.Search

set_option autoImplicit false

namespace SourceEdit

structure Needle where
  text : Text
  isPattern : Bool
  wholeWord : Bool

namespace Needle

def wordPattern (t : Text) : Text := "(?<!\\w)(?:".toList ++ t ++ ")(?!\\w)".toList

def written (n : Needle) : Text :=
  let t := if n.isPattern then n.text else Expression.escape n.text
  if n.wholeWord then wordPattern t else t

def pattern (n : Needle) : Except PatternError Pattern :=
  (Expression.parse n.written).map (·.pattern)

end Needle

namespace Text

def findForward? (t : Text) (p : Pattern) (start : Nat) : Option Span :=
  (p.first? t start).map (·.span)

def findBackward? (t : Text) (p : Pattern) (start : Nat) : Option Span :=
  ((p.allMatches (t.take start)).getLast?).map (·.span)

end Text

namespace Document

def find? (d : Document) (n : Needle) (start : Option Int) (backward : Bool) :
    Except PatternError (Option Span) := do
  let p ← n.pattern
  let start := match start with
    | none => d.position
    | some s => d.text.clamp s
  .ok (if backward then d.text.findBackward? p start else d.text.findForward? p start)

/-- Moves the cursor out of as many blocks as there are, `count` at most. -/
def gotoBlock (direction : Direction) : (count : Nat) → Document → Document
  | 0, d => d
  | count + 1, d =>
    let moved := d.setPosition (Block.move d.text d.position direction) false
    if moved.position = d.position then moved else gotoBlock direction count moved

end Document

end SourceEdit
