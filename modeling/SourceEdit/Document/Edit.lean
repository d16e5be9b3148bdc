import SourceEdit.Text.Basic

/-!
Edits: replacements of ranges, all of them in terms of one text. Applied together they must lie in
the text and not overlap; insertions at one offset keep the order in which they were made.
-/

set_option autoImplicit false

namespace SourceEdit

structure Edit where
  start : Int
  stop : Int
  text : Text
deriving DecidableEq, Repr

namespace Edit

def insertion (position : Int) (text : Text) : Edit := ⟨position, position, text⟩

def removal (start stop : Int) : Edit := ⟨start, stop, []⟩

def le (a b : Edit) : Bool := a.start < b.start || (a.start = b.start && a.stop ≤ b.stop)

def sort (edits : List Edit) : List Edit := edits.mergeSort le

def firstMisplaced? (length : Nat) (reached : Int) : List Edit → Option Edit
  | [] => none
  | e :: es =>
    if e.start < reached ∨ e.start < 0 ∨ e.stop < e.start ∨ (length : Int) < e.stop then some e
    else firstMisplaced? length e.stop es

def applyFrom (offset : Nat) (t : Text) : List Edit → Text
  | [] => t
  | e :: es =>
    t.take (e.start.toNat - offset) ++ e.text ++
      applyFrom e.stop.toNat (t.drop (e.stop.toNat - offset)) es

def applyAll (t : Text) (sorted : List Edit) : Text := applyFrom 0 t sorted

def growth (e : Edit) : Int := e.text.length - (e.stop - e.start)

/-- Where a position goes. Inside a replaced range it goes behind the replacement; an insertion at
the position itself moves it. `shift` is the growth of the edits before. -/
def mapPosition (position shift : Int) : List Edit → Int
  | [] => position + shift
  | e :: es =>
    if e.stop ≤ position then mapPosition position (shift + e.growth) es
    else if e.start < position then e.start + shift + e.text.length
    else position + shift

end Edit

end SourceEdit
