import SourceEdit.Text.Basic
import SourceEdit.Text.ClassTable

set_option autoImplicit false

namespace SourceEdit.Text

def inRanges (ranges : List (Nat × Nat)) (c : Char) : Bool :=
  ranges.any fun r => r.1 ≤ c.toNat && c.toNat ≤ r.2

def blankRanges : List (Nat × Nat) := [
  (0x09, 0x0d), (0x1c, 0x20), (0x85, 0x85), (0xa0, 0xa0), (0x1680, 0x1680), (0x2000, 0x200a),
  (0x2028, 0x2029), (0x202f, 0x202f), (0x205f, 0x205f), (0x3000, 0x3000)]

def isBlank (c : Char) : Bool := inRanges blankRanges c

def isSpaceOrTab (c : Char) : Bool := c = ' ' || c = '\t'

def isWord (c : Char) : Bool :=
  if c.toNat < 128 then c.isAlphanum || c = '_' else inRanges alphanumericRanges c

def isDecimal (c : Char) : Bool :=
  if c.toNat < 128 then c.isDigit else inRanges decimalRanges c

def isPrintable (c : Char) : Bool :=
  if c.toNat < 128 then 32 ≤ c.toNat && c.toNat < 127 else !inRanges unprintableRanges c

theorem isBlank_newline : isBlank '\n' = true := by decide

theorem not_isWord_newline : isWord '\n' = false := by decide

theorem isBlank_of_isSpaceOrTab {c : Char} (h : isSpaceOrTab c = true) : isBlank c = true := by
  simp only [isSpaceOrTab, Bool.or_eq_true, decide_eq_true_eq] at h
  rcases h with rfl | rfl <;> decide

def dropBlank (t : Text) : Text := t.dropWhile isBlank

def strip (t : Text) : Text := (dropBlank t).dropEndWhile isBlank

def allBlank (t : Text) : Bool := t.all isBlank

end SourceEdit.Text
