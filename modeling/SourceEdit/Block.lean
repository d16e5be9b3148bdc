import SourceEdit.Text.Basic

/-!
Blocks are bounded by parentheses, braces and brackets. One depth counter serves all three kinds and
knows nothing of comments and literals. A scan runs over the characters ahead of a position, the
nearest first, so both directions share it.
-/

set_option autoImplicit false

namespace SourceEdit

inductive Direction where
  | forward
  | backward
deriving DecidableEq, Repr

namespace Block

def isOpening (c : Char) : Bool := c = '(' || c = '{' || c = '['

def isClosing (c : Char) : Bool := c = ')' || c = '}' || c = ']'

end Block

namespace Direction

def enters : Direction → Char → Bool
  | .forward => Block.isOpening
  | .backward => Block.isClosing

def leaves : Direction → Char → Bool
  | .forward => Block.isClosing
  | .backward => Block.isOpening

def ahead : Direction → Text → Nat → Text
  | .forward, t, p => t.drop p
  | .backward, t, p => (t.take p).reverse

def advance : Direction → Int → Nat → Int
  | .forward, p, n => p + n
  | .backward, p, n => p - n

end Direction

namespace Block

theorem not_isClosing_of_isOpening {c : Char} (h : isOpening c = true) : isClosing c = false := by
  simp only [isOpening, Bool.or_eq_true, decide_eq_true_eq] at h
  rcases h with (rfl | rfl) | rfl <;> rfl

/-- How many characters there are up to and with the one that leaves `depth + 1` blocks. -/
def exit? (d : Direction) : Nat → Text → Option Nat
  | _, [] => none
  | depth, c :: rest =>
    if d.enters c then (exit? d (depth + 1) rest).map (· + 1)
    else if d.leaves c then
      match depth with
      | 0 => some 1
      | depth + 1 => (exit? d depth rest).map (· + 1)
    else (exit? d depth rest).map (· + 1)

/-- The distance to the far side of the enclosing block. A block that starts right here is the
enclosing one. -/
def distance? (d : Direction) : Text → Option Nat
  | [] => none
  | c :: rest => if d.enters c then (exit? d 0 rest).map (· + 1) else exit? d 0 (c :: rest)

/-- Forward to just behind the closing delimiter, backward to the opening one. The position stays
where there is no such delimiter or where it is no position of the text. -/
def move (t : Text) (position : Int) (d : Direction) : Int :=
  if 0 ≤ position ∧ position ≤ t.length then
    match distance? d (d.ahead t position.toNat) with
    | some n => d.advance position n
    | none => position
  else position

theorem exit?_le_length (d : Direction) (depth : Nat) (t : Text) :
    ∀ n ∈ exit? d depth t, n ≤ t.length := by
  fun_induction exit? d depth t <;> simp_all

end Block

end SourceEdit
