import SourceEdit.Text.Basic

/-!
Two lists of lines as one list of segments, kept or replaced. The longest run of common lines is
kept, and what lies on either side of it is compared in the same way. In a long second list, lines
that occur very often do not begin such a run, they only make it longer.
-/

set_option autoImplicit false

namespace SourceEdit.Diff

inductive Segment where
  | kept (lines : List Text)
  | replaced (old new : List Text)
deriving DecidableEq, Repr

namespace Segment

def before : Segment → List Text
  | .kept lines => lines
  | .replaced old _ => old

def after : Segment → List Text
  | .kept lines => lines
  | .replaced _ new => new

def isChange : Segment → Bool
  | .kept _ => false
  | .replaced _ _ => true

end Segment

/-- A line with the mark of one that occurs too often. -/
structure Line where
  text : Text
  popular : Bool

structure Run where
  left : Nat
  right : Nat
  size : Nat
deriving DecidableEq, Repr

/-- For each line of the second list, how many lines up to it are those up to a line `x` of the
first list; `lengths` says so for the line in front of `x`. -/
def runLengths (x : Text) (lengths : List Nat) (b : List Line) : List Nat :=
  List.zipWith (fun y n => if y.text = x && !y.popular then n + 1 else 0) b (0 :: lengths)

/-- The first run that is longer than the best one so far, of those that end at line `i` of the
first list and at line `j` or behind of the second. -/
def longer (i j : Nat) (best : Run) : List Nat → Run
  | [] => best
  | n :: ns => longer i (j + 1) (if best.size < n then ⟨i + 1 - n, j + 1 - n, n⟩ else best) ns

def longestFrom (b : List Line) (i : Nat) (lengths : List Nat) (best : Run) : List Text → Run
  | [] => best
  | x :: rest =>
    let lengths := runLengths x lengths b
    longestFrom b (i + 1) lengths (longer i 0 best lengths) rest

def commonStart : List Text → List Line → Nat
  | x :: s, y :: t => if x = y.text then commonStart s t + 1 else 0
  | _, _ => 0

def longestRun (a : List Text) (b : List Line) : Run :=
  let r := longestFrom b 0 (b.map fun _ => 0) ⟨0, 0, 0⟩ a
  let up := commonStart (a.take r.left).reverse (b.take r.right).reverse
  let down := commonStart (a.drop (r.left + r.size)) (b.drop (r.right + r.size))
  ⟨r.left - up, r.right - up, up + r.size + down⟩

def push (s : Segment) (rest : List Segment) : List Segment :=
  match s, rest with
  | .kept l, .kept l' :: rest => .kept (l ++ l') :: rest
  | .replaced [] [], rest => rest
  | s, rest => s :: rest

def segmentsFrom (rest : List Segment) : (fuel : Nat) → List Text → List Line → List Segment
  | 0, a, b => push (.replaced a (b.map (·.text))) rest
  | fuel + 1, a, b =>
    let r := longestRun a b
    if r.size = 0 then push (.replaced a (b.map (·.text))) rest
    else
      let behind := segmentsFrom rest fuel (a.drop (r.left + r.size)) (b.drop (r.right + r.size))
      let kept := push (.kept ((a.drop r.left).take r.size)) behind
      segmentsFrom kept fuel (a.take r.left) (b.take r.right)

def longList : Nat := 200

def mark (b : List Text) : List Line :=
  let most := b.length / 100 + 1
  b.map fun t => ⟨t, decide (longList ≤ b.length) && decide (most < b.count t)⟩

/-- Each kept run is at least one line shorter than the first list, so its length bounds the depth.
-/
def segments (a b : List Text) : List Segment := segmentsFrom [] (a.length + 1) a (mark b)

end SourceEdit.Diff
