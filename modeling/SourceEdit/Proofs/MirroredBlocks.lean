import SourceEdit.Block

set_option autoImplicit false

namespace SourceEdit

namespace Direction

def opposite : Direction → Direction
  | .forward => .backward
  | .backward => .forward

end Direction

namespace Block

/-- The other delimiter of the same kind. -/
def counterpart : Char → Char
  | '(' => ')'
  | ')' => '('
  | '{' => '}'
  | '}' => '{'
  | '[' => ']'
  | ']' => '['
  | c => c

def mirror (t : Text) : Text := t.reverse.map counterpart

theorem counterpart_cases (c : Char) :
    (isOpening c = true ∨ isClosing c = true) ∨ counterpart c = c := by
  unfold counterpart
  split
  case h_7 => exact .inr rfl
  all_goals exact .inl (by decide)

theorem counterpart_opening {c : Char} (h : isOpening c = true) :
    isClosing (counterpart c) = true ∧ counterpart (counterpart c) = c := by
  simp only [isOpening, Bool.or_eq_true, decide_eq_true_eq] at h
  rcases h with (rfl | rfl) | rfl <;> decide

theorem counterpart_closing {c : Char} (h : isClosing c = true) :
    isOpening (counterpart c) = true ∧ counterpart (counterpart c) = c := by
  simp only [isClosing, Bool.or_eq_true, decide_eq_true_eq] at h
  rcases h with (rfl | rfl) | rfl <;> decide

@[simp] theorem counterpart_counterpart (c : Char) : counterpart (counterpart c) = c := by
  rcases counterpart_cases c with (h | h) | h
  · exact (counterpart_opening h).2
  · exact (counterpart_closing h).2
  · rw [h, h]

@[simp] theorem isClosing_counterpart (c : Char) : isClosing (counterpart c) = isOpening c := by
  cases hopening : isOpening c with
  | true => exact (counterpart_opening hopening).1
  | false =>
    rw [← Bool.not_eq_true] at hopening ⊢
    intro hclosing
    have := (counterpart_closing hclosing).1
    rw [counterpart_counterpart] at this
    exact hopening this

@[simp] theorem isOpening_counterpart (c : Char) : isOpening (counterpart c) = isClosing c := by
  rw [← isClosing_counterpart, counterpart_counterpart]

theorem enters_counterpart (d : Direction) (c : Char) :
    d.opposite.enters (counterpart c) = d.enters c := by
  cases d with
  | forward => exact isClosing_counterpart c
  | backward => exact isOpening_counterpart c

theorem leaves_counterpart (d : Direction) (c : Char) :
    d.opposite.leaves (counterpart c) = d.leaves c := by
  cases d with
  | forward => exact isOpening_counterpart c
  | backward => exact isClosing_counterpart c

theorem length_mirror (t : Text) : (mirror t).length = t.length := by
  rw [mirror, List.length_map, List.length_reverse]

theorem exit?_counterpart (d : Direction) (depth : Nat) (t : Text) :
    exit? d.opposite depth (t.map counterpart) = exit? d depth t := by
  induction t generalizing depth with
  | nil => rfl
  | cons c rest ih =>
    cases depth <;>
      simp only [List.map_cons, exit?, enters_counterpart, leaves_counterpart, ih]

theorem distance?_counterpart (d : Direction) (t : Text) :
    distance? d.opposite (t.map counterpart) = distance? d t := by
  cases t with
  | nil => rfl
  | cons c rest =>
    rw [List.map_cons, distance?, distance?, enters_counterpart, exit?_counterpart,
      ← List.map_cons, exit?_counterpart]

theorem ahead_mirror {t : Text} {p : Nat} (hp : p ≤ t.length) (d : Direction) :
    d.opposite.ahead (mirror t) (t.length - p) = (d.ahead t p).map counterpart := by
  cases d with
  | forward =>
    have htake : (mirror t).take (t.length - p) = mirror (t.drop p) := by
      rw [mirror, mirror, ← List.map_take, List.take_reverse, Nat.sub_sub_self hp]
    rw [Direction.opposite, Direction.ahead, Direction.ahead, htake, mirror, ← List.map_reverse,
      List.reverse_reverse]
  | backward =>
    rw [Direction.opposite, Direction.ahead, Direction.ahead, mirror, ← List.map_drop,
      List.drop_reverse, Nat.sub_sub_self hp]

theorem advance_opposite (d : Direction) (length p : Int) (n : Nat) :
    d.advance p n = length - d.opposite.advance (length - p) n := by
  cases d <;> simp only [Direction.advance, Direction.opposite] <;> omega

/-- A scan goes to the same place as the scan of the mirrored text in the other direction. -/
theorem move_eq_sub_move_mirror (t : Text) (p : Int) (d : Direction) :
    move t p d = t.length - move (mirror t) (t.length - p) d.opposite := by
  by_cases hp : 0 ≤ p ∧ p ≤ t.length
  · have hp' : (0 : Int) ≤ t.length - p ∧ t.length - p ≤ (t.length : Int) := by omega
    have hoffset : ((t.length : Int) - p).toNat = t.length - p.toNat := by omega
    rw [move, move, length_mirror, if_pos hp, if_pos hp', hoffset, ahead_mirror (by omega),
      distance?_counterpart]
    cases distance? d (d.ahead t p.toNat) with
    | none => dsimp only; omega
    | some n => exact advance_opposite d t.length p n
  · have hp' : ¬((0 : Int) ≤ t.length - p ∧ t.length - p ≤ (t.length : Int)) := by omega
    rw [move, move, length_mirror, if_neg hp, if_neg hp']
    omega

example :
    let t := ['{', '(', 'a', ')', ' ', 'b']
    mirror t = ['b', ' ', '(', 'a', ')', '}'] ∧ move t 5 .backward = 0 ∧
      move (mirror t) 1 .forward = 6 := by
  decide

end Block

end SourceEdit
