import Mathlib.Data.Set.Basic
import Mathlib.Order.Nat
import SourceEdit.Proofs.BlockEnds

set_option autoImplicit false

namespace SourceEdit

namespace Block

def ClosesOneMore (t : Text) : Prop := t.countP isClosing = t.countP isOpening + 1

/-- As many blocks are closed as opened, and none is closed before it is opened. -/
structure Balanced (t : Text) : Prop where
  level : t.countP isOpening = t.countP isClosing
  nested : ∀ n, (t.take n).countP isClosing ≤ (t.take n).countP isOpening

/-- The characters up to which, from an offset on, one more block is closed than opened. -/
def overclosed (t : Text) (start : Nat) : Set Nat :=
  {k | start ≤ k ∧ k < t.length ∧ ClosesOneMore (t.slice start (k + 1))}

theorem closesOneMore_iff {t : Text} : ClosesOneMore t ↔ Direction.forward.gain t = -1 := by
  simp only [ClosesOneMore, Direction.gain, Direction.enters, Direction.leaves]
  omega

theorem gain_slice (t : Text) {start stop : Nat} (h : start ≤ stop) :
    Direction.forward.gain (t.slice start stop) = height t stop - height t start := by
  have hadd := height_add t start (stop - start)
  rw [Nat.add_sub_cancel' h] at hadd
  rw [Text.slice, List.drop_take]
  omega

theorem mem_overclosed_iff {t : Text} {start k : Nat} : k ∈ overclosed t start ↔
    start ≤ k ∧ k < t.length ∧ height t (k + 1) = height t start - 1 := by
  refine and_congr_right fun hstart => and_congr_right fun _ => ?_
  rw [closesOneMore_iff, gain_slice t (show start ≤ k + 1 by omega)]
  omega

/-- A part of a text is balanced if the height falls nowhere in it below the one at its two ends. -/
theorem balanced_slice {t : Text} {start stop : Nat} (hle : start ≤ stop)
    (hlevel : height t stop = height t start)
    (habove : ∀ k, start ≤ k → k < stop → height t start ≤ height t k) :
    Balanced (t.slice start stop) where
  level := by
    have hgain := gain_slice t hle
    simp only [Direction.gain, Direction.enters, Direction.leaves] at hgain
    omega
  nested n := by
    have htake : (t.slice start stop).take n = t.slice start (min (start + n) stop) := by
      rw [Text.slice, Text.slice, List.take_drop, List.take_take]
    have hgain := gain_slice t (show start ≤ min (start + n) stop by omega)
    have hend : height t start ≤ height t (min (start + n) stop) := by
      rcases Nat.lt_or_ge (min (start + n) stop) stop with hlt | hge
      · exact habove _ (by omega) hlt
      · rw [Nat.le_antisymm (Nat.min_le_right _ _) hge]
        exact Int.le_of_eq hlevel.symm
    rw [htake]
    simp only [Direction.gain, Direction.enters, Direction.leaves] at hgain
    omega

theorem height_le_of_isLeast {t : Text} {start k : Nat} (h : IsLeast (overclosed t start) k)
    {n : Nat} (hstart : start ≤ n) (hn : n ≤ k) : height t start ≤ height t n := by
  obtain ⟨-, hk, -⟩ := mem_overclosed_iff.mp h.1
  induction n, hstart using Nat.le_induction with
  | base => exact Int.le_refl _
  | succ n hstart ih =>
    have hlast := ih (by omega)
    by_contra hlow
    have hstep : height t n - 1 ≤ height t (n + 1) := by
      rcases height_succ t n with ⟨_, _, _, h⟩ | ⟨_, _, _, h⟩ | ⟨_, h⟩ <;> omega
    have hmem : n ∈ overclosed t start := mem_overclosed_iff.mpr ⟨hstart, by omega, by omega⟩
    have := h.2 hmem
    omega

theorem isLeast_overclosed_iff {t : Text} {p k : Nat} (hp : p ≤ t.length) :
    IsLeast (overclosed t (entry .forward t p)) k ↔ move t p .forward = k + 1 ∧ p ≤ k := by
  have hentry := entry_forward t p
  constructor
  · intro h
    obtain ⟨hstart, -, hheight⟩ := mem_overclosed_iff.mp h.1
    refine ⟨?_, by omega⟩
    have hgoal := (move_forward_eq_iff (e := k + 1) hp (by omega)).mpr
      ⟨by omega, hheight, fun n hn hnk => height_le_of_isLeast h hn (by omega)⟩
    rw [hgoal]
    rfl
  · rintro ⟨hmove, hpk⟩
    obtain ⟨hlt, hheight, hinside⟩ := (move_forward_eq_iff (e := k + 1) hp (by omega)).mp hmove
    have hdown : height t (k + 1) < height t k := by
      have := hinside k (by omega) (by omega)
      omega
    obtain ⟨⟨c, hc, -⟩, -⟩ := closing_of_lt hdown
    have hk := (List.getElem?_eq_some_iff.mp hc).1
    refine ⟨mem_overclosed_iff.mpr ⟨by omega, hk, hheight⟩, fun n hn => ?_⟩
    obtain ⟨hstart, -, hlow⟩ := mem_overclosed_iff.mp hn
    refine Nat.le_of_not_lt fun hnk => ?_
    have := hinside (n + 1) (by omega) (by omega)
    omega

/-- A scan forward goes behind the least character up to which one more block is closed than opened,
counted from behind an opening delimiter right at the position. It is a closing delimiter, and the
text in front of it is balanced. If there is none, the position stays. -/
theorem move_forward_least (t : Text) (p : Nat) :
    let start := entry .forward t p
    (∃ k, IsLeast (overclosed t start) k ∧ move t p .forward = k + 1 ∧
        (∃ c ∈ t[k]?, isClosing c = true) ∧ Balanced (t.slice start k)) ∨
      overclosed t start = ∅ ∧ move t p .forward = p := by
  dsimp only
  have hentry := entry_forward t p
  rcases Set.eq_empty_or_nonempty (overclosed t (entry .forward t p)) with hnone | hsome
  · refine .inr ⟨hnone, Decidable.byContradiction fun hmoved => ?_⟩
    obtain ⟨a, e, hpa, ha, hmove, -, hea⟩ := exists_of_move_ne hmoved
    obtain rfl : p = a := by omega
    obtain ⟨hlt, -⟩ := (move_forward_eq_iff ha hea).mp hmove
    obtain ⟨k, rfl⟩ : ∃ k, e = k + 1 := ⟨e - 1, by omega⟩
    have hleast := (isLeast_overclosed_iff ha).mpr ⟨hmove, by omega⟩
    rw [hnone] at hleast
    exact hleast.1
  · classical
    obtain ⟨k, hleast⟩ : ∃ k, IsLeast (overclosed t (entry .forward t p)) k :=
      ⟨_, hsome.isLeast_natFind⟩
    obtain ⟨hstart, hlt, hheight⟩ := mem_overclosed_iff.mp hleast.1
    have hmove := ((isLeast_overclosed_iff (by omega)).mp hleast).1
    have hlast := height_le_of_isLeast hleast hstart (Nat.le_refl k)
    obtain ⟨hclosing, hdown, -⟩ := closing_of_lt (show height t (k + 1) < height t k by omega)
    exact .inl ⟨k, hleast, hmove, hclosing, balanced_slice hstart (by omega) fun n hn hnk =>
      height_le_of_isLeast hleast hn (Nat.le_of_lt hnk)⟩

end Block

end SourceEdit
