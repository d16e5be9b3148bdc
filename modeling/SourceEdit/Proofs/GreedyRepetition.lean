import Mathlib.Data.List.TakeWhile
import SourceEdit.Proofs.PatternSteps

/-!
Greedy repetitions of a kind of character, whatever follows them. The longest run is tried first and
then one character less at a time, so what comes out is what is accepted behind the longest run
behind which anything is accepted at all.
-/

set_option autoImplicit false

namespace SourceEdit

namespace Point

/-- The number of characters of a kind that are next. -/
def runLength (p : Point) (kind : Char → Bool) : Nat := (p.ahead.takeWhile kind).length

theorem runLength_of_not_any {p : Point} {kind : Char → Bool}
    (h : p.ahead.head?.any kind = false) : p.runLength kind = 0 := by
  cases hahead : p.ahead with
  | nil => simp [runLength, hahead]
  | cons c rest =>
    rw [hahead] at h
    have hc : kind c = false := h
    simp [runLength, hahead, hc]

theorem runLength_of_any {p : Point} {kind : Char → Bool} (h : p.ahead.head?.any kind = true) :
    p.runLength kind = (p.advance 1).runLength kind + 1 := by
  cases hahead : p.ahead with
  | nil => simp [hahead] at h
  | cons c rest =>
    rw [hahead] at h
    have hc : kind c = true := h
    simp [runLength, hahead, advance, hc]

theorem take_of_le_runLength {p : Point} {kind : Char → Bool} {n : Nat} (h : n ≤ p.runLength kind) :
    (p.ahead.take n).length = n ∧ ∀ c ∈ p.ahead.take n, kind c = true := by
  have htake : p.ahead.take n = (p.ahead.takeWhile kind).take n := by
    have hsplit : p.ahead.takeWhile kind ++ p.ahead.dropWhile kind = p.ahead :=
      List.takeWhile_append_dropWhile
    have hshort : (p.ahead.takeWhile kind ++ p.ahead.dropWhile kind).take n =
        (p.ahead.takeWhile kind).take n := List.take_append_of_le_length h
    rwa [hsplit] at hshort
  rw [htake]
  exact ⟨List.length_take_of_le h, fun c hc => List.mem_takeWhile_imp (List.mem_of_mem_take hc)⟩

theorem le_runLength {p : Point} {kind : Char → Bool} {t : Text} (h : t <+: p.ahead)
    (hkind : ∀ c ∈ t, kind c = true) : t.length ≤ p.runLength kind := by
  obtain ⟨rest, hrest⟩ := h
  rw [runLength, ← hrest, List.takeWhile_append_of_pos hkind, List.length_append]
  exact Nat.le_add_right _ _

end Point

namespace Pattern

variable {α : Type} {f : Nat → Option α} {x : α} {n : Nat}

/-- What the greatest of the numbers up to `n` gives that gives anything. -/
def longest (f : Nat → Option α) : Nat → Option α
  | 0 => f 0
  | n + 1 => f (n + 1) <|> longest f n

theorem longest_succ (f : Nat → Option α) (n : Nat) :
    longest f (n + 1) = (longest (f ∘ Nat.succ) n <|> f 0) := by
  induction n with
  | zero => rfl
  | succ n ih =>
    rw [longest, ih, longest]
    cases hnext : f (n + 1 + 1) <;> simp [hnext]

theorem longest_eq_none_iff : longest f n = none ↔ ∀ i ≤ n, f i = none := by
  induction n with
  | zero => simp [longest]
  | succ n ih =>
    simp only [longest, Option.orElse_eq_orElse, Option.orElse_eq_or, Option.or_eq_none_iff, ih]
    constructor
    · rintro ⟨hlast, hrest⟩ i hi
      rcases Nat.le_or_eq_of_le_succ hi with hle | rfl
      · exact hrest i hle
      · exact hlast
    · exact fun h => ⟨h _ (Nat.le_refl _), fun i hi => h i (Nat.le_succ_of_le hi)⟩

theorem longest_eq_some_iff : longest f n = some x ↔
    ∃ i ≤ n, f i = some x ∧ ∀ j, i < j → j ≤ n → f j = none := by
  induction n with
  | zero =>
    constructor
    · exact fun h => ⟨0, Nat.le_refl 0, h, fun j hj hle => by omega⟩
    · rintro ⟨i, hi, h, -⟩
      obtain rfl := Nat.le_zero.mp hi
      exact h
  | succ n ih =>
    cases hnext : f (n + 1) with
    | some y =>
      have hlast : longest f (n + 1) = some y := by simp [longest, hnext]
      rw [hlast, ← hnext]
      constructor
      · exact fun h => ⟨n + 1, Nat.le_refl _, h, fun j hj hle => by omega⟩
      · rintro ⟨i, hi, h, hnone⟩
        rcases Nat.eq_or_lt_of_le hi with rfl | hlt
        · exact h
        · simp [hnone _ hlt (Nat.le_refl _)] at hnext
    | none =>
      have hrest : longest f (n + 1) = longest f n := by simp [longest, hnext]
      rw [hrest, ih]
      constructor
      · rintro ⟨i, hi, h, hnone⟩
        refine ⟨i, Nat.le_succ_of_le hi, h, fun j hj hle => ?_⟩
        rcases Nat.le_or_eq_of_le_succ hle with hle | rfl
        · exact hnone j hj hle
        · exact hnext
      · rintro ⟨i, hi, h, hnone⟩
        rcases Nat.le_or_eq_of_le_succ hi with hle | rfl
        · exact ⟨i, hle, h, fun j hj hle => hnone j hj (Nat.le_succ_of_le hle)⟩
        · simp [hnext] at h

variable {item : Pattern} {kind : Char → Bool} (hitem : Steps item (·.pastChar? kind))
include hitem

theorem rounds_eq_longest (k : Point → Option α) (fuel count : Nat) (last : Option Nat) (p : Point)
    (hfuel : p.ahead.length < fuel) (hlast : last ≠ some p.offset) :
    rounds true 0 none item.run k fuel count last p =
      longest (fun n => k (p.advance n)) (p.runLength kind) := by
  induction fuel generalizing count last p with
  | zero => contradiction
  | succ fuel ih =>
    have hmore : (none.all (count < ·) && last != some p.offset) = true := by simp [hlast]
    rw [rounds, if_neg (Nat.not_lt_zero count)]
    simp only [if_true, if_pos hmore]
    rw [hitem.run, Point.pastChar?_eq]
    cases hnext : p.ahead.head?.any kind with
    | false => simp [Point.runLength_of_not_any hnext, longest, Point.advance_zero]
    | true =>
      have hshorter : (p.advance 1).ahead.length < fuel := by
        have := Point.length_advance_lt hnext
        omega
      have hahead : some p.offset ≠ some (p.advance 1).offset := by simp [Point.advance]
      have hbehind : ((fun n => k (p.advance n)) ∘ Nat.succ) =
          fun n => k ((p.advance 1).advance n) := by
        funext n
        rw [Function.comp_apply, ← Point.advance_add, Nat.succ_eq_one_add]
      rw [if_pos rfl, Option.bind_some, ih _ _ _ hshorter hahead, Point.runLength_of_any hnext,
        longest_succ, hbehind, Point.advance_zero]

theorem run_many (k : Point → Option α) (p : Point) :
    (many item).run k p = longest (fun n => k (p.advance n)) (p.runLength kind) :=
  rounds_eq_longest hitem k _ _ _ p (by omega) (by simp)

variable {k : Point → Option α} {p : Point}

/-- All of the run is taken where something is accepted behind it. -/
theorem run_many_of_skip (hk : k (p.skip kind) = some x) : (many item).run k p = some x := by
  rw [run_many hitem, longest_eq_some_iff]
  exact ⟨_, Nat.le_refl _, hk, fun j hj hle => absurd hle (Nat.not_le_of_lt hj)⟩

theorem run_many_eq_skip (hstop : ∀ q : Point, q.ahead.head?.any kind = true → k q = none) :
    (many item).run k p = k (p.skip kind) :=
  rounds_eq hitem hstop _ _ _ p (Nat.zero_le _) (by omega) (by simp)

end Pattern

end SourceEdit
