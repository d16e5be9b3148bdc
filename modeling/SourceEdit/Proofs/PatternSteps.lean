import SourceEdit.Pattern.Search

/-!
Patterns with one way through them at most. Such a pattern is a partial step from point to point, and
what is tried behind it is tried at one point. A repetition is such a step where what follows it stands
at none of the characters that are repeated.
-/

set_option autoImplicit false

namespace SourceEdit

namespace Point

def advance (p : Point) (n : Nat) : Point :=
  ⟨(p.ahead.take n).reverse ++ p.before, p.ahead.drop n, p.offset + n, p.groups⟩

theorem advance_zero (p : Point) : p.advance 0 = p := by simp [advance]

theorem advance_add (p : Point) (m n : Nat) : p.advance (m + n) = (p.advance m).advance n := by
  simp [advance, List.take_add, Nat.add_assoc]

theorem past?_eq (p : Point) (t : Text) :
    p.past? t = if t <+: p.ahead then some (p.advance t.length) else none := by
  unfold past?
  by_cases h : t <+: p.ahead
  · obtain ⟨rest, hrest⟩ := h
    simp [advance, ← hrest]
  · simp [h]

theorem past?_nil (p : Point) : p.past? [] = some p := by
  rw [past?_eq, if_pos List.nil_prefix]
  exact congrArg some p.advance_zero

theorem past?_cons (p : Point) (c : Char) (t : Text) :
    p.past? (c :: t) = (p.pastChar? (· = c)).bind (·.past? t) := by
  obtain ⟨before, ahead, offset, groups⟩ := p
  cases ahead with
  | nil => rfl
  | cons d rest =>
    by_cases hd : d = c
    · by_cases ht : t <+: rest
      · simp [past?, pastChar?, hd, ht, Nat.add_assoc, Nat.add_comm 1]
      · simp [past?, pastChar?, hd, ht]
    · simp [past?, pastChar?, hd, Ne.symm hd]

theorem pastChar?_eq (p : Point) (kind : Char → Bool) :
    p.pastChar? kind = if p.ahead.head?.any kind then some (p.advance 1) else none := by
  obtain ⟨before, ahead, offset, groups⟩ := p
  cases ahead with
  | nil => rfl
  | cons c rest => rfl

def skip (p : Point) (kind : Char → Bool) : Point := p.advance (p.ahead.takeWhile kind).length

theorem skip_of_not_any {p : Point} {kind : Char → Bool} (h : p.ahead.head?.any kind = false) :
    p.skip kind = p := by
  cases hahead : p.ahead with
  | nil => simp [skip, hahead, advance_zero]
  | cons c rest =>
    rw [hahead] at h
    have hc : kind c = false := h
    simp [skip, hahead, hc, advance_zero]

theorem skip_of_any {p : Point} {kind : Char → Bool} (h : p.ahead.head?.any kind = true) :
    p.skip kind = (p.advance 1).skip kind := by
  cases hahead : p.ahead with
  | nil => simp [hahead] at h
  | cons c rest =>
    rw [hahead] at h
    have hc : kind c = true := h
    rw [skip, skip, ← advance_add, hahead]
    simp [hc, advance, hahead, Nat.add_comm]

theorem length_advance_lt {p : Point} {kind : Char → Bool} (h : p.ahead.head?.any kind = true) :
    (p.advance 1).ahead.length < p.ahead.length := by
  cases hahead : p.ahead with
  | nil => simp [hahead] at h
  | cons c rest => simp [advance, hahead]

end Point

namespace Pattern

structure Steps (pattern : Pattern) (step : Point → Option Point) : Prop where
  run : ∀ {α : Type} (k : Point → Option α) (p : Point), pattern.run k p = (step p).bind k

variable {a b : Pattern} {f g : Point → Option Point}

theorem Steps.congr (ha : Steps a f) (h : ∀ p, f p = g p) : Steps a g :=
  ⟨fun k p => h p ▸ ha.run k p⟩

theorem Steps.run_eq_none (ha : Steps a f) {p : Point} (h : f p = none) {α : Type}
    (k : Point → Option α) : a.run k p = none := by
  rw [ha.run, h]
  rfl

theorem steps_char (c : Char) : Steps (.char c) (·.pastChar? (· = c)) := ⟨fun _ _ => rfl⟩

theorem steps_oneOf (negated : Bool) (items : List ClassItem) :
    Steps (.oneOf negated items) (·.pastChar? fun c => items.any (·.holds c) != negated) :=
  ⟨fun _ _ => rfl⟩

theorem steps_assert (a : Assertion) :
    Steps (.assert a) (fun p => if p.holds a then some p else none) where
  run k p := by
    rw [Pattern.run]
    split <;> rfl

theorem Steps.seq (ha : Steps a f) (hb : Steps b g) :
    Steps (.seq a b) (fun p => (f p).bind g) where
  run k p := by
    rw [Pattern.run, ha.run, Option.bind_assoc]
    exact Option.bind_congr fun q _ => hb.run k q

theorem Steps.group (ha : Steps a f) (index : Nat) :
    Steps (.group index a) (fun p => (f p).map (·.close index p.offset)) where
  run k p := by
    rw [Pattern.run, ha.run, Option.bind_map]
    rfl

theorem Steps.alt (ha : Steps a f) (hb : Steps b g) (hone : ∀ p, f p = none ∨ g p = none) :
    Steps (.alt a b) (fun p => f p <|> g p) where
  run k p := by
    rw [Pattern.run, ha.run, hb.run]
    rcases hone p with h | h <;> simp [h]

def literal (t : Text) (p : Pattern) : Pattern := t.foldr (fun c p => .seq (.char c) p) p

theorem Steps.literal (hb : Steps b g) (t : Text) :
    Steps (literal t b) (fun p => (p.past? t).bind g) := by
  induction t with
  | nil => exact hb.congr fun p => by rw [Point.past?_nil]; rfl
  | cons c rest ih =>
    exact ((steps_char c).seq ih).congr fun p => by rw [Point.past?_cons, Option.bind_assoc]

theorem rounds_eq {α : Type} {item : Pattern} {kind : Char → Bool}
    (hitem : Steps item (·.pastChar? kind)) {k : Point → Option α}
    (hstop : ∀ p : Point, p.ahead.head?.any kind = true → k p = none) {least : Nat}
    (fuel count : Nat) (last : Option Nat) (p : Point) (hcount : least ≤ count)
    (hfuel : p.ahead.length < fuel) (hlast : last ≠ some p.offset) :
    rounds true least none item.run k fuel count last p = k (p.skip kind) := by
  induction fuel generalizing count last p with
  | zero => contradiction
  | succ fuel ih =>
    have hmore : (none.all (count < ·) && last != some p.offset) = true := by simp [hlast]
    rw [rounds, if_neg (Nat.not_lt.mpr hcount)]
    simp only [if_true, if_pos hmore]
    rw [hitem.run, Point.pastChar?_eq]
    cases hnext : p.ahead.head?.any kind with
    | false => simp [Point.skip_of_not_any hnext]
    | true =>
      have hshorter : (p.advance 1).ahead.length < fuel := by
        have := Point.length_advance_lt hnext
        omega
      have hahead : some p.offset ≠ some (p.advance 1).offset := by simp [Point.advance]
      rw [if_pos rfl, Option.bind_some, ih _ _ _ (Nat.le_succ_of_le hcount) hshorter hahead,
        hstop p hnext, Point.skip_of_any hnext]
      simp

theorem Steps.many {item : Pattern} {kind : Char → Bool} (hitem : Steps item (·.pastChar? kind))
    (hb : Steps b g) (hstop : ∀ p : Point, p.ahead.head?.any kind = true → g p = none) :
    Steps (.seq (.many item) b) (fun p => g (p.skip kind)) where
  run k p := by
    have hnot := fun p hp => hb.run_eq_none (hstop p hp) k
    rw [Pattern.run, Pattern.many, Pattern.run,
      rounds_eq hitem hnot _ _ _ _ (Nat.zero_le _) (by omega) (by simp), hb.run]

theorem Steps.atLeastOne {item : Pattern} {kind : Char → Bool}
    (hitem : Steps item (·.pastChar? kind)) (hb : Steps b g)
    (hstop : ∀ p : Point, p.ahead.head?.any kind = true → g p = none) :
    Steps (.seq (.times true 1 none item) b)
      (fun p => (p.pastChar? kind).bind fun q => g (q.skip kind)) where
  run k p := by
    have hnot := fun p hp => hb.run_eq_none (hstop p hp) k
    rw [Pattern.run, Pattern.run, Nat.add_comm 1, Nat.add_right_comm, rounds,
      if_pos Nat.zero_lt_one, hitem.run, Point.pastChar?_eq]
    split
    · next hnext =>
      have hshorter := Point.length_advance_lt hnext
      rw [Option.bind_some, Option.bind_some,
        rounds_eq hitem hnot _ _ _ _ (Nat.le_refl 1) (by omega) (by simp), hb.run]
    · rfl

end Pattern

end SourceEdit
