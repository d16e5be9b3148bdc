import SourceEdit.Block

/-!
The two ends of a block. The height at an offset says how many more blocks are opened than closed in
front of it; inside a block it is greater than at the two ends. A scan goes to the nearest offset
that lies one below the height where it starts, so the scans of both directions agree on the ends.
-/

set_option autoImplicit false

namespace SourceEdit

namespace Direction

theorem leaves_of_enters {d : Direction} {c : Char} (h : d.enters c = true) :
    d.leaves c = false := by
  cases d with
  | forward => exact Block.not_isClosing_of_isOpening h
  | backward =>
    cases hc : Block.isOpening c with
    | false => exact hc
    | true =>
      have := Block.not_isClosing_of_isOpening hc
      simp_all [enters]

/-- How many more blocks a text enters than it leaves. -/
def gain (d : Direction) (t : Text) : Int := t.countP d.enters - t.countP d.leaves

@[simp] theorem gain_nil (d : Direction) : d.gain [] = 0 := rfl

theorem gain_cons (d : Direction) (c : Char) (t : Text) :
    d.gain (c :: t) = (if d.enters c then 1 else if d.leaves c then -1 else 0) + d.gain t := by
  cases henters : d.enters c with
  | true =>
    simp [gain, henters, leaves_of_enters henters]
    omega
  | false =>
    cases hleaves : d.leaves c <;> simp [gain, henters, hleaves]
    omega

theorem gain_append (d : Direction) (a b : Text) : d.gain (a ++ b) = d.gain a + d.gain b := by
  simp only [gain, List.countP_append]
  omega

theorem gain_backward_reverse (t : Text) : backward.gain t.reverse = -forward.gain t := by
  simp only [gain, List.countP_reverse, enters, leaves]
  omega

end Direction

namespace Block

theorem exit?_eq_some_iff {d : Direction} {depth : Nat} {t : Text} {n : Nat} :
    exit? d depth t = some n ↔
      d.gain (t.take n) = -(depth + 1) ∧ ∀ k < n, -(depth : Int) ≤ d.gain (t.take k) := by
  induction t generalizing depth n with
  | nil =>
    simp [exit?]
    omega
  | cons c rest ih =>
    cases n with
    | zero =>
      have hpositive : exit? d depth (c :: rest) ≠ some 0 := by
        unfold exit?
        repeat' split
        all_goals simp
      simp [hpositive]
      omega
    | succ n =>
      -- the depth of the rest is the depth here and what this character adds to it
      have hrest : ∀ depth' step : Int, depth' = depth + step →
          ((d.gain (rest.take n) = -(depth' + 1) ∧ ∀ k < n, -depth' ≤ d.gain (rest.take k)) ↔
            step + d.gain (rest.take n) = -(depth + 1) ∧ -(depth : Int) ≤ 0 ∧
              ∀ k < n, -(depth : Int) ≤ step + d.gain (rest.take k)) := by
        intro depth' step hdepth
        constructor
        · intro h
          refine ⟨by omega, by omega, fun k hk => ?_⟩
          have := h.2 k hk
          omega
        · intro h
          refine ⟨by omega, fun k hk => ?_⟩
          have := h.2.2 k hk
          omega
      simp only [Nat.forall_lt_succ_left, List.take_succ_cons, List.take_zero, d.gain_nil,
        d.gain_cons]
      unfold exit?
      cases henters : d.enters c with
      | true =>
        rw [← hrest (depth + 1) _ (by simp)]
        simp [ih]
      | false =>
        cases hleaves : d.leaves c with
        | false =>
          rw [← hrest depth _ (by simp)]
          simp [ih]
        | true =>
          cases depth with
          | succ depth =>
            rw [← hrest depth _ (by rw [if_neg Bool.false_ne_true, if_pos rfl]; omega)]
            simp [ih]
          | zero =>
            constructor
            · intro h
              obtain rfl : n = 0 := by simpa using h.symm
              simp
            · rintro ⟨-, -, h⟩
              cases n with
              | zero => rfl
              | succ n => have := h 0 (by omega); simp at this

/-- How many more blocks are opened than closed in front of an offset. -/
def height (t : Text) (n : Nat) : Int := Direction.forward.gain (t.take n)

theorem height_add (t : Text) (s n : Nat) :
    height t (s + n) = height t s + Direction.forward.gain ((t.drop s).take n) := by
  rw [height, height, List.take_add, Direction.gain_append]

theorem height_succ (t : Text) (n : Nat) :
    (∃ c ∈ t[n]?, isOpening c = true ∧ height t (n + 1) = height t n + 1) ∨
    (∃ c ∈ t[n]?, isClosing c = true ∧ height t (n + 1) = height t n - 1) ∨
    (∀ c ∈ t[n]?, isOpening c = false ∧ isClosing c = false) ∧ height t (n + 1) = height t n := by
  have hstep := height_add t n 1
  cases hc : t[n]? with
  | none =>
    rw [List.getElem?_eq_none_iff] at hc
    simp [hstep, List.drop_eq_nil_of_le hc]
  | some c =>
    obtain ⟨hn, rfl⟩ := List.getElem?_eq_some_iff.mp hc
    rw [List.drop_eq_getElem_cons hn, List.take_succ_cons, List.take_zero,
      Direction.gain_cons] at hstep
    cases hopening : isOpening t[n] with
    | true =>
      refine .inl ⟨t[n], rfl, hopening, ?_⟩
      simp [hstep, Direction.enters, hopening]
    | false =>
      cases hclosing : isClosing t[n] with
      | true =>
        refine .inr (.inl ⟨t[n], rfl, hclosing, ?_⟩)
        simp [hstep, Direction.enters, Direction.leaves, hopening, hclosing]
        omega
      | false =>
        simp [hstep, Direction.enters, Direction.leaves, hopening, hclosing]

theorem exit?_forward_eq_some_iff {t : Text} {s n : Nat} :
    exit? .forward 0 (t.drop s) = some n ↔ height t (s + n) = height t s - 1 ∧
      ∀ k, s ≤ k → k < s + n → height t s ≤ height t k := by
  rw [exit?_eq_some_iff]
  constructor
  · rintro ⟨hend, hinside⟩
    refine ⟨by rw [height_add, hend]; rfl, fun k hsk hk => ?_⟩
    have := hinside (k - s) (by omega)
    have hadd := height_add t s (k - s)
    rw [Nat.add_sub_cancel' hsk] at hadd
    omega
  · rintro ⟨hend, hinside⟩
    refine ⟨by rw [height_add] at hend; simp; omega, fun k hk => ?_⟩
    have := hinside (s + k) (by omega) (by omega)
    rw [height_add] at this
    simp
    omega

theorem gain_backward_take {t : Text} {s k : Nat} (hs : s ≤ t.length) (hk : k ≤ s) :
    Direction.backward.gain ((t.take s).reverse.take k) = height t (s - k) - height t s := by
  have hsplit : (t.drop (s - k)).take k = (t.take s).drop (s - k) := by
    rw [List.drop_take]
    congr 1
    omega
  have hadd := height_add t (s - k) k
  rw [Nat.sub_add_cancel hk, hsplit] at hadd
  rw [List.take_reverse, List.length_take, Nat.min_eq_left hs, Direction.gain_backward_reverse]
  omega

theorem exit?_backward_eq_some_iff {t : Text} {s n : Nat} (hs : s ≤ t.length) :
    exit? .backward 0 (t.take s).reverse = some n ↔ n ≤ s ∧ height t (s - n) = height t s - 1 ∧
      ∀ k, s - n < k → k ≤ s → height t s ≤ height t k := by
  constructor
  · intro h
    have hn : n ≤ s := by
      have := exit?_le_length _ _ _ n h
      simp at this
      omega
    obtain ⟨hend, hinside⟩ := exit?_eq_some_iff.mp h
    rw [gain_backward_take hs hn] at hend
    refine ⟨hn, by omega, fun k hk hks => ?_⟩
    have := hinside (s - k) (by omega)
    rw [gain_backward_take hs (by omega), Nat.sub_sub_self hks] at this
    omega
  · rintro ⟨hn, hend, hinside⟩
    rw [exit?_eq_some_iff, gain_backward_take hs hn]
    refine ⟨by omega, fun k hk => ?_⟩
    rw [gain_backward_take hs (by omega)]
    have := hinside (s - k) (by omega) (by omega)
    omega

/-- Where a scan starts to count: a block that starts right at the position is entered first. -/
def entry : Direction → Text → Nat → Nat
  | .forward, t, p => if (t[p]?).any isOpening then p + 1 else p
  | .backward, t, p => if 0 < p ∧ (t[p - 1]?).any isClosing then p - 1 else p

theorem distance?_forward (t : Text) (p : Nat) :
    distance? .forward (t.drop p) =
      (exit? .forward 0 (t.drop (entry .forward t p))).map (· + (entry .forward t p - p)) := by
  rcases Nat.lt_or_ge p t.length with hp | hp
  · rw [List.drop_eq_getElem_cons hp]
    cases hopening : isOpening t[p] <;>
      simp [distance?, entry, Direction.enters, hp, hopening]
  · simp [distance?, entry, exit?, List.drop_eq_nil_of_le hp, List.getElem?_eq_none hp]

theorem distance?_backward {t : Text} {p : Nat} (hp : p ≤ t.length) :
    distance? .backward (t.take p).reverse =
      (exit? .backward 0 (t.take (entry .backward t p)).reverse).map
        (· + (p - entry .backward t p)) := by
  cases p with
  | zero => simp [distance?, entry, exit?]
  | succ p =>
    have hlt : p < t.length := hp
    have hahead : (t.take (p + 1)).reverse = t[p] :: (t.take p).reverse := by
      rw [List.take_succ_eq_append_getElem hlt, List.reverse_concat]
    cases hclosing : isClosing t[p] with
    | true =>
      have hentry : entry .backward t (p + 1) = p := by simp [entry, hlt, hclosing]
      simp [hahead, hentry, distance?, Direction.enters, hclosing]
    | false =>
      have hentry : entry .backward t (p + 1) = p + 1 := by simp [entry, hlt, hclosing]
      simp [hahead, hentry, distance?, Direction.enters, hclosing]

theorem entry_forward (t : Text) (p : Nat) :
    p ≤ entry .forward t p ∧ entry .forward t p ≤ p + 1 := by
  simp only [entry]
  split <;> omega

theorem entry_backward (t : Text) (p : Nat) :
    entry .backward t p ≤ p ∧ p ≤ entry .backward t p + 1 := by
  simp only [entry]
  split <;> omega

theorem opening_of_lt {t : Text} {n : Nat} (h : height t n < height t (n + 1)) :
    (∃ c ∈ t[n]?, isOpening c = true) ∧ height t (n + 1) = height t n + 1 ∧
      entry .forward t n = n + 1 := by
  rcases height_succ t n with ⟨c, hc, hopening, hhigher⟩ | ⟨_, _, _, hlower⟩ | ⟨_, hsame⟩
  · rw [Option.mem_def] at hc
    exact ⟨⟨c, hc, hopening⟩, hhigher, by simp [entry, hc, hopening]⟩
  · omega
  · omega

theorem closing_of_lt {t : Text} {n : Nat} (h : height t (n + 1) < height t n) :
    (∃ c ∈ t[n]?, isClosing c = true) ∧ height t n = height t (n + 1) + 1 ∧
      entry .backward t (n + 1) = n := by
  rcases height_succ t n with ⟨_, _, _, hhigher⟩ | ⟨c, hc, hclosing, hlower⟩ | ⟨_, hsame⟩
  · omega
  · rw [Option.mem_def] at hc
    exact ⟨⟨c, hc, hclosing⟩, by omega, by simp [entry, hc, hclosing]⟩
  · omega

/-- A scan that moves at all goes to the nearest offset one below the height where it starts. -/
theorem move_forward_eq_iff {t : Text} {p e : Nat} (hp : p ≤ t.length) (hne : e ≠ p) :
    move t p .forward = e ↔ let s := entry .forward t p
      s < e ∧ height t e = height t s - 1 ∧ ∀ k, s ≤ k → k < e → height t s ≤ height t k := by
  have hentry := entry_forward t p
  have hmove : move t p .forward = e ↔
      exit? .forward 0 (t.drop (entry .forward t p)) = some (e - entry .forward t p) ∧
        entry .forward t p ≤ e := by
    have hposition : (0 : Int) ≤ p ∧ (p : Int) ≤ t.length := by omega
    simp only [move, hposition, and_self, if_true, Int.toNat_natCast, Direction.ahead,
      distance?_forward]
    cases exit? .forward 0 (t.drop (entry .forward t p)) with
    | none => simp; omega
    | some n =>
      simp [Direction.advance]
      omega
  rw [hmove, exit?_forward_eq_some_iff]
  constructor
  · rintro ⟨⟨hend, hinside⟩, hle⟩
    rw [Nat.add_sub_cancel' hle] at hend hinside
    refine ⟨?_, hend, hinside⟩
    rcases Nat.eq_or_lt_of_le hle with heq | hlt
    · rw [← heq] at hend
      omega
    · exact hlt
  · rintro ⟨hlt, hend, hinside⟩
    rw [Nat.add_sub_cancel' (Nat.le_of_lt hlt)]
    exact ⟨⟨hend, hinside⟩, Nat.le_of_lt hlt⟩

theorem move_backward_eq_iff {t : Text} {p b : Nat} (hp : p ≤ t.length) (hne : b ≠ p) :
    move t p .backward = b ↔ let s := entry .backward t p
      b < s ∧ height t b = height t s - 1 ∧ ∀ k, b < k → k ≤ s → height t s ≤ height t k := by
  have hentry := entry_backward t p
  have hmove : move t p .backward = b ↔
      exit? .backward 0 (t.take (entry .backward t p)).reverse =
        some (entry .backward t p - b) ∧ b ≤ entry .backward t p := by
    have hposition : (0 : Int) ≤ p ∧ (p : Int) ≤ t.length := by omega
    simp only [move, hposition, and_self, if_true, Int.toNat_natCast, Direction.ahead,
      distance?_backward hp]
    cases hexit : exit? .backward 0 (t.take (entry .backward t p)).reverse with
    | none => simp; omega
    | some n =>
      have hn := exit?_le_length _ _ _ n hexit
      simp at hn
      simp [Direction.advance]
      omega
  rw [hmove, exit?_backward_eq_some_iff (by omega)]
  constructor
  · rintro ⟨⟨-, hend, hinside⟩, hle⟩
    rw [Nat.sub_sub_self hle] at hend hinside
    refine ⟨?_, hend, hinside⟩
    rcases Nat.eq_or_lt_of_le hle with heq | hlt
    · rw [← heq] at hend
      omega
    · exact hlt
  · rintro ⟨hlt, hend, hinside⟩
    rw [Nat.sub_sub_self (Nat.le_of_lt hlt)]
    exact ⟨⟨Nat.sub_le _ _, hend, hinside⟩, Nat.le_of_lt hlt⟩

/-- The block between two offsets: the height is the same at both and greater between them. -/
structure IsBlock (t : Text) (start stop : Nat) : Prop where
  wide : start + 1 < stop
  level : height t stop = height t start
  above : ∀ k, start < k → k < stop → height t start < height t k

namespace IsBlock

variable {t : Text} {start stop : Nat}

theorem step_up (h : IsBlock t start stop) : height t start < height t (start + 1) :=
  h.above (start + 1) (Nat.lt_succ_self _) h.wide

theorem exists_step_down (h : IsBlock t start stop) :
    ∃ n, stop = n + 1 ∧ height t (n + 1) < height t n := by
  have hwide := h.wide
  have hlevel := h.level
  obtain ⟨n, rfl⟩ : ∃ n, stop = n + 1 := ⟨stop - 1, by omega⟩
  exact ⟨n, rfl, by have := h.above n (by omega) (by omega); omega⟩

theorem stop_le (h : IsBlock t start stop) : stop ≤ t.length := by
  obtain ⟨n, rfl, hdown⟩ := h.exists_step_down
  obtain ⟨⟨c, hc, -⟩, -⟩ := closing_of_lt hdown
  exact (List.getElem?_eq_some_iff.mp hc).1

theorem move_forward (h : IsBlock t start stop) : move t start .forward = stop := by
  have hwide := h.wide
  have hstop := h.stop_le
  have hlevel := h.level
  obtain ⟨-, hheight, hentry⟩ := opening_of_lt h.step_up
  rw [move_forward_eq_iff (by omega) (by omega), hentry]
  refine ⟨hwide, by omega, fun k hk hks => ?_⟩
  have := h.above k (by omega) hks
  omega

theorem move_backward (h : IsBlock t start stop) : move t stop .backward = start := by
  have hwide := h.wide
  have hstop := h.stop_le
  have hlevel := h.level
  obtain ⟨n, rfl, hdown⟩ := h.exists_step_down
  obtain ⟨-, hheight, hentry⟩ := closing_of_lt hdown
  rw [move_backward_eq_iff hstop (by omega), hentry]
  refine ⟨by omega, by omega, fun k hk hks => ?_⟩
  have := h.above k hk (by omega)
  omega

end IsBlock

theorem distance?_le_length (d : Direction) (t : Text) : ∀ n ∈ distance? d t, n ≤ t.length := by
  intro n hn
  cases t with
  | nil => simp [distance?] at hn
  | cons c rest =>
    rw [distance?] at hn
    split at hn
    · obtain ⟨m, hm, rfl⟩ := Option.map_eq_some_iff.mp hn
      exact Nat.succ_le_succ (exit?_le_length d 0 rest m hm)
    · exact exit?_le_length d 0 (c :: rest) n hn

theorem exists_of_move_ne {t : Text} {p : Int} {d : Direction} (h : move t p d ≠ p) :
    ∃ a q : Nat, p = a ∧ a ≤ t.length ∧ move t a d = q ∧ q ≤ t.length ∧ q ≠ a := by
  have hp : 0 ≤ p ∧ p ≤ t.length := by
    refine Decidable.byContradiction fun hp => h ?_
    rw [move, if_neg hp]
  obtain ⟨a, rfl⟩ := Int.eq_ofNat_of_zero_le hp.1
  have ha : a ≤ t.length := by omega
  cases hdistance : distance? d (d.ahead t a) with
  | none => exact absurd (by rw [move, if_pos hp, Int.toNat_natCast, hdistance]) h
  | some n =>
    have hmove : move t a d = d.advance a n := by
      rw [move, if_pos hp, Int.toNat_natCast, hdistance]
    have hn := distance?_le_length d _ n hdistance
    rw [hmove] at h
    cases d with
    | forward =>
      simp only [Direction.advance, Direction.ahead, List.length_drop] at h hmove hn
      exact ⟨a, a + n, rfl, ha, by omega, by omega, by omega⟩
    | backward =>
      simp only [Direction.advance, Direction.ahead, List.length_reverse, List.length_take]
        at h hmove hn
      exact ⟨a, a - n, rfl, ha, by omega, by omega, by omega⟩

/-- Back from where a scan forward goes: either no block ends there, or the two are the ends of a
block that starts at the position of the scan or in front of it. -/
theorem isBlock_of_move_forward {t : Text} {p e b : Nat} (hp : p ≤ t.length) (hne : e ≠ p)
    (hforward : move t p .forward = e) (he : e ≤ t.length) (hback : move t e .backward = b)
    (hmoved : b ≠ e) : IsBlock t b e ∧ b ≤ p := by
  have hentry := entry_forward t p
  obtain ⟨hlt, hend, hinside⟩ := (move_forward_eq_iff hp hne).mp hforward
  obtain ⟨hltBack, hendBack, hinsideBack⟩ := (move_backward_eq_iff he hmoved).mp hback
  obtain ⟨n, rfl⟩ : ∃ n, e = n + 1 := ⟨e - 1, by omega⟩
  have hlast := hinside n (by omega) (by omega)
  obtain ⟨-, hdown, hstart⟩ := closing_of_lt (show height t (n + 1) < height t n by omega)
  rw [hstart] at hltBack hendBack hinsideBack
  refine ⟨⟨by omega, by omega, fun k hbk hke => ?_⟩, ?_⟩
  · have := hinsideBack k hbk (by omega)
    omega
  · -- behind its start the scan forward never met the height of the opening end
    refine Nat.le_of_not_lt fun hpb => ?_
    have := hinside b (by omega) (by omega)
    omega

theorem isBlock_of_move_backward {t : Text} {p b e : Nat} (hp : p ≤ t.length) (hne : b ≠ p)
    (hbackward : move t p .backward = b) (hb : b ≤ t.length) (hon : move t b .forward = e)
    (hmoved : e ≠ b) : IsBlock t b e ∧ p ≤ e := by
  have hentry := entry_backward t p
  obtain ⟨hlt, hend, hinside⟩ := (move_backward_eq_iff hp hne).mp hbackward
  obtain ⟨hltOn, hendOn, hinsideOn⟩ := (move_forward_eq_iff hb hmoved).mp hon
  have hfirst := hinside (b + 1) (by omega) (by omega)
  obtain ⟨-, hup, hstart⟩ := opening_of_lt (show height t b < height t (b + 1) by omega)
  rw [hstart] at hltOn hendOn hinsideOn
  refine ⟨⟨hltOn, by omega, fun k hbk hke => ?_⟩, ?_⟩
  · have := hinsideOn k (by omega) hke
    omega
  · refine Nat.le_of_not_lt fun hep => ?_
    have := hinside e (by omega) (by omega)
    omega

/-- From where a scan goes, the scan in the other direction does not move, as no block ends there,
or it goes to the other end of a block: to its delimiter, at the first position or beyond it, and
from there the first scan's goal is reached again. -/
theorem move_round_trip (t : Text) (p : Int) :
    (let e := move t p .forward
      let b := move t e .backward
      e ≠ p → (b = e ∧ ∀ start stop : Nat, IsBlock t start stop → (stop : Int) ≠ e) ∨
        0 ≤ b ∧ b ≤ p ∧ b < e ∧ (∃ c ∈ t[b.toNat]?, isOpening c = true) ∧
          move t b .forward = e) ∧
    (let b := move t p .backward
      let e := move t b .forward
      b ≠ p → (e = b ∧ ∀ start stop : Nat, IsBlock t start stop → (start : Int) ≠ b) ∨
        0 ≤ b ∧ p ≤ e ∧ b < e ∧ (∃ c ∈ t[(e - 1).toNat]?, isClosing c = true) ∧
          move t e .backward = b) := by
  constructor
  · dsimp only
    intro hne
    obtain ⟨a, e, rfl, ha, hforward, he, hea⟩ := exists_of_move_ne hne
    rw [hforward]
    by_cases hmoved : move t e .backward = e
    · refine .inl ⟨hmoved, fun start stop hblock hstop => ?_⟩
      obtain rfl : stop = e := by omega
      have hwide := hblock.wide
      have hstart := hblock.move_backward
      omega
    · obtain ⟨e', b, heq, -, hback, -, hbe⟩ := exists_of_move_ne hmoved
      obtain rfl : e = e' := by omega
      obtain ⟨hblock, hba⟩ := isBlock_of_move_forward ha hea hforward he hback hbe
      have hwide := hblock.wide
      rw [hback]
      exact .inr ⟨by omega, by omega, by omega, (opening_of_lt hblock.step_up).1,
        hblock.move_forward⟩
  · dsimp only
    intro hne
    obtain ⟨a, b, rfl, ha, hbackward, hb, hba⟩ := exists_of_move_ne hne
    rw [hbackward]
    by_cases hmoved : move t b .forward = b
    · refine .inl ⟨hmoved, fun start stop hblock hstart => ?_⟩
      obtain rfl : start = b := by omega
      have hwide := hblock.wide
      have hstop := hblock.move_forward
      omega
    · obtain ⟨b', e, heq, -, hon, -, heb⟩ := exists_of_move_ne hmoved
      obtain rfl : b = b' := by omega
      obtain ⟨hblock, hae⟩ := isBlock_of_move_backward ha hba hbackward hb hon heb
      obtain ⟨n, rfl, hdown⟩ := hblock.exists_step_down
      have hwide := hblock.wide
      have hlast : (((n + 1 : Nat) : Int) - 1).toNat = n := by omega
      rw [hon, hlast]
      exact .inr ⟨by omega, by omega, by omega, (closing_of_lt hdown).1, hblock.move_backward⟩

theorem move_round_trip_mixed :
    let t := "f(a[0], {b}) + g".toList
    (move t 2 .forward = 12 ∧ move t 12 .backward = 1 ∧ move t 1 .forward = 12) ∧
      move t 4 .backward = 3 ∧ move t 3 .forward = 6 ∧ move t 6 .backward = 3 := by
  intro t
  have hforward : move t 2 .forward = 12 := by decide
  have hback : move t 12 .backward = 1 := by decide
  have hbackward : move t 4 .backward = 3 := by decide
  have hon : move t 3 .forward = 6 := by decide
  obtain ⟨hfirst, -⟩ := move_round_trip t 2
  obtain ⟨-, hsecond⟩ := move_round_trip t 4
  simp only [hforward, hback] at hfirst
  simp only [hbackward, hon] at hsecond
  obtain ⟨hstay, -⟩ | ⟨-, -, -, -, hagain⟩ := hfirst (by decide)
  · exact absurd hstay (by decide)
  · obtain ⟨hstay, -⟩ | ⟨-, -, -, -, hreturn⟩ := hsecond (by decide)
    · exact absurd hstay (by decide)
    · exact ⟨⟨hforward, hback, hagain⟩, hbackward, hon, hreturn⟩

end Block

end SourceEdit
