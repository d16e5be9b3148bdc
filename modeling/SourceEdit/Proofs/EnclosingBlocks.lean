import Mathlib.Data.List.Sort
import SourceEdit.Document.Search
import SourceEdit.Proofs.BlockEnds

/-!
Out of one block after the other. The blocks around a position lie in each other, and a scan goes to
the far side of the innermost. From there the next scan leaves the next one, unless a neighbouring
block touches that side: it is entered first, and from then on the scans lag behind.
-/

set_option autoImplicit false

namespace SourceEdit

namespace Direction

/-- The position is inside of the block. A block that starts right at the position counts for a scan
forward, and one that ends there for a scan backward. -/
def Encloses : Direction → Span → Nat → Prop
  | .forward, b, p => b.start ≤ p ∧ p < b.stop
  | .backward, b, p => b.start < p ∧ p ≤ b.stop

instance (d : Direction) (b : Span) (p : Nat) : Decidable (d.Encloses b p) :=
  match d with
  | .forward => inferInstanceAs (Decidable (_ ∧ _))
  | .backward => inferInstanceAs (Decidable (_ ∧ _))

def far : Direction → Span → Nat
  | .forward, b => b.stop
  | .backward, b => b.start

def near : Direction → Span → Nat
  | .forward, b => b.start
  | .backward, b => b.stop

theorem Encloses.start_lt_stop {d : Direction} {b c : Span} {p : Nat} (hb : d.Encloses b p)
    (hc : d.Encloses c p) : c.start < b.stop := by
  cases d with
  | forward => exact Nat.lt_of_le_of_lt hc.1 hb.2
  | backward => exact Nat.lt_of_lt_of_le hc.1 hb.2

theorem Encloses.far_ne {d : Direction} {b : Span} {p : Nat} (h : d.Encloses b p) : d.far b ≠ p := by
  cases d with
  | forward => exact Nat.ne_of_gt h.2
  | backward => exact Nat.ne_of_lt h.1

theorem encloses_of_lt (d : Direction) {b : Span} {p : Nat} (hstart : b.start < p)
    (hstop : p < b.stop) : d.Encloses b p := by
  cases d with
  | forward => exact ⟨Nat.le_of_lt hstart, hstop⟩
  | backward => exact ⟨hstart, Nat.le_of_lt hstop⟩

end Direction

namespace Block

instance (t : Text) (start stop : Nat) : Decidable (IsBlock t start stop) :=
  decidable_of_iff (start + 1 < stop ∧ height t stop = height t start ∧
      ∀ k < stop, start < k → height t start < height t k)
    ⟨fun h => ⟨h.1, h.2.1, fun k hstart hstop => h.2.2 k hstop hstart⟩,
      fun h => ⟨h.wide, h.level, fun k hstop hstart => h.above k hstart hstop⟩⟩

/-- All blocks of a text, in the order in which they end. -/
def blocks (t : Text) : List Span :=
  (List.range (t.length + 1)).flatMap fun stop =>
    ((List.range stop).filter fun start => IsBlock t start stop).map fun start => ⟨start, stop⟩

def enclosing (d : Direction) (t : Text) (p : Nat) : List Span :=
  (blocks t).filter fun b => d.Encloses b p

/-- Right beyond the far side of the block there is a delimiter that a scan from there enters. -/
def Touches : Direction → Text → Span → Prop
  | .forward, t, b => (t[b.stop]?).any isOpening = true
  | .backward, t, b => 0 < b.start ∧ (t[b.start - 1]?).any isClosing = true

instance (d : Direction) (t : Text) (b : Span) : Decidable (Touches d t b) :=
  match d with
  | .forward => inferInstanceAs (Decidable (_ = _))
  | .backward => inferInstanceAs (Decidable (_ ∧ _))

/-- One block lies inside of another, and they share no delimiter. -/
def Within (b c : Span) : Prop := c.start < b.start ∧ b.stop < c.stop

instance : Std.Irrefl Within := ⟨fun _ h => Nat.lt_irrefl _ h.1⟩

instance : Std.Antisymm Within := ⟨fun _ _ h h' => absurd h.1 (Nat.lt_asymm h'.1)⟩

variable {d : Direction} {t : Text}

theorem IsBlock.start_lt {start stop start' stop' : Nat} (h : IsBlock t start stop)
    (h' : IsBlock t start' stop') (hstop : stop < stop') (hstart : start' < stop) :
    start' < start := by
  have hlevel := h.level
  have habove' := h'.above stop hstart hstop
  refine Nat.lt_of_not_le fun hle => ?_
  rcases Nat.eq_or_lt_of_le hle with rfl | hlt
  · omega
  · have := h.above start' hlt hstart
    omega

theorem IsBlock.stop_lt {start stop start' stop' : Nat} (h : IsBlock t start stop)
    (h' : IsBlock t start' stop') (hstart : start' < start) (hstop : start < stop') :
    stop < stop' := by
  have hlevel := h.level
  have hlevel' := h'.level
  have habove' := h'.above start hstart hstop
  refine Nat.lt_of_not_le fun hle => ?_
  rcases Nat.eq_or_lt_of_le hle with rfl | hlt
  · omega
  · have := h.above stop' hstop hlt
    omega

theorem IsBlock.start_unique {start start' stop : Nat} (h : IsBlock t start stop)
    (h' : IsBlock t start' stop) : start = start' :=
  Int.ofNat_inj.mp (h.move_backward.symm.trans h'.move_backward)

/-- A block around the far side of another one has it inside. -/
theorem far_between_iff {b c : Span} (hb : IsBlock t b.start b.stop) (hc : IsBlock t c.start c.stop) :
    b.start < d.far c ∧ d.far c < b.stop ↔ Within c b := by
  have hwide := hc.wide
  constructor
  · rintro ⟨hstart, hstop⟩
    cases d with
    | forward => exact ⟨hc.start_lt hb hstop hstart, hstop⟩
    | backward => exact ⟨hstart, hc.stop_lt hb hstart hstop⟩
  · rintro ⟨hstart, hstop⟩
    cases d with
    | forward => exact ⟨by dsimp only [Direction.far]; omega, hstop⟩
    | backward => exact ⟨hstart, by dsimp only [Direction.far]; omega⟩

theorem near_between_iff {b c : Span} (hb : IsBlock t b.start b.stop) (hc : IsBlock t c.start c.stop) :
    b.start < d.near c ∧ d.near c < b.stop ↔ Within c b := by
  cases d with
  | forward => exact far_between_iff (d := .backward) hb hc
  | backward => exact far_between_iff (d := .forward) hb hc

theorem mem_blocks {b : Span} : b ∈ blocks t ↔ IsBlock t b.start b.stop := by
  simp only [blocks, List.mem_flatMap, List.mem_map, List.mem_filter, List.mem_range,
    decide_eq_true_eq]
  constructor
  · rintro ⟨stop, -, start, ⟨-, h⟩, rfl⟩
    exact h
  · intro h
    have hwide := h.wide
    exact ⟨b.stop, Nat.lt_succ_of_le h.stop_le, b.start, ⟨by omega, h⟩, rfl⟩

theorem pairwise_blocks (t : Text) : (blocks t).Pairwise fun b c => b.stop < c.stop := by
  rw [blocks, List.pairwise_flatMap]
  constructor
  · intro stop _
    rw [List.pairwise_map]
    refine (List.pairwise_lt_range.filter _).imp_of_mem fun hb hc hlt => ?_
    have hstart := (of_decide_eq_true (List.mem_filter.mp hb).2).start_unique
      (of_decide_eq_true (List.mem_filter.mp hc).2)
    omega
  · refine List.pairwise_lt_range.imp fun {first second} hlt b hb c hc => ?_
    obtain ⟨_, -, rfl⟩ := List.mem_map.mp hb
    obtain ⟨_, -, rfl⟩ := List.mem_map.mp hc
    exact hlt

theorem mem_enclosing {p : Nat} {b : Span} :
    b ∈ enclosing d t p ↔ IsBlock t b.start b.stop ∧ d.Encloses b p := by
  rw [enclosing, List.mem_filter, mem_blocks, decide_eq_true_eq]

theorem pairwise_enclosing (d : Direction) (t : Text) (p : Nat) :
    (enclosing d t p).Pairwise Within := by
  refine ((pairwise_blocks t).filter _).imp_of_mem fun hb hc hlt => ?_
  obtain ⟨hblock, hencloses⟩ := mem_enclosing.mp hb
  obtain ⟨hblock', hencloses'⟩ := mem_enclosing.mp hc
  exact ⟨hblock.start_lt hblock' hlt (hencloses.start_lt_stop hencloses'), hlt⟩

theorem height_step (t : Text) (n : Nat) :
    height t n - 1 ≤ height t (n + 1) ∧ height t (n + 1) ≤ height t n + 1 := by
  rcases height_succ t n with ⟨_, _, _, h⟩ | ⟨_, _, _, h⟩ | ⟨_, h⟩ <;> omega

/-- What falls by one at most in each step meets the value one below the first before any other below
it. -/
theorem exists_first_below {f : Nat → Int} (hstep : ∀ n, f n - 1 ≤ f (n + 1)) {n : Nat}
    (hn : f n < f 0) : ∃ e ≤ n, f e = f 0 - 1 ∧ ∀ k < e, f 0 ≤ f k := by
  have hexists : ∃ n, f n < f 0 := ⟨n, hn⟩
  have hbelow := Nat.find_spec hexists
  have hfirst : ∀ k < Nat.find hexists, f 0 ≤ f k := fun k hk =>
    Int.not_lt.mp (Nat.find_min hexists hk)
  refine ⟨Nat.find hexists, Nat.find_min' hexists hn, ?_, hfirst⟩
  cases hfind : Nat.find hexists with
  | zero => rw [hfind] at hbelow; omega
  | succ m =>
    have := hfirst m (by omega)
    have := hstep m
    rw [hfind] at hbelow
    omega

theorem exists_stop {a stop : Nat} (hstop : a < stop) (hbelow : height t stop < height t a) :
    ∃ e, a < e ∧ height t e = height t a - 1 ∧ ∀ k, a ≤ k → k < e → height t a ≤ height t k := by
  obtain ⟨n, -, hend, hbefore⟩ := exists_first_below (f := fun k => height t (a + k))
    (fun k => (height_step t (a + k)).1) (n := stop - a)
    (by rwa [Nat.add_sub_cancel' (Nat.le_of_lt hstop)])
  rw [Nat.add_zero] at hend hbefore
  refine ⟨a + n, Nat.lt_add_of_pos_right (Nat.pos_of_ne_zero fun hn => ?_), hend, fun k hk hkn => ?_⟩
  · rw [hn, Nat.add_zero] at hend
    omega
  · have := hbefore (k - a) (by omega)
    rwa [Nat.add_sub_cancel' hk] at this

theorem exists_start {start a : Nat} (hstart : start < a) (hbelow : height t start < height t a) :
    ∃ b, b < a ∧ height t b = height t a - 1 ∧ ∀ k, b < k → k ≤ a → height t a ≤ height t k := by
  have hstep : ∀ k, height t (a - k) - 1 ≤ height t (a - (k + 1)) := fun k => by
    rcases Nat.lt_or_ge k a with hk | hk
    · have := (height_step t (a - (k + 1))).2
      rw [show a - (k + 1) + 1 = a - k by omega] at this
      omega
    · rw [show a - (k + 1) = a - k by omega]
      omega
  obtain ⟨n, -, hend, hbefore⟩ := exists_first_below (f := fun k => height t (a - k)) hstep
    (n := a - start) (by rwa [Nat.sub_sub_self (Nat.le_of_lt hstart)])
  rw [Nat.sub_zero] at hend hbefore
  refine ⟨a - n, Nat.lt_of_le_of_ne (Nat.sub_le _ _) fun hn => ?_, hend, fun k hk hka => ?_⟩
  · rw [hn] at hend
    omega
  · have := hbefore (a - k) (by omega)
    rwa [Nat.sub_sub_self hka] at this

/-- The block lies around an offset, and the height is nowhere in it less than there. -/
structure Innermost (t : Text) (b : Span) (a : Nat) : Prop where
  block : IsBlock t b.start b.stop
  start_lt : b.start < a
  lt_stop : a < b.stop
  below : height t b.start = height t a - 1
  inside : ∀ k, b.start < k → k < b.stop → height t a ≤ height t k

theorem exists_innermost {start stop a : Nat} (h : IsBlock t start stop) (hstart : start < a)
    (hstop : a < stop) : ∃ b, Innermost t b a := by
  have hlevel := h.level
  have habove := h.above a hstart hstop
  obtain ⟨e, hae, hend, hbefore⟩ := exists_stop hstop (hlevel ▸ habove)
  obtain ⟨b, hba, hbegin, hbehind⟩ := exists_start hstart habove
  have hinside : ∀ k, b < k → k < e → height t a ≤ height t k := fun k hbk hke =>
    (Nat.le_total k a).elim (hbehind k hbk) fun hak => hbefore k hak hke
  have hblock : IsBlock t b e := by
    refine ⟨by omega, hend.trans hbegin.symm, fun k hbk hke => ?_⟩
    have := hinside k hbk hke
    omega
  exact ⟨⟨b, e⟩, hblock, hba, hae, hbegin, hinside⟩

theorem entry_forward_cases (t : Text) (p : Nat) : entry .forward t p = p ∨
    entry .forward t p = p + 1 ∧ height t (p + 1) = height t p + 1 := by
  have hentry := entry_forward t p
  rcases height_succ t p with ⟨_, _, _, hup⟩ | ⟨c, hc, hclosing, -⟩ | ⟨hplain, -⟩
  · omega
  · have : isOpening c = false := Direction.leaves_of_enters (d := .backward) hclosing
    simp_all [entry]
  · refine .inl ?_
    cases hc : t[p]? with
    | none => simp [entry, hc]
    | some c => simp [entry, hc, hplain c hc]

theorem entry_backward_cases (t : Text) (p : Nat) : entry .backward t p = p ∨
    ∃ n, p = n + 1 ∧ entry .backward t p = n ∧ height t n = height t (n + 1) + 1 := by
  cases p with
  | zero => simp [entry]
  | succ n =>
    have hentry := entry_backward t (n + 1)
    rcases height_succ t n with ⟨c, hc, hopening, -⟩ | ⟨_, _, _, hdown⟩ | ⟨hplain, -⟩
    · have : isClosing c = false := not_isClosing_of_isOpening hopening
      simp_all [entry]
    · rcases Nat.eq_or_lt_of_le hentry.1 with hsame | hlt
      · exact .inl hsame
      · exact .inr ⟨n, rfl, by omega, by omega⟩
    · refine .inl ?_
      cases hc : t[n]? with
      | none => simp [entry, hc]
      | some c => simp [entry, hc, hplain c hc]

/-- A position is inside of a block just if the offset at which a scan from it starts to count is. -/
theorem encloses_iff {p : Nat} {b : Span} (hb : IsBlock t b.start b.stop) :
    d.Encloses b p ↔ b.start < entry d t p ∧ entry d t p < b.stop := by
  have hwide := hb.wide
  obtain ⟨n, hn, hdown⟩ := hb.exists_step_down
  have hup := opening_of_lt hb.step_up
  cases d with
  | forward =>
    rcases entry_forward_cases t p with hentry | ⟨hentry, hopening⟩
    · rw [hentry, Direction.Encloses]
      refine and_congr_left fun _ => ⟨fun hstart => Nat.lt_of_le_of_ne hstart ?_, Nat.le_of_lt⟩
      rintro rfl
      omega
    · rw [hentry, Direction.Encloses]
      refine ⟨fun ⟨hstart, hstop⟩ => ⟨by omega, ?_⟩, fun ⟨hstart, hstop⟩ => ⟨by omega, by omega⟩⟩
      refine Nat.lt_of_le_of_ne hstop fun hlast => ?_
      obtain rfl : n = p := by omega
      omega
  | backward =>
    rcases entry_backward_cases t p with hentry | ⟨m, rfl, hentry, hclosing⟩
    · rw [hentry, Direction.Encloses]
      refine and_congr_right fun _ => ⟨fun hstop => Nat.lt_of_le_of_ne hstop ?_, Nat.le_of_lt⟩
      rintro rfl
      rw [hn, (closing_of_lt hdown).2.2] at hentry
      omega
    · rw [hentry, Direction.Encloses]
      refine ⟨fun ⟨hstart, hstop⟩ => ⟨?_, by omega⟩, fun ⟨hstart, hstop⟩ => ⟨by omega, by omega⟩⟩
      refine Nat.lt_of_le_of_ne (by omega) fun hfirst => ?_
      rw [hfirst] at hup
      omega

theorem touches_iff {b : Span} : Touches d t b ↔ entry d t (d.far b) ≠ d.far b := by
  cases d with
  | forward =>
    rw [Touches, entry, Direction.far, ne_eq, ite_eq_right_iff, Classical.not_imp]
    exact (and_iff_left (Nat.succ_ne_self _)).symm
  | backward =>
    rw [Touches, entry, Direction.far, ne_eq, ite_eq_right_iff, Classical.not_imp]
    refine (and_iff_left_of_imp fun h => ?_).symm
    omega

theorem Innermost.move_eq {p : Nat} {b : Span} (h : Innermost t b (entry d t p)) :
    move t p d = d.far b := by
  have hstart := h.start_lt
  have hstop := h.lt_stop
  have hbelow := h.below
  have hlevel := h.block.level
  have hlength := h.block.stop_le
  cases d with
  | forward =>
    have hentry := entry_forward t p
    refine (move_forward_eq_iff (by omega) (by dsimp only [Direction.far]; omega)).mpr
      ⟨hstop, hlevel.trans hbelow, fun k hk hkstop => h.inside k (by omega) hkstop⟩
  | backward =>
    have hentry := entry_backward t p
    refine (move_backward_eq_iff (by omega) (by dsimp only [Direction.far]; omega)).mpr
      ⟨hstart, hbelow, fun k hk hkstart => h.inside k hk (by omega)⟩

theorem innermost_of_enclosing {p : Nat} {b : Span} {rest : List Span}
    (h : enclosing d t p = b :: rest) : Innermost t b (entry d t p) := by
  have hmem : b ∈ enclosing d t p := h ▸ List.mem_cons_self
  obtain ⟨hblock, hencloses⟩ := mem_enclosing.mp hmem
  obtain ⟨hstart, hstop⟩ := (encloses_iff hblock).mp hencloses
  obtain ⟨c, hc⟩ := exists_innermost hblock hstart hstop
  have hmemInner : c ∈ enclosing d t p :=
    mem_enclosing.mpr ⟨hc.block, (encloses_iff hc.block).mpr ⟨hc.start_lt, hc.lt_stop⟩⟩
  rw [h] at hmemInner
  rcases List.mem_cons.mp hmemInner with rfl | hrest
  · exact hc
  · -- then the first block would begin above the height that it is around
    have hwithin := (List.pairwise_cons.mp (h ▸ pairwise_enclosing d t p)).1 c hrest
    have hlow := hblock.above _ hstart hstop
    have hhigh := hc.inside b.start hwithin.1 (by have := hc.lt_stop; omega)
    omega

theorem move_of_enclosing {p : Nat} {b : Span} {rest : List Span}
    (h : enclosing d t p = b :: rest) : move t p d = d.far b := (innermost_of_enclosing h).move_eq

theorem mem_rest_iff {p : Nat} {b : Span} {rest : List Span} (h : enclosing d t p = b :: rest)
    {c : Span} : c ∈ rest ↔ IsBlock t c.start c.stop ∧ Within b c := by
  have hfirst := innermost_of_enclosing h
  constructor
  · intro hc
    have hmem : c ∈ enclosing d t p := h ▸ .tail b hc
    exact ⟨(mem_enclosing.mp hmem).1, (List.pairwise_cons.mp (h ▸ pairwise_enclosing d t p)).1 c hc⟩
  · rintro ⟨hblock, hwithin⟩
    have hmem : c ∈ enclosing d t p := mem_enclosing.mpr ⟨hblock, (encloses_iff hblock).mpr
      ⟨Nat.lt_trans hwithin.1 hfirst.start_lt, Nat.lt_trans hfirst.lt_stop hwithin.2⟩⟩
    rw [h] at hmem
    refine (List.mem_cons.mp hmem).resolve_left fun heq => ?_
    exact Nat.lt_irrefl _ (heq ▸ hwithin.1)

/-- At the far side of a block that nothing touches, the blocks around are those that have it
inside. -/
theorem enclosing_far {p : Nat} {b : Span} {rest : List Span} (h : enclosing d t p = b :: rest)
    (hfree : ¬Touches d t b) : enclosing d t (d.far b) = rest := by
  have hsorted := (List.pairwise_cons.mp (h ▸ pairwise_enclosing d t p)).2
  rw [touches_iff, not_not] at hfree
  refine (pairwise_enclosing d t (d.far b)).eq_of_mem_iff hsorted fun c => ?_
  rw [mem_enclosing, mem_rest_iff h]
  refine and_congr_right fun hblock => ?_
  rw [encloses_iff hblock, hfree, far_between_iff hblock (innermost_of_enclosing h).block]

theorem Innermost.near_eq {p : Nat} {b : Span} (h : Innermost t b (entry d t p))
    (hentered : entry d t p ≠ p) : d.near b = p := by
  have hstart := h.start_lt
  have hstop := h.lt_stop
  cases d with
  | forward =>
    rcases entry_forward_cases t p with hentry | ⟨hentry, hup⟩
    · exact absurd hentry hentered
    · rw [hentry] at h hstart hstop
      refine Nat.le_antisymm (Nat.le_of_lt_succ hstart) (Nat.le_of_not_lt fun hlt => ?_)
      have := h.inside p hlt (by omega)
      omega
  | backward =>
    rcases entry_backward_cases t p with hentry | ⟨n, rfl, hentry, hdown⟩
    · exact absurd hentry hentered
    · rw [hentry] at h hstart hstop
      refine Nat.le_antisymm (Nat.le_of_not_lt fun hlt => ?_) hstop
      have := h.inside (n + 1) (by omega) hlt
      omega

/-- If a neighbour touches the far side of a block, it comes before those that have the block
inside. -/
theorem enclosing_far_of_touches {p : Nat} {b : Span} {rest : List Span}
    (h : enclosing d t p = b :: rest) (hne : rest ≠ []) (htouches : Touches d t b) :
    ∃ neighbour, enclosing d t (d.far b) = neighbour :: rest := by
  have hfirst := innermost_of_enclosing h
  rw [touches_iff] at htouches
  have hencloses : ∀ c ∈ rest, c ∈ enclosing d t (d.far b) := fun c hc => by
    obtain ⟨hblock, hwithin⟩ := (mem_rest_iff h).mp hc
    obtain ⟨hstart, hstop⟩ := (far_between_iff (d := d) hblock hfirst.block).mpr hwithin
    exact mem_enclosing.mpr ⟨hblock, d.encloses_of_lt hstart hstop⟩
  obtain ⟨r, hr⟩ := List.exists_mem_of_ne_nil rest hne
  obtain ⟨neighbour, others, hothers⟩ :=
    List.exists_cons_of_ne_nil (List.ne_nil_of_mem (hencloses r hr))
  have hneighbour := innermost_of_enclosing hothers
  have hnear := hneighbour.near_eq htouches
  have hwide := hneighbour.block.wide
  refine ⟨neighbour, hothers.trans (congrArg _ ?_)⟩
  have hsorted := (List.pairwise_cons.mp (h ▸ pairwise_enclosing d t p)).2
  have hsorted' := (List.pairwise_cons.mp (hothers ▸ pairwise_enclosing d t (d.far b))).2
  refine hsorted'.eq_of_mem_iff hsorted fun c => ?_
  rw [mem_rest_iff hothers, mem_rest_iff h]
  refine and_congr_right fun hblock => ?_
  rw [← far_between_iff (d := d) hblock hfirst.block, ← hnear,
    near_between_iff hblock hneighbour.block]

end Block

namespace Document

open Block

variable {direction : Direction} {d : Document}

theorem gotoBlock_succ {b : Span} {rest : List Span}
    (h : enclosing direction d.text d.position = b :: rest) :
    ∃ d' : Document, (∀ n, gotoBlock direction (n + 1) d = gotoBlock direction n d') ∧
      d'.text = d.text ∧ d'.position = direction.far b := by
  have hmem : b ∈ enclosing direction d.text d.position := h ▸ List.mem_cons_self
  obtain ⟨hblock, hencloses⟩ := mem_enclosing.mp hmem
  have hwide := hblock.wide
  have hstop := hblock.stop_le
  have hfar : direction.far b ≤ d.text.length := by
    cases direction <;> dsimp only [Direction.far] <;> omega
  have hposition : (d.setPosition (move d.text d.position direction) false).position =
      direction.far b := by
    rw [move_of_enclosing h, setPosition, Text.clamp, Int.toNat_natCast, Nat.min_eq_left hfar]
  refine ⟨d.setPosition (move d.text d.position direction) false, fun n => ?_, rfl, hposition⟩
  rw [gotoBlock, if_neg (hposition ▸ hencloses.far_ne)]

/-- One step on the way to a block. Only if no neighbour touches the block that is left, there is one
block less on the way from there. -/
theorem exists_step {count : Nat} {b : Span}
    (hb : (enclosing direction d.text d.position)[count + 1]? = some b) :
    ∃ (first : Span) (rest : List Span) (d' : Document),
      enclosing direction d.text d.position = first :: rest ∧ rest[count]? = some b ∧
      (∀ n, gotoBlock direction (n + 1) d = gotoBlock direction n d') ∧ d'.text = d.text ∧
      (¬Touches direction d.text first ∧ enclosing direction d'.text d'.position = rest ∨
        Touches direction d.text first ∧
          (enclosing direction d'.text d'.position)[count + 1]? = some b) := by
  obtain ⟨first, rest, hfirst⟩ := List.exists_cons_of_ne_nil
    (List.ne_nil_of_mem (List.mem_of_getElem? hb))
  obtain ⟨d', hgoto, htext, hposition⟩ := gotoBlock_succ hfirst
  rw [hfirst, List.getElem?_cons_succ] at hb
  refine ⟨first, rest, d', hfirst, hb, hgoto, htext, ?_⟩
  rw [htext, hposition]
  by_cases htouches : Touches direction d.text first
  · obtain ⟨neighbour, hmore⟩ := enclosing_far_of_touches hfirst
      (List.ne_nil_of_mem (List.mem_of_getElem? hb)) htouches
    exact .inr ⟨htouches, by rw [hmore, List.getElem?_cons_succ, hb]⟩
  · exact .inl ⟨htouches, enclosing_far hfirst htouches⟩

theorem gotoBlock_first {b : Span} (hb : (enclosing direction d.text d.position)[0]? = some b) :
    (gotoBlock direction 1 d).position = direction.far b := by
  obtain ⟨rest, hrest⟩ := List.head?_eq_some_iff.mp (List.head?_eq_getElem?.trans hb)
  obtain ⟨d', hgoto, -, hposition⟩ := gotoBlock_succ hrest
  rw [hgoto, gotoBlock, hposition]

theorem within_of_getElem? {t : Text} {p i j : Nat} {b c : Span} (hij : i < j)
    (hb : (enclosing direction t p)[i]? = some b) (hc : (enclosing direction t p)[j]? = some c) :
    Within b c := by
  obtain ⟨hi, rfl⟩ := List.getElem?_eq_some_iff.mp hb
  obtain ⟨hj, rfl⟩ := List.getElem?_eq_some_iff.mp hc
  exact List.pairwise_iff_getElem.mp (pairwise_enclosing direction t p) i j hi hj hij

theorem between_of_next {t : Text} {p q count : Nat} {b : Span}
    (hb : (enclosing direction t p)[count + 1]? = some b)
    (h : ∀ c, (enclosing direction t p)[count]? = some c → c.start ≤ q ∧ q ≤ c.stop) :
    b.start < q ∧ q < b.stop := by
  obtain ⟨hlength, -⟩ := List.getElem?_eq_some_iff.mp hb
  have hbefore := List.getElem?_eq_getElem (Nat.lt_of_succ_lt hlength)
  have hwithin := within_of_getElem? (Nat.lt_succ_self count) hbefore hb
  obtain ⟨hstart, hstop⟩ := h _ hbefore
  exact ⟨Nat.lt_of_lt_of_le hwithin.1 hstart, Nat.lt_of_le_of_lt hstop hwithin.2⟩

theorem gotoBlock_between {count : Nat} {b : Span}
    (hb : (enclosing direction d.text d.position)[count]? = some b) :
    b.start ≤ (gotoBlock direction (count + 1) d).position ∧
      (gotoBlock direction (count + 1) d).position ≤ b.stop := by
  induction count generalizing d b with
  | zero =>
    have hwide := (mem_enclosing.mp (List.mem_of_getElem? hb)).1.wide
    rw [gotoBlock_first hb]
    cases direction <;> dsimp only [Direction.far] <;> omega
  | succ count ih =>
    obtain ⟨first, rest, d', -, hrest, hgoto, -, hahead⟩ := exists_step hb
    rw [hgoto]
    rcases hahead with ⟨-, hsame⟩ | ⟨-, hmore⟩
    · exact ih (hsame ▸ hrest)
    · have hbetween := between_of_next hmore fun c hc => ih hc
      exact ⟨Nat.le_of_lt hbetween.1, Nat.le_of_lt hbetween.2⟩

/-- As many steps as there are blocks around up to this one leave it, to its far side, exactly if no
neighbour touches one of the others on that side. They never lead further out. -/
theorem gotoBlock_nth_enclosing_iff {count : Nat} {b : Span}
    (hb : (enclosing direction d.text d.position)[count]? = some b) :
    ((gotoBlock direction (count + 1) d).position = direction.far b ↔
      ∀ i < count, ∀ c ∈ (enclosing direction d.text d.position)[i]?,
        ¬Touches direction d.text c) ∧
    b.start ≤ (gotoBlock direction (count + 1) d).position ∧
    (gotoBlock direction (count + 1) d).position ≤ b.stop := by
  refine ⟨?_, gotoBlock_between hb⟩
  induction count generalizing d b with
  | zero => exact iff_of_true (gotoBlock_first hb) fun i hi => absurd hi (Nat.not_lt_zero i)
  | succ count ih =>
    obtain ⟨first, rest, d', hfirst, hrest, hgoto, htext, hahead⟩ := exists_step hb
    rw [hgoto, hfirst, Nat.forall_lt_succ_left]
    simp only [List.getElem?_cons_zero, List.getElem?_cons_succ, Option.mem_def, Option.some.injEq,
      forall_eq']
    rcases hahead with ⟨hfree, hsame⟩ | ⟨htouches, hmore⟩
    · rw [ih (hsame ▸ hrest), hsame, htext]
      exact (and_iff_right hfree).symm
    · -- one block more is ahead, and these steps do not leave it
      have hbetween := between_of_next hmore fun c hc => gotoBlock_between hc
      have hinside : (gotoBlock direction (count + 1) d').position ≠ direction.far b := by
        cases direction <;> dsimp only [Direction.far] <;> omega
      exact iff_of_false hinside fun h => h.1 htouches

theorem gotoBlock_nth_enclosing_apart :
    let d := { new .source "a\x7bb (c[0] + 1); d\x7d".toList none with position := 7 }
    (enclosing .forward d.text d.position) = [⟨6, 9⟩, ⟨4, 14⟩, ⟨1, 18⟩] ∧
      (enclosing .forward d.text d.position)[2]? = some ⟨1, 18⟩ ∧
      (gotoBlock .forward 3 d).position = 18 := by
  intro d
  have hblocks : (enclosing .forward d.text d.position) = [⟨6, 9⟩, ⟨4, 14⟩, ⟨1, 18⟩] := by
    decide +kernel
  have hb : (enclosing .forward d.text d.position)[2]? = some ⟨1, 18⟩ := by rw [hblocks]; rfl
  refine ⟨hblocks, hb, (gotoBlock_nth_enclosing_iff hb).1.mpr ?_⟩
  rw [hblocks]
  decide +kernel

/-- The second step enters the block behind the parenthesis that was left, so it does not leave the
outer one. -/
theorem gotoBlock_enters_neighbour :
    let d := { new .source ['{', '(', 'a', ')', '{', 'b', '}', '}'] none with position := 2 }
    (enclosing .forward d.text d.position) = [⟨1, 4⟩, ⟨0, 8⟩] ∧
      (gotoBlock .forward 2 d).position = 7 := by
  decide +kernel

end Document

end SourceEdit
