import SourceEdit.Diff.Segment

/-!
Runs of common lines. The table of run lengths is right, so the run that is kept is common to both
lists, and the segments hold both: the first list in what they keep and take out, the second in what
they keep and put in. A list compared with itself is one run, whichever lines do not begin runs.
-/

set_option autoImplicit false

namespace SourceEdit.Diff

def texts (b : List Line) : List Text := b.map (·.text)

theorem length_texts (b : List Line) : (texts b).length = b.length := List.length_map _

theorem texts_take (b : List Line) (n : Nat) : texts (b.take n) = (texts b).take n := List.map_take

theorem texts_drop (b : List Line) (n : Nat) : texts (b.drop n) = (texts b).drop n := List.map_drop

theorem texts_reverse (b : List Line) : texts b.reverse = (texts b).reverse := List.map_reverse

/-- As many lines up to an index of the first list, and up to one of the second, are the same, and
none of them is popular. -/
inductive EndsAt (a : List Text) (b : List Line) : (left right size : Nat) → Prop where
  | nothing {i j : Nat} (hi : i ≤ a.length) (hj : j ≤ b.length) : EndsAt a b i j 0
  | line {i j n : Nat} {y : Line} (h : EndsAt a b i j n) (hx : a[i]? = some y.text)
      (hy : b[j]? = some y) (hpopular : y.popular = false) : EndsAt a b (i + 1) (j + 1) (n + 1)

def Common (a b : List Text) (r : Run) : Prop :=
  (a.drop r.left).take r.size = (b.drop r.right).take r.size

variable {a : List Text} {b : List Line} {i j n : Nat}

theorem Common.append {a b : List Text} {m : Nat} (h : Common a b ⟨i, j, m⟩)
    (h' : Common a b ⟨i + m, j + m, n⟩) : Common a b ⟨i, j, m + n⟩ := by
  dsimp only [Common] at h h' ⊢
  rw [List.take_add, List.take_add, List.drop_drop, List.drop_drop, h, h']

namespace EndsAt

theorem bounds (h : EndsAt a b i j n) : (n ≤ i ∧ i ≤ a.length) ∧ n ≤ j ∧ j ≤ b.length := by
  induction h with
  | nothing hi hj => exact ⟨⟨Nat.zero_le _, hi⟩, Nat.zero_le _, hj⟩
  | line _ hx hy _ ih =>
    have hi := (List.getElem?_eq_some_iff.mp hx).1
    have hj := (List.getElem?_eq_some_iff.mp hy).1
    omega

theorem common (h : EndsAt a b i j n) : Common a (texts b) ⟨i - n, j - n, n⟩ := by
  induction h with
  | nothing _ _ => rfl
  | @line i j n y h hx hy _ ih =>
    have hb := h.bounds
    dsimp only [Common] at ih ⊢
    rw [Nat.add_sub_add_right, Nat.add_sub_add_right, List.take_add_one, List.take_add_one, ih,
      List.getElem?_drop, List.getElem?_drop, Nat.sub_add_cancel hb.1.1,
      Nat.sub_add_cancel hb.2.1, hx, texts, List.getElem?_map, hy]
    rfl

end EndsAt

structure LongestAt (a : List Text) (b : List Line) (i j n : Nat) : Prop where
  endsAt : EndsAt a b i j n
  greatest : ∀ m, EndsAt a b i j m → m ≤ n

theorem longestAt_zero (hi : i ≤ a.length) (hj : j ≤ b.length) (h : i = 0 ∨ j = 0) :
    LongestAt a b i j 0 := by
  refine ⟨.nothing hi hj, fun m hm => ?_⟩
  have := hm.bounds
  omega

theorem LongestAt.next {x : Text} {y : Line} (h : LongestAt a b i j n) (hx : a[i]? = some x)
    (hy : b[j]? = some y) :
    LongestAt a b (i + 1) (j + 1) (if y.text = x && !y.popular then n + 1 else 0) := by
  by_cases hsame : y.text = x ∧ y.popular = false
  · obtain ⟨rfl, hpopular⟩ := hsame
    rw [hpopular, if_pos (by simp)]
    refine ⟨.line h.endsAt hx hy hpopular, fun m hm => ?_⟩
    cases hm with
    | nothing _ _ => exact Nat.zero_le _
    | line hm _ _ _ => exact Nat.succ_le_succ (h.greatest _ hm)
  · have hi := (List.getElem?_eq_some_iff.mp hx).1
    have hj := (List.getElem?_eq_some_iff.mp hy).1
    rw [if_neg (by simpa using hsame)]
    refine ⟨.nothing hi hj, fun m hm => ?_⟩
    cases hm with
    | nothing _ _ => exact Nat.le_refl 0
    | line _ hx' hy' hpopular =>
      rw [hx] at hx'
      rw [hy] at hy'
      obtain rfl := Option.some.inj hy'
      exact absurd ⟨(Option.some.inj hx').symm, hpopular⟩ hsame

/-- The row of an index of the first list tells of each line of the second how long the longest run
is that ends with both. -/
structure IsRow (a : List Text) (b : List Line) (i : Nat) (lengths : List Nat) : Prop where
  length_eq : lengths.length = b.length
  longestAt : ∀ j n, lengths[j]? = some n → LongestAt a b i (j + 1) n

theorem isRow_zero (a : List Text) (b : List Line) : IsRow a b 0 (b.map fun _ => 0) := by
  refine ⟨List.length_map _, fun j n hn => ?_⟩
  rw [List.getElem?_map] at hn
  obtain ⟨y, hy, rfl⟩ := Option.map_eq_some_iff.mp hn
  exact longestAt_zero (Nat.zero_le _) (List.getElem?_eq_some_iff.mp hy).1 (.inl rfl)

theorem IsRow.next {lengths : List Nat} {x : Text} (h : IsRow a b i lengths)
    (hx : a[i]? = some x) : IsRow a b (i + 1) (runLengths x lengths b) := by
  constructor
  · rw [runLengths, List.length_zipWith, List.length_cons, h.length_eq]
    exact Nat.min_eq_left (Nat.le_succ _)
  · intro j n hn
    obtain ⟨y, m, hy, hm, rfl⟩ := List.getElem?_zipWith_eq_some.mp hn
    refine LongestAt.next ?_ hx hy
    cases j with
    | zero =>
      obtain rfl : 0 = m := by simpa using hm
      exact longestAt_zero (Nat.le_of_lt (List.getElem?_eq_some_iff.mp hx).1) (Nat.zero_le _)
        (.inr rfl)
    | succ j => exact h.longestAt j m hm

/-- The run has been found by its end. -/
def Found (a : List Text) (b : List Line) (r : Run) : Prop :=
  EndsAt a b (r.left + r.size) (r.right + r.size) r.size

theorem found_of_endsAt (h : EndsAt a b i j n) : Found a b ⟨i - n, j - n, n⟩ := by
  have hb := h.bounds
  dsimp only [Found]
  rwa [Nat.sub_add_cancel hb.1.1, Nat.sub_add_cancel hb.2.1]

theorem found_longer {lengths : List Nat} {best : Run} (hbest : Found a b best)
    (h : ∀ k n, lengths[k]? = some n → EndsAt a b (i + 1) (j + k + 1) n) :
    Found a b (longer i j best lengths) := by
  induction lengths generalizing j best with
  | nil => exact hbest
  | cons n ns ih =>
    refine ih ?_ fun k m hm => ?_
    · split
      · exact found_of_endsAt (h 0 n rfl)
      · exact hbest
    · rw [Nat.add_right_comm j 1 k]
      exact h (k + 1) m hm

theorem head_of_drop {x : Text} {rest : List Text} (h : a.drop i = x :: rest) :
    a[i]? = some x ∧ a.drop (i + 1) = rest := by
  rw [← List.drop_drop, h, ← List.head?_drop, h]
  exact ⟨rfl, rfl⟩

theorem found_longestFrom {lengths : List Nat} {best : Run} (hrow : IsRow a b i lengths)
    (hbest : Found a b best) : Found a b (longestFrom b i lengths best (a.drop i)) := by
  generalize hrest : a.drop i = rest
  induction rest generalizing i lengths best with
  | nil => exact hbest
  | cons x rest ih =>
    obtain ⟨hx, hrest'⟩ := head_of_drop hrest
    have hnext := hrow.next hx
    refine ih hnext (found_longer hbest fun k n hn => ?_) hrest'
    rw [Nat.zero_add]
    exact (hnext.longestAt k n hn).endsAt

theorem found_longest (a : List Text) (b : List Line) :
    Found a b (longestFrom b 0 (b.map fun _ => 0) ⟨0, 0, 0⟩ a) :=
  found_longestFrom (isRow_zero a b) (.nothing (Nat.zero_le _) (Nat.zero_le _))

theorem commonStart_spec (s : List Text) (t : List Line) : commonStart s t ≤ s.length ∧
    commonStart s t ≤ t.length ∧ s.take (commonStart s t) = (texts t).take (commonStart s t) := by
  fun_induction commonStart s t with
  | case1 s y t ih =>
    obtain ⟨hs, ht, heq⟩ := ih
    refine ⟨Nat.succ_le_succ hs, Nat.succ_le_succ ht, ?_⟩
    rw [texts, List.map_cons, List.take_succ_cons, List.take_succ_cons, heq, texts]
  | case2 _ _ _ _ _ => exact ⟨Nat.zero_le _, Nat.zero_le _, rfl⟩
  | case3 _ _ _ => exact ⟨Nat.zero_le _, Nat.zero_le _, rfl⟩

theorem common_down (a : List Text) (b : List Line) (i j : Nat) :
    Common a (texts b) ⟨i, j, commonStart (a.drop i) (b.drop j)⟩ := by
  have h := (commonStart_spec (a.drop i) (b.drop j)).2.2
  rwa [texts_drop] at h

theorem take_reverse_take {l : List Text} (hi : i ≤ l.length) :
    (l.take i).reverse.take n = ((l.drop (i - n)).take (i - (i - n))).reverse := by
  rw [List.take_reverse, List.length_take, Nat.min_eq_left hi, List.drop_take]

theorem common_up (hi : i ≤ a.length) (hj : j ≤ b.length) {u : Nat}
    (hu : u = commonStart (a.take i).reverse (b.take j).reverse) :
    (u ≤ i ∧ u ≤ j) ∧ Common a (texts b) ⟨i - u, j - u, u⟩ := by
  obtain ⟨hs, ht, h⟩ := commonStart_spec (a.take i).reverse (b.take j).reverse
  have hj' : j ≤ (texts b).length := by rwa [length_texts]
  rw [← hu] at hs ht h
  rw [List.length_reverse, List.length_take, Nat.min_eq_left hi] at hs
  rw [List.length_reverse, List.length_take, Nat.min_eq_left hj] at ht
  rw [texts_reverse, texts_take, take_reverse_take hi, take_reverse_take hj',
    Nat.sub_sub_self hs, Nat.sub_sub_self ht] at h
  exact ⟨⟨hs, ht⟩, List.reverse_inj.mp h⟩

theorem common_longestRun (a : List Text) (b : List Line) :
    Common a (texts b) (longestRun a b) := by
  have hfound := found_longest a b
  unfold longestRun
  generalize longestFrom b 0 (b.map fun _ => 0) ⟨0, 0, 0⟩ a = r at hfound
  dsimp only
  have hbounds := hfound.bounds
  have hcommon := hfound.common
  rw [Nat.add_sub_cancel, Nat.add_sub_cancel] at hcommon
  generalize hu : commonStart (a.take r.left).reverse (b.take r.right).reverse = u
  obtain ⟨⟨hleft, hright⟩, hup⟩ := common_up (by omega) (by omega) hu.symm
  refine (hup.append ?_).append ?_
  · rwa [Nat.sub_add_cancel hleft, Nat.sub_add_cancel hright]
  · rw [← Nat.add_assoc, ← Nat.add_assoc, Nat.sub_add_cancel hleft, Nat.sub_add_cancel hright]
    exact common_down a b _ _

theorem before_push (s : Segment) (rest : List Segment) :
    (push s rest).flatMap Segment.before = s.before ++ rest.flatMap Segment.before := by
  unfold push
  split
  · simp [Segment.before]
  · rfl
  · rfl

theorem after_push (s : Segment) (rest : List Segment) :
    (push s rest).flatMap Segment.after = s.after ++ rest.flatMap Segment.after := by
  unfold push
  split
  · simp [Segment.after]
  · rfl
  · rfl

theorem take_append_middle {α : Type} (l t : List α) (i n : Nat) :
    l.take i ++ ((l.drop i).take n ++ (l.drop (i + n) ++ t)) = l ++ t := by
  rw [← List.drop_drop, ← List.append_assoc ((l.drop i).take n), List.take_append_drop,
    ← List.append_assoc, List.take_append_drop]

theorem before_segmentsFrom (rest : List Segment) (fuel : Nat) (a : List Text) (b : List Line) :
    (segmentsFrom rest fuel a b).flatMap Segment.before = a ++ rest.flatMap Segment.before := by
  induction fuel generalizing rest a b with
  | zero => exact before_push _ _
  | succ fuel ih =>
    rw [segmentsFrom]
    dsimp only
    split
    · exact before_push _ _
    · rw [ih, before_push, ih]
      exact take_append_middle a _ _ _

theorem after_segmentsFrom (rest : List Segment) (fuel : Nat) (a : List Text) (b : List Line) :
    (segmentsFrom rest fuel a b).flatMap Segment.after = texts b ++ rest.flatMap Segment.after := by
  induction fuel generalizing rest a b with
  | zero => exact after_push _ _
  | succ fuel ih =>
    have hcommon := common_longestRun a b
    dsimp only [Common] at hcommon
    rw [segmentsFrom]
    dsimp only
    split
    · exact after_push _ _
    · rw [ih, after_push, ih, Segment.after, hcommon, texts_take, texts_drop]
      exact take_append_middle (texts b) _ _ _

theorem texts_mark (b : List Text) : texts (mark b) = b := by
  rw [texts, mark, List.map_map]
  exact List.map_id b

theorem before_segments (a b : List Text) : (segments a b).flatMap Segment.before = a := by
  rw [segments, before_segmentsFrom, List.flatMap_nil, List.append_nil]

theorem after_segments (a b : List Text) : (segments a b).flatMap Segment.after = b := by
  rw [segments, after_segmentsFrom, texts_mark, List.flatMap_nil, List.append_nil]

section
variable {p : Text → Bool}

def markedBy (p : Text → Bool) (a : List Text) : List Line := a.map fun t => ⟨t, p t⟩

theorem length_markedBy (p : Text → Bool) (a : List Text) : (markedBy p a).length = a.length :=
  List.length_map _

theorem getElem?_markedBy (p : Text → Bool) (a : List Text) (k : Nat) :
    (markedBy p a)[k]? = a[k]?.map fun t => ⟨t, p t⟩ := List.getElem?_map

theorem EndsAt.diagonal (h : EndsAt a (markedBy p a) i j n) :
    EndsAt a (markedBy p a) i i n ∧ EndsAt a (markedBy p a) j j n := by
  induction h with
  | nothing hi hj =>
    have hlength := length_markedBy p a
    exact ⟨.nothing hi (hlength ▸ hi), .nothing (hlength ▸ hj) hj⟩
  | @line i j n y _ hx hy hpopular ih =>
    obtain ⟨t, ht, rfl⟩ : ∃ t, a[j]? = some t ∧ (⟨t, p t⟩ : Line) = y := by
      rwa [getElem?_markedBy, Option.map_eq_some_iff] at hy
    refine ⟨.line ih.1 hx ?_ hpopular, .line ih.2 ht hy hpopular⟩
    rw [getElem?_markedBy, hx, Option.map_some]

theorem longer_eq_self {lengths : List Nat} {best : Run} (h : ∀ n ∈ lengths, n ≤ best.size) :
    longer i j best lengths = best := by
  induction lengths generalizing j with
  | nil => rfl
  | cons n ns ih =>
    rw [longer, if_neg (Nat.not_lt.mpr (h n List.mem_cons_self))]
    exact ih fun m hm => h m (.tail n hm)

theorem longer_append (lengths lengths' : List Nat) (best : Run) :
    longer i j best (lengths ++ lengths') =
      longer i (j + lengths.length) (longer i j best lengths) lengths' := by
  induction lengths generalizing j best with
  | nil => rfl
  | cons n ns ih =>
    rw [List.cons_append, longer, longer, ih, List.length_cons, Nat.add_right_comm, Nat.add_assoc]

/-- The best run begins at one index of the list taken twice, and is at least as long as all runs
up to here that do. -/
structure OnDiagonal (a : List Text) (b : List Line) (i : Nat) (best : Run) : Prop where
  left_eq : best.left = best.right
  le_size : ∀ k ≤ i, ∀ n, EndsAt a b k k n → n ≤ best.size

theorem OnDiagonal.next {lengths : List Nat} {best : Run}
    (h : OnDiagonal a (markedBy p a) i best) (hi : i < a.length)
    (hrow : IsRow a (markedBy p a) (i + 1) lengths) :
    OnDiagonal a (markedBy p a) (i + 1) (longer i 0 best lengths) := by
  have hlength : i < lengths.length := by rwa [hrow.length_eq, length_markedBy]
  have hhere := hrow.longestAt i _ (List.getElem?_eq_getElem hlength)
  generalize hn : lengths[i] = n at hhere
  have hsplit : lengths = lengths.take i ++ n :: lengths.drop (i + 1) := by
    rw [← hn, ← List.drop_eq_getElem_cons hlength, List.take_append_drop]
  -- A run that ends in the row at another index ends on the diagonal too: there it has been found
  -- before, or it is found next.
  have hbefore : ∀ m ∈ lengths.take i, m ≤ best.size := by
    intro m hm
    obtain ⟨k, hk⟩ := List.mem_iff_getElem?.mp hm
    have hki : k < i := by
      have := (List.getElem?_eq_some_iff.mp hk).1
      rw [List.length_take] at this
      omega
    rw [List.getElem?_take_of_lt hki] at hk
    exact h.le_size (k + 1) hki m (hrow.longestAt k m hk).endsAt.diagonal.2
  have hbehind : ∀ m ∈ lengths.drop (i + 1), m ≤ n := by
    intro m hm
    obtain ⟨k, hk⟩ := List.mem_iff_getElem?.mp hm
    rw [List.getElem?_drop] at hk
    exact hhere.greatest m (hrow.longestAt _ m hk).endsAt.diagonal.1
  have hbest : ∀ m, m ≤ best.size ∨ m ≤ n →
      m ≤ (if best.size < n then (⟨i + 1 - n, i + 1 - n, n⟩ : Run) else best).size := by
    intro m hm
    split
    · next hlt => exact hm.elim (fun hm => Nat.le_of_lt (Nat.lt_of_le_of_lt hm hlt)) id
    · next hle => exact hm.elim id fun hm => Nat.le_trans hm (Nat.not_lt.mp hle)
  have hlonger : longer i 0 best lengths =
      if best.size < n then ⟨i + 1 - n, i + 1 - n, n⟩ else best := by
    rw [hsplit, longer_append, longer_eq_self hbefore, List.length_take,
      Nat.min_eq_left (Nat.le_of_lt hlength), Nat.zero_add, longer]
    exact longer_eq_self fun m hm => hbest m (.inr (hbehind m hm))
  rw [hlonger]
  constructor
  · split
    · rfl
    · exact h.left_eq
  · intro k hk m hm
    refine hbest m ?_
    rcases Nat.lt_or_eq_of_le hk with hk | rfl
    · exact .inl (h.le_size k (Nat.le_of_lt_succ hk) m hm)
    · exact .inr (hhere.greatest m hm)

theorem longestFrom_diagonal {lengths : List Nat} {best : Run}
    (hrow : IsRow a (markedBy p a) i lengths) (h : OnDiagonal a (markedBy p a) i best) :
    (longestFrom (markedBy p a) i lengths best (a.drop i)).left =
      (longestFrom (markedBy p a) i lengths best (a.drop i)).right := by
  generalize hrest : a.drop i = rest
  induction rest generalizing i lengths best with
  | nil => exact h.left_eq
  | cons x rest ih =>
    obtain ⟨hx, hrest'⟩ := head_of_drop hrest
    have hnext := hrow.next hx
    exact ih hnext (h.next (List.getElem?_eq_some_iff.mp hx).1 hnext) hrest'

theorem commonStart_self (p : Text → Bool) (l : List Text) :
    commonStart l (markedBy p l) = l.length := by
  induction l with
  | nil => rfl
  | cons x l ih => rw [markedBy, List.map_cons, commonStart, if_pos rfl, ← markedBy, ih,
      List.length_cons]

theorem longestRun_self (p : Text → Bool) (a : List Text) :
    longestRun a (markedBy p a) = ⟨0, 0, a.length⟩ := by
  have hdiagonal : OnDiagonal a (markedBy p a) 0 ⟨0, 0, 0⟩ := by
    refine ⟨rfl, fun k hk n hn => ?_⟩
    have := hn.bounds
    omega
  have hleft := longestFrom_diagonal (isRow_zero a (markedBy p a)) hdiagonal
  have hfound := found_longest a (markedBy p a)
  rw [List.drop_zero] at hleft
  unfold longestRun
  generalize longestFrom (markedBy p a) 0 ((markedBy p a).map fun _ => 0) ⟨0, 0, 0⟩ a = r
    at hleft hfound
  have hbounds := hfound.bounds
  have hup : (markedBy p a).take r.left = markedBy p (a.take r.left) := List.map_take.symm
  have hdown : (markedBy p a).drop (r.left + r.size) = markedBy p (a.drop (r.left + r.size)) :=
    List.map_drop.symm
  have hreverse : (markedBy p (a.take r.left)).reverse = markedBy p (a.take r.left).reverse :=
    List.map_reverse.symm
  dsimp only
  rw [← hleft, hup, hdown, hreverse, commonStart_self, commonStart_self, List.length_reverse,
    List.length_take, List.length_drop, Nat.min_eq_left (by omega), Nat.sub_self, Run.mk.injEq]
  omega

theorem segmentsFrom_nil (rest : List Segment) (fuel : Nat) :
    segmentsFrom rest fuel [] [] = rest := by
  cases fuel <;> rfl

theorem segments_self (a : List Text) : segments a a = if a = [] then [] else [.kept a] := by
  obtain ⟨p, hp⟩ : ∃ p, mark a = markedBy p a := ⟨_, rfl⟩
  have hdrop : (markedBy p a).drop a.length = [] := by
    rw [← length_markedBy p a, List.drop_length]
  rw [segments, segmentsFrom, hp, longestRun_self]
  dsimp only
  rw [Nat.zero_add, List.drop_length, List.drop_zero, List.take_length, List.take_zero,
    List.take_zero, hdrop, segmentsFrom_nil, segmentsFrom_nil]
  by_cases ha : a = []
  · subst ha
    rfl
  · rw [if_neg (mt List.eq_nil_of_length_eq_zero ha), if_neg ha]
    rfl

end

end SourceEdit.Diff
