import SourceEdit.Proofs.LiteralSearch
import SourceEdit.Proofs.MatchSpans

/-!
Search backward for a text as it stands. The matches are taken from the beginning of the text, each
behind the end of the one before, and the text is cut where the search starts. The last of them is the
last occurrence if no other occurrence begins inside of it and no word goes on behind the cut.
-/

set_option autoImplicit false

namespace SourceEdit

namespace Text

variable {t s : Text} {wholeWord : Bool} {start : Nat} {ks : List Nat}

/-- The occurrences that a scan from an offset on takes: none begins inside of one that is taken, and
every occurrence that is not taken does. -/
structure IsScan (t s : Text) (wholeWord : Bool) (start : Nat) (ks : List Nat) : Prop where
  occurs : ∀ k ∈ ks, start ≤ k ∧ t.OccursAt s wholeWord k
  apart : ks.Pairwise fun a b => a + s.length ≤ b
  covers : ∀ k, start ≤ k → t.OccursAt s wholeWord k → ∃ a ∈ ks, a ≤ k ∧ k < a + s.length

theorem isScan_nil (h : ∀ k, start ≤ k → ¬t.OccursAt s wholeWord k) :
    t.IsScan s wholeWord start [] where
  occurs _ hk := absurd hk List.not_mem_nil
  apart := .nil
  covers k hk hoccurs := absurd hoccurs (h k hk)

theorem IsScan.cons {k : Nat} (h : t.IsScan s wholeWord (k + s.length) ks)
    (hk : t.OccursAt s wholeWord k) : t.IsScan s wholeWord k (k :: ks) where
  occurs := List.forall_mem_cons.mpr
    ⟨⟨Nat.le_refl k, hk⟩, fun j hj => ⟨Nat.le_of_add_right_le (h.occurs j hj).1, (h.occurs j hj).2⟩⟩
  apart := List.pairwise_cons.mpr ⟨fun j hj => (h.occurs j hj).1, h.apart⟩
  covers j hj hoccurs := by
    by_cases hinside : j < k + s.length
    · exact ⟨k, List.mem_cons_self, hj, hinside⟩
    · obtain ⟨a, ha, hcovers⟩ := h.covers j (Nat.le_of_not_lt hinside) hoccurs
      exact ⟨a, List.mem_cons_of_mem k ha, hcovers⟩

theorem IsScan.of_not_occurs (h : t.IsScan s wholeWord (start + 1) ks)
    (hstart : ¬t.OccursAt s wholeWord start) : t.IsScan s wholeWord start ks where
  occurs k hk := ⟨Nat.le_of_succ_le (h.occurs k hk).1, (h.occurs k hk).2⟩
  apart := h.apart
  covers k hk hoccurs := by
    refine h.covers k (Nat.lt_of_le_of_ne hk ?_) hoccurs
    rintro rfl
    exact hstart hoccurs

theorem IsScan.tail {k : Nat} (h : t.IsScan s wholeWord start (k :: ks)) :
    t.IsScan s wholeWord (k + s.length) ks where
  occurs j hj := ⟨(List.pairwise_cons.mp h.apart).1 j hj, (h.occurs j (List.mem_cons_of_mem k hj)).2⟩
  apart := (List.pairwise_cons.mp h.apart).2
  covers j hj hoccurs := by
    have hk := (h.occurs k List.mem_cons_self).1
    obtain ⟨a, ha, hle, hlt⟩ := h.covers j (by omega) hoccurs
    rcases List.mem_cons.mp ha with rfl | ha
    · omega
    · exact ⟨a, ha, hle, hlt⟩

theorem IsScan.head_le {k j : Nat} (h : t.IsScan s wholeWord start (k :: ks)) (hj : start ≤ j)
    (hoccurs : t.OccursAt s wholeWord j) : k ≤ j := by
  obtain ⟨a, ha, hle, -⟩ := h.covers j hj hoccurs
  rcases List.mem_cons.mp ha with rfl | ha
  · exact hle
  · exact Nat.le_trans (Nat.le_of_add_right_le (h.tail.occurs a ha).1) hle

theorem IsScan.unique {ls : List Nat} (h : t.IsScan s wholeWord start ks)
    (h' : t.IsScan s wholeWord start ls) : ks = ls := by
  induction ks generalizing start ls with
  | nil =>
    cases ls with
    | nil => rfl
    | cons l ls =>
      obtain ⟨hstart, hoccurs⟩ := h'.occurs l List.mem_cons_self
      obtain ⟨a, ha, -⟩ := h.covers l hstart hoccurs
      contradiction
  | cons k ks ih =>
    obtain ⟨hstart, hoccurs⟩ := h.occurs k List.mem_cons_self
    cases ls with
    | nil =>
      obtain ⟨a, ha, -⟩ := h'.covers k hstart hoccurs
      contradiction
    | cons l ls =>
      obtain ⟨hstart', hoccurs'⟩ := h'.occurs l List.mem_cons_self
      obtain rfl := Nat.le_antisymm (h.head_le hstart' hoccurs') (h'.head_le hstart hoccurs)
      rw [ih h.tail h'.tail]

theorem IsScan.lt_of_getLast? {k j : Nat} (h : t.IsScan s wholeWord start ks)
    (hlast : ks.getLast? = some k) (hj : start ≤ j) (hoccurs : t.OccursAt s wholeWord j) :
    j < k + s.length := by
  obtain ⟨front, rfl⟩ := List.getLast?_eq_some_iff.mp hlast
  obtain ⟨a, ha, -, hlt⟩ := h.covers j hj hoccurs
  rcases List.mem_append.mp ha with hfront | ha
  · have := (List.pairwise_append.mp h.apart).2.2 a hfront k List.mem_cons_self
    omega
  · rwa [← List.mem_singleton.mp ha]

end Text

namespace Needle

variable {p : Pattern} {s : Text} {wholeWord : Bool} (hp : Pattern.Steps p (step s wholeWord))
  (hs : s ≠ [])
include hp hs

theorem matchesAt_point {t : Text} {k : Nat} (hk : k ≤ t.length) :
    p.matchesAt (t.point k) = if t.OccursAt s wholeWord k then [found s k] else [] := by
  have hlength := List.length_pos_iff.mpr hs
  rw [Pattern.matchesAt, matchAt?_point hp hk]
  split
  · next h =>
    split at h
    · contradiction
    · next hnot => rw [if_neg hnot]
  · next m h =>
    split at h
    · next hoccurs =>
      obtain rfl := Option.some.inj h
      rw [if_pos hoccurs, if_neg]
      simp only [found, Text.point]
      omega
    · contradiction

theorem matchesHere_point {t : Text} {k : Nat} (hk : k ≤ t.length) (resume : Nat) :
    p.matchesHere resume (t.point k) =
      if resume ≤ k ∧ t.OccursAt s wholeWord k then [found s k] else [] := by
  rw [Pattern.matchesHere, matchesAt_point hp hs hk]
  by_cases hresume : resume ≤ k <;> simp [Text.point, hresume]

theorem exists_scan_matchesFrom (resume : Nat) (front rest : Text) :
    ∃ ks, p.matchesFrom resume front.reverse front.length rest = ks.map (found s) ∧
      (front ++ rest).IsScan s wholeWord (max resume front.length) ks := by
  have hlength := List.length_pos_iff.mpr hs
  induction rest generalizing resume front with
  | nil =>
    have hnot : ∀ k, front.length ≤ k → ¬(front ++ []).OccursAt s wholeWord k := by
      intro k hk hoccurs
      have hstop := hoccurs.stop_le
      rw [List.append_nil] at hstop
      omega
    have hhere : p.matchesFrom resume front.reverse front.length [] =
        p.matchesHere resume ((front ++ []).point front.length) := by
      rw [Text.point_append]
      rfl
    refine ⟨[], ?_, Text.isScan_nil fun k hk => hnot k (Nat.le_trans (Nat.le_max_right _ _) hk)⟩
    rw [hhere, matchesHere_point hp hs (by simp), if_neg fun h => hnot _ (Nat.le_refl _) h.2,
      List.map_nil]
  | cons c rest ih =>
    have hnext : ∀ resume', ∃ ks,
        p.matchesFrom resume' (c :: front.reverse) (front.length + 1) rest = ks.map (found s) ∧
          (front ++ c :: rest).IsScan s wholeWord (max resume' (front.length + 1)) ks := by
      intro resume'
      simpa using ih resume' (front ++ [c])
    rw [Pattern.matchesFrom_cons, ← Text.point_append, matchesHere_point hp hs (by simp)]
    by_cases htaken : resume ≤ front.length ∧ (front ++ c :: rest).OccursAt s wholeWord front.length
    · obtain ⟨ks, hks, hscan⟩ := hnext (front.length + s.length)
      rw [Nat.max_eq_left (by omega)] at hscan
      rw [if_pos htaken, Nat.max_eq_right htaken.1]
      refine ⟨front.length :: ks, ?_, hscan.cons htaken.2⟩
      rw [List.map_cons, ← hks]
      rfl
    · obtain ⟨ks, hks, hscan⟩ := hnext resume
      refine ⟨ks, by rw [if_neg htaken, ← hks]; rfl, ?_⟩
      by_cases hresume : resume ≤ front.length
      · rw [Nat.max_eq_right (by omega)] at hscan ⊢
        exact hscan.of_not_occurs fun hoccurs => htaken ⟨hresume, hoccurs⟩
      · have hmax : max resume (front.length + 1) = max resume front.length := by omega
        rwa [hmax] at hscan

theorem exists_scan_findBackward? (t : Text) (stop : Nat) : ∃ ks,
    Text.IsScan (t.take stop) s wholeWord 0 ks ∧
      t.findBackward? p stop = ks.getLast?.map fun k => ⟨k, k + s.length⟩ := by
  obtain ⟨ks, hks, hscan⟩ := exists_scan_matchesFrom hp hs 0 [] (t.take stop)
  refine ⟨ks, hscan, ?_⟩
  have hall : p.allMatches (t.take stop) = ks.map (found s) := hks
  rw [Text.findBackward?, hall, List.getLast?_map, Option.map_map]
  rfl

end Needle

namespace Text

variable {t s : Text} {wholeWord : Bool} {k stop : Nat}

theorem OccursAt.take (h : t.OccursAt s wholeWord k) (hstop : k + s.length ≤ stop) :
    Text.OccursAt (t.take stop) s wholeWord k where
  le := by
    have hle := h.stop_le
    rw [List.length_take]
    omega
  starts := by
    rw [List.drop_take, List.prefix_take_iff]
    exact ⟨h.starts, by omega⟩
  noWordBefore hw := by
    rw [List.take_take, Nat.min_eq_left (by omega)]
    exact h.noWordBefore hw
  noWordAfter hw := by
    have hafter := h.noWordAfter hw
    rw [List.getElem?_take]
    split
    · exact hafter
    · rfl

/-- In the text that is cut, a word may seem to end that goes on behind the cut. -/
theorem occursAt_of_take (h : Text.OccursAt (t.take stop) s wholeWord k)
    (hedge : wholeWord = true → k + s.length = stop → t[stop]?.any isWord = false) :
    t.OccursAt s wholeWord k := by
  have hle := h.stop_le
  rw [List.length_take] at hle
  refine ⟨by omega, ?_, fun hw => ?_, fun hw => ?_⟩
  · have hstarts := h.starts
    rw [List.drop_take, List.prefix_take_iff] at hstarts
    exact hstarts.1
  · have hbefore := h.noWordBefore hw
    rwa [List.take_take, Nat.min_eq_left (by omega)] at hbefore
  · by_cases hcut : k + s.length = stop
    · rw [hcut]
      exact hedge hw hcut
    · have hafter := h.noWordAfter hw
      rwa [List.getElem?_take_of_lt (by omega)] at hafter

/-- The text has itself in it again at an offset inside of it. -/
def OverlapsItself (s : Text) : Prop := ∃ n, 0 < n ∧ n < s.length ∧ s.drop n <+: s

theorem OccursAt.overlapsItself {j : Nat} (hk : t.OccursAt s wholeWord k)
    (hj : t.OccursAt s wholeWord j) (hlt : k < j) (hinside : j < k + s.length) :
    s.OverlapsItself := by
  obtain ⟨rest, hrest⟩ := hk.starts
  have hdrop : t.drop j = s.drop (j - k) ++ rest := by
    rw [← List.drop_append_of_le_length (by omega), hrest, List.drop_drop]
    congr 1
    omega
  refine ⟨j - k, by omega, by omega, ?_⟩
  refine List.prefix_of_prefix_length_le (hdrop ▸ List.prefix_append _ _) hj.starts ?_
  simp

def placesBefore (t s : Text) (wholeWord : Bool) (stop : Nat) : Set Nat :=
  {k | k + s.length ≤ stop ∧ t.OccursAt s wholeWord k}

/-- The answer with the last of these places, if there is any. -/
def IsLastOf (places : Set Nat) (length : Nat) : Option Span → Prop
  | none => places = ∅
  | some span => IsGreatest places span.start ∧ span.stop = span.start + length

theorem IsScan.isLastOf_iff {ks : List Nat} (h : IsScan (t.take stop) s wholeWord 0 ks) :
    IsLastOf (t.placesBefore s wholeWord stop) s.length
        (ks.getLast?.map fun k => ⟨k, k + s.length⟩) ↔
      ∀ k, ks.getLast? = some k →
        (wholeWord = true → k + s.length = stop → t[stop]?.any isWord = false) ∧
          ∀ j ∈ t.placesBefore s wholeWord stop, k < j → k + s.length ≤ j := by
  cases hlast : ks.getLast? with
  | none =>
    obtain rfl := List.getLast?_eq_none_iff.mp hlast
    refine iff_of_true (Set.eq_empty_of_forall_notMem fun k hk => ?_) (by simp)
    obtain ⟨a, ha, -⟩ := h.covers k (Nat.zero_le k) (hk.2.take hk.1)
    contradiction
  | some k =>
    simp only [Option.map_some, IsLastOf, and_true, Option.some.injEq, forall_eq']
    constructor
    · rintro ⟨hk, hgreatest⟩
      refine ⟨fun hw hstop => hstop ▸ hk.2.noWordAfter hw, fun j hj hlt => ?_⟩
      exact absurd (hgreatest hj) (Nat.not_le_of_lt hlt)
    · rintro ⟨hedge, hinside⟩
      have hoccurs := (h.occurs k (List.mem_of_getLast? hlast)).2
      have hstop : k + s.length ≤ stop :=
        Nat.le_trans hoccurs.stop_le (List.length_take_le stop t)
      refine ⟨⟨hstop, occursAt_of_take hoccurs hedge⟩, fun j hj => Nat.le_of_not_lt fun hlt => ?_⟩
      have hend := h.lt_of_getLast? hlast (Nat.zero_le j) (hj.2.take hj.1)
      exact Nat.not_le_of_lt hend (hinside j hj hlt)

end Text

namespace Document

/-- A search backward for a text as it stands never fails. It finds the last occurrence that a scan of
the text in front of the place takes. That is the last occurrence there, unless another one begins
inside of it, or the place is inside of the word that it is taken for. -/
theorem find?_backward_last_iff (d : Document) {s : Text} (hs : s ≠ []) (start : Option Int)
    (wholeWord : Bool) :
    let stop := d.searchStart start
    let places := d.text.placesBefore s wholeWord stop
    ∃ ks, Text.IsScan (d.text.take stop) s wholeWord 0 ks ∧
      (∀ ls, Text.IsScan (d.text.take stop) s wholeWord 0 ls → ls = ks) ∧
      let answer := ks.getLast?.map fun k => (⟨k, k + s.length⟩ : Span)
      d.find? ⟨s, false, wholeWord⟩ start true = .ok answer ∧
      (Text.IsLastOf places s.length answer ↔ ∀ k, ks.getLast? = some k →
        (wholeWord = true → k + s.length = stop → d.text[stop]?.any Text.isWord = false) ∧
          ∀ j ∈ places, k < j → k + s.length ≤ j) ∧
      (¬s.OverlapsItself → (wholeWord = true → d.text[stop]?.any Text.isWord = false) →
        Text.IsLastOf places s.length answer) := by
  intro stop places
  obtain ⟨p, hp, hsteps⟩ := Needle.exists_pattern s wholeWord
  obtain ⟨ks, hscan, hfind⟩ := Needle.exists_scan_findBackward? hsteps hs d.text stop
  have hanswer := find?_of_pattern hp d start true
  rw [if_pos rfl, hfind] at hanswer
  refine ⟨ks, hscan, fun ls hls => hls.unique hscan, hanswer, hscan.isLastOf_iff, ?_⟩
  intro hoverlap hedge
  refine hscan.isLastOf_iff.mpr fun k hlast => ⟨fun hw _ => hedge hw, fun j hj hlt => ?_⟩
  have hoccurs := (hscan.occurs k (List.mem_of_getLast? hlast)).2
  refine Nat.le_of_not_lt fun hinside => hoverlap ?_
  exact hoccurs.overlapsItself (hj.2.take hj.1) hlt hinside

theorem find?_backward_inside_word :
    let d := new .text ['f', 'o', 'o', 'b', 'a', 'r'] none
    let s : Text := ['f', 'o', 'o']
    s ≠ [] ∧ d.find? ⟨s, false, true⟩ (some 3) true = .ok (some ⟨0, 3⟩) ∧
      ¬Text.IsLastOf (d.text.placesBefore s true 3) s.length (some ⟨0, 3⟩) := by
  intro d s
  have hs : s ≠ [] := List.cons_ne_nil _ _
  have hfound : d.find? ⟨s, false, true⟩ (some 3) true = .ok (some ⟨0, 3⟩) := by decide +kernel
  obtain ⟨ks, -, -, hanswer, hlast, -⟩ := find?_backward_last_iff d hs (some 3) true
  have hks : some (⟨0, 3⟩ : Span) = ks.getLast?.map fun k => ⟨k, k + s.length⟩ :=
    Except.ok.inj (hfound.symm.trans hanswer)
  rw [← hks] at hlast
  obtain ⟨k, hk, hspan⟩ := Option.map_eq_some_iff.mp hks.symm
  obtain rfl : k = 0 := congrArg Span.start hspan
  refine ⟨hs, hfound, fun h => ?_⟩
  have hedge := (hlast.mp h 0 hk).1 rfl rfl
  revert hedge
  decide

theorem find?_backward_skips_overlap :
    let d := new .text ['a', 'a', 'a'] none
    let s : Text := ['a', 'a']
    IsGreatest (d.text.placesBefore s false 3) 1 ∧
      d.find? ⟨s, false, false⟩ (some 3) true = .ok (some ⟨0, 2⟩) := by
  intro d s
  have hoccurs : d.text.OccursAt s false 1 := by decide
  refine ⟨⟨⟨Nat.le_refl 3, hoccurs⟩, fun k hk => ?_⟩, by decide +kernel⟩
  exact Nat.le_of_add_le_add_right hk.1

end Document

end SourceEdit
