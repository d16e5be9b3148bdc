import Mathlib.Data.Set.Basic
import Mathlib.Order.Nat
import SourceEdit.Proofs.LiteralPattern

set_option autoImplicit false

namespace SourceEdit

namespace Text

/-- The text `s` is at this offset, and with no word character on either side if it has to be a whole
word. -/
structure OccursAt (t s : Text) (wholeWord : Bool) (k : Nat) : Prop where
  le : k ≤ t.length
  starts : s <+: t.drop k
  noWordBefore : wholeWord = true → (t.take k).getLast?.any isWord = false
  noWordAfter : wholeWord = true → t[k + s.length]?.any isWord = false

instance (t s : Text) (wholeWord : Bool) (k : Nat) : Decidable (t.OccursAt s wholeWord k) :=
  decidable_of_iff (k ≤ t.length ∧ s <+: t.drop k ∧
      (wholeWord = true → (t.take k).getLast?.any isWord = false) ∧
      (wholeWord = true → t[k + s.length]?.any isWord = false))
    ⟨fun ⟨le, starts, before, after⟩ => ⟨le, starts, before, after⟩,
      fun ⟨le, starts, before, after⟩ => ⟨le, starts, before, after⟩⟩

theorem OccursAt.stop_le {t s : Text} {wholeWord : Bool} {k : Nat} (h : t.OccursAt s wholeWord k) :
    k + s.length ≤ t.length := by
  have hlength := h.starts.length_le
  have hle := h.le
  rw [List.length_drop] at hlength
  omega

def point (t : Text) (k : Nat) : Point := ⟨(t.take k).reverse, t.drop k, k, []⟩

theorem point_append (front rest : Text) :
    point (front ++ rest) front.length = ⟨front.reverse, rest, front.length, []⟩ := by
  simp [point]

theorem wordBefore_point (t : Text) (k : Nat) :
    (t.point k).wordBefore = (t.take k).getLast?.any isWord := by
  rw [Point.wordBefore, point, List.head?_reverse]

theorem wordAfter_advance (t : Text) (k n : Nat) :
    ((t.point k).advance n).wordAfter = t[k + n]?.any isWord := by
  rw [Point.wordAfter, Point.advance, point, List.drop_drop, List.head?_drop]

end Text

namespace Needle

open Text (point OccursAt)

theorem step_point {t : Text} {k : Nat} (hk : k ≤ t.length) (s : Text) (wholeWord : Bool) :
    step s wholeWord (t.point k) =
      if t.OccursAt s wholeWord k then some ((t.point k).advance s.length) else none := by
  have hiff : (s <+: (t.point k).ahead ∧ (wholeWord = true → (t.point k).wordBefore = false ∧
      ((t.point k).advance s.length).wordAfter = false)) ↔ t.OccursAt s wholeWord k := by
    rw [Text.wordBefore_point, Text.wordAfter_advance]
    exact ⟨fun ⟨hstarts, hword⟩ =>
        ⟨hk, hstarts, fun hw => (hword hw).1, fun hw => (hword hw).2⟩,
      fun h => ⟨h.starts, fun hw => ⟨h.noWordBefore hw, h.noWordAfter hw⟩⟩⟩
  simp only [step, hiff]

def found (s : Text) (k : Nat) : Match := ⟨⟨k, k + s.length⟩, []⟩

theorem matchAt?_point {p : Pattern} {s : Text} {wholeWord : Bool}
    (hp : Pattern.Steps p (step s wholeWord)) {t : Text} {k : Nat} (hk : k ≤ t.length) :
    p.matchAt? (t.point k) = if t.OccursAt s wholeWord k then some (found s k) else none := by
  rw [Pattern.matchAt?, hp.run, step_point hk]
  split <;> rfl

end Needle

namespace Pattern

/-- What is found at a point, if the search has to look there. -/
def matchFrom? (p : Pattern) (start : Nat) (q : Point) : Option Match :=
  if start ≤ q.offset then p.matchAt? q else none

/-- The search looks at one offset after the other, and always with the whole text around it. -/
theorem firstFrom?_eq (p : Pattern) (start : Nat) (front rest : Text) :
    p.firstFrom? start front.reverse front.length rest =
      (List.range' front.length (rest.length + 1)).findSome? fun k =>
        p.matchFrom? start ((front ++ rest).point k) := by
  induction rest generalizing front with
  | nil =>
    rw [List.length_nil, List.range'_one, List.findSome?_singleton, Text.point_append]
    rfl
  | cons c rest ih =>
    have hnext := ih (front ++ [c])
    rw [List.append_assoc, List.singleton_append, List.length_append, List.length_singleton,
      List.reverse_append, List.reverse_singleton, List.singleton_append] at hnext
    have hhere : (if start ≤ front.length then
        p.matchAt? ⟨front.reverse, c :: rest, front.length, []⟩ else none) =
          p.matchFrom? start ((front ++ c :: rest).point front.length) := by
      rw [Text.point_append]
      rfl
    have hrange : List.range' front.length (rest.length + 1 + 1) =
        front.length :: List.range' (front.length + 1) (rest.length + 1) := List.range'_succ
    rw [firstFrom?, hhere, List.length_cons, hrange, List.findSome?_cons, ← hnext]
    cases p.matchFrom? start ((front ++ c :: rest).point front.length) <;> rfl

theorem first?_eq (p : Pattern) (t : Text) (start : Nat) : p.first? t start =
    (List.range (t.length + 1)).findSome? fun k => p.matchFrom? start (t.point k) := by
  rw [List.range_eq_range']
  exact p.firstFrom?_eq start [] t

end Pattern

namespace Text

theorem findSome?_eq_map_find? {ks : List Nat} {f : Nat → Option Match} {q : Nat → Bool}
    {g : Nat → Match} (h : ∀ k ∈ ks, f k = if q k then some (g k) else none) :
    ks.findSome? f = (ks.find? q).map g := by
  induction ks with
  | nil => rfl
  | cons k ks ih =>
    obtain ⟨hk, hks⟩ := List.forall_mem_cons.mp h
    rw [List.findSome?_cons, List.find?_cons, hk, ih hks]
    cases q k <;> rfl

theorem findForward?_eq {p : Pattern} {s : Text} {wholeWord : Bool}
    (hp : Pattern.Steps p (Needle.step s wholeWord)) (t : Text) (start : Nat) :
    t.findForward? p start = ((List.range (t.length + 1)).find? fun k =>
      decide (start ≤ k ∧ t.OccursAt s wholeWord k)).map fun k => ⟨k, k + s.length⟩ := by
  rw [findForward?, Pattern.first?_eq, findSome?_eq_map_find? (g := Needle.found s) fun k hk => ?_,
    Option.map_map]
  · rfl
  · have hle : k ≤ t.length := Nat.le_of_lt_succ (List.mem_range.mp hk)
    rw [Pattern.matchFrom?, Needle.matchAt?_point hp hle]
    by_cases hstart : start ≤ k <;> simp [point, hstart]

end Text

namespace Document

/-- The offset at which a search starts. -/
def searchStart (d : Document) (start : Option Int) : Nat := start.elim d.position d.text.clamp

theorem find?_of_pattern {n : Needle} {p : Pattern} (h : n.pattern = .ok p) (d : Document)
    (start : Option Int) (backward : Bool) : d.find? n start backward =
      .ok (if backward then d.text.findBackward? p (d.searchStart start)
        else d.text.findForward? p (d.searchStart start)) := by
  unfold find?
  rw [h]
  cases start <;> rfl

/-- A search forward for a text as it stands never fails. From any place on, or from the cursor, it
finds the first offset at which the text occurs, as a whole word if that is asked for, and nothing if
there is none. -/
theorem find?_forward_least (d : Document) (s : Text) (start : Option Int) (wholeWord : Bool) :
    let places := {k | d.searchStart start ≤ k ∧ d.text.OccursAt s wholeWord k}
    (∀ k, d.find? ⟨s, false, wholeWord⟩ start false = .ok (some ⟨k, k + s.length⟩) ↔
      IsLeast places k) ∧
    (d.find? ⟨s, false, wholeWord⟩ start false = .ok none ↔ places = ∅) := by
  intro places
  obtain ⟨p, hp, hsteps⟩ := Needle.exists_pattern s wholeWord
  have hfind := find?_of_pattern hp d start false
  rw [if_neg Bool.false_ne_true, Text.findForward?_eq hsteps] at hfind
  have hinside : ∀ k ∈ places, k ∈ List.range (d.text.length + 1) := fun k hk =>
    List.mem_range.mpr (Nat.lt_succ_of_le hk.2.le)
  rw [hfind]
  refine ⟨fun k => ?_, ?_⟩
  · simp only [Except.ok.injEq, Option.map_eq_some_iff, Span.mk.injEq, List.find?_range_eq_some,
      decide_eq_true_eq, Bool.not_eq_true', decide_eq_false_iff_not]
    constructor
    · rintro ⟨k', ⟨hk', -, hbefore⟩, rfl, -⟩
      exact ⟨hk', fun j hj => Nat.le_of_not_lt fun hlt => hbefore j hlt hj⟩
    · intro h
      exact ⟨k, ⟨h.1, hinside k h.1, fun j hlt hj => Nat.not_le_of_lt hlt (h.2 hj)⟩, rfl, rfl⟩
  · simp only [Except.ok.injEq, Option.map_eq_none_iff, List.find?_eq_none, decide_eq_true_eq]
    constructor
    · exact fun h => Set.eq_empty_of_forall_notMem fun k hk => h k (hinside k hk) hk
    · intro h k _ hk
      have hmem : k ∈ places := hk
      rw [h] at hmem
      exact hmem

example :
    let d := new .text ['a', 'x', 'b', 'a', '.', 'b'] none
    d.find? ⟨['a', '.', 'b'], false, false⟩ (some (-3)) false = .ok (some ⟨3, 6⟩) ∧
      d.find? ⟨['a', '.', 'b'], false, true⟩ (some 3) false = .ok none := by
  decide +kernel

end Document

end SourceEdit
