import SourceEdit.Proofs.IncludeLines
import SourceEdit.Proofs.MatchSpans

set_option autoImplicit false

namespace SourceEdit

namespace Span

/-- On this line of the text, counted from zero. -/
def OnLine (t : Text) (k : Nat) (s : Span) : Prop :=
  ∃ l, (Text.lines t)[k]? = some l ∧ s.Between (t.afterNewlines k) (t.afterNewlines k + l.length)

/-- Each on a line, and the line of the first is above that of the second. -/
def Above (t : Text) (s s' : Span) : Prop := ∃ k k', k < k' ∧ s.OnLine t k ∧ s'.OnLine t k'

variable {t : Text} {s s' : Span} {k : Nat}

theorem OnLine.between (h : s.OnLine t k) : s.Between 0 t.length := by
  obtain ⟨l, hl, hs⟩ := h
  exact hs.mono (Nat.zero_le _) (Text.line_end_le hl)

theorem OnLine.count_take (h : s.OnLine t k) {o : Nat} (hstart : s.start ≤ o) (hstop : o ≤ s.stop) :
    (t.take o).count '\n' = k := by
  obtain ⟨l, hl, hs⟩ := h
  have hfirst := hs.first_le
  have hlast := hs.stop_le
  have ho : o = t.afterNewlines k + (o - t.afterNewlines k) := by omega
  rw [ho, Text.count_take_line hl (by omega)]

theorem Above.stop_le_start (h : s.Above t s') : s.stop ≤ s'.start := by
  obtain ⟨k, k', hlt, ⟨l, hl, hs⟩, l', hl', hs'⟩ := h
  have hline := Text.line_end_lt hl hl' hlt
  have hstop := hs.stop_le
  have hstart := hs'.first_le
  omega

end Span

namespace Directive

theorem getElem?_placedFrom (offset : Nat) (t : Text) (k : Nat) :
    (placedFrom offset (Text.lines t))[k]? =
      ((Text.lines t)[k]?).map fun l => (offset + t.afterNewlines k, l) := by
  induction t using Text.line_induction generalizing offset k with
  | last raw hraw =>
    rw [Text.lines_of_not_mem hraw, placedFrom, placedFrom]
    cases k with
    | zero => rw [Text.afterNewlines_zero]; rfl
    | succ k => rfl
  | more raw rest hraw ih =>
    rw [Text.lines_append, Text.lines_of_not_mem hraw, List.singleton_append, placedFrom]
    cases k with
    | zero => rw [Text.afterNewlines_zero]; rfl
    | succ k =>
      rw [List.getElem?_cons_succ, List.getElem?_cons_succ, ih, Text.afterNewlines_append hraw]
      congr 1
      funext l
      rw [Nat.add_assoc offset, Nat.add_assoc offset]

def IsLine (t : Text) (k : Nat) (l : Nat × Text) : Prop :=
  (Text.lines t)[k]? = some l.2 ∧ l.1 = t.afterNewlines k

theorem isLine_of_getElem? {t : Text} {k : Nat} {l : Nat × Text} (h : (placed t)[k]? = some l) :
    IsLine t k l := by
  have hplaced : (placed t)[k]? = _ := getElem?_placedFrom 0 t k
  rw [h] at hplaced
  obtain ⟨raw, hraw, rfl⟩ := Option.map_eq_some_iff.mp hplaced.symm
  exact ⟨hraw, Nat.zero_add _⟩

theorem exists_isLine_of_mem_placed {t : Text} {l : Nat × Text} (h : l ∈ placed t) :
    ∃ k, IsLine t k l := by
  obtain ⟨k, hk⟩ := List.mem_iff_getElem?.mp h
  exact ⟨k, isLine_of_getElem? hk⟩

def LineAbove (t : Text) (l l' : Nat × Text) : Prop :=
  ∃ k k', k < k' ∧ IsLine t k l ∧ IsLine t k' l'

theorem pairwise_placed (t : Text) : (placed t).Pairwise (LineAbove t) := by
  refine List.pairwise_iff_getElem.mpr fun k k' hk hk' hlt => ⟨k, k', hlt, ?_, ?_⟩
  · exact isLine_of_getElem? (List.getElem?_eq_getElem hk)
  · exact isLine_of_getElem? (List.getElem?_eq_getElem hk')

theorem IsLine.onLine_shift {t : Text} {k : Nat} {l : Nat × Text} (h : IsLine t k l) {s : Span}
    (hstart : s.start ≤ s.stop) (hstop : s.stop ≤ l.2.length) : (shift l.1 s).OnLine t k := by
  obtain ⟨hl, hoffset⟩ := h
  refine ⟨l.2, hl, ?_⟩
  rw [← hoffset]
  exact ⟨Nat.le_add_right _ _, Nat.add_le_add_left hstart _, Nat.add_le_add_left hstop _⟩

theorem LineAbove.shift {t : Text} {l l' : Nat × Text} (h : LineAbove t l l') {s s' : Span}
    (hs : s.start ≤ s.stop ∧ s.stop ≤ l.2.length) (hs' : s'.start ≤ s'.stop ∧ s'.stop ≤ l'.2.length) :
    (shift l.1 s).Above t (shift l'.1 s') := by
  obtain ⟨k, k', hlt, hk, hk'⟩ := h
  exact ⟨k, k', hlt, hk.onLine_shift hs.1 hs.2, hk'.onLine_shift hs'.1 hs'.2⟩

section
variable {find? : Text → Option Span} (hbounds : FindsParts find?)
include hbounds

theorem exists_onLine_of_mem_onEachLine {t : Text} {s : Span} (h : s ∈ onEachLine find? t) :
    ∃ k, s.OnLine t k := by
  obtain ⟨l, hl, hfound⟩ := List.mem_filterMap.mp h
  obtain ⟨s, hs, rfl⟩ := Option.map_eq_some_iff.mp hfound
  obtain ⟨hstart, hstop⟩ := hbounds hs
  obtain ⟨k, hk⟩ := exists_isLine_of_mem_placed hl
  exact ⟨k, hk.onLine_shift (Nat.le_of_lt hstart) hstop⟩

theorem pairwise_onEachLine (t : Text) : (onEachLine find? t).Pairwise (Span.Above t) := by
  refine (pairwise_placed t).filterMap _ ?_
  intro l l' hlines _ hfound _ hfound'
  obtain ⟨s, hs, rfl⟩ := Option.map_eq_some_iff.mp hfound
  obtain ⟨s', hs', rfl⟩ := Option.map_eq_some_iff.mp hfound'
  exact hlines.shift ((hbounds hs).imp_left Nat.le_of_lt) ((hbounds hs').imp_left Nat.le_of_lt)

end

theorem guardName?_of_isEmptyLine {line : Text} (h : isEmptyLine line = true) :
    guardName? line = none := by
  have hnone : behind? ['i', 'f', 'n', 'd', 'e', 'f'] line = none := by
    rw [isEmptyLine, Bool.or_eq_true, decide_eq_true_eq, decide_eq_true_eq] at h
    rcases h with h | h <;> simp [behind?, h]
  rw [guardName?, argument?, hnone]
  rfl

theorem guardName?_of_definedName? {name line : Text} {s : Span}
    (h : definedName? name line = some s) : guardName? line = none := by
  obtain ⟨rest, hrest, -⟩ := Option.bind_eq_some_iff.mp h
  obtain ⟨behind, hbehind, -⟩ := Option.bind_eq_some_iff.mp hrest
  have hnone : behind? ['i', 'f', 'n', 'd', 'e', 'f'] line = none := by
    unfold behind? at hbehind ⊢
    split at hbehind
    · next tail hline =>
      dsimp only at hbehind
      split at hbehind
      · next hdefine =>
        obtain ⟨more, hmore⟩ := List.isPrefixOf_iff_prefix.mp hdefine
        dsimp only
        rw [← hmore]
        rfl
      · contradiction
    · contradiction
  rw [guardName?, argument?, hnone]
  rfl

theorem guardName?_bounds {line : Text} {s : Span} (h : guardName? line = some s) :
    s.start ≤ s.stop ∧ s.stop ≤ line.length := by
  obtain ⟨rest, hrest, hs⟩ := Option.bind_eq_some_iff.mp h
  obtain ⟨-, hlength⟩ := argument?_bounds hrest
  dsimp only at hs
  split at hs
  · obtain rfl := Option.some.inj hs
    have hname := (List.takeWhile_prefix Text.isWord (l := rest)).length_le
    simp only [columns]
    omega
  · contradiction

/-- A guard begins on the first line and ends on another; only empty lines are between the two. -/
theorem guardAt?_eq_some {l : Nat × Text} {ls : List (Nat × Text)} {name value : Span}
    (h : guardAt? (l :: ls) = some (name, value)) :
    ∃ gap l' rest, ls = gap ++ l' :: rest ∧ (∀ g ∈ gap, isEmptyLine g.2 = true) ∧
      (∃ s, guardName? l.2 = some s ∧ name = shift l.1 s) ∧
      ∃ word s, definedName? word l'.2 = some s ∧ value = shift l'.1 s := by
  obtain ⟨s, hs, h⟩ := Option.bind_eq_some_iff.mp h
  split at h
  · contradiction
  · next offset line rest hrest =>
    obtain ⟨s', hs', heq⟩ := Option.map_eq_some_iff.mp h
    obtain ⟨rfl, rfl⟩ := Prod.mk.inj heq
    refine ⟨ls.takeWhile fun l => isEmptyLine l.2, (offset, line), rest, ?_, fun g hg => ?_,
      ⟨s, hs, rfl⟩, _, s', hs', rfl⟩
    · rw [← hrest, List.takeWhile_append_dropWhile]
    · have hempty := List.mem_takeWhile_imp hg
      exact hempty

theorem exists_guardAt?_of_mem_guards {ls : List (Nat × Text)} {g : Span × Span}
    (h : g ∈ guards ls) : ∃ l rest, l :: rest <:+ ls ∧ guardAt? (l :: rest) = some g := by
  induction ls with
  | nil => simp [guards] at h
  | cons l ls ih =>
    rw [guards, List.mem_append] at h
    rcases h with h | h
    · exact ⟨l, ls, List.suffix_rfl, Option.mem_toList.mp h⟩
    · obtain ⟨l', rest, hsuffix, hl'⟩ := ih h
      exact ⟨l', rest, hsuffix.trans (List.suffix_cons l ls), hl'⟩

theorem guards_append {gap : List (Nat × Text)} (hgap : ∀ l ∈ gap, guardName? l.2 = none)
    (ls : List (Nat × Text)) : guards (gap ++ ls) = guards ls := by
  induction gap with
  | nil => rfl
  | cons l gap ih =>
    have hnone : guardAt? (l :: (gap ++ ls)) = none := by
      rw [guardAt?, hgap l List.mem_cons_self]
      rfl
    rw [List.cons_append, guards, hnone, Option.toList_none, List.nil_append,
      ih fun l hl => hgap l (.tail _ hl)]

theorem guards_behind {gap : List (Nat × Text)} (hgap : ∀ l ∈ gap, isEmptyLine l.2 = true)
    {l : Nat × Text} {word : Text} {s : Span} (hl : definedName? word l.2 = some s)
    (behind : List (Nat × Text)) : guards (gap ++ l :: behind) = guards behind := by
  have hnone : ∀ m ∈ gap ++ [l], guardName? m.2 = none :=
    List.forall_mem_append.mpr ⟨fun m hm => guardName?_of_isEmptyLine (hgap m hm),
      List.forall_mem_singleton.mpr (guardName?_of_definedName? hl)⟩
  rw [List.append_cons, guards_append hnone]

section
variable {t : Text} {ls : List (Nat × Text)}

theorem exists_definedName_of_mem_guards {g : Span × Span} (h : g ∈ guards ls) :
    ∃ l ∈ ls, ∃ word s, definedName? word l.2 = some s ∧ g.2 = shift l.1 s := by
  obtain ⟨l, rest, hsuffix, hl⟩ := exists_guardAt?_of_mem_guards h
  obtain ⟨gap, l', behind, rfl, -, -, hdefined⟩ := guardAt?_eq_some hl
  exact ⟨l', hsuffix.subset (by simp), hdefined⟩

variable (hls : ls.Pairwise (LineAbove t))
include hls

theorem above_of_mem_guards {g : Span × Span} (h : g ∈ guards ls) : g.1.Above t g.2 := by
  obtain ⟨l, rest, hsuffix, hl⟩ := exists_guardAt?_of_mem_guards h
  obtain ⟨gap, l', behind, rfl, -, ⟨s, hs, hname⟩, word, s', hs', hvalue⟩ := guardAt?_eq_some hl
  have hlines := (List.pairwise_cons.mp (hls.sublist hsuffix.sublist)).1 l' (by simp)
  rw [hname, hvalue]
  exact hlines.shift (guardName?_bounds hs) (definedName?_bounds hs').2

theorem pairwise_guards : (guards ls).Pairwise fun g g' => g.2.Above t g'.1 := by
  induction ls with
  | nil => exact .nil
  | cons l ls ih =>
    obtain ⟨-, hrest⟩ := List.pairwise_cons.mp hls
    rw [guards, List.pairwise_append]
    refine ⟨?_, ih hrest, fun g hg g' hg' => ?_⟩
    · cases guardAt? (l :: ls) with
      | none => exact .nil
      | some g => exact List.pairwise_singleton _ _
    · obtain ⟨gap, m, behind, rfl, hgap, -, word, s, hs, hvalue⟩ :=
        guardAt?_eq_some (Option.mem_toList.mp hg)
      rw [guards_behind hgap hs] at hg'
      obtain ⟨l', rest, hsuffix, hl'⟩ := exists_guardAt?_of_mem_guards hg'
      obtain ⟨-, -, -, -, -, ⟨s', hs', hname⟩, -⟩ := guardAt?_eq_some hl'
      have hmem : l' ∈ behind := hsuffix.subset List.mem_cons_self
      have hlines := (List.pairwise_cons.mp (List.pairwise_append.mp hrest).2.1).1 l' hmem
      rw [hvalue, hname]
      exact hlines.shift (definedName?_bounds hs).2 (guardName?_bounds hs')

end

end Directive

end SourceEdit
