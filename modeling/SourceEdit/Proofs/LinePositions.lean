import Mathlib.Data.List.TakeDrop
import SourceEdit.Proofs.CommentScan

set_option autoImplicit false

namespace SourceEdit

namespace Text

theorem length_lines (t : Text) : (lines t).length = t.lineCount := by
  induction t using line_induction with
  | last l hl => rw [lines_of_not_mem hl, lineCount, List.count_eq_zero.mpr hl]; rfl
  | more l rest hl ih =>
    rw [lines_append, lines_of_not_mem hl, List.singleton_append, List.length_cons, ih, lineCount,
      lineCount, List.count_append, List.count_eq_zero.mpr hl, List.count_cons_self, Nat.zero_add]

theorem line_succ_eq (t : Text) (k : Nat) :
    t.line (k + 1 : Nat) = ((lines t)[k]?).getD [] := by
  have hindex : (((k + 1 : Nat) : Int) - 1).toNat = k := by omega
  rw [line, if_pos (by omega), hindex]

theorem line_zero (t : Text) : t.line (0 : Nat) = [] := rfl

theorem positionOfLine_succ (t : Text) (k : Nat) :
    t.positionOfLine (k + 1 : Nat) = afterNewlines k t := by
  rw [positionOfLine]
  congr 1
  omega

theorem afterNewlines_zero (t : Text) : afterNewlines 0 t = 0 := by cases t <;> rfl

theorem afterNewlines_append {l : Text} (hl : '\n' ∉ l) (k : Nat) (rest : Text) :
    afterNewlines (k + 1) (l ++ '\n' :: rest) = l.length + 1 + afterNewlines k rest := by
  induction l with
  | nil => simp [afterNewlines]
  | cons c l ih =>
    rw [List.mem_cons, not_or] at hl
    rw [List.cons_append, afterNewlines, if_neg (Ne.symm hl.1), ih hl.2, List.length_cons]
    omega

theorem afterNewlines_le (n : Nat) (t : Text) : afterNewlines n t ≤ t.length := by
  induction t generalizing n with
  | nil => cases n <;> simp [afterNewlines]
  | cons c rest ih =>
    cases n with
    | zero => simp [afterNewlines]
    | succ n =>
      have := ih (if c = '\n' then n else n + 1)
      rw [afterNewlines, List.length_cons]
      omega

theorem afterNewlines_of_count_lt {n : Nat} {t : Text} (h : t.count '\n' < n) :
    afterNewlines n t = t.length := by
  induction t generalizing n with
  | nil => cases n <;> rfl
  | cons c rest ih =>
    cases n with
    | zero => omega
    | succ n =>
      rw [afterNewlines, List.length_cons, Nat.add_comm]
      congr 1
      refine ih ?_
      split
      · next hc => rw [hc, List.count_cons_self] at h; omega
      · next hc => rwa [List.count_cons_of_ne hc] at h

theorem afterNewlines_le_succ (n : Nat) (t : Text) :
    afterNewlines n t ≤ afterNewlines (n + 1) t := by
  induction t generalizing n with
  | nil => cases n <;> simp [afterNewlines]
  | cons c rest ih =>
    cases n with
    | zero => simp [afterNewlines]
    | succ n =>
      simp only [afterNewlines]
      split
      · exact Nat.add_le_add_left (ih n) 1
      · exact Nat.add_le_add_left (ih (n + 1)) 1

theorem count_take_afterNewlines {n : Nat} {t : Text} (h : n ≤ t.count '\n') :
    (t.take (afterNewlines n t)).count '\n' = n := by
  induction t generalizing n with
  | nil => rw [List.take_nil, Nat.le_zero.mp h]; rfl
  | cons c rest ih =>
    cases n with
    | zero => rfl
    | succ n =>
      rw [afterNewlines, Nat.add_comm, List.take_succ_cons]
      by_cases hc : c = '\n'
      · rw [hc, List.count_cons_self] at h
        rw [if_pos hc, hc, List.count_cons_self, ih (by omega)]
      · rw [List.count_cons_of_ne hc] at h
        rw [if_neg hc, List.count_cons_of_ne hc, ih h]

theorem afterNewlines_count_append (a b : Text) :
    afterNewlines (a.count '\n' + 1) (a ++ '\n' :: b) = a.length + 1 := by
  induction a using line_induction with
  | last l hl => rw [List.count_eq_zero.mpr hl, afterNewlines_append hl, afterNewlines_zero]
  | more l rest hl ih =>
    have hcount : (l ++ '\n' :: rest).count '\n' = rest.count '\n' + 1 := by
      rw [List.count_append, List.count_eq_zero.mpr hl, List.count_cons_self, Nat.zero_add]
    rw [hcount, List.append_assoc, List.cons_append, afterNewlines_append hl, ih]
    simp only [List.length_append, List.length_cons]
    omega

theorem positionOfLine_le (t : Text) (number : Int) : t.positionOfLine number ≤ t.length :=
  afterNewlines_le _ t

theorem positionOfLine_le_succ (t : Text) (k : Nat) :
    t.positionOfLine k ≤ t.positionOfLine (k + 1 : Nat) := by
  cases k with
  | zero => exact Nat.le_refl _
  | succ k =>
    rw [positionOfLine_succ, positionOfLine_succ]
    exact afterNewlines_le_succ k t

theorem positionOfLine_lineCount_succ (t : Text) :
    t.positionOfLine (t.lineCount + 1 : Nat) = t.length := by
  rw [positionOfLine_succ]
  exact afterNewlines_of_count_lt (Nat.lt_succ_self _)

theorem slice_from_line {t l : Text} {k a b : Nat} (h : (lines t)[k]? = some l) (hb : b ≤ l.length) :
    t.slice (afterNewlines k t + a) (afterNewlines k t + b) = l.slice a b := by
  induction t using line_induction generalizing k with
  | last raw hraw =>
    rw [lines_of_not_mem hraw] at h
    cases k with
    | zero =>
      obtain rfl := Option.some.inj h
      simp [afterNewlines_zero]
    | succ k => simp at h
  | more raw rest hraw ih =>
    rw [lines_append, lines_of_not_mem hraw, List.singleton_append] at h
    cases k with
    | zero =>
      obtain rfl := Option.some.inj h
      rw [afterNewlines_zero, Nat.zero_add, Nat.zero_add, slice, slice,
        List.take_append_of_le_length hb]
    | succ k =>
      rw [List.getElem?_cons_succ] at h
      have hshift : ∀ n, raw.length + 1 + afterNewlines k rest + n =
          (raw ++ ['\n']).length + (afterNewlines k rest + n) := by
        intro n
        rw [List.length_append, List.length_singleton]
        omega
      rw [afterNewlines_append hraw, ← ih h, hshift, hshift, slice, slice,
        show raw ++ '\n' :: rest = (raw ++ ['\n']) ++ rest by simp,
        List.take_length_add_append, List.drop_length_add_append]

theorem count_take_line {t l : Text} {k j : Nat} (h : (lines t)[k]? = some l) (hj : j ≤ l.length) :
    (t.take (afterNewlines k t + j)).count '\n' = k := by
  induction t using line_induction generalizing k with
  | last raw hraw =>
    rw [lines_of_not_mem hraw] at h
    cases k with
    | zero => exact List.count_eq_zero.mpr fun hmem => hraw (List.mem_of_mem_take hmem)
    | succ k => simp at h
  | more raw rest hraw ih =>
    rw [lines_append, lines_of_not_mem hraw, List.singleton_append] at h
    cases k with
    | zero =>
      obtain rfl := Option.some.inj h
      rw [afterNewlines_zero, Nat.zero_add, List.take_append_of_le_length hj]
      exact List.count_eq_zero.mpr fun hmem => hraw (List.mem_of_mem_take hmem)
    | succ k =>
      rw [List.getElem?_cons_succ] at h
      have hshift : raw.length + 1 + afterNewlines k rest + j =
          (raw ++ ['\n']).length + (afterNewlines k rest + j) := by
        rw [List.length_append, List.length_singleton]
        omega
      rw [afterNewlines_append hraw, hshift, show raw ++ '\n' :: rest = (raw ++ ['\n']) ++ rest by
        simp, List.take_length_add_append, List.count_append, ih h, List.count_append,
        List.count_eq_zero.mpr hraw, List.count_singleton_self]
      omega

theorem line_end_le {t l : Text} {k : Nat} (h : (lines t)[k]? = some l) :
    afterNewlines k t + l.length ≤ t.length := by
  have hlength := congrArg List.length (slice_from_line (a := 0) h (Nat.le_refl l.length))
  have hle := afterNewlines_le k t
  simp only [slice, List.length_drop, List.length_take, Nat.min_self] at hlength
  omega

theorem line_end_lt {t l l' : Text} {k k' : Nat} (h : (lines t)[k]? = some l)
    (h' : (lines t)[k']? = some l') (hlt : k < k') :
    afterNewlines k t + l.length < afterNewlines k' t := by
  by_contra hle
  have hbegin := count_take_line h' (Nat.zero_le l'.length)
  have hend := count_take_line h (Nat.le_refl l.length)
  have hcount := (List.take_sublist_take_left (l := t) (Nat.le_of_not_lt hle)).count_le '\n'
  rw [Nat.add_zero] at hbegin
  rw [hbegin, hend] at hcount
  omega

theorem afterNewlines_count_take_le (t : Text) (o : Nat) :
    afterNewlines ((t.take o).count '\n') t ≤ o := by
  induction t generalizing o with
  | nil => simp [afterNewlines]
  | cons c rest ih =>
    cases o with
    | zero => simp [afterNewlines]
    | succ o =>
      have hrest := ih o
      rw [List.take_succ_cons]
      by_cases hc : c = '\n'
      · rw [hc, List.count_cons_self, afterNewlines, if_pos rfl]
        omega
      · rw [List.count_cons_of_ne hc]
        cases hcount : (rest.take o).count '\n' with
        | zero => simp [afterNewlines]
        | succ k =>
          rw [hcount] at hrest
          rw [afterNewlines, if_neg hc]
          omega

end Text

namespace LineIndex

theorem length_takeWhile_startsFrom (t : Text) (offset o : Nat) :
    ((startsFrom offset t).takeWhile fun s => s ≤ o).length = (t.take (o - offset)).count '\n' := by
  induction t generalizing offset with
  | nil => simp [startsFrom]
  | cons c rest ih =>
    have ih := ih (offset + 1)
    by_cases ho : offset < o
    · have hsub : o - offset = (o - (offset + 1)) + 1 := by omega
      have hle : offset + 1 ≤ o := ho
      rw [hsub, List.take_succ_cons]
      by_cases hc : c = '\n' <;> simp [startsFrom, hc, ih, hle]
    · have hnone : o - offset = 0 := by omega
      have hnext : o - (offset + 1) = 0 := by omega
      have hlt : ¬offset + 1 ≤ o := by omega
      rw [hnext] at ih
      rw [hnone]
      by_cases hc : c = '\n' <;> simp_all [startsFrom]

theorem lineCol_line (t : Text) (o : Nat) : ((ofText t).lineCol o).1 = (t.take o).count '\n' := by
  have h := length_takeWhile_startsFrom t 0 o
  simp only [lineCol, ofText, Int.ofNat_le, List.takeWhile_cons, Nat.zero_le, decide_true, if_true,
    List.length_cons, h, Nat.sub_zero]
  omega

theorem getElem?_startsFrom {t : Text} {k : Nat} (h : k < t.count '\n') (offset : Nat) :
    (startsFrom offset t)[k]? = some (offset + t.afterNewlines (k + 1)) := by
  induction t generalizing k offset with
  | nil => simp at h
  | cons c rest ih =>
    by_cases hc : c = '\n'
    · rw [startsFrom, if_pos hc, Text.afterNewlines, if_pos hc]
      cases k with
      | zero => rw [Text.afterNewlines_zero]; rfl
      | succ k =>
        rw [hc, List.count_cons_self] at h
        rw [List.getElem?_cons_succ, ih (by omega), Nat.add_assoc]
    · rw [List.count_cons_of_ne hc] at h
      rw [startsFrom, if_neg hc, Text.afterNewlines, if_neg hc, ih h, Nat.add_assoc]

theorem start?_of_le {t : Text} {k : Nat} (h : k ≤ t.count '\n') :
    (ofText t).start? k = some (t.afterNewlines k) := by
  rw [start?, if_pos (Int.natCast_nonneg k), Int.toNat_natCast]
  cases k with
  | zero => rw [Text.afterNewlines_zero]; rfl
  | succ k => simpa [ofText] using getElem?_startsFrom h 0

theorem lineCol_column (t : Text) (o : Nat) :
    ((ofText t).lineCol o).2 = (o - t.afterNewlines ((t.take o).count '\n') : Nat) := by
  have hcount : (t.take o).count '\n' ≤ t.count '\n' := (List.take_sublist o t).count_le _
  have hline : (((ofText t).starts.takeWhile fun (s : Nat) => (s : Int) ≤ (o : Int)).length : Int) -
      1 = ((t.take o).count '\n' : Nat) := lineCol_line t o
  have hle := t.afterNewlines_count_take_le o
  simp only [lineCol, hline, start?_of_le hcount, Option.getD_some]
  omega

end LineIndex

namespace Comment

theorem step_shown_newline_iff (m : Markers) (mode : Mode) (line : Text) (c : Char) (rest : Text) :
    (step m mode line c rest).1 = '\n' ↔ c = '\n' := by
  rcases step_shown m mode line c rest with h | ⟨h, hc⟩
  · rw [h]
  · rw [h]
    exact iff_of_false (by decide) hc

theorem count_take_scan (m : Markers) (mode : Mode) (line t : Text) (o : Nat) :
    ((scan m mode line t).take o).count '\n' = (t.take o).count '\n' := by
  induction t generalizing mode line o with
  | nil => rfl
  | cons c rest ih =>
    cases o with
    | zero => rfl
    | succ o =>
      have hshown := step_shown_newline_iff m mode line c rest
      rw [scan_cons, List.take_succ_cons, List.take_succ_cons, List.count_cons, List.count_cons, ih]
      simp only [beq_iff_eq, hshown]

theorem afterNewlines_scan (m : Markers) (mode : Mode) (line t : Text) (k : Nat) :
    (scan m mode line t).afterNewlines k = t.afterNewlines k := by
  induction t generalizing mode line k with
  | nil => rfl
  | cons c rest ih =>
    cases k with
    | zero => rfl
    | succ k =>
      have hshown := step_shown_newline_iff m mode line c rest
      rw [scan_cons, Text.afterNewlines, Text.afterNewlines, ih]
      simp only [hshown]

theorem lineCol_blankOut (source : Text) (o : Nat) :
    (LineIndex.ofText (blankOut source)).lineCol o = (LineIndex.ofText source).lineCol o := by
  refine Prod.ext ?_ ?_
  · rw [LineIndex.lineCol_line, LineIndex.lineCol_line, blankOut, blankOutWith, count_take_scan]
  · rw [LineIndex.lineCol_column, LineIndex.lineCol_column, blankOut, blankOutWith,
      count_take_scan, afterNewlines_scan]

end Comment

end SourceEdit
