import SourceEdit.Proofs.LinePositions

set_option autoImplicit false

namespace SourceEdit

namespace Text

def firstLines (t : Text) (n : Nat) : List Text := (List.range n).map fun k => t.line (k + 1 : Nat)

theorem firstLines_eq_take (t : Text) {n : Nat} (h : n ≤ t.lineCount) :
    t.firstLines n = (lines t).take n := by
  rw [← length_lines] at h
  apply List.ext_getElem?
  intro k
  rw [firstLines, List.getElem?_map, List.getElem?_take]
  by_cases hk : k < n
  · have hlt : k < (lines t).length := by omega
    rw [List.getElem?_range hk, if_pos hk, Option.map_some, line_succ_eq,
      List.getElem?_eq_getElem hlt, Option.getD_some]
  · rw [if_neg hk, List.getElem?_eq_none (by simpa using hk), Option.map_none]

theorem joinWith_firstLines (t : Text) : joinWith ['\n'] (t.firstLines t.lineCount) = t := by
  rw [firstLines_eq_take t (Nat.le_refl _), ← length_lines, List.take_length, lines,
    joinWith_fields]

theorem take_afterNewlines {t : Text} {k : Nat} (h : k ≤ t.count '\n') :
    t.take (afterNewlines k t) = ((lines t).take k).flatMap (· ++ ['\n']) := by
  induction t using line_induction generalizing k with
  | last l hl =>
    rw [List.count_eq_zero.mpr hl] at h
    rw [Nat.le_zero.mp h, afterNewlines_zero]
    rfl
  | more l rest hl ih =>
    cases k with
    | zero =>
      rw [afterNewlines_zero]
      rfl
    | succ k =>
      rw [List.count_append, List.count_eq_zero.mpr hl, List.count_cons_self] at h
      have hlength : l.length + 1 + afterNewlines k rest =
          (l ++ ['\n']).length + afterNewlines k rest := by simp
      have hsplit : l ++ '\n' :: rest = (l ++ ['\n']) ++ rest := by simp
      rw [afterNewlines_append hl, lines_append, lines_of_not_mem hl, List.singleton_append,
        List.take_succ_cons, List.flatMap_cons, ← ih (by omega), hlength, hsplit,
        List.take_length_add_append]

/-- The line of this number begins at its position, behind the lines above it, and the offsets from
its beginning to its end have this number. -/
structure Placed (t : Text) (number : Nat) : Prop where
  above : t.take (t.positionOfLine number) = (t.firstLines (number - 1)).flatMap (· ++ ['\n'])
  here : t.slice (t.positionOfLine number) (t.positionOfLine number + (t.line number).length) =
    t.line number
  offsets : ∀ j ≤ (t.line number).length, t.lineOfPosition (t.positionOfLine number + j : Nat) = number

theorem placed_succ (t : Text) {k : Nat} (h : k < t.lineCount) : t.Placed (k + 1) := by
  have hlt : k < (lines t).length := by rwa [length_lines]
  have hraw : (lines t)[k]? = some (t.line (k + 1 : Nat)) := by
    rw [line_succ_eq, List.getElem?_eq_getElem hlt, Option.getD_some]
  constructor
  · rw [positionOfLine_succ, Nat.add_sub_cancel, firstLines_eq_take t (Nat.le_of_lt h),
      take_afterNewlines (Nat.le_of_lt_succ h)]
  · have hslice := slice_from_line (a := 0) hraw (Nat.le_refl _)
    rw [Nat.add_zero] at hslice
    rw [positionOfLine_succ, hslice, slice, List.take_length, List.drop_zero]
  · intro j hj
    rw [lineOfPosition, Int.toNat_natCast, positionOfLine_succ, count_take_line hraw hj]

end Text

namespace LineIndex

theorem lineCol_eq (t : Text) (o : Nat) : (ofText t).lineCol o =
    ((t.lineOfPosition o : Int) - 1, (o : Int) - t.positionOfLine (t.lineOfPosition o)) := by
  have hle := t.afterNewlines_count_take_le o
  have hposition : t.positionOfLine (t.lineOfPosition o) = t.afterNewlines ((t.take o).count '\n') :=
    t.positionOfLine_succ _
  refine Prod.ext ?_ ?_
  · rw [lineCol_line, Text.lineOfPosition, Int.toNat_natCast]
    omega
  · rw [lineCol_column, hposition]
    omega

theorem start?_lineCol_ne_none (t : Text) (o : Int) :
    (ofText t).start? ((ofText t).lineCol o).1 ≠ none := by
  cases o with
  | ofNat o =>
    have hcount : (t.take o).count '\n' ≤ t.count '\n' := (List.take_sublist o t).count_le _
    rw [Int.ofNat_eq_natCast, lineCol_line, start?_of_le hcount]
    exact Option.some_ne_none _
  | negSucc o =>
    have hline : ((ofText t).lineCol (Int.negSucc o)).1 = -1 := by
      have hnot : ¬(0 : Int) ≤ Int.negSucc o := by omega
      simp [lineCol, ofText, hnot]
    have hfilled : 1 ≤ (ofText t).starts.length := Nat.le_add_left 1 _
    rw [hline, start?, if_neg (by decide), if_pos (by omega), Ne, List.getElem?_eq_none_iff]
    omega

theorem offset?_lineCol (t : Text) (o : Int) :
    (ofText t).offset? ((ofText t).lineCol o).1 ((ofText t).lineCol o).2 = some o := by
  obtain ⟨s, hs⟩ := Option.ne_none_iff_exists'.mp (start?_lineCol_ne_none t o)
  have hcolumn : ((ofText t).lineCol o).2 = o - s := by
    have hdef : ((ofText t).lineCol o).2 =
      o - (((ofText t).start? ((ofText t).lineCol o).1).getD 0 : Nat) := rfl
    rw [hdef, hs, Option.getD_some]
  rw [offset?, hs, Option.map_some, hcolumn]
  congr 1
  omega

end LineIndex

/-- The lines, looked up one after the other, are the text. Each of them begins at the position of its
number and its offsets have that number; line and column of an offset in the index are counted from
these, in the text and in the text without comments; and they lead back to the offset, whatever it
is. -/
theorem Text.line_numbers_agree (t : Text) :
    joinWith ['\n'] (t.firstLines t.lineCount) = t ∧
    (∀ number : Nat, 1 ≤ number → number ≤ t.lineCount → t.Placed number) ∧
    (∀ o : Nat, ∀ source ∈ [t, Comment.blankOut t], (LineIndex.ofText source).lineCol o =
      ((t.lineOfPosition o : Int) - 1, (o : Int) - t.positionOfLine (t.lineOfPosition o))) ∧
    ∀ o : Int, (LineIndex.ofText t).offset? ((LineIndex.ofText t).lineCol o).1
      ((LineIndex.ofText t).lineCol o).2 = some o := by
  refine ⟨t.joinWith_firstLines, fun number hfirst hlast => ?_, fun o source hsource => ?_,
    LineIndex.offset?_lineCol t⟩
  · obtain ⟨k, rfl⟩ := Nat.exists_eq_add_of_le' hfirst
    exact t.placed_succ hlast
  · rcases List.mem_pair.mp hsource with rfl | rfl
    · exact LineIndex.lineCol_eq source o
    · rw [Comment.lineCol_blankOut, LineIndex.lineCol_eq]

theorem Text.line_numbers_agree_empty_line :
    let t : Text := "a\n\n//b".toList
    (1 ≤ 2 ∧ 2 ≤ t.lineCount ∧ t.Placed 2) ∧ t.positionOfLine 2 = 2 ∧ t.lineOfPosition 2 = 2 ∧
      Comment.blankOut t ∈ [t, Comment.blankOut t] ∧
      (LineIndex.ofText (Comment.blankOut t)).lineCol 6 = (2, 3) := by
  intro t
  obtain ⟨-, hplaced, hindex, -⟩ := line_numbers_agree t
  have hblank : Comment.blankOut t ∈ [t, Comment.blankOut t] := by simp
  have hlast : 2 ≤ t.lineCount := by decide
  refine ⟨⟨by decide, hlast, hplaced 2 (by decide) hlast⟩, by decide, by decide, hblank, ?_⟩
  exact (hindex 6 _ hblank).trans (by decide)

end SourceEdit
