import SourceEdit.Proofs.IncludeLines

set_option autoImplicit false

namespace SourceEdit

namespace IncludeLine

def lower (k : Nat) (l : IncludeLine) : IncludeLine := { l with line := l.line + k }

end IncludeLine

namespace Inventory

theorem mem_ofLines_cons {mode : Comment.Mode} {number : Nat} {raw : Text} {ls : List Text}
    {l : IncludeLine} : l ∈ ofLines mode number (raw :: ls) ↔
      (l.line = number ∧ includeOn? raw (Comment.scan {} mode [] raw) = some l.item) ∨
        l ∈ ofLines (Comment.modeAfter {} mode [] raw).atNewline (number + 1) ls := by
  obtain ⟨item, line⟩ := l
  rw [ofLines, List.mem_append]
  refine or_congr_left ?_
  cases includeOn? raw (Comment.scan {} mode [] raw) <;> simp [eq_comm, and_comm]

theorem line_of_mem_ofLines {mode : Comment.Mode} {number : Nat} {ls : List Text}
    {l : IncludeLine} (h : l ∈ ofLines mode number ls) :
    number ≤ l.line ∧ l.line < number + ls.length := by
  induction ls generalizing mode number with
  | nil => simp [ofLines] at h
  | cons raw ls ih =>
    rw [List.length_cons]
    rcases mem_ofLines_cons.mp h with ⟨rfl, -⟩ | h
    · omega
    · have := ih h
      omega

theorem pairwise_ofLines (mode : Comment.Mode) (number : Nat) (ls : List Text) :
    (ofLines mode number ls).Pairwise (·.line < ·.line) := by
  induction ls generalizing mode number with
  | nil => exact .nil
  | cons raw ls ih =>
    rw [ofLines, List.pairwise_append]
    refine ⟨?_, ih _ _, fun l hl m hm => ?_⟩
    · cases includeOn? raw (Comment.scan {} mode [] raw) with
      | none => exact .nil
      | some i => exact List.pairwise_singleton _ _
    · obtain ⟨i, -, rfl⟩ := Option.map_eq_some_iff.mp (Option.mem_toList.mp hl)
      exact Nat.lt_of_succ_le (line_of_mem_ofLines hm).1

theorem pairwise_ofSource (source : Text) : (ofSource source).Pairwise (·.line < ·.line) := by
  rw [ofSource_eq_ofLines]
  exact pairwise_ofLines _ _ _

theorem ofLines_add (mode : Comment.Mode) (number k : Nat) (ls : List Text) :
    ofLines mode (number + k) ls = (ofLines mode number ls).map (·.lower k) := by
  induction ls generalizing mode number with
  | nil => rfl
  | cons raw ls ih =>
    rw [ofLines, ofLines, List.map_append, ← ih, Nat.add_right_comm]
    cases includeOn? raw (Comment.scan {} mode [] raw) <;> rfl

theorem ofLines_append_newline (mode : Comment.Mode) (number : Nat) (a b : Text) :
    ofLines mode number (Text.lines (a ++ '\n' :: b)) = ofLines mode number (Text.lines a) ++
      ofLines (Comment.modeAfter {} mode [] a).atNewline (number + a.lineCount) (Text.lines b) := by
  rw [Text.lines_append]
  induction a using Text.line_induction generalizing mode number with
  | last l hl =>
    rw [Text.lineCount, List.count_eq_zero.mpr hl, Text.lines_of_not_mem hl, List.singleton_append,
      ofLines, ofLines, ofLines, List.append_nil]
  | more l rest hl ih =>
    have hcount : (l ++ '\n' :: rest).lineCount = 1 + rest.lineCount := by
      rw [Text.lineCount, Text.lineCount, List.count_append, List.count_eq_zero.mpr hl,
        List.count_cons_self]
      omega
    rw [Text.lines_append, Text.lines_of_not_mem hl, List.singleton_append, List.cons_append,
      ofLines, ofLines, ih, Comment.modeAfter_append_newline, hcount, List.append_assoc,
      Nat.add_assoc]

theorem ofSource_append_newline (source : Text) :
    ofSource (source ++ ['\n']) = ofSource source := by
  rw [ofSource_eq_ofLines, ofSource_eq_ofLines, ofLines_append_newline]
  exact List.append_nil _

end Inventory

end SourceEdit
