import Mathlib.Data.List.TakeDrop
import Mathlib.Data.List.TakeWhile
import SourceEdit.Proofs.IncludePattern
import SourceEdit.Proofs.InventoryLines

set_option autoImplicit false

namespace SourceEdit

namespace Directive

def Spaces (t : Text) : Prop := ∀ c ∈ t, Text.isSpaceOrTab c = true

inductive Target : Text → Prop where
  | quoted {inner : Text} : '"' ∉ inner → Target ('"' :: (inner ++ ['"']))
  | angled {inner : Text} : '>' ∉ inner → Target ('<' :: (inner ++ ['>']))

inductive Opening : Text → Prop where
  | mk {indent gap blanks : Text} : Spaces indent → Spaces gap → Spaces blanks →
      Opening (indent ++ '#' :: (gap ++ (includeKeyword ++ blanks)))

/-- The line begins with an include directive, and its target is in these columns. -/
inductive IncludeAt : Text → Span → Prop where
  | mk {before target behind : Text} : Opening before → Target target →
      IncludeAt (before ++ (target ++ behind)) ⟨before.length, before.length + target.length⟩

theorem skipSpaces_append {blanks t : Text} (hblanks : Spaces blanks)
    (ht : ∀ c, t.head? = some c → Text.isSpaceOrTab c = false) :
    skipSpaces (blanks ++ t) = t := by
  rw [skipSpaces, List.dropWhile_append_of_pos hblanks]
  cases t with
  | nil => rfl
  | cons c rest => rw [List.dropWhile_cons_of_neg]; simp [ht c rfl]

theorem exists_spaces_append (t : Text) : ∃ blanks, Spaces blanks ∧ t = blanks ++ skipSpaces t :=
  ⟨t.takeWhile Text.isSpaceOrTab, fun _ hc => List.mem_takeWhile_imp hc,
    (List.takeWhile_append_dropWhile).symm⟩

theorem targetLength?_eq_some_iff {t : Text} {n : Nat} :
    targetLength? t = some n ↔ ∃ target behind, Target target ∧ t = target ++ behind ∧
      n = target.length := by
  constructor
  · intro h
    unfold targetLength? at h
    split at h
    · obtain ⟨inner, behind, hquote, rfl, rfl⟩ := closedLength?_eq_some_iff.mp h
      exact ⟨_, behind, .quoted hquote, by simp, by simp⟩
    · obtain ⟨inner, behind, hquote, rfl, rfl⟩ := closedLength?_eq_some_iff.mp h
      exact ⟨_, behind, .angled hquote, by simp, by simp⟩
    · contradiction
  · rintro ⟨target, behind, htarget, rfl, rfl⟩
    cases htarget with
    | quoted hquote => exact closedLength?_eq_some_iff.mpr ⟨_, behind, hquote, by simp, by simp⟩
    | angled hquote => exact closedLength?_eq_some_iff.mpr ⟨_, behind, hquote, by simp, by simp⟩

theorem Target.head {target : Text} (h : Target target) :
    ∃ c rest, target = c :: rest ∧ Text.isSpaceOrTab c = false := by
  cases h with
  | quoted => exact ⟨_, _, rfl, rfl⟩
  | angled => exact ⟨_, _, rfl, rfl⟩

theorem behind?_eq_some_iff {word line rest : Text} (hword : word ≠ [])
    (hfirst : ∀ c, word.head? = some c → Text.isSpaceOrTab c = false) :
    behind? word line = some rest ↔
      ∃ indent gap, Spaces indent ∧ Spaces gap ∧ line = indent ++ '#' :: (gap ++ (word ++ rest)) := by
  constructor
  · intro h
    obtain ⟨indent, hindent, hline⟩ := exists_spaces_append line
    unfold behind? at h
    split at h
    · next tail htail =>
      obtain ⟨gap, hgap, hrest⟩ := exists_spaces_append tail
      dsimp only at h
      split at h
      · next hprefix =>
        obtain ⟨t, ht⟩ := List.isPrefixOf_iff_prefix.mp hprefix
        obtain rfl := Option.some.inj h
        refine ⟨indent, gap, hindent, hgap, ?_⟩
        rw [← ht] at hrest ⊢
        rw [List.drop_left, ← hrest, ← htail, ← hline]
      · contradiction
    · contradiction
  · rintro ⟨indent, gap, hindent, hgap, rfl⟩
    have hrest : skipSpaces (gap ++ (word ++ rest)) = word ++ rest := by
      refine skipSpaces_append hgap fun c hc => hfirst c ?_
      rwa [List.head?_append_of_ne_nil _ hword] at hc
    have hline : skipSpaces (indent ++ '#' :: (gap ++ (word ++ rest))) =
        '#' :: (gap ++ (word ++ rest)) :=
      skipSpaces_append hindent fun c hc => by obtain rfl := Option.some.inj hc; rfl
    simp [behind?, hline, hrest]

theorem IncludeAt.stop_le {line : Text} {s : Span} (h : IncludeAt line s) :
    s.stop ≤ line.length := by
  cases h with
  | mk => simp

theorem IncludeAt.ne_nil {line : Text} {s : Span} (h : IncludeAt line s) : line ≠ [] := by
  cases h with
  | mk hopening _ =>
    cases hopening with
    | mk => simp

theorem includeTarget?_eq_some_iff {line : Text} {s : Span} :
    includeTarget? line = some s ↔ IncludeAt line s := by
  have hbehind : ∀ rest, behind? includeKeyword line = some rest ↔ ∃ indent gap, Spaces indent ∧
      Spaces gap ∧ line = indent ++ '#' :: (gap ++ (includeKeyword ++ rest)) :=
    fun rest => behind?_eq_some_iff (by decide) fun c hc => by cases hc; rfl
  simp only [includeTarget?, Option.bind_eq_some_iff, Option.map_eq_some_iff, hbehind,
    targetLength?_eq_some_iff]
  constructor
  · rintro ⟨rest, ⟨indent, gap, hindent, hgap, rfl⟩, _, ⟨target, behind, htarget, hrest, rfl⟩, rfl⟩
    obtain ⟨blanks, hblanks, hsplit⟩ := exists_spaces_append rest
    rw [hrest] at hsplit ⊢
    have hline : indent ++ '#' :: (gap ++ (includeKeyword ++ rest)) =
        (indent ++ '#' :: (gap ++ (includeKeyword ++ blanks))) ++ (target ++ behind) := by
      simp [hsplit]
    have hcolumns : columns (indent ++ '#' :: (gap ++ (includeKeyword ++ rest))) (target ++ behind)
        target.length = ⟨(indent ++ '#' :: (gap ++ (includeKeyword ++ blanks))).length,
          (indent ++ '#' :: (gap ++ (includeKeyword ++ blanks))).length + target.length⟩ := by
      rw [columns, hline, List.length_append, Nat.add_sub_cancel]
    rw [hcolumns, hline]
    exact .mk (.mk hindent hgap hblanks) htarget
  · rintro ⟨⟨hindent, hgap, hblanks⟩, htarget⟩
    next target behind indent gap blanks =>
    obtain ⟨c, tail, hhead, hc⟩ := htarget.head
    have hskip : skipSpaces (blanks ++ (target ++ behind)) = target ++ behind := by
      refine skipSpaces_append hblanks fun d hd => ?_
      rw [hhead] at hd
      obtain rfl := Option.some.inj hd
      exact hc
    refine ⟨blanks ++ (target ++ behind), ⟨indent, gap, hindent, hgap, by simp⟩, target.length,
      ⟨target, behind, htarget, hskip, rfl⟩, ?_⟩
    rw [columns, hskip, List.length_append, Nat.add_sub_cancel]

end Directive

namespace Inventory

/-- A line of the source, counted from zero, holds an include: the target is found in the line as
the scan shows it and is read in the line as it is. -/
def HeldAt (mode : Comment.Mode) (t : Text) (k : Nat) (i : Include) : Prop :=
  ∃ raw shown s, (Text.lines t)[k]? = some raw ∧
    (Text.lines (Comment.scan {} mode [] t))[k]? = some shown ∧
    Directive.IncludeAt shown s ∧ Include.parse? (raw.slice s.start s.stop) = some i

theorem includeOn?_eq_some_iff {raw shown : Text} {i : Include} :
    includeOn? raw shown = some i ↔
      ∃ s, Directive.IncludeAt shown s ∧ Include.parse? (raw.slice s.start s.stop) = some i := by
  simp only [includeOn?, Option.bind_eq_some_iff, Directive.includeTarget?_eq_some_iff]

theorem length_lines_scan (mode : Comment.Mode) (t : Text) :
    (Text.lines (Comment.scan {} mode [] t)).map List.length = (Text.lines t).map List.length := by
  rw [Comment.lines_scan, Comment.map_length_scanLines]

theorem heldAt_last_iff {mode : Comment.Mode} {l : Text} (hl : '\n' ∉ l) (k : Nat) (i : Include) :
    HeldAt mode l k i ↔ k = 0 ∧ includeOn? l (Comment.scan {} mode [] l) = some i := by
  rw [HeldAt, Text.lines_of_not_mem hl,
    Text.lines_of_not_mem (Comment.newline_not_mem_scan hl _ _ _), includeOn?_eq_some_iff]
  cases k <;> simp

theorem heldAt_first_iff {mode : Comment.Mode} {l : Text} (hl : '\n' ∉ l) (rest : Text)
    (i : Include) : HeldAt mode (l ++ '\n' :: rest) 0 i ↔
      includeOn? l (Comment.scan {} mode [] l) = some i := by
  rw [HeldAt, Comment.lines_scan_append hl, Text.lines_append, Text.lines_of_not_mem hl,
    includeOn?_eq_some_iff]
  simp

theorem heldAt_behind_iff {mode : Comment.Mode} {l : Text} (hl : '\n' ∉ l) (rest : Text) (k : Nat)
    (i : Include) : HeldAt mode (l ++ '\n' :: rest) (k + 1) i ↔
      HeldAt (Comment.modeAfter {} mode [] l).atNewline rest k i := by
  rw [HeldAt, HeldAt, Comment.lines_scan_append hl, Text.lines_append, Text.lines_of_not_mem hl]
  simp

theorem mem_ofLines_iff (mode : Comment.Mode) (number : Nat) (t : Text) (l : IncludeLine) :
    l ∈ ofLines mode number (Text.lines t) ↔
      ∃ k, l.line = number + k ∧ HeldAt mode t k l.item := by
  induction t using Text.line_induction generalizing mode number with
  | last raw hraw =>
    rw [Text.lines_of_not_mem hraw, mem_ofLines_cons, ofLines]
    simp [heldAt_last_iff hraw]
  | more raw rest hraw ih =>
    rw [Text.lines_append, Text.lines_of_not_mem hraw, List.singleton_append, mem_ofLines_cons, ih]
    constructor
    · rintro (⟨hline, hitem⟩ | ⟨k, hline, hheld⟩)
      · exact ⟨0, hline, (heldAt_first_iff hraw rest _).mpr hitem⟩
      · exact ⟨k + 1, by omega, (heldAt_behind_iff hraw rest k _).mpr hheld⟩
    · rintro ⟨_ | k, hline, hheld⟩
      · exact .inl ⟨hline, (heldAt_first_iff hraw rest _).mp hheld⟩
      · exact .inr ⟨k, by omega, (heldAt_behind_iff hraw rest k _).mp hheld⟩

theorem heldAt_code_iff (source : Text) (k : Nat) (i : Include) :
    HeldAt .code source k i ↔
      ∃ s, Directive.IncludeAt ((Comment.blankOut source).line (k + 1 : Nat)) s ∧
        Include.parse? (source.slice (source.positionOfLine (k + 1 : Nat) + s.start)
          (source.positionOfLine (k + 1 : Nat) + s.stop)) = some i := by
  have hlength := congrArg (·[k]?) (length_lines_scan .code source)
  simp only [List.getElem?_map] at hlength
  rw [Text.line_succ_eq, Text.positionOfLine_succ]
  constructor
  · rintro ⟨raw, shown, s, hraw, hshown, hat, hparse⟩
    rw [hraw, hshown, Option.map_some, Option.map_some, Option.some.injEq] at hlength
    have hstop := hat.stop_le
    refine ⟨s, ?_, ?_⟩
    · rwa [Comment.blankOut, Comment.blankOutWith, hshown, Option.getD_some]
    · rwa [Text.slice_from_line hraw (by omega)]
  · rintro ⟨s, hat, hparse⟩
    rw [Comment.blankOut, Comment.blankOutWith] at hat
    cases hshown : (Text.lines (Comment.scan {} .code [] source))[k]? with
    | none =>
      rw [hshown] at hat
      exact absurd rfl hat.ne_nil
    | some shown =>
      rw [hshown, Option.getD_some] at hat
      rw [hshown, Option.map_some, eq_comm, Option.map_eq_some_iff] at hlength
      obtain ⟨raw, hraw, hlength⟩ := hlength
      have hstop := hat.stop_le
      rw [Text.slice_from_line hraw (by omega)] at hparse
      exact ⟨raw, shown, s, hraw, hshown, hat, hparse⟩

/-- What the expression finds in a text whose comments are blanked: one include for every line that
begins with an include directive, provided that the text itself has an include in the place of the
target; the includes come in the order of their lines, and there are no others. -/
theorem mem_ofSource_iff_includeAt (source : Text) :
    (∃ e, Expression.parse Directive.includeSyntax = .ok e ∧
      ofSource source = ((Query.expression e).run source).filterMap includeAt?) ∧
    (∀ l : IncludeLine, l ∈ ofSource source ↔
      ∃ s, Directive.IncludeAt ((Comment.blankOut source).line l.line) s ∧
        Include.parse? (source.slice (source.positionOfLine l.line + s.start)
          (source.positionOfLine l.line + s.stop)) = some l.item) ∧
    (ofSource source).Pairwise (·.line < ·.line) := by
  have hexpression : ofSource source =
      ((Query.expression Directive.includeExpression).run source).filterMap includeAt? := by
    rw [Directive.run_includeExpression, ofSource]
  refine ⟨⟨_, Directive.parse_includeSyntax, hexpression⟩, ?_⟩
  rw [ofSource_eq_ofLines]
  refine ⟨?_, pairwise_ofLines _ _ _⟩
  rintro ⟨item, line⟩
  simp only [mem_ofLines_iff, heldAt_code_iff]
  cases line with
  | zero =>
    refine iff_of_false (by rintro ⟨k, hk, -⟩; omega) ?_
    rintro ⟨s, hat, -⟩
    exact hat.ne_nil (Text.line_zero _)
  | succ k =>
    constructor
    · rintro ⟨j, hj, hheld⟩
      obtain rfl : k = j := by omega
      exact hheld
    · exact fun hheld => ⟨k, by omega, hheld⟩

end Inventory

end SourceEdit
