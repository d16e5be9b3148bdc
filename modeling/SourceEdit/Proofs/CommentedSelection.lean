import SourceEdit.Proofs.CommentStrides
import SourceEdit.Proofs.CursorBounds
import SourceEdit.Proofs.MarkedLines

set_option autoImplicit false

namespace SourceEdit

namespace Text

open Comment (lineBefore)

def BlankBefore (t : Text) (p : Nat) : Prop := allBlank (lineBefore t p) = true

instance (t : Text) (p : Nat) : Decidable (t.BlankBefore p) := inferInstanceAs (Decidable (_ = true))

theorem slice_from_lineStart (t : Text) (p : Nat) :
    t.slice (afterNewlines ((t.take p).count '\n') t) p = (lineBefore t p).reverse := by
  have hcount : (t.take p).count '\n' ≤ t.count '\n' := (List.take_sublist p t).count_le _
  have hle := t.afterNewlines_count_take_le p
  have hstarts := startsLine_take_afterNewlines hcount
  have htake := count_take_afterNewlines hcount
  generalize afterNewlines ((t.take p).count '\n') t = q at hle hstarts htake ⊢
  have hsplit : t.take p = t.take q ++ t.slice q p := by
    have hcut := List.take_append_drop q (t.take p)
    rw [List.take_take, Nat.min_eq_left hle] at hcut
    exact hcut.symm
  have hclean : '\n' ∉ t.slice q p := by
    have hsum := congrArg (List.count '\n') hsplit
    rw [List.count_append, htake] at hsum
    exact List.count_eq_zero.mp (by omega)
  rw [lineBefore, hsplit, List.reverse_append, List.takeWhile_append_of_pos (fun c hc => ?_)]
  · rcases hstarts with hnil | ⟨a, ha⟩
    · rw [hnil, List.reverse_nil, List.takeWhile_nil, List.append_nil, List.reverse_reverse]
    · rw [ha, List.reverse_concat, List.takeWhile_cons_of_neg (by simp), List.append_nil,
        List.reverse_reverse]
  · rw [List.mem_reverse] at hc
    rw [decide_eq_true_eq]
    rintro rfl
    exact hclean hc

end Text

namespace Document

open Text (BlankBefore changeLines lineComment)
open Comment (lineBefore)

variable {d d' : Document} {start stop : Nat}

theorem lineStart_eq (d : Document) (p : Nat) :
    d.lineStart p = d.text.afterNewlines ((d.text.take p).count '\n') := by
  rw [lineStart, Text.lineOfPosition, Int.toNat_natCast, Text.positionOfLine_succ]

theorem blankBefore_iff {p : Nat} :
    Text.allBlank (d.text.slice (d.lineStart p) p) = true ↔ d.text.BlankBefore p := by
  rw [lineStart_eq, Text.slice_from_lineStart, BlankBefore, Text.allBlank, Text.allBlank,
    List.all_reverse]

theorem lineStart_eq_iff {p : Nat} (hp : p ≤ d.text.length) :
    d.lineStart p = p ↔ lineBefore d.text p = [] := by
  have hslice := congrArg List.length (d.text.slice_from_lineStart p)
  have hle := d.text.afterNewlines_count_take_le p
  rw [List.length_reverse, Text.slice, List.length_drop, List.length_take] at hslice
  rw [lineStart_eq, ← List.length_eq_zero_iff]
  omega

/-- From `start` to the end of the selection the text has become `part`, with so many characters more.
This part is the selection now, and the cursor is at the side where it was. -/
structure Reselected (d d' : Document) (start added : Nat) (part : Text) : Prop where
  text : d'.text = d.text.take start ++ (part ++ d.text.drop d.selectionEnd)
  length : part.length = d.selectionEnd - start + added
  selected : d'.selectedText = part
  start : d'.selectionStart = start
  stop : d'.selectionEnd = d.selectionEnd + added
  side : d'.position = d'.selectionEnd ↔ d.position = d.selectionEnd

theorem exists_edit_keepSide (hclosed : d.block = none) {edits : List Edit} (hne : edits ≠ [])
    (hfit : Edit.Fit d.text.length edits) (added : Nat) {start : Nat} {part : Text}
    (hstart : start < d.selectionEnd) (hstop : d.selectionEnd ≤ d.text.length)
    (htext : Edit.applyAll d.text (Edit.sort edits) =
      d.text.take start ++ (part ++ d.text.drop d.selectionEnd))
    (hpart : part.length = d.selectionEnd - start + added) :
    ∃ d', d.edit edits (some (d.keepSide start (d.selectionEnd + added))) = (d', none) ∧
      Reselected d d' start added part := by
  have hlength : (Edit.applyAll d.text (Edit.sort edits)).length = d.text.length + added := by
    rw [htext, List.length_append, List.length_append, hpart, List.length_take, List.length_drop]
    omega
  let d' := d.change (Edit.sort edits) (some (d.keepSide start (d.selectionEnd + added)))
  have hsides : d'.selectionStart = start ∧ d'.selectionEnd = d.selectionEnd + added ∧
      (d'.position = d'.selectionEnd ↔ d.position = d.selectionEnd) := by
    by_cases hside : d.position = d.selectionEnd
    · simp only [d', change, keepSide, if_pos hside, Option.getD_some]
      simp only [selectionStart, selectionEnd, Text.clamp, hlength, Int.toNat_natCast] at *
      omega
    · simp only [d', change, keepSide, if_neg hside, Option.getD_some]
      simp only [selectionStart, selectionEnd, Text.clamp, hlength, Int.toNat_natCast] at *
      omega
  obtain ⟨hnewStart, hnewStop, hside⟩ := hsides
  refine ⟨d', by rw [edit_eq_commit hclosed, commit_of_fit hne hfit],
    ⟨htext, hpart, ?_, hnewStart, hnewStop, hside⟩⟩
  have hmiddle := Text.slice_middle (d.text.take start) part (d.text.drop d.selectionEnd)
  rw [List.length_take_of_le (by omega), hpart, ← Nat.add_assoc,
    Nat.add_sub_cancel' (Nat.le_of_lt hstart), ← htext] at hmiddle
  rw [selectedText, hnewStart, hnewStop]
  exact hmiddle

/-- The lines that get a marker go from the line of the start to the line of the end, or to the one above
it if the selection ends at the start of a line. -/
def firstCommented (d : Document) : Nat := d.text.lineOfPosition d.selectionStart

def lastCommented (d : Document) : Nat :=
  d.text.lineOfPosition d.selectionEnd - if lineBefore d.text d.selectionEnd = [] then 1 else 0

def commentedCount (d : Document) : Nat := d.lastCommented + 1 - d.firstCommented

def commentedStart (d : Document) : Nat := d.text.positionOfLine d.firstCommented

def commentedPart (d : Document) : Text := d.text.slice d.commentedStart d.selectionEnd

theorem firstCommented_eq (d : Document) :
    d.firstCommented = (d.text.take d.selectionStart).count '\n' + 1 := rfl

theorem commentedStart_eq (d : Document) :
    d.commentedStart = d.text.afterNewlines ((d.text.take d.selectionStart).count '\n') := by
  rw [commentedStart, firstCommented_eq, Text.positionOfLine_succ]

theorem firstCommented_le_lastCommented (hselection : d.selectionStart < d.selectionEnd)
    (hstop : d.selectionEnd ≤ d.text.length) : d.firstCommented ≤ d.lastCommented := by
  have hcount := (List.take_sublist_take_left (l := d.text) (Nat.le_of_lt hselection)).count_le '\n'
  have hlast : d.text.lineOfPosition d.selectionEnd =
      (d.text.take d.selectionEnd).count '\n' + 1 := rfl
  rw [firstCommented_eq, lastCommented, hlast]
  split
  · next hempty =>
    have hline := (lineStart_eq_iff hstop).mpr hempty
    have hstart := d.text.afterNewlines_count_take_le d.selectionStart
    have hne : (d.text.take d.selectionStart).count '\n' ≠
        (d.text.take d.selectionEnd).count '\n' := by
      intro hsame
      rw [hsame, ← lineStart_eq, hline] at hstart
      omega
    omega
  · omega

theorem selectedLines_eq (hselection : d.selectionStart < d.selectionEnd)
    (hstop : d.selectionEnd ≤ d.text.length) :
    d.selectedLines = (d.firstCommented, d.lastCommented) := by
  have hle := firstCommented_le_lastCommented hselection hstop
  have hlast : (if d.lineStart d.selectionEnd = d.selectionEnd then
      d.text.lineOfPosition d.selectionEnd - 1 else d.text.lineOfPosition d.selectionEnd) =
        d.lastCommented := by
    rw [lastCommented]
    simp only [lineStart_eq_iff hstop]
    split <;> rfl
  rw [selectedLines, hlast, ← firstCommented, Nat.max_eq_right hle]

theorem commentedStart_le (d : Document) : d.commentedStart ≤ d.selectionStart := by
  rw [commentedStart_eq]
  exact d.text.afterNewlines_count_take_le d.selectionStart

theorem commentedStart_lt (hselection : d.selectionStart < d.selectionEnd) :
    d.commentedStart < d.selectionEnd :=
  Nat.lt_of_le_of_lt d.commentedStart_le hselection

theorem take_selectionEnd (hselection : d.selectionStart < d.selectionEnd) :
    d.text.take d.selectionEnd = d.text.take d.commentedStart ++ d.commentedPart := by
  have hcut := List.take_append_drop d.commentedStart (d.text.take d.selectionEnd)
  rw [List.take_take, Nat.min_eq_left (Nat.le_of_lt (commentedStart_lt hselection))] at hcut
  exact hcut.symm

theorem count_take_selectionEnd (hselection : d.selectionStart < d.selectionEnd) :
    (d.text.take d.selectionEnd).count '\n' =
      (d.text.take d.selectionStart).count '\n' + d.commentedPart.count '\n' := by
  have hstart := Text.count_take_afterNewlines
    ((List.take_sublist d.selectionStart d.text).count_le '\n')
  rw [← commentedStart_eq] at hstart
  rw [take_selectionEnd hselection, List.count_append, hstart]

/-- As many lines as the part has, but the last one if the selection ends at the start of a line. -/
theorem commentedCount_eq (hselection : d.selectionStart < d.selectionEnd) :
    d.commentedCount = d.commentedPart.count '\n' +
      if lineBefore d.text d.selectionEnd = [] then 0 else 1 := by
  have hcount := count_take_selectionEnd hselection
  have hlast : d.text.lineOfPosition d.selectionEnd =
      (d.text.take d.selectionEnd).count '\n' + 1 := rfl
  rw [commentedCount, lastCommented, firstCommented_eq, hlast]
  split <;> omega

theorem commentedCount_le (hselection : d.selectionStart < d.selectionEnd) :
    d.commentedCount ≤ d.commentedPart.lineCount := by
  rw [commentedCount_eq hselection, Text.lineCount]
  split <;> omega

/-- The lines of the selection have got markers, and it goes from the start of the first one on. -/
structure LinesCommented (d d' : Document) : Prop where
  lines : Text.lines d'.text =
    Text.onLines lineComment d.firstCommented d.lastCommented (Text.lines d.text)
  reselected : Reselected d d' d.commentedStart (2 * d.commentedCount)
    (changeLines lineComment d.commentedCount d.commentedPart)
  restored : changeLines (·.drop 2) d.commentedCount d'.selectedText = d.commentedPart

theorem commentSelectedLines_eq (hselection : d.selectionStart < d.selectionEnd)
    (hstop : d.selectionEnd ≤ d.text.length) : d.commentSelectedLines =
      d.edit (Edit.marks ['/', '/'] d.commentedStart d.commentedCount
        (d.text.drop d.commentedStart))
      (some (d.keepSide d.commentedStart (d.selectionEnd + 2 * d.commentedCount))) := by
  have hmarks (i : Nat) : d.text.positionOfLine (d.firstCommented + i : Nat) =
      d.commentedStart + Text.afterNewlines i (d.text.drop d.commentedStart) := by
    rw [firstCommented_eq, Nat.add_right_comm, Text.positionOfLine_succ, commentedStart_eq,
      Text.afterNewlines_add]
  rw [commentSelectedLines, selectedLines_eq hselection hstop]
  simp only [hmarks]
  rfl

theorem commentSelectedLines_marks (hclosed : d.block = none)
    (hselection : d.selectionStart < d.selectionEnd) (hstop : d.selectionEnd ≤ d.text.length) :
    ∃ d', d.commentSelectedLines = (d', none) ∧ LinesCommented d d' := by
  have hcount := commentedCount_le hselection
  have hle := firstCommented_le_lastCommented hselection hstop
  have hbegin := commentedStart_lt hselection
  have hne : Edit.marks ['/', '/'] d.commentedStart d.commentedCount
      (d.text.drop d.commentedStart) ≠ [] := by
    rw [Edit.marks, Ne, List.map_eq_nil_iff, List.range_eq_nil, commentedCount]
    omega
  have hlength : (changeLines lineComment d.commentedCount d.commentedPart).length =
      d.commentedPart.length + d.commentedCount * 2 :=
    Text.length_changeLines ['/', '/'] hcount
  have hpart : d.commentedPart.length = d.selectionEnd - d.commentedStart := by
    rw [commentedPart, Text.slice, List.length_drop, List.length_take, Nat.min_eq_left hstop]
  obtain ⟨d', hedit, hreselected⟩ := exists_edit_keepSide hclosed hne
    (Edit.fit_marks (by omega)) (2 * d.commentedCount) hbegin hstop
    (Edit.applyAll_marks (Nat.le_of_lt hbegin) hcount)
    (hlength.trans (by rw [hpart, Nat.mul_comm]))
  refine ⟨d', by rw [commentSelectedLines_eq hselection hstop, hedit], ?_, hreselected, ?_⟩
  · have hbelow : changeLines lineComment d.commentedCount d.commentedPart ++
        d.text.drop d.selectionEnd =
          changeLines lineComment d.commentedCount (d.text.drop d.commentedStart) := by
      rw [← d.text.slice_append_drop (Nat.le_of_lt hbegin)]
      exact (Text.changeLines_append ['/', '/'] hcount _).symm
    have hlast : d.lastCommented =
        (d.text.take d.selectionStart).count '\n' + d.commentedCount := by
      rw [firstCommented_eq] at hle
      rw [commentedCount, firstCommented_eq]
      omega
    rw [hreselected.text]
    refine (congrArg (fun below => Text.lines (d.text.take d.commentedStart ++ below)) hbelow).trans ?_
    rw [hlast, firstCommented_eq, commentedStart_eq]
    exact Text.lines_take_append_changeLines (fun _ => Text.newline_not_mem_lineComment)
      ((List.take_sublist _ _).count_le _) _
  · rw [hreselected.selected]
    exact Text.changeLines_inverse (fun _ => Text.newline_not_mem_lineComment) (fun _ => rfl) _ _

theorem wrapSelection_markers (hclosed : d.block = none)
    (hselection : d.selectionStart < d.selectionEnd) (hstop : d.selectionEnd ≤ d.text.length) :
    ∃ d', d.wrapSelection = (d', none) ∧
      Reselected d d' d.selectionStart 4 (['/', '*'] ++ d.selectedText ++ ['*', '/']) := by
  let opening := Edit.insertion d.selectionStart ['/', '*']
  let closing := Edit.insertion d.selectionEnd ['*', '/']
  have hfit : Edit.Fit d.text.length [closing, opening] := Edit.fit_insertions fun e he => by
    rcases List.mem_pair.mp he with rfl | rfl
    · exact ⟨_, _, hstop, rfl⟩
    · exact ⟨_, _, by omega, rfl⟩
  have hsort : Edit.sort [closing, opening] = [opening, closing] := by
    have hplaces (p : Int) :
        Edit.insertionsAt p [closing, opening] = Edit.insertionsAt p [opening, closing] := by
      have hapart : ¬(opening.start = p ∧ closing.start = p) := by
        simp only [opening, closing, Edit.insertion]
        omega
      simp only [Edit.insertionsAt, Edit.withRange, List.filter_cons, List.filter_nil, opening,
        closing, Edit.insertion, and_self, decide_eq_true_eq] at hapart ⊢
      split <;> split <;> first | rfl | exact absurd ⟨‹_›, ‹_›⟩ hapart
    rw [Edit.sort_eq_of_perm (hfit.perm (.swap opening closing [])) (.swap opening closing []) hplaces]
    refine Edit.sort_of_pairwise (List.pairwise_pair.mpr ?_)
    rw [Edit.le_iff]
    simp only [opening, closing, Edit.insertion]
    omega
  have htext : Edit.applyAll d.text (Edit.sort [closing, opening]) =
      d.text.take d.selectionStart ++
        (['/', '*'] ++ d.selectedText ++ ['*', '/'] ++ d.text.drop d.selectionEnd) := by
    have hmiddle : (d.text.drop d.selectionStart).take (d.selectionEnd - d.selectionStart) =
        d.selectedText := by rw [selectedText, Text.slice, List.drop_take]
    have hbehind : d.selectionStart + (d.selectionEnd - d.selectionStart) = d.selectionEnd := by
      omega
    rw [hsort]
    simp only [Edit.applyAll, Edit.applyFrom, opening, closing, Edit.insertion, Int.toNat_natCast,
      Nat.sub_zero, List.drop_drop, hmiddle, hbehind, List.append_assoc]
  have hlength : (['/', '*'] ++ d.selectedText ++ ['*', '/'] : Text).length =
      d.selectionEnd - d.selectionStart + 4 := by
    rw [selectedText, Text.slice]
    simp only [List.length_append, List.length_drop, List.length_take, List.length_cons,
      List.length_nil]
    omega
  exact exists_edit_keepSide hclosed (List.cons_ne_nil _ _) hfit 4 hselection hstop htext hlength

theorem selectionStart_lt_selectionEnd (hselection : d.hasSelection = true) :
    d.selectionStart < d.selectionEnd := by
  have hne : d.anchor ≠ d.position := bne_iff_ne.mp hselection
  rw [selectionStart, selectionEnd]
  omega

theorem selectionEnd_le (hinside : d.snapshot.Inside) : d.selectionEnd ≤ d.text.length :=
  Nat.max_le.mpr ⟨hinside.anchor_le, hinside.position_le⟩

theorem exists_commentSelection (hclosed : d.block = none) (hselection : d.hasSelection = true)
    (hinside : d.snapshot.Inside) : ∃ d', d.commentSelection = (d', none) ∧
      (d.text.BlankBefore d.selectionStart ∧ d.text.BlankBefore d.selectionEnd →
        LinesCommented d d') ∧
      (¬(d.text.BlankBefore d.selectionStart ∧ d.text.BlankBefore d.selectionEnd) →
        Reselected d d' d.selectionStart 4 (['/', '*'] ++ d.selectedText ++ ['*', '/'])) := by
  have hlt := selectionStart_lt_selectionEnd hselection
  have hstop := selectionEnd_le hinside
  have hcomment : d.commentSelection =
      if d.text.BlankBefore d.selectionStart ∧ d.text.BlankBefore d.selectionEnd then
        d.commentSelectedLines
      else d.wrapSelection := by
    simp only [commentSelection, hselection, Bool.not_true, Bool.false_eq_true, if_false,
      Bool.and_eq_true, blankBefore_iff]
  rw [hcomment]
  by_cases hblank : d.text.BlankBefore d.selectionStart ∧ d.text.BlankBefore d.selectionEnd
  · obtain ⟨d', hlines, hcommented⟩ := commentSelectedLines_marks hclosed hlt hstop
    exact ⟨d', by rw [if_pos hblank, hlines], fun _ => hcommented, fun h => absurd hblank h⟩
  · obtain ⟨d', hwrap, hwrapped⟩ := wrapSelection_markers hclosed hlt hstop
    exact ⟨d', by rw [if_neg hblank, hwrap], fun h => absurd h hblank, fun _ => hwrapped⟩

/-- For every document without an open block and every selection that is not empty: if there are only
blanks in front of both its ends, its lines get line comments, from the line of the start to the line
of the end, or to the line above an end at the start of its line. Otherwise it is wrapped. All else in
the text stays. The selection has its markers then, it ends with the characters it ended with, and the
cursor is at the side where it was. -/
theorem commentSelection_reselects [FileLock] (hclosed : d.block = none)
    (hselection : d.hasSelection = true) :
    (Workspace.Reached d → d.snapshot.Inside) ∧
    (d.snapshot.Inside → ∃ d', d.commentSelection = (d', none) ∧
      (d.text.BlankBefore d.selectionStart ∧ d.text.BlankBefore d.selectionEnd →
        LinesCommented d d') ∧
      (¬(d.text.BlankBefore d.selectionStart ∧ d.text.BlankBefore d.selectionEnd) →
        Reselected d d' d.selectionStart 4 (['/', '*'] ++ d.selectedText ++ ['*', '/']))) :=
  ⟨fun hreached => hreached.inside.now, exists_commentSelection hclosed hselection⟩

theorem commentSelection_reselects_backward :
    let d : Document := { new .source " a\n\nb\nc".toList none with position := 1, anchor := 6 }
    d.block = none ∧ d.hasSelection = true ∧ d.snapshot.Inside ∧
      ∃ d', d.commentSelection = (d', none) ∧ d'.text = "// a\n//\n//b\nc".toList ∧
        d'.selectionStart = 0 ∧ d'.selectedText = "// a\n//\n//b\n".toList ∧
        d'.position ≠ d'.selectionEnd := by
  intro d
  have hinside : d.snapshot.Inside := ⟨by decide, by decide⟩
  obtain ⟨d', hcomment, hlines, -⟩ := (commentSelection_reselects (show d.block = none from rfl)
    (show d.hasSelection = true by decide)).2 hinside
  have hcommented := hlines (by decide)
  have hside : d.position ≠ d.selectionEnd := by decide
  exact ⟨rfl, by decide, hinside, d', hcomment,
    Text.lines_inj.mp (hcommented.lines.trans (by decide +kernel)),
    hcommented.reselected.start.trans (by decide +kernel),
    hcommented.reselected.selected.trans (by decide +kernel),
    fun h => hside (hcommented.reselected.side.mp h)⟩

end Document

end SourceEdit
