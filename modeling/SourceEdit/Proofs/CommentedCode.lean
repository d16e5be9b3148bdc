import SourceEdit.Proofs.CommentedSelection
import SourceEdit.Proofs.ScanLookahead

/-!
Whether a selection that is commented is a comment. Lines with markers are. What is wrapped is a comment
up to the first end marker in it, or up to the first newline if its start marker is taken for a line
comment; the rest has to be comment by itself.
-/

set_option autoImplicit false

namespace SourceEdit

namespace Comment

variable {mode : Mode}

def behindNewline? (t : Text) : Option Text := (t.dropWhile (· ≠ '\n')).tail?

theorem behindNewline?_append {u : Text} (hu : '\n' ∉ u) (rest : Text) :
    behindNewline? (u ++ '\n' :: rest) = some rest := by
  have hpass : ∀ c ∈ u, decide (c ≠ '\n') = true := fun c hc => decide_eq_true fun hnl => hu (hnl ▸ hc)
  rw [behindNewline?, List.dropWhile_append_of_pos hpass, List.dropWhile_cons_of_neg (by simp)]
  rfl

theorem behindNewline?_eq_none {t : Text} (h : '\n' ∉ t) : behindNewline? t = none := by
  have hpass : ∀ c ∈ t, decide (c ≠ '\n') = true := fun c hc => decide_eq_true fun hnl => h (hnl ▸ hc)
  rw [behindNewline?, List.dropWhile_eq_nil_iff.mpr hpass]
  rfl

/-- What the markers around a part of a text leave out. -/
def uncovered? (t : Text) (start : Nat) (part : Text) : Option Text :=
  if joinsLine t start then behindNewline? part else behindEnd? part

theorem behindEnd?_append_blockEnd (t : Text) :
    behindEnd? (t ++ ['*', '/']) = some (((behindEnd? t).map (· ++ ['*', '/'])).getD []) := by
  induction t with
  | nil => rfl
  | cons c t ih =>
    have hmarker : (['*', '/'] : Text).isPrefixOf (c :: (t ++ ['*', '/'])) =
        (['*', '/'] : Text).isPrefixOf (c :: t) := by
      rw [isPrefixOf_pair, isPrefixOf_pair]
      cases t <;> rfl
    rw [List.cons_append, behindEnd?, behindEnd?, hmarker]
    split
    · next hprefix =>
      rw [isPrefixOf_pair] at hprefix
      cases t with
      | nil => simp at hprefix
      | cons d t => rfl
    · exact ih

theorem allBlank_scan_wrapped_code (line part : Text) :
    Text.allBlank (scan {} .code line ('/' :: '*' :: (part ++ ['*', '/']))) = true ↔
      ∀ rest ∈ behindEnd? part, Text.allBlank (blankOut (rest ++ ['*', '/'])) = true := by
  obtain ⟨line', hstart⟩ := exists_hides_blockStart line (part ++ ['*', '/'])
  have hend := behindEnd?_append_blockEnd part
  obtain ⟨line'', hbody⟩ := exists_hides_closed hend line'
  rw [(hstart.trans hbody).shown_iff, allBlank_scan_iff .code line'' []]
  cases behindEnd? part with
  | none => simp [scan, Text.allBlank]
  | some rest => simp [blankOut, blankOutWith]

theorem allBlank_scan_wrapped_line (line part : Text) :
    Text.allBlank (scan {} .line line ('/' :: '*' :: (part ++ ['*', '/']))) = true ↔
      ∀ rest ∈ behindNewline? part, Text.allBlank (blankOut (rest ++ ['*', '/'])) = true := by
  by_cases hnewline : '\n' ∈ part
  · obtain ⟨u, rest, rfl, hu⟩ := List.eq_append_cons_of_mem hnewline
    have hmarker : '\n' ∉ '/' :: '*' :: u := by simpa using hu
    obtain ⟨line', hhides⟩ := exists_hides_restOfLine hmarker line
    have hfront : Text.allBlank (scan {} .line line ('/' :: '*' :: u)) = true :=
      hhides.shown_iff.mpr rfl
    have hmode : (modeAfter {} .line line ('/' :: '*' :: u)).atNewline = .code := by
      rw [hhides.mode_eq]
      rfl
    have hsplit : '/' :: '*' :: (u ++ '\n' :: rest ++ ['*', '/']) =
        ('/' :: '*' :: u) ++ '\n' :: (rest ++ ['*', '/']) := by simp
    rw [hsplit, scan_append_newline, Text.allBlank_append, Text.allBlank_cons, hmode,
      behindNewline?_append hu]
    simp [hfront, Text.isBlank_newline, blankOut, blankOutWith]
  · have hclean : '\n' ∉ '/' :: '*' :: (part ++ ['*', '/']) := by simpa using hnewline
    obtain ⟨line', hhides⟩ := exists_hides_restOfLine hclean line
    rw [hhides.shown_iff, behindNewline?_eq_none hnewline]
    simp [scan, Text.allBlank]

/-- Nothing is shown of a part that is wrapped but what is left out and is no comment by itself. -/
theorem slice_wrapped_allBlank_iff {a part y : Text} (houtside : Outside (a ++ y) a.length) (b : Text) :
    Text.allBlank ((blankOut (a ++ (['/', '*'] ++ part ++ ['*', '/'] ++ b))).slice a.length
        (a.length + (['/', '*'] ++ part ++ ['*', '/']).length)) = true ↔
      ∀ rest ∈ uncovered? (a ++ y) a.length part,
        Text.allBlank (blankOut (rest ++ ['*', '/'])) = true := by
  let w : Text := '/' :: '*' :: part
  have hwrapped : ['/', '*'] ++ part ++ ['*', '/'] = w ++ ['*', '/'] := rfl
  have hbefore : w ++ ['*', '/'] ++ b = w ++ '*' :: '/' :: b := by rw [List.append_assoc]; rfl
  have hlength : (w ++ ['*', '/']).length = w.length + 2 := by rw [List.length_append]; rfl
  have hinside : a.length ≤ (a ++ (w ++ '*' :: '/' :: b)).length := by simp
  have hfits := fits_modeAt hinside
  rw [List.drop_left] at hfits
  rw [hwrapped, slice_blankOut, hbefore, hlength, allBlank_take_scan_blockEnd_iff hfits,
    show w ++ '*' :: '/' :: b = '/' :: '*' :: (part ++ '*' :: '/' :: b) from rfl,
    modeAt_blockStart houtside, uncovered?]
  split
  · exact allBlank_scan_wrapped_line _ part
  · exact allBlank_scan_wrapped_code _ part

theorem allBlank_scan_lineComments (hmode : mode = .code ∨ mode = .line) (line t : Text) :
    Text.allBlank (scan {} mode line (Text.changeLines Text.lineComment t.lineCount t)) = true := by
  have hline {l : Text} (hl : '\n' ∉ l) {mode : Mode} (hmode : mode = .code ∨ mode = .line)
      (line : Text) : Text.allBlank (scan {} mode line (Text.lineComment l)) = true ∧
        (modeAfter {} mode line (Text.lineComment l)).atNewline = .code := by
    have hhides : ∃ line', Hides mode line (Text.lineComment l) .line line' [] := by
      rcases hmode with rfl | rfl
      · exact exists_hides_lineComment hl line
      · exact exists_hides_restOfLine (Text.newline_not_mem_lineComment hl) line
    obtain ⟨line', hhides⟩ := hhides
    exact ⟨hhides.shown_iff.mpr rfl, by rw [hhides.mode_eq]; rfl⟩
  induction t using Text.line_induction generalizing mode line with
  | last l hl =>
    rw [Text.lineCount, List.count_eq_zero.mpr hl, Text.changeLines_last hl]
    exact (hline hl hmode line).1
  | more l rest hl ih =>
    have hcount : Text.lineCount (l ++ '\n' :: rest) = rest.lineCount + 1 := by
      rw [Text.lineCount, List.count_append, List.count_eq_zero.mpr hl, List.count_cons_self,
        Nat.zero_add, Text.lineCount]
    obtain ⟨hblank, hcode⟩ := hline hl hmode line
    rw [hcount, Text.changeLines_more hl, scan_append_newline, Text.allBlank_append,
      Text.allBlank_cons, hcode]
    exact ⟨hblank, Text.isBlank_newline, ih (.inl rfl) []⟩

end Comment

namespace Document

open Comment (blankOut lineBefore modeAt Mode Outside scan uncovered?)
open Text (BlankBefore changeLines lineComment)

variable {d d' : Document}

theorem commentedPart_ne_nil (hselection : d.selectionStart < d.selectionEnd)
    (hstop : d.selectionEnd ≤ d.text.length) : d.commentedPart ≠ [] := by
  have hbegin := commentedStart_lt hselection
  rw [← List.length_pos_iff, commentedPart, Text.slice, List.length_drop, List.length_take]
  omega

theorem exists_commentedPart_concat (hselection : d.selectionStart < d.selectionEnd)
    (hstop : d.selectionEnd ≤ d.text.length) (hempty : lineBefore d.text d.selectionEnd = []) :
    ∃ u, d.commentedPart = u ++ ['\n'] := by
  have hne := commentedPart_ne_nil hselection hstop
  have hline := (lineStart_eq_iff hstop).mpr hempty
  rw [lineStart_eq] at hline
  have hstarts := Text.startsLine_take_afterNewlines
    ((List.take_sublist d.selectionEnd d.text).count_le '\n')
  rw [hline, take_selectionEnd hselection] at hstarts
  rcases hstarts with hnil | ⟨a, ha⟩
  · exact absurd (List.append_eq_nil_iff.mp hnil).2 hne
  · have hlast := congrArg List.getLast? ha
    rw [List.getLast?_append_of_ne_nil _ hne, List.getLast?_concat] at hlast
    exact List.getLast?_eq_some_iff.mp hlast

theorem allBlank_scan_commentedPart (hselection : d.selectionStart < d.selectionEnd)
    (hstop : d.selectionEnd ≤ d.text.length) {mode : Mode} (hmode : mode = .code ∨ mode = .line)
    (line : Text) :
    Text.allBlank (scan {} mode line (changeLines lineComment d.commentedCount d.commentedPart)) =
      true := by
  have hcount := commentedCount_eq hselection
  by_cases hempty : lineBefore d.text d.selectionEnd = []
  · obtain ⟨u, hu⟩ := exists_commentedPart_concat hselection hstop hempty
    have hlines : d.commentedCount = Text.lineCount u := by
      rw [hcount, if_pos hempty, hu, List.count_append, List.count_singleton_self, Text.lineCount]
    have hfront : changeLines lineComment (Text.lineCount u) (u ++ ['\n']) =
        changeLines lineComment (Text.lineCount u) u ++ ['\n'] :=
      Text.changeLines_append ['/', '/'] (Nat.le_refl _) ['\n']
    rw [hlines, hu, hfront, Comment.scan_append_newline, Text.allBlank_append]
    exact ⟨Comment.allBlank_scan_lineComments hmode line u, rfl⟩
  · have hlines : d.commentedCount = d.commentedPart.lineCount := by
      rw [hcount, if_neg hempty, Text.lineCount]
    rw [hlines]
    exact Comment.allBlank_scan_lineComments hmode line d.commentedPart

theorem modeAt_commentedStart (hblank : d.text.BlankBefore d.selectionStart)
    (hstart : d.selectionStart ≤ d.text.length) (houtside : Outside d.text d.selectionStart)
    (x : Text) : modeAt {} (d.text.take d.commentedStart ++ x) d.commentedStart = .code ∨
      modeAt {} (d.text.take d.commentedStart ++ x) d.commentedStart = .line := by
  have hslice := congrArg List.length (d.text.slice_from_lineStart d.selectionStart)
  rw [← commentedStart_eq, List.length_reverse, Text.slice, List.length_drop,
    List.length_take_of_le hstart] at hslice
  have hle := d.commentedStart_le
  have hline : d.selectionStart - (lineBefore d.text d.selectionStart).length = d.commentedStart := by
    omega
  have hmode := Comment.mode_at_lineStart hstart hblank (houtside.imp_right And.left)
  have hlast : ∀ c, (d.text.take d.commentedStart).getLast? = some c → c ≠ '/' ∧ c ≠ '*' := by
    intro c hc
    have hstarts := Text.startsLine_take_afterNewlines
      ((List.take_sublist d.selectionStart d.text).count_le '\n')
    rw [← commentedStart_eq] at hstarts
    rcases hstarts with hnil | ⟨a, ha⟩
    · rw [hnil] at hc
      contradiction
    · rw [ha, List.getLast?_concat] at hc
      obtain rfl := Option.some.inj hc
      exact ⟨by decide, by decide⟩
  have hsame := Comment.modeAt_length_append hlast x (d.text.drop d.commentedStart)
  rw [List.take_append_drop, List.length_take_of_le (by omega)] at hsame
  rw [hline] at hmode
  rwa [hsame]

theorem Reselected.slice_blankOut {start added : Nat} {part : Text} (h : Reselected d d' start added part)
    (hstart : start ≤ d.selectionEnd) (hstop : d.selectionEnd ≤ d.text.length) :
    (blankOut d'.text).slice d'.selectionStart d'.selectionEnd =
      (blankOut (d.text.take start ++ (part ++ d.text.drop d.selectionEnd))).slice
        (d.text.take start).length ((d.text.take start).length + part.length) := by
  have hlength := h.length
  have hend : d.selectionEnd + added = start + part.length := by omega
  rw [h.text, h.start, h.stop, List.length_take_of_le (Nat.le_trans hstart hstop), hend]

theorem LinesCommented.allBlank (h : LinesCommented d d')
    (hselection : d.selectionStart < d.selectionEnd) (hstop : d.selectionEnd ≤ d.text.length)
    (hblank : d.text.BlankBefore d.selectionStart) (houtside : Outside d.text d.selectionStart) :
    Text.allBlank ((blankOut d'.text).slice d'.selectionStart d'.selectionEnd) = true := by
  have hbegin := commentedStart_lt hselection
  have hmode := modeAt_commentedStart hblank (Nat.le_trans (Nat.le_of_lt hselection) hstop) houtside
    (changeLines lineComment d.commentedCount d.commentedPart ++ d.text.drop d.selectionEnd)
  rw [h.reselected.slice_blankOut (Nat.le_of_lt hbegin) hstop, Comment.slice_blankOut,
    List.length_take_of_le (Nat.le_trans (Nat.le_of_lt hbegin) hstop)]
  exact Comment.allBlank_take_scan (allBlank_scan_commentedPart hselection hstop hmode _) _

theorem Reselected.wrapped_allBlank_iff
    (h : Reselected d d' d.selectionStart 4 (['/', '*'] ++ d.selectedText ++ ['*', '/']))
    (hselection : d.selectionStart < d.selectionEnd) (hstop : d.selectionEnd ≤ d.text.length)
    (houtside : Outside d.text d.selectionStart) :
    Text.allBlank ((blankOut d'.text).slice d'.selectionStart d'.selectionEnd) = true ↔
      ∀ rest ∈ uncovered? d.text d.selectionStart d.selectedText,
        Text.allBlank (blankOut (rest ++ ['*', '/'])) = true := by
  have hsplit := List.take_append_drop d.selectionStart d.text
  have hlength : (d.text.take d.selectionStart).length = d.selectionStart :=
    List.length_take_of_le (Nat.le_trans (Nat.le_of_lt hselection) hstop)
  have houtside' : Outside (d.text.take d.selectionStart ++ d.text.drop d.selectionStart)
      (d.text.take d.selectionStart).length := by rwa [hsplit, hlength]
  rw [h.slice_blankOut (Nat.le_of_lt hselection) hstop, Comment.slice_wrapped_allBlank_iff houtside',
    hsplit, hlength]

/-- For every document without an open block and every selection that is not empty and begins outside of
comments and literals: nothing is shown of the new selection just if its lines were commented, or if
what its markers leave out is comment again. With blanks alone in front of both ends it is the lines.
The markers leave out what follows the first end marker in the selection; where the start marker is
in a line comment or makes one with a slash in front of it, what follows its first newline. -/
theorem commentSelection_allBlank_iff [FileLock] (hclosed : d.block = none)
    (hselection : d.hasSelection = true) (houtside : Outside d.text d.selectionStart) :
    (Workspace.Reached d → d.snapshot.Inside) ∧
    (d.snapshot.Inside → ∃ d', d.commentSelection = (d', none) ∧
      (Text.allBlank ((blankOut d'.text).slice d'.selectionStart d'.selectionEnd) = true ↔
        d.text.BlankBefore d.selectionStart ∧ d.text.BlankBefore d.selectionEnd ∨
          ∀ rest ∈ uncovered? d.text d.selectionStart d.selectedText,
            Text.allBlank (blankOut (rest ++ ['*', '/'])) = true)) := by
  refine ⟨fun hreached => hreached.inside.now, fun hinside => ?_⟩
  have hlt := selectionStart_lt_selectionEnd hselection
  have hstop := selectionEnd_le hinside
  obtain ⟨d', hcomment, hlines, hwrapped⟩ := exists_commentSelection hclosed hselection hinside
  refine ⟨d', hcomment, ?_⟩
  by_cases hblank : d.text.BlankBefore d.selectionStart ∧ d.text.BlankBefore d.selectionEnd
  · exact iff_of_true ((hlines hblank).allBlank hlt hstop hblank.1 houtside) (.inl hblank)
  · rw [(hwrapped hblank).wrapped_allBlank_iff hlt hstop houtside, or_iff_right hblank]

theorem commentSelection_allBlank_line_comment :
    let d : Document := { new .source "a /* x */ // b\n".toList none with position := 14, anchor := 2 }
    d.block = none ∧ d.hasSelection = true ∧ Outside d.text d.selectionStart ∧ d.snapshot.Inside ∧
      ¬(d.text.BlankBefore d.selectionStart ∧ d.text.BlankBefore d.selectionEnd) ∧
      uncovered? d.text d.selectionStart d.selectedText = some " // b".toList ∧
      ∃ d', d.commentSelection = (d', none) ∧
        Text.allBlank ((blankOut d'.text).slice d'.selectionStart d'.selectionEnd) = true := by
  intro d
  have hinside : d.snapshot.Inside := ⟨by decide, by decide⟩
  have hshown : uncovered? d.text d.selectionStart d.selectedText = some " // b".toList := by
    decide +kernel
  obtain ⟨d', hcomment, hiff⟩ := (commentSelection_allBlank_iff (show d.block = none from rfl)
    (show d.hasSelection = true by decide)
    (show Outside d.text d.selectionStart by decide +kernel)).2 hinside
  refine ⟨rfl, by decide, by decide +kernel, hinside, by decide +kernel, hshown, d', hcomment,
    hiff.mpr (.inr fun rest hrest => ?_)⟩
  obtain rfl := Option.some.inj (hshown.symm.trans hrest)
  decide +kernel

theorem commentSelection_shows_behind_comment :
    let d : Document := { new .source "a /* x */ b\n".toList none with position := 11, anchor := 0 }
    d.block = none ∧ d.hasSelection = true ∧ d.snapshot.Inside ∧ Outside d.text d.selectionStart ∧
      Outside d.text d.selectionEnd ∧ ∃ d', d.commentSelection = (d', none) ∧
        d'.text = "/*a /* x */ b*/\n".toList ∧ d'.selectionStart = 0 ∧ d'.selectionEnd = 15 ∧
        blankOut d'.text = "            b*/\n".toList ∧
        Text.allBlank ((blankOut d'.text).slice d'.selectionStart d'.selectionEnd) = false := by
  intro d
  have hinside : d.snapshot.Inside := ⟨by decide, by decide⟩
  have hmixed : ¬(d.text.BlankBefore d.selectionStart ∧ d.text.BlankBefore d.selectionEnd) := by
    decide +kernel
  obtain ⟨d', hcomment, -, hwrapped⟩ := exists_commentSelection (show d.block = none from rfl)
    (show d.hasSelection = true by decide) hinside
  have h := hwrapped hmixed
  have htext : d'.text = "/*a /* x */ b*/\n".toList := h.text.trans (by decide +kernel)
  have hstart : d'.selectionStart = 0 := h.start.trans (by decide)
  have hend : d'.selectionEnd = 15 := h.stop.trans (by decide)
  refine ⟨rfl, by decide, hinside, by decide +kernel, by decide +kernel, d', hcomment, htext,
    hstart, hend, ?_, ?_⟩
  · rw [htext]
    decide +kernel
  · rw [htext, hstart, hend]
    decide +kernel

end Document

end SourceEdit
