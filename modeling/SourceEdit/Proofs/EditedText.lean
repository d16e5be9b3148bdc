import SourceEdit.Proofs.IncludeInsertion
import SourceEdit.Proofs.IncludeRemoval
import SourceEdit.Proofs.Operations
import SourceEdit.Proofs.TextRoundTrip
import SourceEdit.Server.Tools

set_option autoImplicit false

namespace SourceEdit

namespace Text

/-- A character that is no line end does not occur as often. -/
def Differs (t u : Text) : Prop := ∃ c, c ≠ '\r' ∧ c ≠ '\n' ∧ u.count c ≠ t.count c

theorem count_unifyNewlines {c : Char} (hr : c ≠ '\r') (hn : c ≠ '\n') (t : Text) :
    (unifyNewlines t).count c = t.count c := by
  fun_induction unifyNewlines t with
  | case1 => rfl
  | case2 rest ih =>
    rw [List.count_cons_of_ne (Ne.symm hn), List.count_cons_of_ne (Ne.symm hr),
      List.count_cons_of_ne (Ne.symm hn), ih]
  | case3 a rest _ ih =>
    rw [List.count_cons, List.count_cons, ih]
    split
    · next ha => simp [ha, Ne.symm hr, Ne.symm hn]
    · rfl

theorem Differs.encode_ne {content : Octets} {u : Text}
    (h : Differs (unifyNewlines (Utf8.decodeLossy content)) u) : Utf8.encode u ≠ content := by
  rintro rfl
  obtain ⟨c, hr, hn, hne⟩ := h
  rw [Utf8.decodeLossy_encode, count_unifyNewlines hr hn] at hne
  exact hne rfl

theorem count_insertion (t text : Text) (p : Nat) (c : Char) :
    (t.take p ++ text ++ t.drop p).count c = t.count c + text.count c := by
  have hsplit := congrArg (List.count c) (List.take_append_drop p t)
  simp only [List.count_append] at hsplit ⊢
  omega

theorem differs_insertion {t text : Text} {c : Char} (hr : c ≠ '\r') (hn : c ≠ '\n')
    (hc : c ∈ text) (p : Nat) : Differs t (t.take p ++ text ++ t.drop p) := by
  have hpos := List.count_pos_iff.mpr hc
  refine ⟨c, hr, hn, ?_⟩
  rw [count_insertion]
  omega

theorem line_end_le_next {t l : Text} {k : Nat} (h : (lines t)[k]? = some l) :
    afterNewlines k t + l.length ≤ afterNewlines (k + 1) t := by
  cases hnext : (lines t)[k + 1]? with
  | some l' => exact Nat.le_of_lt (line_end_lt h hnext (Nat.lt_succ_self k))
  | none =>
    have hcount := List.getElem?_eq_none_iff.mp hnext
    rw [length_lines, lineCount] at hcount
    have hlast : afterNewlines (k + 1) t = t.length := afterNewlines_of_count_lt (by omega)
    rw [hlast]
    exact line_end_le h

theorem differs_without_line {t l : Text} {k : Nat} (h : (lines t)[k]? = some l) {c : Char}
    (hr : c ≠ '\r') (hn : c ≠ '\n') (hc : c ∈ l) :
    Differs t (t.take (afterNewlines k t) ++ t.drop (afterNewlines (k + 1) t)) := by
  have hle := afterNewlines_le_succ k t
  have hline : l.Sublist (t.slice (afterNewlines k t) (afterNewlines (k + 1) t)) := by
    have hslice := slice_from_line (a := 0) h (Nat.le_refl l.length)
    rw [Nat.add_zero, slice, slice, List.drop_zero, List.take_length] at hslice
    rw [slice, ← hslice]
    exact (List.take_sublist_take_left (line_end_le_next h)).drop _
  have hpos := List.count_pos_iff.mpr (hline.subset hc)
  have hback := congrArg (List.count c) (List.take_append_drop (afterNewlines (k + 1) t) t)
  have hfront := congrArg (List.count c)
    (List.take_append_drop (afterNewlines k t) (t.take (afterNewlines (k + 1) t)))
  rw [List.take_take, Nat.min_eq_left hle] at hfront
  simp only [List.count_append, slice] at hback hfront hpos
  refine ⟨c, hr, hn, ?_⟩
  rw [List.count_append]
  omega

end Text

namespace Document

open Text (Differs)

variable {d : Document}

theorem differs_insertInclude (hclosed : d.block = none) {t : Text} {newGroup : Bool}
    (haccepted : (d.insertInclude t newGroup).2 = .ok true) :
    Differs d.text (d.insertInclude t newGroup).1.text := by
  unfold insertInclude at haccepted ⊢
  split at haccepted
  · simp at haccepted
  · split at haccepted
    · simp at haccepted
    · next i _ _ line group _ =>
      have hmem : '#' ∈ d.lineStarter line ++ d.directiveLines i line group := by
        simp [directiveLines]
      obtain ⟨d', hedit, -, htext⟩ := editOrFail_single hclosed (Nat.le_refl _)
        (d.text.positionOfLine_le line) (d.lineStarter line ++ d.directiveLines i line group)
      dsimp only
      rw [Edit.insertion, hedit, htext]
      exact Text.differs_insertion (by decide) (by decide) hmem _

theorem differs_removeInclude (hclosed : d.block = none) {t : Text}
    (haccepted : (d.removeInclude t).2 = .ok true) :
    Differs d.text (d.removeInclude t).1.text := by
  obtain ⟨i, l, -, hfind, htext⟩ := exists_removed hclosed haccepted
  obtain ⟨k, raw, hline, hraw, hmem⟩ :=
    Inventory.exists_line_of_mem (List.mem_of_find?_eq_some hfind)
  rw [htext, hline, Text.positionOfLine_succ, Text.positionOfLine_succ]
  exact Text.differs_without_line hraw (by decide) (by decide) hmem

theorem semicolon_mem_render (f : ForwardDeclaration) : ';' ∈ f.render := by
  obtain ⟨keyword, namespaces, name⟩ := f
  induction namespaces with
  | nil => exact List.mem_append_right _ (List.mem_singleton.mpr rfl)
  | cons outer rest ih =>
    refine List.mem_append_left _ (List.mem_append_right _ ?_)
    exact ih

/-- The document is a header, and the declaration is well formed and not there yet. -/
structure Declarable (d : Document) (t : Text) (f : ForwardDeclaration) : Prop where
  header : d.isHeader = true
  parse : ForwardDeclaration.parse? t = some f
  absent : d.text.findForward? (Pattern.ofText f.statement).wholeWord 0 = none

theorem insertForwardDeclaration_cases (hclosed : d.block = none) (t : Text) :
    d.insertForwardDeclaration t = (d, .ok false) ∧
        (∀ f, d.Declarable t f → lastIncludeLineEnd? d.text = none) ∨
      ∃ d' f offset, d.insertForwardDeclaration t = (d', .ok true) ∧ d.Declarable t f ∧
        lastIncludeLineEnd? d.text = some offset ∧
        d'.text = d.text.take offset ++ ('\n' :: f.render ++ ['\n']) ++ d.text.drop offset := by
  rw [insertForwardDeclaration]
  split
  · next f hheader hparse =>
    split
    · next hthere =>
      refine .inl ⟨rfl, fun f' h => ?_⟩
      obtain rfl := Option.some.inj (hparse.symm.trans h.parse)
      rw [h.absent] at hthere
      contradiction
    · next hnew =>
      have habsent : d.text.findForward? (Pattern.ofText f.statement).wholeWord 0 = none := by
        simpa using hnew
      split
      · next hnone => exact .inl ⟨rfl, fun _ _ => hnone⟩
      · next offset hoffset =>
        obtain ⟨d', hedit, -, htext⟩ := editOrFail_single hclosed (Nat.le_refl _)
          (lastIncludeLineEnd?_le hoffset) ('\n' :: f.render ++ ['\n'])
        exact .inr ⟨d', f, offset, hedit, ⟨hheader, hparse, habsent⟩, hoffset, htext⟩
  · next hother => exact .inl ⟨rfl, fun f h => absurd h.parse (hother f h.header)⟩

theorem differs_insertForwardDeclaration (hclosed : d.block = none) {t : Text}
    (haccepted : (d.insertForwardDeclaration t).2 = .ok true) :
    Differs d.text (d.insertForwardDeclaration t).1.text := by
  rcases insertForwardDeclaration_cases hclosed t with ⟨hrefused, -⟩ | ⟨d', f, _, heq, -, -, htext⟩
  · rw [hrefused] at haccepted
    simp at haccepted
  · have hmem : ';' ∈ '\n' :: f.render ++ ['\n'] :=
      List.mem_append_left _ (.tail _ (semicolon_mem_render f))
    rw [heq, htext]
    exact Text.differs_insertion (by decide) (by decide) hmem _

theorem commentSelection_unselected (hclosed : d.block = none) (hselection : d.hasSelection = false) :
    ∃ d' : Document, d.commentSelection = (d', none) ∧ d'.block = none ∧
      d'.text = if (d.text.line (d.text.lineOfPosition d.position)).isEmpty then d.text
        else d.text.take (d.lineStart d.position) ++ ['/', '/'] ++
          d.text.drop (d.lineStart d.position) := by
  rw [commentSelection, hselection, Bool.not_false, if_pos rfl, commentCursorLine]
  split
  · exact ⟨d, by rw [edit_eq_commit hclosed]; rfl, hclosed, rfl⟩
  · exact edit_single hclosed (Nat.le_refl _) (Text.positionOfLine_le _ _) _ _

theorem hasSelection_setPosition (d : Document) (position : Int) :
    (d.setPosition position false).hasSelection = false := by
  simp [setPosition, hasSelection]

theorem commentSelection_at (hclosed : d.block = none) (position : Int) : ∃ d' : Document,
    (d.setPosition position false).commentSelection = (d', none) ∧ d'.block = none ∧
      (d'.text = d.text ∨ d.text.count '/' < d'.text.count '/') := by
  obtain ⟨d', hcomment, hblock, htext⟩ := commentSelection_unselected
    (show (d.setPosition position false).block = none from hclosed)
    (d.hasSelection_setPosition position)
  refine ⟨d', hcomment, hblock, ?_⟩
  rw [htext]
  split
  · exact .inl rfl
  · rw [Text.count_insertion]
    exact .inr (Nat.lt_add_of_pos_right (by decide))

end Document

namespace Server

open Document
open Text (Differs)

theorem commentEach_closed {d : Document} (hclosed : d.block = none) (lines : List Nat) :
    ∃ d' : Document, commentEach lines d = (d', none) ∧ d'.block = none ∧
      (d'.text = d.text ∨ d.text.count '/' < d'.text.count '/') := by
  induction lines generalizing d with
  | nil => exact ⟨d, rfl, hclosed, .inl rfl⟩
  | cons line lines ih =>
    obtain ⟨d₁, hline, hclosed₁, htext₁⟩ :=
      commentSelection_at hclosed (d.text.positionOfLine line)
    obtain ⟨d₂, hlines, hclosed₂, htext₂⟩ := ih hclosed₁
    refine ⟨d₂, ?_, hclosed₂, ?_⟩
    · rw [commentEach, hline]
      exact hlines
    · rcases htext₁ with htext₁ | hmore₁
      · rwa [htext₁] at htext₂
      · refine .inr ?_
        rcases htext₂ with htext₂ | hmore₂
        · rwa [htext₂]
        · exact Nat.lt_trans hmore₁ hmore₂

theorem differs_commentRange {d changed : Document} (hclosed : d.block = none) {first last : Nat}
    (h : commentRange first last d = (changed, .ok true)) : Differs d.text changed.text := by
  unfold commentRange at h
  dsimp only at h
  split at h
  · simp at h
  · obtain ⟨d', heach, -, htext⟩ := commentEach_closed hclosed
      ((List.range (min last d.text.lineCount + 1 - first)).map (first + ·))
    rw [heach] at h
    simp only [Prod.mk.injEq, Except.ok.injEq, bne_iff_ne] at h
    obtain ⟨rfl, hne⟩ := h
    exact ⟨'/', by decide, by decide, Nat.ne_of_gt (htext.resolve_left hne)⟩

end Server

end SourceEdit
