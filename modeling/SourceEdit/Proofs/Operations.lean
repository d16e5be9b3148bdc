import SourceEdit.Document.CommentOut
import SourceEdit.Document.Declaration
import SourceEdit.Document.Includes
import SourceEdit.Proofs.Commit
import SourceEdit.Proofs.DirectiveSpans

set_option autoImplicit false

namespace SourceEdit

namespace Edit

theorem fit_insertions {length : Nat} {edits : List Edit}
    (h : ∀ e ∈ edits, ∃ (p : Nat) (t : Text), p ≤ length ∧ e = insertion p t) :
    Fit length edits where
  within e he := by
    obtain ⟨p, t, hp, rfl⟩ := h e he
    exact ⟨Int.natCast_nonneg p, Int.le_refl _, Int.ofNat_le.mpr hp⟩
  apart := by
    refine List.pairwise_of_forall_mem_list fun a ha b hb => ?_
    obtain ⟨p, t, -, rfl⟩ := h a ha
    obtain ⟨q, u, -, rfl⟩ := h b hb
    exact Int.le_total p q

end Edit

/-- The cursor and the anchor lie in the text. -/
structure Snapshot.Inside (s : Snapshot) : Prop where
  position_le : s.position ≤ s.text.length
  anchor_le : s.anchor ≤ s.text.length

namespace Document

/-- Nothing, or one block with edits that fit the text. -/
inductive EditsOnce (d : Document) : Document × Except EditError Bool → Prop where
  | refused : EditsOnce d (d, .ok false)
  | edited {edits : List Edit} (hne : edits ≠ []) (hfit : Edit.Fit d.text.length edits) :
      EditsOnce d (d.editOrFail edits none)

theorem editsOnce_insertInclude (d : Document) (t : Text) (newGroup : Bool) :
    d.EditsOnce (d.insertInclude t newGroup) := by
  unfold insertInclude
  split
  · exact .refused
  · split
    · exact .refused
    · exact .edited (List.cons_ne_nil _ _) (Edit.fit_single (Nat.le_refl _) (d.text.positionOfLine_le _) _)

theorem editsOnce_removeInclude (d : Document) (t : Text) : d.EditsOnce (d.removeInclude t) := by
  unfold removeInclude
  split
  · exact .refused
  · exact .edited (List.cons_ne_nil _ _)
      (Edit.fit_single (d.text.positionOfLine_le_succ _) (d.text.positionOfLine_le _) [])

theorem lastIncludeLineEnd?_le {t : Text} {o : Nat} (h : lastIncludeLineEnd? t = some o) :
    o ≤ t.length := by
  obtain ⟨l, hl, rfl⟩ := Option.map_eq_some_iff.mp h
  obtain ⟨k, hline, hoffset⟩ :=
    Directive.exists_isLine_of_mem_placed (List.mem_filter.mp (List.mem_of_getLast? hl)).1
  rw [hoffset]
  exact Text.line_end_le hline

theorem editsOnce_insertForwardDeclaration (d : Document) (t : Text) :
    d.EditsOnce (d.insertForwardDeclaration t) := by
  unfold insertForwardDeclaration
  split
  · split
    · exact .refused
    · split
      · exact .refused
      · next hoffset =>
        exact .edited (List.cons_ne_nil _ _)
          (Edit.fit_single (Nat.le_refl _) (lastIncludeLineEnd?_le hoffset) _)
  · exact .refused

/-- The block of a comment: without edits, or with edits that fit the text around the selection. -/
structure CommentBlock (d : Document) (edits : List Edit) (cursor : Option CursorRequest) :
    Prop where
  cursor_eq : edits = [] → cursor = none
  fit : d.snapshot.Inside → Edit.Fit d.text.length edits

theorem CommentBlock.of_insertions {d : Document} {edits : List Edit} (hne : edits ≠ [])
    (h : d.snapshot.Inside →
      ∀ e ∈ edits, ∃ (p : Nat) (t : Text), p ≤ d.text.length ∧ e = .insertion p t)
    (cursor : Option CursorRequest) : d.CommentBlock edits cursor where
  cursor_eq hnil := absurd hnil hne
  fit hinside := Edit.fit_insertions (h hinside)

theorem commentSelectedLines_eq_edit (d : Document) :
    ∃ edits cursor, d.commentSelectedLines = d.edit edits cursor ∧ d.CommentBlock edits cursor := by
  obtain ⟨first, last, hlines⟩ : ∃ first last, d.selectedLines = (first, last) := ⟨_, _, rfl⟩
  have hle : first ≤ last := by
    obtain ⟨rfl, rfl⟩ := Prod.mk.inj hlines
    exact Nat.le_max_left _ _
  unfold commentSelectedLines
  rw [hlines]
  refine ⟨_, _, rfl, .of_insertions ?_ (fun _ e he => ?_) _⟩
  · rw [Ne, List.map_eq_nil_iff, List.range_eq_nil]
    omega
  · obtain ⟨i, -, rfl⟩ := List.mem_map.mp he
    exact ⟨_, _, d.text.positionOfLine_le _, rfl⟩

theorem commentSelection_eq_edit (d : Document) :
    ∃ edits cursor, d.commentSelection = d.edit edits cursor ∧ d.CommentBlock edits cursor := by
  unfold commentSelection
  dsimp only
  split
  · unfold commentCursorLine
    split
    · exact ⟨[], none, rfl, fun _ => rfl, fun _ => Edit.fit_insertions (by simp)⟩
    · refine ⟨_, _, rfl, .of_insertions (List.cons_ne_nil _ _) (fun _ e he => ?_) _⟩
      exact ⟨_, _, d.text.positionOfLine_le _, List.mem_singleton.mp he⟩
  · split
    · exact d.commentSelectedLines_eq_edit
    · refine ⟨_, _, rfl, .of_insertions (List.cons_ne_nil _ _) (fun hinside e he => ?_) _⟩
      have hposition : d.position ≤ d.text.length := hinside.position_le
      have hanchor : d.anchor ≤ d.text.length := hinside.anchor_le
      rcases List.mem_pair.mp he with rfl | rfl
      · exact ⟨d.selectionEnd, _, Nat.max_le.mpr ⟨hanchor, hposition⟩, rfl⟩
      · exact ⟨d.selectionStart, _, Nat.le_trans (Nat.min_le_left _ _) hanchor, rfl⟩

end Document

end SourceEdit
