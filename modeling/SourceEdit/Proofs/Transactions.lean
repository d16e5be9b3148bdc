import SourceEdit.Proofs.CursorBounds

set_option autoImplicit false

namespace SourceEdit.Document

/-- One step of the history, and undo takes it back. -/
structure Advances (d d' : Document) : Prop where
  undos_eq : d'.undos = d.snapshot :: d.undos
  redos_eq : d'.redos = []
  undo_eq : d'.undo = ({ d with redos := [d'.snapshot] }, true)

theorem advances_change (d : Document) (sorted : List Edit) (cursor : Option CursorRequest) :
    d.Advances (d.change sorted cursor) := ⟨rfl, rfl, rfl⟩

/-- Refused without any change, or one step of the history. -/
inductive Transacts (d : Document) : Document × Except EditError Bool → Prop where
  | refused : Transacts d (d, .ok false)
  | accepted {d' : Document} (h : d.Advances d') : Transacts d (d', .ok true)

theorem Transacts.advances {d : Document} {r : Document × Except EditError Bool}
    (h : d.Transacts r) (htrue : r.2 = .ok true) : d.Advances r.1 := by
  cases h with
  | refused => cases htrue
  | accepted h => exact h

section
variable {d : Document} (hclosed : d.block = none)
include hclosed

theorem EditsOnce.transacts {r : Document × Except EditError Bool} (h : d.EditsOnce r) :
    d.Transacts r := by
  cases h with
  | refused => exact .refused
  | edited hne hfit =>
    rw [editOrFail, edit_eq_commit hclosed, commit_of_fit hne hfit]
    exact .accepted (advances_change d _ none)

theorem commentSelection_transacts (hinside : d.snapshot.Inside) :
    ∃ d', d.commentSelection = (d', none) ∧ (d' = d ∨ d.Advances d') := by
  obtain ⟨edits, cursor, hedit, hblock⟩ := d.commentSelection_eq_edit
  rw [hedit, edit_eq_commit hclosed]
  by_cases hne : edits = []
  · rw [hblock.cursor_eq hne, hne]
    exact ⟨d, rfl, .inl rfl⟩
  · rw [commit_of_fit hne (hblock.fit hinside)]
    exact ⟨_, rfl, .inr (advances_change d _ cursor)⟩

/-- Every operation on a document without an open block is one transaction and none of them fails.
What answers `false` has changed nothing; what answers `true` is one step of the history, from which
undo leads back to the same text, cursor and anchor. Commenting answers nothing and does one or the
other; it needs a cursor and an anchor in the text, as every document has them. -/
theorem operations_transact [FileLock] :
    (∀ t newGroup, d.Transacts (d.insertInclude t newGroup)) ∧
    (∀ t, d.Transacts (d.removeInclude t)) ∧
    (∀ t, d.Transacts (d.insertForwardDeclaration t)) ∧
    (d.snapshot.Inside → ∃ d', d.commentSelection = (d', none) ∧ (d' = d ∨ d.Advances d')) ∧
    (Workspace.Reached d → d.snapshot.Inside) :=
  ⟨fun t newGroup => (d.editsOnce_insertInclude t newGroup).transacts hclosed,
    fun t => (d.editsOnce_removeInclude t).transacts hclosed,
    fun t => (d.editsOnce_insertForwardDeclaration t).transacts hclosed,
    commentSelection_transacts hclosed, fun hreached => hreached.inside.now⟩

end

theorem operations_transact_in_header :
    let d : Document :=
      { new .source "#include <a>\n".toList (some "a.h".toList) with position := 13, anchor := 0 }
    d.block = none ∧ d.snapshot.Inside ∧
      d.Advances (d.insertInclude "<b>".toList true).1 ∧
      d.Advances (d.removeInclude "<a>".toList).1 ∧
      d.Advances (d.insertForwardDeclaration "class B".toList).1 ∧
      ∃ d', d.commentSelection = (d', none) ∧ d.Advances d' := by
  intro d
  have hinside : d.snapshot.Inside := ⟨by decide, by decide⟩
  obtain ⟨hinsert, hremove, hdeclare, hcomment, -⟩ := operations_transact (show d.block = none from rfl)
  refine ⟨rfl, hinside, (hinsert _ _).advances (by decide +kernel),
    (hremove _).advances (by decide +kernel), (hdeclare _).advances (by decide +kernel), ?_⟩
  obtain ⟨d', hd', hsame | hadvances⟩ := hcomment hinside
  · have hundos := congrArg (·.1.undos.length) hd'
    rw [hsame] at hundos
    exact absurd hundos (by decide +kernel)
  · exact ⟨d', hd', hadvances⟩

end SourceEdit.Document
