import SourceEdit.Document.Basic

set_option autoImplicit false

namespace SourceEdit.Document

/-- The document with other recordings, and perhaps with its cursor moved or its text changed. -/
inductive BlockStep (d : Document) : Document → Prop where
  | records (b : Option EditBlock) : BlockStep d { d with block := b }
  | moves (b : Option EditBlock) (start stop : Int) :
      BlockStep d ({ d with block := b }.selectRegion start stop)
  | changes (b : Option EditBlock) (sorted : List Edit) (cursor : Option CursorRequest) :
      BlockStep d ({ d with block := b }.change sorted cursor)

theorem BlockStep.of_block {d d' : Document} {b : Option EditBlock}
    (h : BlockStep { d with block := b } d') : d.BlockStep d' := by
  cases h with
  | records b => exact .records b
  | moves b start stop => exact .moves b start stop
  | changes b sorted cursor => exact .changes b sorted cursor

theorem blockStep_openBlock (d : Document) : d.BlockStep d.openBlock := by
  unfold openBlock
  split <;> exact .records _

theorem blockStep_record (d : Document) (e : Edit) : d.BlockStep (d.record e) := .records _

theorem blockStep_requestCursor (d : Document) (position : Int) (anchor : Option Int) :
    d.BlockStep (d.requestCursor position anchor) := .records _

theorem blockStep_commit {d d' : Document} {edits : List Edit} {cursor : Option CursorRequest}
    (h : d.commit edits cursor = .ok d') : d.BlockStep d' := by
  unfold commit at h
  split at h
  · split at h
    · obtain rfl := Except.ok.inj h
      exact .records d.block
    · obtain rfl := Except.ok.inj h
      exact .moves d.block _ _
  · dsimp only at h
    split at h
    · contradiction
    · obtain rfl := Except.ok.inj h
      exact .changes d.block _ cursor

theorem blockStep_closeBlock (d : Document) (abandoned : Bool) :
    d.BlockStep (d.closeBlock abandoned).1 := by
  unfold closeBlock
  split
  · exact .records d.block
  · split
    · exact .records _
    · dsimp only
      split
      · exact .records none
      · split
        · next hcommit => exact (blockStep_commit hcommit).of_block
        · exact .records none

theorem foldl_record_eq (d : Document) (edits : List Edit) :
    ∃ b, edits.foldl record d = { d with block := b } := by
  induction edits generalizing d with
  | nil => exact ⟨d.block, rfl⟩
  | cons e es ih => exact ih (d.record e)

theorem blockStep_edit (d : Document) (edits : List Edit) (cursor : Option CursorRequest) :
    d.BlockStep (d.edit edits cursor).1 := by
  have hopen : ∃ b, d.openBlock = { d with block := b } := by
    unfold openBlock
    split <;> exact ⟨_, rfl⟩
  obtain ⟨b, hb⟩ := hopen
  obtain ⟨b', hrecorded⟩ := foldl_record_eq d.openBlock edits
  rw [hb] at hrecorded
  unfold edit
  rw [hb, hrecorded]
  cases cursor with
  | none => exact (blockStep_closeBlock _ false).of_block
  | some c => exact (blockStep_closeBlock _ false).of_block

theorem blockStep_editOrFail (d : Document) (edits : List Edit) (cursor : Option CursorRequest) :
    d.BlockStep (d.editOrFail edits cursor).1 := by
  have hedit := blockStep_edit d edits cursor
  unfold editOrFail
  split <;> next heq => rwa [heq] at hedit

end SourceEdit.Document
