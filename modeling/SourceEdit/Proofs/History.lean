import SourceEdit.Proofs.Commit

/-!
The two stacks of a document are one linear history: a list of texts and the place in it where the
document stands. Undo and redo move along the list; an edit cuts off what lies ahead.
-/

set_option autoImplicit false

namespace SourceEdit

/-- The texts that a document went through, and which of them it shows. -/
structure Timeline where
  texts : List Text
  index : Nat
deriving DecidableEq, Repr

inductive Document.Action where
  | block (edits : List Edit) (cursor : Option CursorRequest)
  | undo
  | redo
  | moveTo (position : Int) (keepAnchor : Bool)
  | select (start stop : Int)
deriving DecidableEq, Repr

namespace Timeline

def start (t : Text) : Timeline := ⟨[t], 0⟩

def push (h : Timeline) (t : Text) : Timeline :=
  ⟨h.texts.take (h.index + 1) ++ [t], h.index + 1⟩

/-- Where an action leads that left this text, and whether it succeeded. -/
def follow (h : Timeline) (left : Text) : Document.Action → Bool → Timeline
  | .block (_ :: _) _, true => h.push left
  | .undo, true => { h with index := h.index - 1 }
  | .redo, true => { h with index := h.index + 1 }
  | _, _ => h

end Timeline

namespace Document

/-- The answer is whether a block was accepted or there was a change to go to. -/
def act (d : Document) : Action → Document × Bool
  | .block edits cursor => ((d.edit edits cursor).1, (d.edit edits cursor).2.isNone)
  | .undo => d.undo
  | .redo => d.redo
  | .moveTo position keepAnchor => (d.setPosition position keepAnchor, true)
  | .select start stop => (d.selectRegion start stop, true)

def run (d : Document) : List Action → Document
  | [] => d
  | a :: rest => (d.act a).1.run rest

def trace (d : Document) (h : Timeline) : List Action → Timeline
  | [] => h
  | a :: rest => (d.act a).1.trace (h.follow (d.act a).1.text a (d.act a).2) rest

/-- What is to be undone, with the oldest text first, the text itself, and what is to be redone. -/
def timeline (d : Document) : Timeline :=
  ⟨(d.undos.map (·.text)).reverse ++ d.text :: d.redos.map (·.text), d.undos.length⟩

structure Fresh (d : Document) : Prop where
  undos : d.undos = []
  redos : d.redos = []
  closed : d.block = none

theorem fresh_new (kind : DocumentKind) (text : Text) (fileName : Option Path) :
    Fresh (new kind text fileName) := ⟨rfl, rfl, rfl⟩

theorem Fresh.timeline {d : Document} (h : Fresh d) : d.timeline = .start d.text := by
  simp [Document.timeline, Timeline.start, h.undos, h.redos]

theorem timeline_current (d : Document) : d.timeline.texts[d.timeline.index]? = some d.text := by
  simp [timeline]

theorem timeline_change (d : Document) (sorted : List Edit) (cursor : Option CursorRequest) :
    (d.change sorted cursor).timeline = d.timeline.push (d.change sorted cursor).text := by
  simp [timeline, change, Timeline.push, snapshot, List.take_append, List.take_of_length_le]

theorem act_block_nil {d : Document} (h : d.block = none) (cursor : Option CursorRequest) :
    d.act (.block [] cursor) =
      (match cursor with | none => d | some c => d.selectRegion c.anchor c.position, true) := by
  cases cursor <;> simp [act, edit_eq_commit h, commit]

theorem act_block_of_fit {d : Document} (h : d.block = none) {edits : List Edit}
    (hne : edits ≠ []) (hfit : Edit.Fit d.text.length edits) (cursor : Option CursorRequest) :
    d.act (.block edits cursor) = (d.change (Edit.sort edits) cursor, true) := by
  simp [act, edit_eq_commit h, commit_of_fit hne hfit]

theorem act_block_of_not_fit {d : Document} (h : d.block = none) {edits : List Edit}
    (hne : edits ≠ []) (hfit : ¬Edit.Fit d.text.length edits) (cursor : Option CursorRequest) :
    d.act (.block edits cursor) = (d, false) := by
  obtain ⟨e, _, he⟩ := commit_of_not_fit hne hfit cursor
  simp [act, edit_eq_commit h, he]

theorem undo_succeeds_iff (d : Document) : d.undo.2 = true ↔ 0 < d.timeline.index := by
  unfold undo
  cases hu : d.undos <;> simp [timeline, hu]

theorem redo_succeeds_iff (d : Document) :
    d.redo.2 = true ↔ d.timeline.index + 1 < d.timeline.texts.length := by
  unfold redo
  cases hr : d.redos <;> simp [timeline, hr]

theorem redo_undo {d : Document} (h : d.undo.2 = true) : d.undo.1.redo = (d, true) := by
  unfold undo at h ⊢
  cases hu : d.undos with
  | nil => simp [hu] at h
  | cons s rest => cases d; simp_all [redo, restore, snapshot]

theorem undo_redo {d : Document} (h : d.redo.2 = true) : d.redo.1.undo = (d, true) := by
  unfold redo at h ⊢
  cases hr : d.redos with
  | nil => simp [hr] at h
  | cons s rest => cases d; simp_all [undo, restore, snapshot]

theorem timeline_undo (d : Document) :
    d.undo.1.timeline = d.timeline.follow d.undo.1.text .undo d.undo.2 := by
  unfold undo
  cases hu : d.undos <;>
    simp [timeline, Timeline.follow, restore, snapshot, hu]

theorem timeline_redo (d : Document) :
    d.redo.1.timeline = d.timeline.follow d.redo.1.text .redo d.redo.2 := by
  unfold redo
  cases hr : d.redos <;>
    simp [timeline, Timeline.follow, restore, snapshot, hr]

theorem act_closed {d : Document} (h : d.block = none) (a : Action) :
    (d.act a).1.block = none := by
  cases a with
  | block edits cursor =>
    by_cases hne : edits = []
    · subst hne
      rw [act_block_nil h]
      cases cursor <;> exact h
    · by_cases hfit : Edit.Fit d.text.length edits
      · rw [act_block_of_fit h hne hfit]; exact h
      · rw [act_block_of_not_fit h hne hfit]; exact h
  | undo => unfold act undo; cases d.undos <;> exact h
  | redo => unfold act redo; cases d.redos <;> exact h
  | moveTo position keepAnchor => exact h
  | select start stop => exact h

theorem timeline_act {d : Document} (h : d.block = none) (a : Action) :
    (d.act a).1.timeline = d.timeline.follow (d.act a).1.text a (d.act a).2 := by
  cases a with
  | block edits cursor =>
    cases edits with
    | nil =>
      rw [act_block_nil h]
      cases cursor <;> rfl
    | cons e es =>
      by_cases hfit : Edit.Fit d.text.length (e :: es)
      · rw [act_block_of_fit h (List.cons_ne_nil e es) hfit]
        exact timeline_change d _ cursor
      · rw [act_block_of_not_fit h (List.cons_ne_nil e es) hfit]
        rfl
  | undo => exact timeline_undo d
  | redo => exact timeline_redo d
  | moveTo position keepAnchor => rfl
  | select start stop => rfl

theorem trace_timeline {d : Document} (h : d.block = none) (actions : List Action) :
    d.trace d.timeline actions = (d.run actions).timeline := by
  induction actions generalizing d with
  | nil => rfl
  | cons a rest ih =>
    rw [trace, run, ← timeline_act h, ih (act_closed h a)]

/-- Whatever was done since, the text is the one where the history stands, as many changes can be
taken back as there are texts before it, and undo and redo succeed exactly when there is a text to
move to. Each takes back the other, cursor and stacks included. -/
theorem run_follows_timeline {d : Document} (hfresh : Fresh d) (actions : List Action) :
    let h := d.trace (.start d.text) actions
    let d := d.run actions
    h.texts[h.index]? = some d.text ∧
    d.undoCount = h.index ∧
    ((d.act .undo).2 = true ↔ 0 < h.index) ∧
    ((d.act .redo).2 = true ↔ h.index + 1 < h.texts.length) ∧
    ((d.act .undo).2 = true → (d.act .undo).1.act .redo = (d, true)) ∧
    ((d.act .redo).2 = true → (d.act .redo).1.act .undo = (d, true)) := by
  rw [← hfresh.timeline, trace_timeline hfresh.closed]
  generalize d.run actions = d
  exact ⟨timeline_current d, rfl, undo_succeeds_iff d, redo_succeeds_iff d, redo_undo, undo_redo⟩

theorem run_follows_timeline_cut_off :
    let d := new .text ['a'] none
    let actions : List Action :=
      [.block [.insertion 1 ['b']] none, .undo, .block [.insertion 0 ['c']] none]
    Fresh d ∧ (d.run actions).undoCount = (d.trace (.start d.text) actions).index := by
  intro d actions
  exact ⟨fresh_new .text ['a'] none,
    (run_follows_timeline (fresh_new .text ['a'] none) actions).2.1⟩

end Document

end SourceEdit
