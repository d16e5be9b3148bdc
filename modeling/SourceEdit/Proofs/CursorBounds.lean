import SourceEdit.Document.Script
import SourceEdit.Document.Storage
import SourceEdit.Proofs.BlockSteps
import SourceEdit.Proofs.History
import SourceEdit.Proofs.Operations

set_option autoImplicit false

namespace SourceEdit

namespace Document

/-- Cursor and anchor lie in the text, here and in every entry of the history. -/
structure Inside (d : Document) : Prop where
  now : d.snapshot.Inside
  undos : ∀ s ∈ d.undos, s.Inside
  redos : ∀ s ∈ d.redos, s.Inside

theorem inside_new (kind : DocumentKind) (text : Text) (fileName : Option Path) :
    (new kind text fileName).Inside where
  now := ⟨Nat.zero_le _, Nat.zero_le _⟩
  undos _ h := absurd h List.not_mem_nil
  redos _ h := absurd h List.not_mem_nil

variable {d d' : Document}

theorem Inside.setPosition (h : d.Inside) (position : Int) (keepAnchor : Bool) :
    (d.setPosition position keepAnchor).Inside where
  now := by
    refine ⟨Text.clamp_le _ _, ?_⟩
    cases keepAnchor with
    | true => exact h.now.anchor_le
    | false => exact Text.clamp_le _ _
  undos := h.undos
  redos := h.redos

theorem Inside.selectRegion (h : d.Inside) (start stop : Int) : (d.selectRegion start stop).Inside where
  now := ⟨Text.clamp_le _ _, Text.clamp_le _ _⟩
  undos := h.undos
  redos := h.redos

theorem Inside.change (h : d.Inside) (sorted : List Edit) (cursor : Option CursorRequest) :
    (d.change sorted cursor).Inside where
  now := ⟨Text.clamp_le _ _, Text.clamp_le _ _⟩
  undos := List.forall_mem_cons.mpr ⟨h.now, h.undos⟩
  redos _ h := absurd h List.not_mem_nil

theorem Inside.blockStep (h : d.Inside) (hstep : d.BlockStep d') : d'.Inside := by
  have hrecords : ∀ b, Inside { d with block := b } := fun _ => ⟨h.now, h.undos, h.redos⟩
  cases hstep with
  | records b => exact hrecords b
  | moves b start stop => exact (hrecords b).selectRegion start stop
  | changes b sorted cursor => exact (hrecords b).change sorted cursor

theorem Inside.undo (h : d.Inside) : d.undo.1.Inside := by
  unfold Document.undo
  split
  · exact h
  · next s undos heq =>
    obtain ⟨hs, hundos⟩ := List.forall_mem_cons.mp (heq ▸ h.undos)
    exact ⟨hs, hundos, List.forall_mem_cons.mpr ⟨h.now, h.redos⟩⟩

theorem Inside.redo (h : d.Inside) : d.redo.1.Inside := by
  unfold Document.redo
  split
  · exact h
  · next s redos heq =>
    obtain ⟨hs, hredos⟩ := List.forall_mem_cons.mp (heq ▸ h.redos)
    exact ⟨hs, List.forall_mem_cons.mpr ⟨h.now, h.undos⟩, hredos⟩

theorem Inside.act (h : d.Inside) (a : Action) : (d.act a).1.Inside := by
  cases a with
  | block edits cursor => exact h.blockStep (blockStep_edit d edits cursor)
  | undo => exact h.undo
  | redo => exact h.redo
  | moveTo position keepAnchor => exact h.setPosition position keepAnchor
  | select start stop => exact h.selectRegion start stop

theorem inside_of_load {fs : FileSystem} {p : Path} (h : d.load fs p = .ok d') : d'.Inside := by
  unfold load at h
  cases hread : fs.read (Path.absolute fs.workDir p) with
  | error => simp [hread, bind, Except.bind] at h
  | ok content =>
    simp only [hread, bind, Except.bind, Except.ok.injEq] at h
    subst h
    exact ⟨⟨Nat.zero_le _, Nat.zero_le _⟩, fun _ h => absurd h List.not_mem_nil,
      fun _ h => absurd h List.not_mem_nil⟩

theorem Inside.saveLocked (h : d.Inside) (fs : FileSystem) (target : Path) :
    (d.saveLocked fs target).2.1.Inside := by
  unfold Document.saveLocked
  split
  · exact h
  · split
    · exact h
    · exact ⟨h.now, h.undos, h.redos⟩

theorem Inside.save [FileLock] (h : d.Inside) (fs : FileSystem) (p : Option Path) :
    (d.save fs p).2.1.Inside := by
  unfold Document.save
  dsimp only
  split
  · exact h
  · split
    · exact h
    · exact h.saveLocked _ _

theorem Inside.editsOnce (h : d.Inside) {r : Document × Except EditError Bool}
    (hr : d.EditsOnce r) : r.1.Inside := by
  cases hr with
  | refused => exact h
  | edited _ _ => exact h.blockStep (blockStep_editOrFail d _ none)

theorem Inside.commentSelection (h : d.Inside) : d.commentSelection.1.Inside := by
  obtain ⟨edits, cursor, hedit, -⟩ := d.commentSelection_eq_edit
  rw [hedit]
  exact h.blockStep (blockStep_edit d edits cursor)

theorem Inside.gotoBlock (h : d.Inside) (direction : Direction) (count : Nat) :
    (Document.gotoBlock direction count d).Inside := by
  induction count generalizing d with
  | zero => exact h
  | succ count ih =>
    have hmoved := h.setPosition (Block.move d.text d.position direction) false
    rw [Document.gotoBlock]
    split
    · exact hmoved
    · exact ih hmoved

end Document

/-- A document with the tree from which it is loaded and in which it is saved. -/
structure Workspace where
  fs : FileSystem
  document : Document

namespace Workspace

/-- Whatever is done to a document. Blocks are opened and closed step by step here, so anything else
may happen while they are open. -/
inductive Action where
  | act (a : Document.Action)
  | openBlock
  | record (e : Edit)
  | requestCursor (position : Int) (anchor : Option Int)
  | closeBlock (abandoned : Bool)
  | load (p : Path)
  | save (p : Option Path)
  | outside (entries : Table Location Entry)
  | insertInclude (t : Text) (newGroup : Bool)
  | removeInclude (t : Text)
  | insertForwardDeclaration (t : Text)
  | commentSelection
  | gotoBlock (direction : Direction) (count : Nat)

def focus : Focus Workspace := ⟨(·.document), fun d s => { s with document := d }⟩

section
variable [FileLock]

def step (s : Workspace) : Action → Workspace
  | .act a => focus.modify (fun d => (d.act a).1) s
  | .openBlock => focus.modify Document.openBlock s
  | .record e => focus.modify (·.record e) s
  | .requestCursor position anchor => focus.modify (·.requestCursor position anchor) s
  | .closeBlock abandoned => focus.modify (fun d => (d.closeBlock abandoned).1) s
  | .load p =>
    match s.document.load s.fs p with
    | .ok d => { s with document := d }
    | .error _ => s
  | .save p =>
    let (fs, d, _) := s.document.save s.fs p
    ⟨fs, d⟩
  | .outside entries => { s with fs := { s.fs with entries := entries } }
  | .insertInclude t newGroup => focus.modify (fun d => (d.insertInclude t newGroup).1) s
  | .removeInclude t => focus.modify (fun d => (d.removeInclude t).1) s
  | .insertForwardDeclaration t => focus.modify (fun d => (d.insertForwardDeclaration t).1) s
  | .commentSelection => focus.modify (fun d => d.commentSelection.1) s
  | .gotoBlock direction count => focus.modify (Document.gotoBlock direction count) s

def run (s : Workspace) (actions : List Action) : Workspace := actions.foldl step s

theorem run_append (s : Workspace) (front back : List Action) :
    s.run (front ++ back) = (s.run front).run back := List.foldl_append

theorem inside_step {s : Workspace} (h : s.document.Inside) (a : Action) :
    (s.step a).document.Inside := by
  cases a with
  | act a => exact h.act a
  | openBlock => exact h.blockStep (Document.blockStep_openBlock _)
  | record e => exact h.blockStep (Document.blockStep_record _ e)
  | requestCursor position anchor =>
    exact h.blockStep (Document.blockStep_requestCursor _ position anchor)
  | closeBlock abandoned => exact h.blockStep (Document.blockStep_closeBlock _ abandoned)
  | load p =>
    rw [step]
    split
    · next hload => exact Document.inside_of_load hload
    · exact h
  | save p => exact h.save s.fs p
  | outside entries => exact h
  | insertInclude t newGroup => exact h.editsOnce (s.document.editsOnce_insertInclude t newGroup)
  | removeInclude t => exact h.editsOnce (s.document.editsOnce_removeInclude t)
  | insertForwardDeclaration t =>
    exact h.editsOnce (s.document.editsOnce_insertForwardDeclaration t)
  | commentSelection => exact h.commentSelection
  | gotoBlock direction count => exact h.gotoBlock direction count

theorem inside_run {s : Workspace} (h : s.document.Inside) (actions : List Action) :
    (s.run actions).document.Inside := by
  induction actions generalizing s with
  | nil => exact h
  | cons a actions ih => exact ih (inside_step h a)

/-- The other steps of a script are actions, one after the other. -/
inductive Scripted : Script Workspace → Prop where
  | edit (e : Edit) : Scripted (.edit e)
  | cursor (position : Int) (anchor : Option Int) : Scripted (.cursor position anchor)
  | nested {body : List (Script Workspace)} (h : ∀ a ∈ body, Scripted a) : Scripted (.nested body)
  | attempt {body : List (Script Workspace)} (h : ∀ a ∈ body, Scripted a) :
      Scripted (.attempt body)
  | fail (message : Text) : Scripted (.fail message)
  | step (actions : List Action) : Scripted (.step fun s => s.run actions)

/-- What this does to a workspace is a run, which may depend on the workspace. -/
def IsRun (f : Workspace → Workspace × Option BlockError) : Prop :=
  ∀ s, ∃ actions, (f s).1 = s.run actions

theorem isRun_inBlock {body : Workspace → Workspace × Option BlockError} (h : IsRun body) :
    IsRun (Script.inBlock focus body) := by
  intro s
  obtain ⟨actions, hbody⟩ := h (s.step .openBlock)
  refine ⟨.openBlock :: (actions ++ [.closeBlock (body (s.step .openBlock)).2.isSome]), ?_⟩
  have hrun : s.run (.openBlock :: (actions ++ [.closeBlock (body (s.step .openBlock)).2.isSome])) =
      ((s.step .openBlock).run actions).step (.closeBlock (body (s.step .openBlock)).2.isSome) :=
    run_append (s.step .openBlock) actions _
  rw [hrun, ← hbody]
  rfl

theorem isRun_runAll {body : List (Script Workspace)} (h : ∀ a ∈ body, IsRun (a.run focus)) :
    IsRun (Script.runAll focus body) := by
  induction body with
  | nil => exact fun _ => ⟨[], rfl⟩
  | cons a rest ih =>
    obtain ⟨ha, hrest⟩ := List.forall_mem_cons.mp h
    intro s
    obtain ⟨actions, hfirst⟩ := ha s
    rw [Script.runAll]
    split
    · next s' hok =>
      rw [hok] at hfirst
      have hs' : s' = s.run actions := hfirst
      obtain ⟨actions', hothers⟩ := ih hrest s'
      exact ⟨actions ++ actions', by rw [hothers, hs', run_append]⟩
    · exact ⟨actions, hfirst⟩

theorem Scripted.isRun {a : Script Workspace} (h : Scripted a) : IsRun (a.run focus) := by
  induction h with
  | edit e => exact fun s => ⟨[.record e], rfl⟩
  | cursor position anchor => exact fun s => ⟨[.requestCursor position anchor], rfl⟩
  | nested _ ih => exact isRun_inBlock (isRun_runAll ih)
  | attempt _ ih =>
    intro s
    obtain ⟨actions, hbody⟩ := isRun_inBlock (isRun_runAll ih) s
    refine ⟨actions, ?_⟩
    rw [← hbody, Script.run]
    split
    · next heq => rw [heq]
    · rfl
  | fail message => exact fun s => ⟨[], rfl⟩
  | step actions => exact fun s => ⟨actions, rfl⟩

/-- A document that actions have led to from a new one. -/
def Reached (d : Document) : Prop :=
  ∃ fs kind text fileName actions, d = (run ⟨fs, .new kind text fileName⟩ actions).document

theorem Reached.inside {d : Document} (h : Reached d) : d.Inside := by
  obtain ⟨fs, kind, text, fileName, actions, rfl⟩ := h
  exact inside_run (Document.inside_new kind text fileName) actions

/-- Whatever was done to a document since it was made, its cursor and its anchor lie in the text, and
those of every entry to undo or to redo lie in the text of the entry. A block is no exception, however
it ends: what it did to the document is a run of the same actions. -/
theorem inside_of_reached (fs : FileSystem) (kind : DocumentKind) (text : Text)
    (fileName : Option Path) (actions : List Action) :
    let s := run ⟨fs, .new kind text fileName⟩ actions
    s.document.Inside ∧ ∀ body, (∀ a ∈ body, Scripted a) →
      (Script.runBlock focus body s).1.document.Inside ∧
        ∃ more, (Script.runBlock focus body s).1 = s.run more := by
  intro s
  have hinside : s.document.Inside := Reached.inside ⟨fs, kind, text, fileName, actions, rfl⟩
  refine ⟨hinside, fun body hbody => ?_⟩
  obtain ⟨more, hmore⟩ := isRun_inBlock (isRun_runAll fun a ha => (hbody a ha).isRun) s
  have hblock : (Script.runBlock focus body s).1 = s.run more := hmore
  rw [hblock]
  exact ⟨inside_run hinside more, more, rfl⟩

end

theorem inside_of_reached_undo_in_block :
    let s := run ⟨⟨[], ['/'], ['/']⟩, .new .text ['a', 'b'] none⟩
      [.act (.block [.insertion 0 ['c']] none)]
    let body : List (Script Workspace) :=
      [.edit (.insertion 3 ['d']), .nested [.step fun s => s.run [.act .undo]]]
    (∀ a ∈ body, Scripted a) ∧
      (Script.runBlock focus body s).2 = some (.rejected (.misplaced 3 3)) ∧
      (Script.runBlock focus body s).1.document.Inside := by
  intro s body
  have hbody : ∀ a ∈ body, Scripted a := by
    refine List.forall_mem_cons.mpr ⟨.edit _, List.forall_mem_singleton.mpr (.nested ?_)⟩
    exact List.forall_mem_singleton.mpr (.step [.act .undo])
  refine ⟨hbody, by decide +kernel, ?_⟩
  exact ((inside_of_reached _ .text ['a', 'b'] none _).2 body hbody).1

end Workspace

end SourceEdit
