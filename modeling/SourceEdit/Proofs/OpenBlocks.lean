import SourceEdit.Proofs.CursorBounds

/-!
The text while a block is open. Whatever edits a document leaves its edits to the open block; undo,
redo and loading do not go through blocks, and they alone put another text in the place of the one
that the positions of the block were meant for.
-/

set_option autoImplicit false

namespace SourceEdit

namespace Document

def Opened (d : Document) : Prop := ∃ b, d.block = some b ∧ 1 ≤ b.depth

theorem opened_openBlock (d : Document) (h : d.block = none ∨ d.Opened) : d.openBlock.Opened := by
  unfold openBlock
  rcases h with h | ⟨b, h, -⟩
  · rw [h]
    exact ⟨_, rfl, Nat.le_refl 1⟩
  · rw [h]
    exact ⟨_, rfl, Nat.le_add_left 1 _⟩

/-- The text stays, and so does an open block. -/
structure KeepsText (d d' : Document) : Prop where
  text : d'.text = d.text
  opened : d'.Opened

variable {d d' : Document}

theorem KeepsText.of_block (h : d.Opened) (htext : d'.text = d.text) (hblock : d'.block = d.block) :
    d.KeepsText d' := by
  obtain ⟨b, hb, hdepth⟩ := h
  exact ⟨htext, b, hblock.trans hb, hdepth⟩

theorem keepsText_openBlock (h : d.Opened) : d.KeepsText d.openBlock where
  text := by
    unfold openBlock
    split <;> rfl
  opened := opened_openBlock d (.inr h)

theorem keepsText_record (h : d.Opened) (e : Edit) : d.KeepsText (d.record e) := by
  obtain ⟨b, hb, hdepth⟩ := h
  exact ⟨rfl, { b with edits := b.edits ++ [e] }, by rw [record, hb]; rfl, hdepth⟩

theorem keepsText_requestCursor (h : d.Opened) (position : Int) (anchor : Option Int) :
    d.KeepsText (d.requestCursor position anchor) := by
  obtain ⟨b, hb, hdepth⟩ := h
  exact ⟨rfl, { b with cursor := some ⟨position, anchor.getD position⟩ },
    by rw [requestCursor, hb]; rfl, hdepth⟩

theorem keepsText_closeBlock (h : d.Opened) (abandoned : Bool)
    (hstays : (d.closeBlock abandoned).1.block ≠ none) : d.KeepsText (d.closeBlock abandoned).1 := by
  obtain ⟨b, hb, -⟩ := h
  unfold closeBlock at hstays ⊢
  rw [hb] at hstays ⊢
  dsimp only at hstays ⊢
  split
  · next hinner => exact ⟨rfl, { b with depth := b.depth - 1 }, rfl, Nat.le_sub_one_of_lt hinner⟩
  · next houter =>
    rw [if_neg houter] at hstays
    split at hstays
    · exact absurd rfl hstays
    · split at hstays
      · next hcommit =>
        exfalso
        unfold commit at hcommit
        split at hcommit
        · split at hcommit <;> obtain rfl := Except.ok.inj hcommit <;> exact hstays rfl
        · dsimp only at hcommit
          split at hcommit
          · contradiction
          · obtain rfl := Except.ok.inj hcommit
            exact hstays rfl
      · exact absurd rfl hstays

theorem edit_eq_withBlock {b : EditBlock} (hb : d.block = some b) (hdepth : 1 ≤ b.depth)
    (edits : List Edit) (cursor : Option CursorRequest) : d.edit edits cursor =
      ({ d with block := some ⟨b.depth, b.edits ++ edits, cursor.or b.cursor⟩ }, none) := by
  have hrecorded : ∀ (recorded : List Edit) (depth : Nat), edits.foldl record
      { d with block := some ⟨depth, recorded, b.cursor⟩ } =
        { d with block := some ⟨depth, recorded ++ edits, b.cursor⟩ } := by
    induction edits with
    | nil => simp
    | cons e es ih =>
      intro recorded depth
      rw [List.foldl_cons]
      have hstep : record { d with block := some ⟨depth, recorded, b.cursor⟩ } e =
        { d with block := some ⟨depth, recorded ++ [e], b.cursor⟩ } := rfl
      rw [hstep, ih, List.append_assoc, List.singleton_append]
  have hopened : d.openBlock = { d with block := some ⟨b.depth + 1, b.edits, b.cursor⟩ } := by
    rw [openBlock, hb]
  have hinner : 1 < b.depth + 1 := Nat.lt_succ_of_le hdepth
  unfold edit
  rw [hopened, hrecorded]
  cases cursor <;> simp [closeBlock, requestCursor, hinner]

theorem keepsText_edit (h : d.Opened) (edits : List Edit) (cursor : Option CursorRequest) :
    d.KeepsText (d.edit edits cursor).1 := by
  obtain ⟨b, hb, hdepth⟩ := h
  rw [edit_eq_withBlock hb hdepth]
  exact ⟨rfl, _, rfl, hdepth⟩

theorem keepsText_editsOnce (h : d.Opened) {r : Document × Except EditError Bool}
    (hr : d.EditsOnce r) : d.KeepsText r.1 := by
  cases hr with
  | refused => exact .of_block h rfl rfl
  | @edited edits _ _ =>
    have hedit := keepsText_edit h edits none
    unfold editOrFail
    split <;> next heq => rwa [heq] at hedit

theorem keepsText_commentSelection (h : d.Opened) : d.KeepsText d.commentSelection.1 := by
  obtain ⟨edits, cursor, hedit, -⟩ := d.commentSelection_eq_edit
  rw [hedit]
  exact keepsText_edit h edits cursor

theorem keepsText_gotoBlock (h : d.Opened) (direction : Direction) (count : Nat) :
    d.KeepsText (gotoBlock direction count d) := by
  induction count generalizing d with
  | zero => exact .of_block h rfl rfl
  | succ count ih =>
    have hmoved : d.KeepsText (d.setPosition (Block.move d.text d.position direction) false) :=
      .of_block h rfl rfl
    rw [gotoBlock]
    split
    · exact hmoved
    · have hrest := ih hmoved.opened
      exact ⟨hrest.text.trans hmoved.text, hrest.opened⟩

theorem keepsText_save [FileLock] (h : d.Opened) (fs : FileSystem) (p : Option Path) :
    d.KeepsText (d.save fs p).2.1 := by
  unfold save
  dsimp only
  split
  · exact .of_block h rfl rfl
  · split
    · exact .of_block h rfl rfl
    · unfold saveLocked
      split
      · exact .of_block h rfl rfl
      · split <;> exact .of_block h rfl rfl

end Document

namespace Workspace

variable {s : Workspace}

/-- The text that an action puts in the place of the whole one, outside of any block. -/
def replacement? (s : Workspace) : Action → Option Text
  | .act .undo => s.document.undos.head?.map (·.text)
  | .act .redo => s.document.redos.head?.map (·.text)
  | .load p => (s.document.load s.fs p).toOption.map (·.text)
  | _ => none

def Action.replacesText : Action → Bool
  | .act .undo | .act .redo | .load _ => true
  | _ => false

theorem replacement?_eq_none {a : Action} (h : a.replacesText = false) : s.replacement? a = none := by
  cases a with
  | act a => cases a <;> first | rfl | contradiction
  | load => contradiction
  | _ => rfl

/-- What the outermost block does when it is left: its edits are made in the text that is there then. -/
theorem closeBlock_outermost {d : Document} {b : EditBlock} (hb : d.block = some b)
    (hdepth : b.depth = 1) :
    let r := d.closeBlock false
    (r.2 = none ↔ b.edits = [] ∨ Edit.Fit d.text.length b.edits) ∧
      r.1.text = if r.2 = none then Edit.applyAll d.text (Edit.sort b.edits) else d.text := by
  have houter : ¬1 < b.depth := by omega
  have hleft : ∀ d', { d with block := none }.commit b.edits b.cursor = .ok d' →
      d.closeBlock false = (d', none) := by
    intro d' hcommit
    simp [Document.closeBlock, hb, houter, hcommit]
  have hrejected : ∀ e, { d with block := none }.commit b.edits b.cursor = .error e →
      d.closeBlock false = ({ d with block := none }, some e) := by
    intro e hcommit
    simp [Document.closeBlock, hb, houter, hcommit]
  intro r
  by_cases hne : b.edits = []
  · have hsorted : Edit.applyAll d.text (Edit.sort []) = d.text := by
      simp [Edit.sort, Edit.applyAll, Edit.applyFrom]
    obtain ⟨d', hcommit, htext⟩ :
        ∃ d', { d with block := none }.commit b.edits b.cursor = .ok d' ∧ d'.text = d.text := by
      rw [hne]
      cases b.cursor with
      | none => exact ⟨_, rfl, rfl⟩
      | some c => exact ⟨_, rfl, rfl⟩
    have hr : r = (d', none) := hleft d' hcommit
    simp [hr, hne, hsorted, htext]
  · by_cases hfit : Edit.Fit d.text.length b.edits
    · have hcommit := Document.commit_of_fit (d := { d with block := none }) hne hfit b.cursor
      have hr : r = _ := hleft _ hcommit
      rw [hr]
      exact ⟨iff_of_true rfl (.inr hfit), rfl⟩
    · obtain ⟨e, -, hcommit⟩ :=
        Document.commit_of_not_fit (d := { d with block := none }) hne hfit b.cursor
      have hr : r = _ := hrejected _ hcommit
      simp [hr, hne, hfit]

section
variable [FileLock]

/-- No action of the run leaves the outermost block. -/
def StaysOpen (s : Workspace) : List Action → Prop
  | [] => True
  | a :: rest => (s.step a).document.block ≠ none ∧ (s.step a).StaysOpen rest

instance decidableStaysOpen (s : Workspace) (actions : List Action) :
    Decidable (s.StaysOpen actions) :=
  match actions with
  | [] => .isTrue trivial
  | a :: rest =>
    have := decidableStaysOpen (s.step a) rest
    inferInstanceAs (Decidable (_ ∧ _))

/-- What is put in the place of the text on the way is this text. -/
def Restores (t : Text) (s : Workspace) : List Action → Prop
  | [] => True
  | a :: rest => (∀ u ∈ s.replacement? a, u = t) ∧ Restores t (s.step a) rest

/-- The last text that was put in the place of another. -/
def lastReplacement? (s : Workspace) : List Action → Option Text
  | [] => none
  | a :: rest => ((s.step a).lastReplacement? rest).or (s.replacement? a)

theorem opened_step (h : s.document.Opened) {a : Action} (hstays : (s.step a).document.block ≠ none) :
    (s.step a).document.Opened ∧
      (s.step a).document.text = (s.replacement? a).getD s.document.text := by
  have hkept : ∀ {d' : Document}, s.document.KeepsText d' →
      d'.Opened ∧ d'.text = s.document.text := fun hkeeps => ⟨hkeeps.opened, hkeeps.text⟩
  obtain ⟨b, hb, hdepth⟩ := h
  have hopen : s.document.Opened := ⟨b, hb, hdepth⟩
  cases a with
  | act a =>
    cases a with
    | block edits cursor => exact hkept (Document.keepsText_edit hopen edits cursor)
    | undo =>
      have hundo : (s.step (.act .undo)).document = s.document.undo.1 := rfl
      rw [hundo, replacement?, Document.undo]
      cases s.document.undos <;> exact ⟨⟨b, hb, hdepth⟩, rfl⟩
    | redo =>
      have hredo : (s.step (.act .redo)).document = s.document.redo.1 := rfl
      rw [hredo, replacement?, Document.redo]
      cases s.document.redos <;> exact ⟨⟨b, hb, hdepth⟩, rfl⟩
    | moveTo position keepAnchor => exact hkept (.of_block hopen rfl rfl)
    | select start stop => exact hkept (.of_block hopen rfl rfl)
  | openBlock => exact hkept (Document.keepsText_openBlock hopen)
  | record e => exact hkept (Document.keepsText_record hopen e)
  | requestCursor position anchor =>
    exact hkept (Document.keepsText_requestCursor hopen position anchor)
  | closeBlock abandoned => exact hkept (Document.keepsText_closeBlock hopen abandoned hstays)
  | load p =>
    rw [step, replacement?]
    cases hload : s.document.load s.fs p with
    | error e => exact ⟨hopen, rfl⟩
    | ok d =>
      unfold Document.load at hload
      cases hread : s.fs.read (Path.absolute s.fs.workDir p) with
      | error => simp [hread, bind, Except.bind] at hload
      | ok content =>
        simp only [hread, bind, Except.bind, Except.ok.injEq] at hload
        subst hload
        exact ⟨⟨b, hb, hdepth⟩, rfl⟩
  | save p => exact hkept (Document.keepsText_save hopen s.fs p)
  | outside entries => exact hkept (.of_block hopen rfl rfl)
  | insertInclude t newGroup =>
    exact hkept (Document.keepsText_editsOnce hopen (s.document.editsOnce_insertInclude t newGroup))
  | removeInclude t =>
    exact hkept (Document.keepsText_editsOnce hopen (s.document.editsOnce_removeInclude t))
  | insertForwardDeclaration t =>
    exact hkept (Document.keepsText_editsOnce hopen
      (s.document.editsOnce_insertForwardDeclaration t))
  | commentSelection => exact hkept (Document.keepsText_commentSelection hopen)
  | gotoBlock direction count => exact hkept (Document.keepsText_gotoBlock hopen direction count)

theorem opened_run (h : s.document.Opened) {actions : List Action} (hstays : s.StaysOpen actions) :
    (s.run actions).document.Opened ∧
      (s.run actions).document.text = (s.lastReplacement? actions).getD s.document.text := by
  induction actions generalizing s with
  | nil => exact ⟨h, rfl⟩
  | cons a rest ih =>
    obtain ⟨hopened, htext⟩ := opened_step h hstays.1
    obtain ⟨hrest, hlast⟩ := ih hopened hstays.2
    refine ⟨hrest, hlast.trans ?_⟩
    rw [lastReplacement?, htext]
    cases (s.step a).lastReplacement? rest <;> rfl

/-- The text is the same all along the run if whatever replaces it is the same. -/
theorem texts_eq_iff (h : s.document.Opened) {actions : List Action}
    (hstays : s.StaysOpen actions) {t : Text} (ht : s.document.text = t) :
    (∀ front, front <+: actions → (s.run front).document.text = t) ↔ Restores t s actions := by
  induction actions generalizing s with
  | nil =>
    refine iff_of_true (fun front hfront => ?_) trivial
    rwa [List.prefix_nil.mp hfront]
  | cons a rest ih =>
    obtain ⟨hopened, htext⟩ := opened_step h hstays.1
    have hfirst : (s.step a).document.text = t ↔ ∀ u ∈ s.replacement? a, u = t := by
      rw [htext, ht]
      cases s.replacement? a <;> simp
    rw [Restores, ← hfirst]
    constructor
    · intro hall
      have hstep : (s.step a).document.text = t := hall [a] (by simp)
      refine ⟨hstep, (ih hopened hstays.2 hstep).mp fun front hfront => ?_⟩
      exact hall (a :: front) (List.prefix_cons_inj a |>.mpr hfront)
    · intro ⟨hstep, hrest⟩ front hfront
      cases front with
      | nil => exact ht
      | cons b front =>
        obtain ⟨rfl, hbelow⟩ := List.cons_prefix_cons.mp hfront
        exact (ih hopened hstays.2 hstep).mpr hrest front hbelow

theorem restores_of_not_replacesText (t : Text) {actions : List Action}
    (h : ∀ a ∈ actions, a.replacesText = false) : Restores t s actions := by
  induction actions generalizing s with
  | nil => trivial
  | cons a rest ih =>
    obtain ⟨ha, hrest⟩ := List.forall_mem_cons.mp h
    rw [Restores, replacement?_eq_none ha]
    exact ⟨by simp, ih hrest⟩

/-- While a block is open, whatever runs in it, the text is the one that undo, redo or a load has last
put there, or else the one that the block was opened with. So it stays the same throughout exactly if
each of these puts back the same text, as when there are none. On the way out the edits of the block
are made in that text, or rejected. -/
theorem text_of_open_block (hopen : s.document.Opened) (actions : List Action)
    (hstays : s.StaysOpen actions) :
    let t := (s.lastReplacement? actions).getD s.document.text
    let inner := (s.run actions).document
    inner.text = t ∧
    ((∀ front, front <+: actions → (s.run front).document.text = s.document.text) ↔
      Restores s.document.text s actions) ∧
    ((∀ a ∈ actions, a.replacesText = false) → Restores s.document.text s actions) ∧
    ∀ b, inner.block = some b → b.depth = 1 →
      ((inner.closeBlock false).2 = none ↔ b.edits = [] ∨ Edit.Fit t.length b.edits) ∧
        (inner.closeBlock false).1.text =
          if (inner.closeBlock false).2 = none then Edit.applyAll t (Edit.sort b.edits) else t := by
  intro t inner
  have htext : inner.text = t := (opened_run hopen hstays).2
  refine ⟨htext, texts_eq_iff hopen hstays rfl, restores_of_not_replacesText _, ?_⟩
  intro b hb hdepth
  rw [← htext]
  exact closeBlock_outermost hb hdepth

end

def inBlock : Workspace :=
  run ⟨⟨[], ['/'], ['/']⟩, .new .text ['a', 'b'] none⟩ [.openBlock, .record (.insertion 1 ['x'])]

theorem text_of_open_block_nested :
    let actions := [.openBlock, .act (.moveTo 2 false), .record (.insertion 0 ['y']),
      .closeBlock true, .act (.block [.removal 0 1] none), .save (some ['f'])]
    inBlock.document.Opened ∧ inBlock.StaysOpen actions ∧
      (inBlock.run actions).document.text = ['a', 'b'] := by
  intro actions
  have hopen : inBlock.document.Opened := ⟨⟨1, [.insertion 1 ['x']], none⟩, by decide +kernel⟩
  have hstays : inBlock.StaysOpen actions := by decide +kernel
  exact ⟨hopen, hstays, (text_of_open_block hopen actions hstays).1⟩

/-- Undo in a block takes the text back to `"ab"`, and the insertion that was recorded for `"cab"` is
made there, when the text of the opening would have become `"cdab"`. -/
theorem undo_in_open_block :
    let s := run ⟨⟨[], ['/'], ['/']⟩, .new .text ['a', 'b'] none⟩
      [.act (.block [.insertion 0 ['c']] none), .openBlock]
    let inner := (s.run [.record (.insertion 1 ['d']), .act .undo]).document
    s.document.text = ['c', 'a', 'b'] ∧ inner.text = ['a', 'b'] ∧
      inner.block = some ⟨1, [.insertion 1 ['d']], none⟩ ∧
      (inner.closeBlock false).1.text = ['a', 'd', 'b'] ∧
      Edit.applyAll s.document.text (Edit.sort [.insertion 1 ['d']]) = ['c', 'd', 'a', 'b'] := by
  decide +kernel

end Workspace

end SourceEdit
