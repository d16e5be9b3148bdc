import SourceEdit.Proofs.NestedBlocks
import SourceEdit.Proofs.OpenBlocks

/-!
Failures that are caught inside of a block. The block around goes on, and what the body that failed has
recorded until then stays with it: the edits that are made on the way out are those of all bodies, and
they are those of the bodies that did not fail only if the others had recorded none.
-/

set_option autoImplicit false

namespace SourceEdit

namespace Edit

/-- The text with these edits made in it. Edits that do not fit leave it as it is. -/
def result (t : Text) (edits : List Edit) : Text :=
  if Fit t.length edits then applyAll t (sort edits) else t

end Edit

theorem Document.edit_result {d : Document} (hclosed : d.block = none) (edits : List Edit)
    (cursor : Option CursorRequest) :
    ((d.edit edits cursor).2 = none ↔ Edit.Fit d.text.length edits) ∧
      (d.edit edits cursor).1.text = Edit.result d.text edits := by
  have hedit : d.edit edits cursor = (d.recording edits cursor).closeBlock false := by
    rw [edit_eq_commit hclosed, closeBlock_recording hclosed]
  have hnil : edits = [] → Edit.Fit d.text.length edits := by
    rintro rfl
    exact ⟨by simp, .nil⟩
  obtain ⟨haccepted, htext⟩ := Workspace.closeBlock_outermost
    (d := d.recording edits cursor) (b := ⟨1, edits, cursor⟩) rfl rfl
  have hfit : (d.edit edits cursor).2 = none ↔ Edit.Fit d.text.length edits := by
    rw [hedit, haccepted]
    exact ⟨fun h => h.elim hnil id, .inr⟩
  refine ⟨hfit, ?_⟩
  rw [hedit] at hfit
  simp only [hedit, htext, hfit, Edit.result]
  rfl

namespace Script

variable {σ : Type}

/-- Blocks in blocks, of which some drop the failure of their body; no other step runs in between. -/
inductive Tree : Script σ → Prop where
  | leaf {a : Script σ} (h : Leaf a) : Tree a
  | nested {body : List (Script σ)} (h : ∀ a ∈ body, Tree a) : Tree (.nested body)
  | attempt {body : List (Script σ)} (h : ∀ a ∈ body, Tree a) : Tree (.attempt body)

mutual

def raised? : Script σ → Option Text
  | .fail message => some message
  | .nested body => raisedIn? body
  | _ => none

def raisedIn? : List (Script σ) → Option Text
  | [] => none
  | a :: rest => (raised? a).or (raisedIn? rest)

end

/-- Something that is recorded, and whether a body in which it stands fails and is caught. -/
structure Recording (σ : Type) where
  leaf : Script σ
  abandoned : Bool

mutual

/-- What is recorded on the way through a script, up to a failure that comes out of it. -/
def recordings : Script σ → List (Recording σ)
  | .edit e => [⟨.edit e, false⟩]
  | .cursor position anchor => [⟨.cursor position anchor, false⟩]
  | .nested body => recordingsIn body
  | .attempt body =>
    if (raisedIn? body).isSome then (recordingsIn body).map fun r => { r with abandoned := true }
    else recordingsIn body
  | .fail _ => []
  | .step _ => []

def recordingsIn : List (Script σ) → List (Recording σ)
  | [] => []
  | a :: rest => recordings a ++ if (raised? a).isSome then [] else recordingsIn rest

end

def recorded (rs : List (Recording σ)) : List (Script σ) := rs.map (·.leaf)

/-- What the bodies have recorded that did not fail. -/
def kept (rs : List (Recording σ)) : List (Script σ) := recorded (rs.filter (!·.abandoned))

/-- What the bodies have recorded that failed. -/
def abandoned (rs : List (Recording σ)) : List (Script σ) := recorded (rs.filter (·.abandoned))

theorem edits_recorded_perm (rs : List (Recording σ)) :
    (edits (recorded rs)).Perm (edits (kept rs) ++ edits (abandoned rs)) := by
  rw [edits, edits, edits, ← List.filterMap_append, kept, abandoned, recorded, recorded, recorded,
    ← List.map_append]
  refine List.Perm.filterMap _ (List.Perm.map _ ?_)
  exact (List.perm_append_comm.trans (List.filter_append_perm _ rs)).symm

theorem edits_kept_sublist (rs : List (Recording σ)) :
    (edits (kept rs)).Sublist (edits (recorded rs)) :=
  (List.filter_sublist.map _).filterMap _

theorem edits_recorded_eq_kept_iff (rs : List (Recording σ)) :
    edits (recorded rs) = edits (kept rs) ↔ edits (abandoned rs) = [] := by
  have hlength := (edits_recorded_perm rs).length_eq
  rw [List.length_append] at hlength
  constructor
  · intro h
    rw [h] at hlength
    exact List.eq_nil_of_length_eq_zero (by omega)
  · intro h
    rw [h, List.length_nil] at hlength
    exact ((edits_kept_sublist rs).eq_of_length hlength.symm).symm

def adding (b : EditBlock) (ls : List (Script σ)) : EditBlock :=
  ⟨b.depth, b.edits ++ edits ls, (lastCursor? ls).or b.cursor⟩

theorem adding_nil (b : EditBlock) : adding b ([] : List (Script σ)) = b := by
  simp [adding, edits, lastCursor?]

theorem adding_append (b : EditBlock) (front back : List (Script σ)) :
    adding (adding b front) back = adding b (front ++ back) := by
  simp [adding, edits, lastCursor?, List.getLast?_append, Option.or_assoc]

/-- In an open block this does nothing but to record these leaves, and then it fails like this. -/
def Adds (f : Document → Document × Option BlockError) (ls : List (Script Document))
    (failure : Option Text) : Prop :=
  ∀ (d : Document) (b : EditBlock), 1 ≤ b.depth →
    f (d.withBlock b) = (d.withBlock (adding b ls), failure.map .raised)

theorem Leaf.adds {a : Script Document} (h : Leaf a) :
    Adds (run .self a) (recorded (recordings a)) (raised? a) := by
  intro d b _
  cases h with
  | edit e => rfl
  | cursor position anchor =>
    have hadded : adding b (recorded (recordings (.cursor position anchor : Script Document))) =
        { b with cursor := some ⟨position, anchor.getD position⟩ } := by
      simp [recordings, recorded, adding, edits, edit?, lastCursor?, cursor?]
    rw [hadded]
    rfl
  | fail message =>
    rw [recordings, recorded, List.map_nil, adding_nil]
    rfl

theorem adds_runAll {body : List (Script Document)}
    (h : ∀ a ∈ body, Adds (run .self a) (recorded (recordings a)) (raised? a)) :
    Adds (runAll .self body) (recorded (recordingsIn body)) (raisedIn? body) := by
  induction body with
  | nil =>
    intro d b _
    rw [recordingsIn, recorded, List.map_nil, adding_nil]
    rfl
  | cons a rest ih =>
    obtain ⟨ha, hrest⟩ := List.forall_mem_cons.mp h
    intro d b hdepth
    rw [runAll, ha d b hdepth, recordingsIn, raisedIn?]
    cases hraised : raised? a with
    | none =>
      have hothers := ih hrest d (adding b (recorded (recordings a))) hdepth
      simpa [recorded, adding_append] using hothers
    | some message => simp

theorem Adds.inBlock {f : Document → Document × Option BlockError} {ls : List (Script Document)}
    {failure : Option Text} (h : Adds f ls failure) : Adds (inBlock .self f) ls failure := by
  intro d b hdepth
  have hbody := h d { b with depth := b.depth + 1 } (Nat.le_add_left 1 _)
  have hinner : 1 < (adding { b with depth := b.depth + 1 } ls).depth := Nat.lt_succ_of_le hdepth
  rw [← d.openBlock_withBlock] at hbody
  rw [inBlock_eq hbody (d.closeBlock_inner hinner _)]
  cases failure <;> rfl

theorem Tree.adds {a : Script Document} (h : Tree a) :
    Adds (run .self a) (recorded (recordings a)) (raised? a) := by
  induction h with
  | leaf h => exact h.adds
  | nested _ ih => exact (adds_runAll ih).inBlock
  | @attempt body _ ih =>
    intro d b hdepth
    have hmarked : recorded (recordings (.attempt body)) = recorded (recordingsIn body) := by
      rw [recordings]
      split <;> simp [recorded]
    rw [run, (adds_runAll ih).inBlock d b hdepth, hmarked]
    cases raisedIn? body <;> rfl

section
variable {d : Document} (hclosed : d.block = none)
include hclosed

theorem Adds.outermost_raised {f : Document → Document × Option BlockError}
    {ls : List (Script Document)} {message : Text} (h : Adds f ls (some message)) :
    Script.inBlock .self f d = (d, some (.raised message)) := by
  have hbody := h d ⟨1, [], none⟩ (Nat.le_refl 1)
  have hopened : d.openBlock = d.withBlock ⟨1, [], none⟩ := Document.openBlock_of_closed hclosed
  rw [← hopened] at hbody
  exact inBlock_eq hbody (Document.closeBlock_abandoned hclosed rfl)

theorem Adds.outermost {f : Document → Document × Option BlockError} {ls : List (Script Document)}
    (h : Adds f ls none) : Script.inBlock .self f d =
      ((d.edit (edits ls) (lastCursor? ls)).1,
        (d.edit (edits ls) (lastCursor? ls)).2.map .rejected) := by
  have hbody := h d ⟨1, [], none⟩ (Nat.le_refl 1)
  have hopened : d.openBlock = d.withBlock ⟨1, [], none⟩ := Document.openBlock_of_closed hclosed
  have hadded : d.withBlock (adding ⟨1, [], none⟩ ls) = d.recording (edits ls) (lastCursor? ls) := by
    rw [adding, List.nil_append, Option.or_none]
    rfl
  have hclose := Document.closeBlock_recording hclosed (edits ls) (lastCursor? ls)
  rw [← Document.edit_eq_commit hclosed] at hclose
  rw [← hopened, hadded] at hbody
  exact inBlock_eq hbody hclose

/-- A tree of blocks from which a failure comes out changes nothing. If every failure is caught inside,
the edits that are made are all that were recorded, in that order, those of the bodies that failed
among them. So they are the edits of the other bodies alone, and the text is the one that these make,
exactly if no body that failed had recorded an edit. -/
theorem runBlock_caught {body : List (Script Document)} (hbody : ∀ a ∈ body, Tree a) :
    let r := runBlock .self body d
    let all := edits (recorded (recordingsIn body))
    let others := edits (kept (recordingsIn body))
    let dropped := edits (abandoned (recordingsIn body))
    (∀ message, raisedIn? body = some message → r = (d, some (.raised message))) ∧
    (raisedIn? body = none →
      (r.2 = none ↔ Edit.Fit d.text.length all) ∧ r.1.text = Edit.result d.text all ∧
      all.Perm (others ++ dropped) ∧ others.Sublist all ∧ (all = others ↔ dropped = []) ∧
      (dropped = [] → r.1.text = Edit.result d.text others)) := by
  intro r all others dropped
  have hadds := adds_runAll fun a ha => (hbody a ha).adds
  have hiff : all = others ↔ dropped = [] := edits_recorded_eq_kept_iff _
  refine ⟨fun message hraised => ?_, fun hnone => ?_⟩
  · rw [hraised] at hadds
    exact hadds.outermost_raised hclosed
  · rw [hnone] at hadds
    have hr : r = _ := hadds.outermost hclosed
    obtain ⟨hfit, htext⟩ := Document.edit_result hclosed all (lastCursor? (recorded (recordingsIn body)))
    rw [hr]
    refine ⟨Option.map_eq_none_iff.trans hfit, htext, edits_recorded_perm _, edits_kept_sublist _, hiff,
      fun hdropped => ?_⟩
    rw [← hiff.mpr hdropped]
    exact htext

end

theorem runBlock_caught_two_levels :
    let d := Document.new .text ['a', 'b'] none
    let body : List (Script Document) :=
      [.nested [.attempt [.fail ['x'], .edit (.insertion 9 [])], .edit (.insertion 2 ['2'])],
        .attempt [.edit (.insertion 0 ['0']), .nested [.edit (.insertion 1 ['1']), .fail ['y']]]]
    d.block = none ∧ (∀ a ∈ body, Tree a) ∧ raisedIn? body = none ∧
      edits (kept (recordingsIn body)) = [.insertion 2 ['2']] ∧
      (runBlock .self body d).1.text = ['0', 'a', '1', 'b', '2'] := by
  intro d body
  have hbody : ∀ a ∈ body, Tree a := by
    refine List.forall_mem_cons.mpr ⟨.nested ?_, List.forall_mem_singleton.mpr (.attempt ?_)⟩
    · refine List.forall_mem_cons.mpr ⟨.attempt ?_, List.forall_mem_singleton.mpr (.leaf (.edit _))⟩
      exact List.forall_mem_cons.mpr
        ⟨.leaf (.fail _), List.forall_mem_singleton.mpr (.leaf (.edit _))⟩
    · refine List.forall_mem_cons.mpr ⟨.leaf (.edit _), List.forall_mem_singleton.mpr (.nested ?_)⟩
      exact List.forall_mem_cons.mpr
        ⟨.leaf (.edit _), List.forall_mem_singleton.mpr (.leaf (.fail _))⟩
  obtain ⟨-, htext, -⟩ := (runBlock_caught (show d.block = none from rfl) hbody).2 rfl
  have hsort : Edit.sort [.insertion 2 ['2'], .insertion 0 ['0'], .insertion 1 ['1']] =
      [.insertion 0 ['0'], .insertion 1 ['1'], .insertion 2 ['2']] := by
    simp [Edit.sort, List.mergeSort, Edit.le, Edit.insertion]
  refine ⟨rfl, hbody, rfl, rfl, htext.trans ?_⟩
  have hfit : Edit.Fit 2 [.insertion 2 ['2'], .insertion 0 ['0'], .insertion 1 ['1']] := by decide
  refine (if_pos hfit).trans ((congrArg (Edit.applyAll d.text) hsort).trans ?_)
  decide

theorem caught_edit_made :
    let d := Document.new .text ['a', 'b'] none
    let body : List (Script Document) :=
      [.edit (.insertion 0 ['1']), .attempt [.edit (.insertion 1 ['x']), .fail ['y']]]
    let r := runBlock .self body d
    raisedIn? body = none ∧ r.2 = none ∧
      edits (kept (recordingsIn body)) = [.insertion 0 ['1']] ∧
      Edit.result d.text (edits (kept (recordingsIn body))) = ['1', 'a', 'b'] ∧
      r.1.text = ['1', 'a', 'x', 'b'] := by
  intro d body r
  have hbody : ∀ a ∈ body, Tree a := by
    refine List.forall_mem_cons.mpr ⟨.leaf (.edit _), List.forall_mem_singleton.mpr (.attempt ?_)⟩
    exact List.forall_mem_cons.mpr
      ⟨.leaf (.edit _), List.forall_mem_singleton.mpr (.leaf (.fail _))⟩
  have hr : r = _ := (adds_runAll fun a ha => (hbody a ha).adds).outermost (d := d) rfl
  obtain ⟨hfit, htext⟩ := Document.edit_result (show d.block = none from rfl)
    [.insertion 0 ['1'], .insertion 1 ['x']] none
  refine ⟨rfl, ?_, rfl, ?_, ?_⟩
  · rw [hr]
    exact Option.map_eq_none_iff.mpr (hfit.mpr (by decide))
  · exact (if_pos (by decide)).trans (by rw [Edit.sort_of_pairwise (by decide)]; decide)
  · rw [hr]
    refine htext.trans ((if_pos (by decide)).trans ?_)
    rw [Edit.sort_of_pairwise (by decide)]
    decide

end Script

end SourceEdit
