import SourceEdit.Document.Script
import SourceEdit.Proofs.History

set_option autoImplicit false

namespace SourceEdit

namespace Document

def withBlock (d : Document) (b : EditBlock) : Document := { d with block := some b }

theorem openBlock_withBlock (d : Document) (b : EditBlock) :
    (d.withBlock b).openBlock = d.withBlock { b with depth := b.depth + 1 } := rfl

theorem closeBlock_inner {b : EditBlock} (h : 1 < b.depth) (d : Document) (abandoned : Bool) :
    (d.withBlock b).closeBlock abandoned = (d.withBlock { b with depth := b.depth - 1 }, none) :=
  if_pos h

theorem closeBlock_abandoned {d : Document} (hclosed : d.block = none) {b : EditBlock}
    (h : b.depth = 1) : (d.withBlock b).closeBlock true = (d, none) := by
  have hleft : { d.withBlock b with block := none } = d := by rw [← hclosed]; rfl
  have hdepth : ¬1 < b.depth := by omega
  simp only [closeBlock, withBlock, if_neg hdepth, if_true] at hleft ⊢
  rw [hleft]

end Document

namespace Script

variable {σ : Type}

/-- What a block records itself, and failures. -/
inductive Leaf : Script σ → Prop where
  | edit (e : Edit) : Leaf (.edit e)
  | cursor (position : Int) (anchor : Option Int) : Leaf (.cursor position anchor)
  | fail (message : Text) : Leaf (.fail message)

/-- Blocks in blocks and nothing else: no failure is caught, and no other step runs in between. -/
inductive Plain : Script σ → Prop where
  | leaf {a : Script σ} (h : Leaf a) : Plain a
  | nested {body : List (Script σ)} (h : ∀ a ∈ body, Plain a) : Plain (.nested body)

mutual

/-- The parts of a script that are not blocks, in the order in which they come. -/
def leaves : Script σ → List (Script σ)
  | .nested body => leavesAll body
  | a => [a]

def leavesAll : List (Script σ) → List (Script σ)
  | [] => []
  | a :: rest => leaves a ++ leavesAll rest

end

theorem leaves_of_leaf {a : Script σ} (h : Leaf a) : leaves a = [a] := by
  cases h <;> rfl

theorem leavesAll_of_leaf {ls : List (Script σ)} (h : ∀ a ∈ ls, Leaf a) : leavesAll ls = ls := by
  induction ls with
  | nil => rfl
  | cons a ls ih =>
    obtain ⟨ha, hls⟩ := List.forall_mem_cons.mp h
    rw [leavesAll, leaves_of_leaf ha, ih hls, List.singleton_append]

theorem leaf_of_mem_leavesAll {body : List (Script σ)}
    (h : ∀ a ∈ body, ∀ l ∈ leaves a, Leaf l) : ∀ l ∈ leavesAll body, Leaf l := by
  induction body with
  | nil => simp [leavesAll]
  | cons a rest ih =>
    obtain ⟨ha, hrest⟩ := List.forall_mem_cons.mp h
    rw [leavesAll]
    exact List.forall_mem_append.mpr ⟨ha, ih hrest⟩

theorem Plain.leaf_of_mem_leaves {a : Script σ} (h : Plain a) : ∀ l ∈ leaves a, Leaf l := by
  induction h with
  | leaf h =>
    rw [leaves_of_leaf h]
    exact List.forall_mem_singleton.mpr h
  | nested _ ih => exact leaf_of_mem_leavesAll ih

def edit? : Script σ → Option Edit
  | .edit e => some e
  | _ => none

def cursor? : Script σ → Option CursorRequest
  | .cursor position anchor => some ⟨position, anchor.getD position⟩
  | _ => none

def message? : Script σ → Option Text
  | .fail message => some message
  | _ => none

def edits (ls : List (Script σ)) : List Edit := ls.filterMap edit?

def lastCursor? (ls : List (Script σ)) : Option CursorRequest := (ls.filterMap cursor?).getLast?

/-- The first failure among these leaves. -/
def failure? (ls : List (Script σ)) : Option Text := ls.findSome? message?

/-- What an open block holds behind these leaves. If one of them fails, only its depth counts. -/
structure Records (b : EditBlock) (ls : List (Script σ)) (b' : EditBlock) : Prop where
  depth_eq : b'.depth = b.depth
  edits_eq : failure? ls = none → b'.edits = b.edits ++ edits ls
  cursor_eq : failure? ls = none → b'.cursor = (lastCursor? ls).or b.cursor

theorem Records.of_failure {b b' : EditBlock} {ls : List (Script σ)} {message : Text}
    (h : b'.depth = b.depth) (hfailure : failure? ls = some message) : Records b ls b' := by
  have hfails : failure? ls ≠ none := by simp [hfailure]
  exact ⟨h, fun hnone => absurd hnone hfails, fun hnone => absurd hnone hfails⟩

theorem failure?_append (front back : List (Script σ)) :
    failure? (front ++ back) = (failure? front).or (failure? back) := List.findSome?_append

theorem Records.append {b b' b'' : EditBlock} {front back : List (Script σ)}
    (h : Records b front b') (h' : Records b' back b'') (hfront : failure? front = none) :
    Records b (front ++ back) b'' where
  depth_eq := h'.depth_eq.trans h.depth_eq
  edits_eq hnone := by
    rw [failure?_append, hfront, Option.none_or] at hnone
    rw [h'.edits_eq hnone, h.edits_eq hfront, edits, edits, edits, List.filterMap_append,
      List.append_assoc]
  cursor_eq hnone := by
    rw [failure?_append, hfront, Option.none_or] at hnone
    rw [h'.cursor_eq hnone, h.cursor_eq hfront, lastCursor?, lastCursor?, lastCursor?,
      List.filterMap_append, List.getLast?_append, Option.or_assoc]

/-- In an open block this does nothing but to record what these leaves record, up to the first that
fails. -/
def RunsAs (f : Document → Document × Option BlockError) (ls : List (Script Document)) : Prop :=
  ∀ (d : Document) (b : EditBlock), 1 ≤ b.depth → ∃ b',
    f (d.withBlock b) = (d.withBlock b', (failure? ls).map .raised) ∧ Records b ls b'

theorem Leaf.runsAs {a : Script Document} (h : Leaf a) : RunsAs (run .self a) [a] := by
  intro d b _
  cases h with
  | edit e => exact ⟨{ b with edits := b.edits ++ [e] }, rfl, rfl, fun _ => rfl, fun _ => rfl⟩
  | cursor position anchor =>
    exact ⟨{ b with cursor := some ⟨position, anchor.getD position⟩ }, rfl, rfl,
      fun _ => (List.append_nil _).symm, fun _ => rfl⟩
  | fail message => exact ⟨b, rfl, .of_failure rfl rfl⟩

theorem runsAs_runAll {body : List (Script Document)}
    (h : ∀ a ∈ body, RunsAs (run .self a) (leaves a)) :
    RunsAs (runAll .self body) (leavesAll body) := by
  induction body with
  | nil => exact fun d b _ => ⟨b, rfl, rfl, fun _ => (List.append_nil _).symm, fun _ => rfl⟩
  | cons a rest ih =>
    obtain ⟨ha, hrest⟩ := List.forall_mem_cons.mp h
    intro d b hdepth
    obtain ⟨b', hfirst, hrecords⟩ := ha d b hdepth
    rw [leavesAll, runAll, hfirst, failure?_append]
    cases hfailure : failure? (leaves a) with
    | none =>
      obtain ⟨b'', hothers, hrecords'⟩ := ih hrest d b' (hrecords.depth_eq ▸ hdepth)
      exact ⟨b'', hothers, hrecords.append hrecords' hfailure⟩
    | some message =>
      have hboth : failure? (leaves a ++ leavesAll rest) = some message := by
        rw [failure?_append, hfailure, Option.some_or]
      exact ⟨b', rfl, .of_failure hrecords.depth_eq hboth⟩

theorem inBlock_eq {f : Document → Document × Option BlockError} {d d' d'' : Document}
    {failure : Option BlockError} {rejected : Option EditError}
    (hbody : f d.openBlock = (d', failure))
    (hclose : d'.closeBlock failure.isSome = (d'', rejected)) :
    inBlock .self f d = (d'', failure <|> rejected.map .rejected) := by
  have hrun : inBlock .self f d =
      (((f d.openBlock).1.closeBlock (f d.openBlock).2.isSome).1, (f d.openBlock).2 <|>
        ((f d.openBlock).1.closeBlock (f d.openBlock).2.isSome).2.map .rejected) := rfl
  simp only [hrun, hbody, hclose]

theorem RunsAs.inBlock {f : Document → Document × Option BlockError} {ls : List (Script Document)}
    (h : RunsAs f ls) : RunsAs (inBlock .self f) ls := by
  intro d b hdepth
  obtain ⟨b', hbody, hrecords⟩ := h d { b with depth := b.depth + 1 } (Nat.le_add_left 1 _)
  have hinner : b'.depth = b.depth + 1 := hrecords.depth_eq
  rw [← d.openBlock_withBlock] at hbody
  have hrun := inBlock_eq hbody (d.closeBlock_inner (by omega) _)
  refine ⟨{ b' with depth := b'.depth - 1 }, ?_, ?_, hrecords.edits_eq, hrecords.cursor_eq⟩
  · rw [hrun]
    cases failure? ls <;> rfl
  · exact Nat.sub_eq_of_eq_add hinner

theorem Plain.runsAs {a : Script Document} (h : Plain a) : RunsAs (run .self a) (leaves a) := by
  induction h with
  | leaf h =>
    rw [leaves_of_leaf h]
    exact h.runsAs
  | nested _ ih => exact (runsAs_runAll ih).inBlock

/-- What a single block with these leaves does: it fails as the first of them that fails, or makes the
edits of all of them. -/
def outcome (d : Document) (ls : List (Script Document)) : Document × Option BlockError :=
  match failure? ls with
  | some message => (d, some (.raised message))
  | none =>
    let (d, rejected) := d.edit (edits ls) (lastCursor? ls)
    (d, rejected.map .rejected)

section
variable {d : Document} (hclosed : d.block = none)
include hclosed

theorem RunsAs.outermost {f : Document → Document × Option BlockError}
    {ls : List (Script Document)} (h : RunsAs f ls) : Script.inBlock .self f d = outcome d ls := by
  obtain ⟨b, hbody, hrecords⟩ := h d ⟨1, [], none⟩ (Nat.le_refl 1)
  have hopened : d.openBlock = d.withBlock ⟨1, [], none⟩ := Document.openBlock_of_closed hclosed
  rw [← hopened] at hbody
  rw [outcome]
  cases hfailure : failure? ls with
  | some message =>
    rw [hfailure] at hbody
    exact inBlock_eq hbody (Document.closeBlock_abandoned hclosed hrecords.depth_eq)
  | none =>
    have hdepth : b.depth = 1 := hrecords.depth_eq
    have hedits : b.edits = edits ls := hrecords.edits_eq hfailure
    have hcursor := hrecords.cursor_eq hfailure
    rw [Option.or_none] at hcursor
    have hb : d.withBlock b = d.recording (edits ls) (lastCursor? ls) := by
      rw [Document.recording, ← hdepth, ← hedits, ← hcursor]
      rfl
    have hclose := Document.closeBlock_recording hclosed (edits ls) (lastCursor? ls)
    rw [← Document.edit_eq_commit hclosed] at hclose
    rw [hfailure, hb] at hbody
    exact inBlock_eq hbody hclose

theorem closed_outcome (ls : List (Script Document)) : (outcome d ls).1.block = none := by
  unfold outcome
  split
  · exact hclosed
  · exact Document.act_closed hclosed (.block (edits ls) (lastCursor? ls))

/-- A tree of blocks does what a single block does that records the same edits and cursors in the same
order. If something in the tree fails, nothing changes and that failure comes out; else the edits are
made or rejected together. Either way the next block starts empty. -/
theorem runBlock_eq_single {body : List (Script Document)} (hbody : ∀ a ∈ body, Plain a) :
    let single := leavesAll body
    let r := runBlock .self body d
    (∀ a ∈ single, Leaf a) ∧ r = runBlock .self single d ∧
    (∀ message, failure? single = some message → r = (d, some (.raised message))) ∧
    (failure? single = none → r.1 = (d.edit (edits single) (lastCursor? single)).1 ∧
      r.2 = (d.edit (edits single) (lastCursor? single)).2.map .rejected) ∧
    r.1.openBlock.block = some ⟨1, [], none⟩ := by
  intro single r
  have hsingle : ∀ a ∈ single, Leaf a :=
    leaf_of_mem_leavesAll fun a ha => (hbody a ha).leaf_of_mem_leaves
  have hr : r = outcome d single := (runsAs_runAll fun a ha => (hbody a ha).runsAs).outermost hclosed
  have hflat : runBlock .self single d = outcome d (leavesAll single) :=
    (runsAs_runAll fun a ha => (Plain.leaf (hsingle a ha)).runsAs).outermost hclosed
  rw [leavesAll_of_leaf hsingle] at hflat
  rw [hflat, hr]
  refine ⟨hsingle, rfl, fun message hfailure => ?_, fun hnone => ?_, ?_⟩
  · simp only [outcome, hfailure]
  · simp only [outcome, hnone, and_self]
  · rw [Document.openBlock_of_closed (closed_outcome hclosed single)]
    rfl

end

theorem runBlock_eq_single_two_levels :
    let d := Document.new .text ['a', 'b'] none
    let edits : List (Script Document) :=
      [.edit (.insertion 0 ['1']), .nested [.cursor 1 none, .nested [.edit (.insertion 2 ['2'])]]]
    let failing := edits ++ [.nested [.cursor 0 none, .nested [.fail ['x'], .edit (.insertion 9 [])]]]
    d.block = none ∧ (∀ a ∈ edits, Plain a) ∧ (∀ a ∈ failing, Plain a) ∧
      runBlock .self failing d = (d, some (.raised ['x'])) ∧
      (runBlock .self edits d).1 =
        (d.edit [.insertion 0 ['1'], .insertion 2 ['2']] (some ⟨1, 1⟩)).1 := by
  intro d edits failing
  have hedits : ∀ a ∈ edits, Plain a := by
    refine List.forall_mem_cons.mpr ⟨.leaf (.edit _), List.forall_mem_singleton.mpr (.nested ?_)⟩
    refine List.forall_mem_cons.mpr ⟨.leaf (.cursor _ _), ?_⟩
    refine List.forall_mem_singleton.mpr (.nested (List.forall_mem_singleton.mpr ?_))
    exact .leaf (.edit _)
  have hfailing : ∀ a ∈ failing, Plain a := by
    refine List.forall_mem_append.mpr ⟨hedits, List.forall_mem_singleton.mpr (.nested ?_)⟩
    refine List.forall_mem_cons.mpr ⟨.leaf (.cursor _ _), List.forall_mem_singleton.mpr (.nested ?_)⟩
    exact List.forall_mem_cons.mpr
      ⟨.leaf (.fail _), List.forall_mem_singleton.mpr (.leaf (.edit _))⟩
  refine ⟨rfl, hedits, hfailing, ?_, ?_⟩
  · exact (runBlock_eq_single rfl hfailing).2.2.1 ['x'] rfl
  · exact ((runBlock_eq_single rfl hedits).2.2.2.1 rfl).1

end Script

end SourceEdit
