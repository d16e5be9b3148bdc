import Mathlib.Data.List.Basic
import SourceEdit.Diff.Unified
import SourceEdit.Proofs.CommonRuns

set_option autoImplicit false

namespace SourceEdit.Diff

namespace Hunk

def old (h : Hunk) : List Text := h.segments.flatMap Segment.before

def new (h : Hunk) : List Text := h.segments.flatMap Segment.after

def change (h : Hunk) : Nat × List Text × List Text := (h.oldStart, h.old, h.new)

def isChange (h : Hunk) : Bool := h.segments.any (·.isChange)

theorem new_eq_old {h : Hunk} (hkept : h.isChange = false) : h.new = h.old := by
  rw [isChange, List.any_eq_false] at hkept
  rw [new, old]
  refine List.flatMap_congr fun s hs => ?_
  cases s with
  | kept _ => rfl
  | replaced _ _ => exact absurd rfl (hkept _ hs)

end Hunk

/-- Lines from an index on, the hunks behind it, and the lines that they lead to. -/
inductive Patches : (start : Nat) → List Text → List Hunk → List Text → Prop where
  | done (start : Nat) (lines : List Text) : Patches start lines [] lines
  | hunk {start : Nat} {kept old new : List Text} {h : Hunk} {later : List Hunk}
      (hstart : h.oldStart = start + kept.length)
      (hlater : Patches (h.oldStart + h.old.length) old later new) :
      Patches start (kept ++ (h.old ++ old)) (h :: later) (kept ++ (h.new ++ new))

namespace Patches

variable {start : Nat} {old new old' new' : List Text} {hunks hunks' : List Hunk}

theorem keep (l : List Text) (h : Patches (start + l.length) old hunks new) :
    Patches start (l ++ old) hunks (l ++ new) := by
  cases h with
  | done _ _ => exact .done start _
  | @hunk _ kept _ _ _ _ hstart hlater =>
    rw [← List.append_assoc l kept, ← List.append_assoc l kept]
    refine .hunk ?_ hlater
    rw [hstart, List.length_append, Nat.add_assoc]

theorem append (h : Patches start old hunks new) (l : List Text) :
    Patches start (old ++ l) hunks (new ++ l) := by
  induction h with
  | done start lines => exact .done start _
  | hunk hstart _ ih =>
    rw [List.append_assoc, List.append_assoc, List.append_assoc, List.append_assoc]
    exact .hunk hstart ih

theorem subset (h : Patches start old hunks new) {k : Hunk} (hk : k ∈ hunks) :
    k.old ⊆ old ∧ k.new ⊆ new := by
  induction h with
  | done _ _ => contradiction
  | @hunk _ kept old new h later _ _ ih =>
    rcases List.mem_cons.mp hk with rfl | hk
    · exact ⟨fun l hl => by simp [hl], fun l hl => by simp [hl]⟩
    · obtain ⟨hold, hnew⟩ := ih hk
      exact ⟨fun l hl => by simp [hold hl], fun l hl => by simp [hnew hl]⟩

theorem filter (h : Patches start old hunks new) :
    Patches start old (hunks.filter Hunk.isChange) new := by
  induction h with
  | done start lines => exact .done start lines
  | @hunk start kept old new h later hstart _ ih =>
    rw [List.filter_cons]
    split
    · exact .hunk hstart ih
    · next hkept =>
      rw [Hunk.new_eq_old (Bool.eq_false_iff.mpr hkept)]
      rw [hstart] at ih
      exact keep kept (keep h.old ih)

theorem unique (h : Patches start old hunks new) (h' : Patches start old hunks' new')
    (hsame : hunks.map Hunk.change = hunks'.map Hunk.change) : new = new' := by
  generalize hold : old = lines at h'
  induction h generalizing lines hunks' new' with
  | done start l =>
    obtain rfl := List.map_eq_nil_iff.mp hsame.symm
    cases h'
    exact hold
  | @hunk start kept old new h later hstart _ ih =>
    cases h' with
    | done _ _ => exact absurd hsame (by simp)
    | @hunk _ kept' old' new' h' later' hstart' hlater' =>
      obtain ⟨hchange, hlater⟩ := List.cons.inj hsame
      obtain ⟨hstarts, hlines⟩ := Prod.mk.inj hchange
      obtain ⟨holds, hnews⟩ := Prod.mk.inj hlines
      have hlength : kept.length = kept'.length := by omega
      obtain ⟨hkept, hrest⟩ := List.append_inj hold hlength
      rw [← holds] at hrest hlater'
      rw [← hstarts] at hlater'
      rw [ih hlater old' (List.append_cancel_left hrest) hlater', hnews, hkept]

end Patches

/-- The first lines are those of a hunk that goes on, and the later hunks lead on from there. -/
def Continues (start : Nat) (current : List Segment) (later : List Hunk)
    (before after : List Text) : Prop :=
  ∃ old new, before = current.flatMap Segment.before ++ old ∧
    after = current.flatMap Segment.after ++ new ∧
    Patches (start + (current.flatMap Segment.before).length) old later new

namespace Continues

variable {start : Nat} {current : List Segment} {later : List Hunk} {before after : List Text}

theorem none (h : Patches start before later after) : Continues start [] later before after :=
  ⟨before, after, rfl, rfl, h⟩

theorem cons {s : Segment} (h : Continues (start + s.before.length) current later before after) :
    Continues start (s :: current) later (s.before ++ before) (s.after ++ after) := by
  obtain ⟨old, new, rfl, rfl, hlater⟩ := h
  refine ⟨old, new, ?_, ?_, ?_⟩
  · rw [List.flatMap_cons, List.append_assoc]
  · rw [List.flatMap_cons, List.append_assoc]
  · rwa [List.flatMap_cons, List.length_append, ← Nat.add_assoc]

theorem patches (h : Continues start current later before after) (newStart : Nat) :
    Patches start before (⟨start, newStart, current⟩ :: later) after := by
  obtain ⟨old, new, rfl, rfl, hlater⟩ := h
  exact @Patches.hunk start [] old new ⟨start, newStart, current⟩ later rfl hlater

end Continues

theorem exists_trimStart (segments : List Segment) : ∃ l, l.length = (trimStart segments).1 ∧
    segments.flatMap Segment.before = l ++ (trimStart segments).2.flatMap Segment.before ∧
    segments.flatMap Segment.after = l ++ (trimStart segments).2.flatMap Segment.after := by
  unfold trimStart
  split
  · next l rest =>
    refine ⟨l.take (l.length - context), ?_, ?_, ?_⟩
    · exact List.length_take_of_le (Nat.sub_le _ _)
    · simp only [List.flatMap_cons, Segment.before, ← List.append_assoc, List.take_append_drop]
    · simp only [List.flatMap_cons, Segment.after, ← List.append_assoc, List.take_append_drop]
  · exact ⟨[], rfl, rfl, rfl⟩

theorem exists_trimEnd (segments : List Segment) : ∃ l,
    segments.flatMap Segment.before = (trimEnd segments).flatMap Segment.before ++ l ∧
    segments.flatMap Segment.after = (trimEnd segments).flatMap Segment.after ++ l := by
  fun_induction trimEnd segments with
  | case1 => exact ⟨[], rfl, rfl⟩
  | case2 l => exact ⟨l.drop context, by simp [Segment.before], by simp [Segment.after]⟩
  | case3 s rest _ ih =>
    obtain ⟨l, hbefore, hafter⟩ := ih
    refine ⟨l, ?_, ?_⟩
    · rw [List.flatMap_cons, hbefore, List.flatMap_cons, List.append_assoc]
    · rw [List.flatMap_cons, hafter, List.flatMap_cons, List.append_assoc]

theorem exists_between {l : List Text} (h : 2 * context < l.length) : ∃ first between last,
    l = first ++ (between ++ last) ∧ first.length = context ∧ last.length = context := by
  have hmiddle := take_append_middle l [] context (l.length - 2 * context)
  rw [List.append_nil, List.append_nil] at hmiddle
  refine ⟨_, _, _, hmiddle.symm, ?_, ?_⟩
  · rw [List.length_take]
    omega
  · rw [List.length_drop]
    omega

theorem continues_cut (old new : Nat) (segments : List Segment) :
    Continues old (cut old new segments).1 (cut old new segments).2
      (segments.flatMap Segment.before) (segments.flatMap Segment.after) := by
  induction segments generalizing old new with
  | nil => exact .none (.done old [])
  | cons s rest ih =>
    have hrest := ih (old + s.before.length) (new + s.after.length)
    rw [cut]
    generalize cut (old + s.before.length) (new + s.after.length) rest = r at hrest
    obtain ⟨current, later⟩ := r
    cases s with
    | replaced removed added => exact hrest.cons
    | kept l =>
      dsimp only
      split
      · next hlong =>
        -- The lines between the first ones and the last ones are in neither hunk.
        obtain ⟨first, between, last, rfl, hfirst, hlast⟩ := exists_between hlong
        have hskipped : (first ++ (between ++ last)).length - context =
            first.length + between.length := by
          rw [List.length_append, List.length_append]
          omega
        have htake : (first ++ (between ++ last)).take context = first := by
          rw [← hfirst, List.take_left]
        have hdrop : (first ++ (between ++ last)).drop (first.length + between.length) = last := by
          rw [← List.drop_drop, List.drop_left, List.drop_left]
        rw [hskipped, htake, hdrop, ← Nat.add_assoc]
        have hstart : old + (Segment.kept (first ++ (between ++ last))).before.length =
            old + first.length + between.length + (Segment.kept last).before.length := by
          simp only [Segment.before, List.length_append, Nat.add_assoc]
        rw [hstart] at hrest
        have hhunk := (hrest.cons.patches (new + (first.length + between.length))).keep between
        have hall : Continues old [.kept first] _ (first ++ _) (first ++ _) :=
          (Continues.none hhunk).cons
        simpa [Segment.before, Segment.after] using hall
      · exact hrest.cons

theorem hunks_eq (segments : List Segment) : hunks segments =
    (⟨(trimStart segments).1, (trimStart segments).1,
      (cut (trimStart segments).1 (trimStart segments).1 (trimEnd (trimStart segments).2)).1⟩ ::
      (cut (trimStart segments).1 (trimStart segments).1 (trimEnd (trimStart segments).2)).2).filter
        Hunk.isChange := rfl

theorem patches_hunks (segments : List Segment) : Patches 0 (segments.flatMap Segment.before)
    (hunks segments) (segments.flatMap Segment.after) := by
  obtain ⟨front, hfront, hbefore, hafter⟩ := exists_trimStart segments
  rw [hunks_eq, hbefore, hafter, ← hfront]
  generalize (trimStart segments).2 = kept
  obtain ⟨back, hbefore, hafter⟩ := exists_trimEnd kept
  have hpatches := (continues_cut front.length front.length (trimEnd kept)).patches front.length
  have hkept : Patches 0 (front ++ _) _ (front ++ _) := .keep front (by rwa [Nat.zero_add])
  rw [hbefore, hafter, ← List.append_assoc, ← List.append_assoc]
  exact (hkept.append back).filter

theorem cut_short {l : List Text} (h : l.length ≤ context) (old new : Nat) :
    cut old new [.kept l] = ([.kept l], []) := by
  have hshort : ¬2 * context < l.length := by omega
  rw [cut, cut]
  dsimp only
  rw [if_neg hshort]

theorem hunks_kept (l : List Text) : hunks [.kept l] = [] := by
  rw [hunks_eq, trimStart, trimEnd, cut_short (List.length_take_le _ _)]
  rfl

end SourceEdit.Diff
