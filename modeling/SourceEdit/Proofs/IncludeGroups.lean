import Mathlib.Data.List.Chain
import SourceEdit.Proofs.InventoryLines

set_option autoImplicit false

namespace SourceEdit

namespace IncludeLine

def Follows (a b : IncludeLine) : Prop := b.line = a.line + 1

theorem follows_lower (k : Nat) (a b : IncludeLine) :
    (a.lower k).Follows (b.lower k) ↔ a.Follows b := by
  simp only [Follows, lower]
  omega

end IncludeLine

namespace IncludeGroup

/-- The group some lines further down, with as many includes more in front of it. -/
def shift (n k : Nat) (g : IncludeGroup) : IncludeGroup :=
  ⟨g.first + n, g.head.lower k, g.tail.map (·.lower k)⟩

def IsRun (g : IncludeGroup) : Prop := g.members.IsChain IncludeLine.Follows

/-- The second group does not go on where the first one ends. -/
def Apart (g h : IncludeGroup) : Prop := h.firstLine ≠ g.lastLine + 1

theorem members_shift (n k : Nat) (g : IncludeGroup) :
    (g.shift n k).members = g.members.map (·.lower k) := rfl

theorem lastLine_cons (index : Nat) (l : IncludeLine) (g : IncludeGroup) :
    (IncludeGroup.mk index l g.members).lastLine = g.lastLine := by
  simp [lastLine, members, List.getLast?_cons]

theorem apart_shift (n k : Nat) (g h : IncludeGroup) :
    (g.shift n k).Apart (h.shift n k) ↔ g.Apart h := by
  have hlast : (g.shift n k).lastLine = g.lastLine + k := by
    simp only [lastLine, shift, List.getLast?_map]
    cases g.tail.getLast? <;> rfl
  have hfirst : (h.shift n k).firstLine = h.firstLine + k := rfl
  rw [Apart, Apart, hlast, hfirst]
  omega

theorem isRun_shift (n k : Nat) (g : IncludeGroup) : (g.shift n k).IsRun ↔ g.IsRun := by
  rw [IsRun, members_shift, List.isChain_map]
  simp only [IncludeLine.follows_lower]
  rfl

end IncludeGroup

/-- Runs that do not touch; `index` is the index of the first include. -/
inductive IsGrouping : (index : Nat) → List IncludeGroup → Prop where
  | nil {index : Nat} : IsGrouping index []
  | cons {index : Nat} {g : IncludeGroup} {gs : List IncludeGroup} : g.first = index → g.IsRun →
      (∀ h ∈ gs.head?, g.Apart h) → IsGrouping (index + g.members.length) gs →
      IsGrouping index (g :: gs)

namespace Inventory

theorem isGrouping_groupsFrom (index : Nat) (inventory : Inventory) :
    IsGrouping index (groupsFrom index inventory) := by
  induction inventory generalizing index with
  | nil => exact .nil
  | cons l ls ih =>
    have ih := ih (index + 1)
    have hsingle : (IncludeGroup.mk index l []).IsRun := List.isChain_singleton l
    rw [groupsFrom]
    split
    · exact .cons rfl hsingle (by simp) .nil
    · next g gs h =>
      rw [h] at ih
      split
      · next hline =>
        obtain - | ⟨-, hrun, hapart, hrest⟩ := ih
        refine .cons rfl ?_ ?_ ?_
        · refine List.isChain_cons.mpr ⟨fun b hb => ?_, hrun⟩
          obtain rfl := Option.some.inj hb
          exact hline
        · intro h' hh'
          rw [IncludeGroup.Apart, IncludeGroup.lastLine_cons]
          exact hapart h' hh'
        · have hlength : index + (IncludeGroup.mk index l g.members).members.length =
              index + 1 + g.members.length := by
            simp only [IncludeGroup.members, List.length_cons]
            omega
          rwa [hlength]
      · next hline =>
        refine .cons rfl hsingle (fun h' hh' => ?_) ih
        obtain rfl := Option.some.inj hh'
        exact hline

theorem flatMap_members_groupsFrom (index : Nat) (inventory : Inventory) :
    (groupsFrom index inventory).flatMap (·.members) = inventory := by
  induction inventory generalizing index with
  | nil => rfl
  | cons l ls ih =>
    have ih := ih (index + 1)
    rw [groupsFrom]
    split
    · next h => rw [h] at ih; rw [← ih]; rfl
    · next g gs h =>
      rw [h] at ih
      split <;> rw [← ih] <;> rfl

theorem groupsFrom_run_append {g : IncludeGroup} (hrun : g.IsRun) {rest : Inventory}
    (hapart : ∀ h ∈ (groupsFrom (g.first + g.members.length) rest).head?, g.Apart h) :
    groupsFrom g.first (g.members ++ rest) =
      g :: groupsFrom (g.first + g.members.length) rest := by
  obtain ⟨index, l, tail⟩ := g
  induction tail generalizing index l with
  | nil =>
    simp only [IncludeGroup.members, List.length_singleton, List.cons_append, List.nil_append,
      groupsFrom] at hapart ⊢
    split
    · next hrest => rw [hrest]
    · next h gs hrest =>
      rw [hrest] at hapart ⊢
      exact if_neg (hapart h rfl)
  | cons m tail ih =>
    have hlength : index + (IncludeGroup.mk index l (m :: tail)).members.length =
        index + 1 + (IncludeGroup.mk (index + 1) m tail).members.length := by
      simp only [IncludeGroup.members, List.length_cons]
      omega
    rw [hlength] at hapart ⊢
    obtain ⟨hfollows, hrun⟩ := List.isChain_cons_cons.mp hrun
    have htail := ih (index + 1) m hrun fun h hh => by
      rw [IncludeGroup.Apart, ← IncludeGroup.lastLine_cons index l]
      exact hapart h hh
    simp only [IncludeGroup.members, List.cons_append] at htail ⊢
    rw [groupsFrom, htail]
    exact if_pos hfollows

/-- The groups are the only grouping of the inventory. -/
theorem groupsFrom_eq_iff {index : Nat} {inventory : Inventory} {gs : List IncludeGroup} :
    groupsFrom index inventory = gs ↔
      gs.flatMap (·.members) = inventory ∧ IsGrouping index gs := by
  constructor
  · rintro rfl
    exact ⟨flatMap_members_groupsFrom index inventory, isGrouping_groupsFrom index inventory⟩
  · rintro ⟨rfl, h⟩
    induction h with
    | nil => rfl
    | cons hfirst hrun hapart _ ih =>
      rw [List.flatMap_cons, ← hfirst, groupsFrom_run_append hrun, hfirst, ih]
      rwa [hfirst, ih]

end Inventory

namespace IsGrouping

theorem isRun_of_mem {index : Nat} {gs : List IncludeGroup} (h : IsGrouping index gs)
    {g : IncludeGroup} (hg : g ∈ gs) : g.IsRun := by
  induction h with
  | nil => contradiction
  | cons _ hrun _ _ ih =>
    rcases List.mem_cons.mp hg with rfl | hg
    · exact hrun
    · exact ih hg

theorem append_iff {index : Nat} {xs ys : List IncludeGroup} :
    IsGrouping index (xs ++ ys) ↔ IsGrouping index xs ∧
      IsGrouping (index + (xs.flatMap (·.members)).length) ys ∧
      ∀ g ∈ xs.getLast?, ∀ h ∈ ys.head?, g.Apart h := by
  induction xs generalizing index with
  | nil => simp [IsGrouping.nil]
  | cons g xs ih =>
    have hlength : index + ((g :: xs).flatMap (·.members)).length =
        index + g.members.length + (xs.flatMap (·.members)).length := by
      rw [List.flatMap_cons, List.length_append, Nat.add_assoc]
    rw [hlength]
    constructor
    · rintro (_ | ⟨hfirst, hrun, hapart, hrest⟩)
      obtain ⟨hxs, hys, hborder⟩ := ih.mp hrest
      refine ⟨.cons hfirst hrun (fun h hh => hapart h ?_) hxs, hys, fun g' hg' h hh => ?_⟩
      · cases xs with
        | nil => contradiction
        | cons x xs => exact hh
      · cases xs with
        | nil =>
          obtain rfl := Option.some.inj hg'
          exact hapart h hh
        | cons x xs => exact hborder g' hg' h hh
    · rintro ⟨_ | ⟨hfirst, hrun, hapart, hxs⟩, hys, hborder⟩
      refine .cons hfirst hrun (fun h hh => ?_) (ih.mpr ⟨hxs, hys, fun g' hg' h hh => ?_⟩)
      · cases xs with
        | nil => exact hborder g rfl h hh
        | cons x xs => exact hapart h hh
      · cases xs with
        | nil => contradiction
        | cons x xs => exact hborder g' hg' h hh

theorem shift {index : Nat} {gs : List IncludeGroup} (h : IsGrouping index gs) (n k : Nat) :
    IsGrouping (index + n) (gs.map (·.shift n k)) := by
  induction h with
  | nil => exact .nil
  | @cons index g gs hfirst hrun hapart _ ih =>
    refine .cons (by rw [← hfirst]; rfl) ((g.isRun_shift n k).mpr hrun) ?_ ?_
    · intro h' hh'
      rw [List.head?_map] at hh'
      obtain ⟨h, hh, rfl⟩ := Option.map_eq_some_iff.mp hh'
      exact (g.apart_shift n k h).mpr (hapart h hh)
    · rw [IncludeGroup.members_shift, List.length_map, Nat.add_right_comm]
      exact ih

end IsGrouping

end SourceEdit
