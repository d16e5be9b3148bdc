import SourceEdit.Proofs.Captures
import SourceEdit.Proofs.IncludePlace

set_option autoImplicit false

namespace SourceEdit

namespace Scope

theorem toNat_union (s t : Scope) : (s.union t).toNat = s.toNat ||| t.toNat := by
  obtain ⟨a, b⟩ := s
  obtain ⟨c, d⟩ := t
  revert a b c d
  decide

end Scope

namespace Inventory

/-- The captures that are includes. -/
def captures (source : Text) : List Capture :=
  (Query.includeTargets.run source).filter fun c => (includeAt? c).isSome

theorem map_captures (source : Text) :
    (captures source).map includeAt? = (ofSource source).map some := by
  rw [captures, ofSource]
  induction Query.includeTargets.run source with
  | nil => rfl
  | cons c cs ih => cases h : includeAt? c <;> simp [h, ih]

theorem exists_capture {source : Text} {k : Nat} {l : IncludeLine}
    (h : (ofSource source)[k]? = some l) :
    ∃ c, (captures source)[k]? = some c ∧ c.endLine + 1 = l.line := by
  have hmap := congrArg (·[k]?) (map_captures source)
  simp only [List.getElem?_map, h, Option.map_some] at hmap
  obtain ⟨c, hc, hat⟩ := Option.map_eq_some_iff.mp hmap
  obtain ⟨i, -, rfl⟩ := Option.map_eq_some_iff.mp hat
  have hrun := (List.mem_filter.mp (List.mem_of_getElem? hc)).1
  exact ⟨c, hc, by rw [(Query.onePerLine_includeTargets source).endLine_eq c hrun]⟩

end Inventory

namespace IncludeGroup

/-- The line on which the target of the last member ends. -/
def lastContentLine? (source : Text) (g : IncludeGroup) : Option Nat :=
  ((Inventory.captures source)[g.last]?).map fun c => c.endLine + 1

theorem prefix_common_iff {es a b : List Text} : es <+: common a b ↔ es <+: a ∧ es <+: b := by
  induction es generalizing a b with
  | nil => simp
  | cons e es ih =>
    cases a with
    | nil => simp [common]
    | cons x a =>
      cases b with
      | nil => simp [common]
      | cons y b =>
        rw [common]
        split
        · next h =>
          subst h
          simp only [List.cons_prefix_cons, ih]
          constructor
          · exact fun h => ⟨⟨h.1, h.2.1⟩, h.1, h.2.2⟩
          · exact fun h => ⟨h.1.1, h.1.2, h.2.2⟩
        · next h =>
          simp only [List.cons_prefix_cons, List.prefix_nil, reduceCtorEq, false_iff]
          exact fun hboth => h (hboth.1.1.symm.trans hboth.2.1)

theorem prefix_sharedDirectories_iff (g : IncludeGroup) {es : List Text} :
    es <+: g.sharedDirectories ↔ ∀ m ∈ g.members, es <+: directories m.item.name := by
  have hfold : ∀ (ms : List IncludeLine) (ds : List Text),
      es <+: ms.foldl (fun ds m => common ds (directories m.item.name)) ds ↔
        es <+: ds ∧ ∀ m ∈ ms, es <+: directories m.item.name := by
    intro ms
    induction ms with
    | nil => simp
    | cons m ms ih =>
      intro ds
      simp [ih, prefix_common_iff, and_assoc]
  rw [sharedDirectories, hfold, members]
  simp

theorem directories_flatMap {ds : List Text} (h : ∀ d ∈ ds, '/' ∉ d) :
    directories (ds.flatMap (· ++ ['/'])) = ds := by
  induction ds with
  | nil => rfl
  | cons d ds ih =>
    have hrest := ih fun e he => h e (.tail _ he)
    rw [directories] at hrest ⊢
    rw [List.flatMap_cons, List.append_assoc, List.singleton_append, Text.fields_append_cons,
      Text.fields_of_not_mem (h d List.mem_cons_self), List.singleton_append,
      List.dropLast_cons_of_ne_nil (Text.fields_ne_nil _ _), hrest]

theorem directories_commonPath (g : IncludeGroup) :
    directories g.commonPath = g.sharedDirectories := by
  refine directories_flatMap fun d hd => ?_
  have hshared := g.prefix_sharedDirectories_iff.mp (List.prefix_refl _) g.head List.mem_cons_self
  exact Text.not_mem_of_mem_fields ((List.dropLast_sublist _).subset (hshared.subset hd))

theorem toNat_scope (g : IncludeGroup) : g.scope.toNat =
    g.members.foldl (fun n m => n ||| (Scope.ofQuoting m.item.quoting).toNat) 0 := by
  have hfold : ∀ (ms : List IncludeLine) (s : Scope),
      (ms.foldl (fun s m => s.union (.ofQuoting m.item.quoting)) s).toNat =
        ms.foldl (fun n m => n ||| (Scope.ofQuoting m.item.quoting).toNat) s.toNat := by
    intro ms
    induction ms with
    | nil => exact fun _ => rfl
    | cons m ms ih =>
      intro s
      rw [List.foldl_cons, List.foldl_cons, ih, Scope.toNat_union]
  exact hfold g.members .none

theorem length_members (g : IncludeGroup) : g.members.length = g.last + 1 - g.first := by
  simp only [members, last, List.length_cons]
  omega

end IncludeGroup

namespace IsGrouping

theorem flatMap_range' {index : Nat} {gs : List IncludeGroup} (h : IsGrouping index gs) :
    gs.flatMap (fun g => List.range' g.first (g.last + 1 - g.first)) =
      List.range' index (gs.flatMap (·.members)).length := by
  induction h with
  | nil => rfl
  | cons hfirst _ _ _ ih =>
    rw [List.flatMap_cons, List.flatMap_cons, ih, ← IncludeGroup.length_members, hfirst,
      List.length_append, List.range'_append_1]

theorem members_eq {index : Nat} {gs : List IncludeGroup} (h : IsGrouping index gs)
    {g : IncludeGroup} (hg : g ∈ gs) : index ≤ g.first ∧
      g.members = ((gs.flatMap (·.members)).drop (g.first - index)).take g.members.length := by
  induction h with
  | nil => contradiction
  | @cons index f fs hfirst _ _ _ ih =>
    rcases List.mem_cons.mp hg with rfl | hg
    · rw [hfirst, Nat.sub_self, List.drop_zero, List.flatMap_cons, List.take_left]
      exact ⟨Nat.le_refl _, rfl⟩
    · obtain ⟨hle, hmembers⟩ := ih hg
      have hshift :
          g.first - index = f.members.length + (g.first - (index + f.members.length)) := by omega
      rw [List.flatMap_cons, hshift, List.drop_length_add_append, ← hmembers]
      exact ⟨by omega, rfl⟩

theorem isChain_lines {index : Nat} {gs : List IncludeGroup} (h : IsGrouping index gs)
    (hsorted : (gs.flatMap (·.members)).Pairwise (·.line < ·.line)) :
    gs.IsChain fun g h => g.lastLine + 1 < h.firstLine := by
  induction h with
  | nil => exact .nil
  | @cons index g gs _ _ hapart _ ih =>
    obtain ⟨-, hrest, hborder⟩ := List.pairwise_append.mp hsorted
    refine List.isChain_cons.mpr ⟨fun h hh => ?_, ih hrest⟩
    obtain ⟨m, hm⟩ := g.exists_getLast
    have hlt := hborder m (List.mem_of_getLast? hm) h.head
      (List.mem_flatMap.mpr ⟨h, List.mem_of_head? hh, List.mem_cons_self⟩)
    have hne := hapart h hh
    rw [IncludeGroup.Apart, IncludeGroup.lastLine_eq hm] at hne
    rw [IncludeGroup.lastLine_eq hm]
    have : h.firstLine = h.head.line := rfl
    omega

end IsGrouping

namespace IncludeGroup

/-- What a group of the inventory of a source says about its members. -/
structure Describes (source : Text) (g : IncludeGroup) : Prop where
  members_eq : g.members = ((Inventory.ofSource source).drop g.first).take (g.last + 1 - g.first)
  isRun : g.members.IsChain fun a b => b.line = a.line + 1
  firstLine_eq : ((Inventory.ofSource source)[g.first]?).map (·.line) = some g.firstLine
  lastLine_eq : ((Inventory.ofSource source)[g.last]?).map (·.line) = some g.lastLine
  lastContentLine_eq : g.lastContentLine? source = some g.lastLine
  scope_eq : g.scope.toNat =
    g.members.foldl (fun n m => n ||| (Scope.ofQuoting m.item.quoting).toNat) 0
  commonPath_eq : g.commonPath = (directories g.commonPath).flatMap (· ++ ['/'])
  prefix_iff : ∀ ds, ds <+: directories g.commonPath ↔
    ∀ m ∈ g.members, ds <+: directories m.item.name

end IncludeGroup

namespace Inventory

theorem describes_of_mem {source : Text} {g : IncludeGroup} (hg : g ∈ (ofSource source).groups) :
    g.Describes source := by
  have hgrouping : IsGrouping 0 (ofSource source).groups := isGrouping_groupsFrom 0 _
  obtain ⟨-, hmembers⟩ := hgrouping.members_eq hg
  rw [show (ofSource source).groups = groupsFrom 0 (ofSource source) from rfl,
    flatMap_members_groupsFrom, Nat.sub_zero, g.length_members] at hmembers
  have hmember : ∀ k ≤ g.tail.length, (ofSource source)[g.first + k]? = g.members[k]? := by
    intro k hk
    rw [hmembers, List.getElem?_take_of_lt (by rw [IncludeGroup.last]; omega), List.getElem?_drop]
  have hfirst : (ofSource source)[g.first]? = some g.head := hmember 0 (Nat.zero_le _)
  obtain ⟨m, hm⟩ := g.exists_getLast
  have hlast : (ofSource source)[g.last]? = some m := by
    rw [IncludeGroup.last, hmember _ (Nat.le_refl _), ← hm, List.getLast?_eq_getElem?]
    rfl
  obtain ⟨c, hc, hline⟩ := exists_capture hlast
  exact {
    members_eq := hmembers
    isRun := hgrouping.isRun_of_mem hg
    firstLine_eq := by rw [hfirst]; rfl
    lastLine_eq := by rw [hlast, IncludeGroup.lastLine_eq hm]; rfl
    lastContentLine_eq := by
      rw [IncludeGroup.lastContentLine?, hc, IncludeGroup.lastLine_eq hm, ← hline]
      rfl
    scope_eq := g.toNat_scope
    commonPath_eq := by rw [g.directories_commonPath]; rfl
    prefix_iff := fun ds => by
      rw [g.directories_commonPath]
      exact g.prefix_sharedDirectories_iff }

/-- The groups of a source. Their ranges of indices, one behind the other, are the indices of all
includes; the line behind a group holds no include; and each group says of its members on which
lines they begin and end, which quotings there are among them and which leading directories they
share. -/
theorem groups_partition (source : Text) :
    let inventory := ofSource source
    inventory.groups.flatMap (fun g => List.range' g.first (g.last + 1 - g.first)) =
        List.range inventory.length ∧
      inventory.groups.IsChain (fun g h => g.lastLine + 1 < h.firstLine) ∧
      ∀ g ∈ inventory.groups, g.Describes source := by
  intro inventory
  have hgrouping : IsGrouping 0 inventory.groups := isGrouping_groupsFrom 0 _
  have hmembers : inventory.groups.flatMap (·.members) = inventory := flatMap_members_groupsFrom 0 _
  have hsorted : (inventory.groups.flatMap (·.members)).Pairwise (·.line < ·.line) := by
    rw [hmembers]
    exact pairwise_ofSource source
  refine ⟨?_, hgrouping.isChain_lines hsorted, fun g hg => describes_of_mem hg⟩
  rw [hgrouping.flatMap_range', hmembers, List.range_eq_range']

end Inventory

end SourceEdit
