import SourceEdit.Proofs.IncludePlace

set_option autoImplicit false

namespace SourceEdit

namespace IncludeGroup

theorem exists_members (first : Nat) {ms : List IncludeLine} (h : ms ≠ []) :
    ∃ g : IncludeGroup, g.first = first ∧ g.members = ms := by
  obtain ⟨m, rest, rfl⟩ := List.exists_cons_of_ne_nil h
  exact ⟨⟨first, m, rest⟩, rfl, rfl⟩

theorem firstLine_eq {g : IncludeGroup} {m : IncludeLine} (h : g.members.head? = some m) :
    g.firstLine = m.line := by
  obtain rfl := Option.some.inj h
  rfl

theorem isChain_inserted {us vs : List IncludeLine} (hrun : (us ++ vs).IsChain IncludeLine.Follows)
    {added : IncludeLine} (hus : ∀ m ∈ us.getLast?, added.line = m.line + 1)
    (hvs : ∀ m ∈ vs.head?, m.line = added.line) :
    (us ++ added :: vs.map (·.lower 1)).IsChain IncludeLine.Follows := by
  obtain ⟨hrunUs, hrunVs, -⟩ := List.isChain_append.mp hrun
  refine List.isChain_append.mpr ⟨hrunUs, ?_, ?_⟩
  · rw [List.isChain_cons, List.isChain_map]
    refine ⟨fun m hm => ?_, by simpa only [IncludeLine.follows_lower] using hrunVs⟩
    rw [List.head?_map] at hm
    obtain ⟨v, hv, rfl⟩ := Option.map_eq_some_iff.mp hm
    exact congrArg (· + 1) (hvs v hv)
  · intro m hm m' hm'
    obtain rfl := Option.some.inj hm'
    exact hus m hm

variable {g g' : IncludeGroup} {us vs : List IncludeLine} {added : IncludeLine}

theorem firstLine_inserted (hsplit : g.members = us ++ vs)
    (hmembers : g'.members = us ++ added :: vs.map (·.lower 1))
    (hvs : ∀ m ∈ vs.head?, m.line = added.line) : g'.firstLine = g.firstLine := by
  have hhead : g.members.head? = some g.head := rfl
  rw [hsplit] at hhead
  cases us with
  | cons u us =>
    obtain rfl := Option.some.inj hhead
    have hhead' : g'.members.head? = some g.head := by rw [hmembers]; rfl
    exact firstLine_eq hhead'
  | nil =>
    have hhead' : g'.members.head? = some added := by rw [hmembers]; rfl
    rw [firstLine_eq hhead', ← hvs g.head hhead]
    rfl

theorem lastLine_inserted (hsplit : g.members = us ++ vs)
    (hmembers : g'.members = us ++ added :: vs.map (·.lower 1))
    (hus : ∀ m ∈ us.getLast?, added.line = m.line + 1) : g'.lastLine = g.lastLine + 1 := by
  obtain ⟨m, hm⟩ := g.exists_getLast
  rw [lastLine_eq hm]
  rw [hsplit] at hm
  rcases List.eq_nil_or_concat vs with rfl | ⟨vs, v, rfl⟩
  · rw [List.append_nil] at hm
    have hlast : g'.members.getLast? = some added := by rw [hmembers]; exact List.getLast?_concat
    rw [lastLine_eq hlast, hus m hm]
  · rw [List.concat_eq_append, ← List.append_assoc, List.getLast?_concat, Option.some.injEq] at hm
    have hlast : g'.members.getLast? = some (v.lower 1) := by
      rw [hmembers, List.concat_eq_append, List.map_append, ← List.cons_append,
        ← List.append_assoc]
      exact List.getLast?_concat
    rw [lastLine_eq hlast, ← hm]
    rfl

theorem exists_inserted (hrun : g.IsRun) (hsplit : g.members = us ++ vs)
    (hus : ∀ m ∈ us.getLast?, added.line = m.line + 1) (hvs : ∀ m ∈ vs.head?, m.line = added.line) :
    ∃ g' : IncludeGroup, g'.first = g.first ∧ g'.members = us ++ added :: vs.map (·.lower 1) ∧
      g'.IsRun ∧ g'.firstLine = g.firstLine ∧ g'.lastLine = g.lastLine + 1 := by
  obtain ⟨g', hfirst, hmembers⟩ := exists_members g.first
    (List.append_ne_nil_of_right_ne_nil us (List.cons_ne_nil added (vs.map (·.lower 1))))
  refine ⟨g', hfirst, hmembers, ?_, firstLine_inserted hsplit hmembers hvs,
    lastLine_inserted hsplit hmembers hus⟩
  rw [IsRun, hsplit] at hrun
  rw [IsRun, hmembers]
  exact isChain_inserted hrun hus hvs

end IncludeGroup

namespace IsGrouping

theorem replace {index : Nat} {front back : List IncludeGroup} {g g' : IncludeGroup}
    (h : IsGrouping index (front ++ g :: back)) (hfirst : g'.first = g.first) (hrun : g'.IsRun)
    (hfirstLine : g'.firstLine = g.firstLine) (hlastLine : g'.lastLine = g.lastLine + 1)
    (hlength : g'.members.length = g.members.length + 1) :
    IsGrouping index (front ++ g' :: back.map (·.shift 1 1)) := by
  obtain ⟨hfront, hrest, hborder⟩ := IsGrouping.append_iff.mp h
  obtain - | ⟨hindex, -, hapart, hback⟩ := hrest
  refine IsGrouping.append_iff.mpr ⟨hfront, .cons (hfirst.trans hindex) hrun ?_ ?_, ?_⟩
  · intro b' hb'
    rw [List.head?_map] at hb'
    obtain ⟨b, hb, rfl⟩ := Option.map_eq_some_iff.mp hb'
    have := hapart b hb
    rw [IncludeGroup.Apart] at this ⊢
    rw [hlastLine]
    exact fun heq => this (Nat.succ.inj heq)
  · rw [hlength, ← Nat.add_assoc]
    exact hback.shift 1 1
  · intro f hf b hb
    obtain rfl := Option.some.inj hb
    rw [IncludeGroup.Apart, hfirstLine]
    exact hborder f hf g rfl

end IsGrouping

namespace Inventory

/-- One include more, with `k` more lines in front of this one. -/
def insertAt (line k : Nat) (added : IncludeLine) (inventory : Inventory) : Inventory :=
  inventory.filter (·.line < line) ++ added :: (inventory.filter (line ≤ ·.line)).map (·.lower k)

theorem insertAt_append {line : Nat} {above below : Inventory} (habove : ∀ l ∈ above, l.line < line)
    (hbelow : ∀ l ∈ below, line ≤ l.line) (k : Nat) (added : IncludeLine) :
    insertAt line k added (above ++ below) = above ++ added :: below.map (·.lower k) := by
  have hlow : above.filter (line ≤ ·.line) = [] := by
    rw [List.filter_eq_nil_iff]
    intro l hl
    have := habove l hl
    simpa using this
  have hhigh : below.filter (·.line < line) = [] := by
    rw [List.filter_eq_nil_iff]
    intro l hl
    have := hbelow l hl
    simpa using this
  rw [insertAt, List.filter_append, List.filter_append, hlow, hhigh, List.append_nil,
    List.nil_append, List.filter_eq_self.mpr (by simpa using habove),
    List.filter_eq_self.mpr (by simpa using hbelow)]

theorem lines_of_split {us vs : Inventory} (hsorted : (us ++ vs).Pairwise (·.line < ·.line))
    {line : Nat} (hus : ∀ m ∈ us.getLast?, m.line < line) (hvs : ∀ m ∈ vs.head?, line ≤ m.line) :
    (∀ m ∈ us, m.line < line) ∧ ∀ m ∈ vs, line ≤ m.line := by
  obtain ⟨hsortedUs, hsortedVs, -⟩ := List.pairwise_append.mp hsorted
  constructor
  · rcases List.eq_nil_or_concat us with rfl | ⟨us, u, rfl⟩
    · simp
    · rw [List.concat_eq_append] at hus hsortedUs ⊢
      have hu := hus u List.getLast?_concat
      have hbefore := (List.pairwise_append.mp hsortedUs).2.2
      intro m hm
      rcases List.mem_append.mp hm with hm | hm
      · have := hbefore m hm u (List.mem_singleton.mpr rfl)
        omega
      · rwa [List.mem_singleton.mp hm]
  · cases vs with
    | nil => simp
    | cons v vs =>
      have hv := hvs v rfl
      intro m hm
      rcases List.mem_cons.mp hm with rfl | hm
      · exact hv
      · have := (List.pairwise_cons.mp hsortedVs).1 m hm
        omega

theorem lines_of_split_between {front us vs back : Inventory}
    (hsorted : (front ++ us ++ (vs ++ back)).Pairwise (·.line < ·.line)) (hne : us ++ vs ≠ [])
    {line : Nat} (hus : ∀ m ∈ us.getLast?, line = m.line + 1) (hvs : ∀ m ∈ vs.head?, m.line = line) :
    (∀ m ∈ front ++ us, m.line < line) ∧ ∀ m ∈ vs ++ back, line ≤ m.line := by
  have hborder := (List.pairwise_append.mp hsorted).2.2
  refine lines_of_split hsorted (fun m hm => ?_) (fun m hm => ?_)
  · rcases List.eq_nil_or_concat us with rfl | ⟨us, u, rfl⟩
    · obtain ⟨v, vs, rfl⟩ := List.exists_cons_of_ne_nil hne
      rw [← hvs v rfl]
      exact hborder m (List.mem_of_getLast? hm) v List.mem_cons_self
    · rw [List.concat_eq_append, ← List.append_assoc, List.getLast?_concat] at hm
      obtain rfl := Option.some.inj hm
      have hline := hus u (by rw [List.concat_eq_append, List.getLast?_concat]; rfl)
      omega
  · cases vs with
    | nil =>
      rw [List.append_nil] at hne
      obtain ⟨u, hu⟩ := Option.isSome_iff_exists.mp (List.getLast?_isSome.mpr hne)
      rw [hus u hu]
      exact hborder u (List.mem_append_right _ (List.mem_of_getLast? hu)) m (List.mem_of_head? hm)
    | cons v vs =>
      obtain rfl := Option.some.inj hm
      exact Nat.le_of_eq (hvs v rfl).symm

theorem groups_insertAt {inventory : Inventory} (hsorted : inventory.Pairwise (·.line < ·.line))
    {front back : List IncludeGroup} {g : IncludeGroup}
    (hgroups : inventory.groups = front ++ g :: back) {i : Include} {added : IncludeLine}
    (hadded : added.line = g.lineFor i) :
    ∃ g' : IncludeGroup, (inventory.insertAt added.line 1 added).groups =
        front ++ g' :: back.map (·.shift 1 1) ∧
      g'.first = g.first ∧ g'.members = insertAt added.line 1 added g.members := by
  have hgrouping : IsGrouping 0 (front ++ g :: back) := hgroups ▸ isGrouping_groupsFrom 0 inventory
  have hrun : g.IsRun := hgrouping.isRun_of_mem (by simp)
  obtain ⟨us, vs, hsplit, hus, hvs⟩ := g.exists_split_lineFor hrun i
  rw [← hadded] at hus hvs
  have hinventory : inventory =
      (front.flatMap (·.members) ++ us) ++ (vs ++ back.flatMap (·.members)) := by
    rw [← flatMap_members_groupsFrom 0 inventory, show inventory.groupsFrom 0 = _ from hgroups,
      List.flatMap_append, List.flatMap_cons, hsplit]
    simp only [List.append_assoc]
  rw [hinventory] at hsorted
  obtain ⟨habove, hbelow⟩ := lines_of_split_between hsorted (hsplit ▸ List.cons_ne_nil _ _) hus hvs
  obtain ⟨g', hfirst, hmembers, hrun', hfirstLine, hlastLine⟩ :=
    IncludeGroup.exists_inserted hrun hsplit hus hvs
  have hlength : g'.members.length = g.members.length + 1 := by
    rw [hmembers, hsplit]
    simp only [List.length_append, List.length_cons, List.length_map]
    omega
  refine ⟨g', groupsFrom_eq_iff.mpr
    ⟨?_, hgrouping.replace hfirst hrun' hfirstLine hlastLine hlength⟩, hfirst, ?_⟩
  · rw [hinventory, insertAt_append habove hbelow, List.flatMap_append, List.flatMap_cons,
      hmembers, List.flatMap_map]
    simp only [IncludeGroup.members_shift, List.map_append, List.map_flatMap, List.append_assoc,
      List.cons_append]
  · rw [hmembers, hsplit, insertAt_append (fun m hm => habove m (List.mem_append_right _ hm))
      fun m hm => hbelow m (List.mem_append_left _ hm)]

theorem groups_insertAt_last {inventory : Inventory}
    (hsorted : inventory.Pairwise (·.line < ·.line)) {front : List IncludeGroup} {g : IncludeGroup}
    (hgroups : inventory.groups = front ++ [g]) {added : IncludeLine}
    (hadded : added.line ≠ g.lastLine + 1) (k : Nat) :
    (inventory.insertAt (g.lastLine + 1) k added).groups =
      inventory.groups ++ [⟨inventory.length, added, []⟩] := by
  have hinventory : (front ++ [g]).flatMap (·.members) = inventory := by
    rw [← hgroups]
    exact flatMap_members_groupsFrom 0 inventory
  have hgrouping : IsGrouping 0 (front ++ [g]) := hgroups ▸ isGrouping_groupsFrom 0 inventory
  have hlast : ∀ m ∈ inventory.getLast?, m.line < g.lastLine + 1 := by
    intro m hm
    obtain ⟨m', hm'⟩ := g.exists_getLast
    rw [← hinventory, List.flatMap_append, List.flatMap_singleton, List.getLast?_append, hm',
      Option.some_or, Option.mem_some_iff] at hm
    rw [IncludeGroup.lastLine_eq hm', hm]
    exact Nat.lt_succ_self _
  have hall : List.Pairwise (·.line < ·.line) (inventory ++ ([] : Inventory)) := by
    rwa [List.append_nil]
  obtain ⟨habove, hbelow⟩ := lines_of_split hall hlast (by simp)
  have hinserted := insertAt_append habove hbelow k added
  rw [List.append_nil] at hinserted
  rw [hinserted, hgroups]
  refine groupsFrom_eq_iff.mpr ⟨?_, IsGrouping.append_iff.mpr ⟨hgrouping, ?_, ?_⟩⟩
  · rw [List.flatMap_append, hinventory]
    rfl
  · refine .cons ?_ (List.isChain_singleton added) (by simp) .nil
    rw [hinventory, Nat.zero_add]
  · intro f hf h hh
    rw [List.getLast?_concat, Option.mem_some_iff] at hf
    obtain rfl := Option.some.inj hh
    rw [← hf]
    exact hadded

end Inventory

end SourceEdit
