import Mathlib.Data.Char
import Mathlib.Data.List.Lex
import Mathlib.Data.Prod.Lex
import SourceEdit.Proofs.GroupFields
import SourceEdit.Proofs.GroupInsertion
import SourceEdit.Proofs.IncludeInsertion

set_option autoImplicit false

namespace SourceEdit

namespace Text

theorem le_iff {s t : Text} : le s t = true ↔ s ≤ t := by
  rw [← not_lt]
  induction s generalizing t with
  | nil => exact iff_of_true rfl (List.not_lt_nil t)
  | cons a s ih =>
    cases t with
    | nil => exact iff_of_false (by simp [le]) (by simp)
    | cons b t =>
      have hlt : a.toNat < b.toNat ↔ a < b := Iff.rfl
      rw [le, List.cons_lt_cons_iff]
      by_cases hab : a = b
      · rw [if_pos hab, ih, hab]
        simp
      · rw [if_neg hab, decide_eq_true_eq, hlt]
        simp [Ne.symm hab, lt_iff_le_and_ne, hab]

theorem pairwise_mergeSort (ts : List Text) : (ts.mergeSort le).Pairwise (· ≤ ·) := by
  have htrans : ∀ s t u : Text, le s t = true → le t u = true → le s u = true := by
    simp only [le_iff]
    exact fun _ _ _ => le_trans
  have htotal : ∀ s t : Text, (le s t || le t s) = true := by
    simp only [Bool.or_eq_true, le_iff]
    exact le_total
  exact (List.pairwise_mergeSort htrans htotal ts).imp le_iff.mp

end Text

namespace Scope

theorem meets_eq (s t : Scope) : s.meets t = decide (s.toNat &&& t.toNat ≠ 0) := by
  obtain ⟨a, b⟩ := s
  obtain ⟨c, d⟩ := t
  revert a b c d
  decide

end Scope

namespace IncludeGroup

def sharedLeading (a b : List Text) : Nat := ((a.zip b).takeWhile fun p => p.1 = p.2).length

/-- How well a group suits an include: whether it holds includes of its quoting counts first, then how
many of the leading directories of its name are those of the group. -/
def fit (i : Include) (g : IncludeGroup) : Nat ×ₗ Nat :=
  toLex (if g.scope.toNat &&& (Scope.ofQuoting i.quoting).toNat ≠ 0 then 1 else 0,
    sharedLeading (directories i.name) (directories g.commonPath))

/-- The first of the groups that suit the include best. -/
def IsFirstBest (i : Include) (groups : List IncludeGroup) (g : IncludeGroup) : Prop :=
  ∃ front back, groups = front ++ g :: back ∧ (∀ f ∈ front, f.fit i < g.fit i) ∧
    ∀ b ∈ back, b.fit i ≤ g.fit i

theorem length_common (a b : List Text) : (common a b).length = sharedLeading a b := by
  induction a generalizing b with
  | nil => rfl
  | cons x a ih =>
    cases b with
    | nil => rfl
    | cons y b =>
      rw [common, sharedLeading, List.zip_cons_cons]
      by_cases hxy : x = y
      · rw [if_pos hxy, List.length_cons, ih, List.takeWhile_cons_of_pos (by simpa using hxy)]
        rfl
      · rw [if_neg hxy, List.takeWhile_cons_of_neg (by simpa using hxy)]
        rfl

theorem toLex_score (g : IncludeGroup) (i : Include) : toLex (g.score i) = g.fit i := by
  rw [score, fit, Scope.meets_eq, length_common, directories_commonPath]
  split <;> simp_all

theorem isBelow_iff {a b : Nat × Nat} : isBelow a b = true ↔ toLex a < toLex b := by
  simp [isBelow, Prod.Lex.toLex_lt_toLex]

theorem best_concat (i : Include) (g h : IncludeGroup) (gs : List IncludeGroup) :
    best i g (gs ++ [h]) = if (best i g gs).fit i < h.fit i then h else best i g gs := by
  rw [best, List.foldl_append, List.foldl_cons, List.foldl_nil, ← best, ← toLex_score, ← toLex_score]
  exact if_congr isBelow_iff rfl rfl

theorem isFirstBest_best (i : Include) (g : IncludeGroup) (gs : List IncludeGroup) :
    IsFirstBest i (g :: gs) (best i g gs) := by
  induction gs using List.reverseRec with
  | nil => exact ⟨[], [], rfl, by simp, by simp⟩
  | append_singleton gs h ih =>
    obtain ⟨front, back, hsplit, hfront, hback⟩ := ih
    rw [best_concat, ← List.cons_append, hsplit]
    split
    · next hbetter =>
      refine ⟨front ++ best i g gs :: back, [], rfl, fun f hf => ?_, by simp⟩
      rcases List.mem_append.mp hf with hf | hf
      · exact (hfront f hf).trans hbetter
      · rcases List.mem_cons.mp hf with rfl | hf
        · exact hbetter
        · exact (hback f hf).trans_lt hbetter
    · next hworse =>
      refine ⟨front, back ++ [h], by simp, hfront, fun b hb => ?_⟩
      rcases List.mem_append.mp hb with hb | hb
      · exact hback b hb
      · rw [List.mem_singleton.mp hb]
        exact not_lt.mp hworse

theorem isSorted_iff {ts : List Text} : isSorted ts = true ↔ ts.Pairwise (· ≤ ·) := by
  rw [← List.isChain_iff_pairwise]
  fun_induction isSorted ts with
  | case1 a b rest ih => rw [Bool.and_eq_true, Text.le_iff, ih, List.isChain_cons_cons]
  | case2 ts hshort =>
    refine iff_of_true rfl ?_
    match ts with
    | [] => exact .nil
    | [t] => exact .singleton t
    | a :: b :: rest => exact absurd rfl (hshort a b rest)

variable {g : IncludeGroup}

theorem pairwise_lines (hrun : g.IsRun) : g.members.Pairwise (·.line < ·.line) := by
  have hnext : g.members.IsChain (·.line < ·.line) :=
    List.IsChain.imp (fun _ _ hfollows => Nat.lt_of_succ_le (Nat.le_of_eq hfollows.symm)) hrun
  exact List.isChain_iff_pairwise.mp hnext

theorem line_bounds (hrun : g.IsRun) {m : IncludeLine} (hm : m ∈ g.members) :
    g.firstLine ≤ m.line ∧ m.line ≤ g.lastLine := by
  have hsorted := pairwise_lines hrun
  constructor
  · rcases List.mem_cons.mp hm with rfl | htail
    · exact Nat.le_refl _
    · exact Nat.le_of_lt ((List.pairwise_cons.mp hsorted).1 m htail)
  · obtain ⟨last, hlast⟩ := g.exists_getLast
    obtain ⟨before, hmembers⟩ := List.getLast?_eq_some_iff.mp hlast
    rw [lastLine_eq hlast]
    rw [hmembers] at hsorted hm
    rcases List.mem_append.mp hm with hbefore | hself
    · exact Nat.le_of_lt
        ((List.pairwise_append.mp hsorted).2.2 m hbefore last (List.mem_singleton.mpr rfl))
    · rw [List.mem_singleton.mp hself]

theorem lineFor_bounds (hrun : g.IsRun) (i : Include) :
    g.firstLine ≤ g.lineFor i ∧ g.lineFor i ≤ g.lastLine + 1 := by
  obtain ⟨us, vs, hsplit, hline, -⟩ := g.exists_cut i
  rw [hline]
  cases vs with
  | nil =>
    have := line_bounds hrun (List.mem_cons_self : g.head ∈ g.members)
    simp only [List.head?_nil, Option.map_none, Option.getD_none]
    omega
  | cons v vs =>
    have hv : v ∈ g.members := by simp [hsplit]
    have := line_bounds hrun hv
    simp only [List.head?_cons, Option.map_some, Option.getD_some]
    omega

theorem lineFor_of_not_sorted {i : Include} (h : ¬(g.members.map key).Pairwise (· ≤ ·)) :
    g.lineFor i = g.lastLine + 1 := by
  obtain ⟨us, vs, -, hline, -, hunsorted⟩ := g.exists_cut i
  rw [hline, hunsorted (Bool.eq_false_iff.mpr fun hsorted => h (isSorted_iff.mp hsorted))]
  rfl

theorem exists_cut_of_sorted {i : Include} (h : (g.members.map key).Pairwise (· ≤ ·)) :
    ∃ us vs, g.members = us ++ vs ∧
      g.lineFor i = ((vs.head?).map (·.line)).getD (g.lastLine + 1) ∧
      (∀ u ∈ us, key u ≤ Text.lower i.name) ∧ ∀ v ∈ vs, Text.lower i.name < key v := by
  obtain ⟨us, vs, hsplit, hline, hsorted, -⟩ := g.exists_cut i
  obtain ⟨hus, hvs⟩ := hsorted (isSorted_iff.mpr h)
  refine ⟨us, vs, hsplit, hline, fun u hu => Text.le_iff.mp (hus u hu), ?_⟩
  cases vs with
  | nil => simp
  | cons v vs =>
    have hfirst : Text.lower i.name < key v :=
      not_le.mp fun hle => Bool.false_ne_true ((hvs v rfl).symm.trans (Text.le_iff.mpr hle))
    rw [hsplit, List.map_append, List.map_cons] at h
    have hrest := (List.pairwise_cons.mp (List.pairwise_append.mp h).2.1).1
    rw [List.forall_mem_cons]
    exact ⟨hfirst, fun w hw => hfirst.trans_le (hrest _ (List.mem_map_of_mem hw))⟩

theorem sorted_insertAt (hrun : g.IsRun) {i : Include} (h : (g.members.map key).Pairwise (· ≤ ·)) :
    ((Inventory.insertAt (g.lineFor i) 1 ⟨i, g.lineFor i⟩ g.members).map key).Pairwise (· ≤ ·) ∧
      ∀ m ∈ g.members, key m = Text.lower i.name → m.line < g.lineFor i := by
  obtain ⟨us, vs, hsplit, hline, hus, hvs⟩ := exists_cut_of_sorted (i := i) h
  obtain ⟨hbefore, hbehind⟩ := lines_of_cut hrun hsplit hline
  have hlines := pairwise_lines hrun
  rw [hsplit] at h hlines ⊢
  obtain ⟨habove, hbelow⟩ := Inventory.lines_of_split hlines
    (fun m hm => (hbefore m hm).symm ▸ Nat.lt_succ_self m.line) fun m hm => (hbehind m hm).ge
  constructor
  · have hkeys : (vs.map (·.lower 1)).map key = vs.map key := by
      rw [List.map_map]
      rfl
    rw [Inventory.insertAt_append habove hbelow, List.map_append, List.map_cons, hkeys,
      List.pairwise_append, List.pairwise_cons]
    rw [List.map_append, List.pairwise_append] at h
    obtain ⟨hfront, hback, hacross⟩ := h
    refine ⟨hfront, ⟨?_, hback⟩, ?_⟩
    · rw [List.forall_mem_map]
      exact fun v hv => (hvs v hv).le
    · intro a ha b hb
      rcases List.mem_cons.mp hb with rfl | hb
      · obtain ⟨u, hu, rfl⟩ := List.mem_map.mp ha
        exact hus u hu
      · exact hacross a ha b hb
  · intro m hm heq
    rcases List.mem_append.mp hm with hm | hm
    · exact habove m hm
    · exact absurd heq (hvs m hm).ne'

end IncludeGroup

namespace Inventory

open IncludeGroup (IsFirstBest key)

theorem isFirstBest_of_bestGroup? {inventory : Inventory} {i : Include} {g : IncludeGroup}
    (h : inventory.bestGroup? i = some g) : IsFirstBest i inventory.groups g := by
  unfold bestGroup? at h
  split at h
  · contradiction
  · next first rest hgroups =>
    obtain rfl := Option.some.inj h
    rw [hgroups]
    exact IncludeGroup.isFirstBest_best i first rest

/-- For every source with includes and every include of a name that is not among them: the group it
joins is the first of those that suit it best, and its line is one of this group or the next behind
it. In a group whose lower-cased names do not descend they do not with the include at that line, which
is behind all members of an equal key; in any other group it is the line behind the group. -/
theorem place_in_first_best {source : Text} (hfilled : ofSource source ≠ []) {i : Include}
    (hnew : (ofSource source).find? i.name = none) :
    ∃ g line last, (ofSource source).bestGroup? i = some g ∧
      IsFirstBest i (ofSource source).groups g ∧
      (ofSource source).place source i false = .atLine line false ∧
      g.lastContentLine? source = some last ∧ g.firstLine ≤ line ∧ line ≤ last + 1 ∧
      ((g.members.map key).Pairwise (· ≤ ·) →
        ((insertAt line 1 ⟨i, line⟩ g.members).map key).Pairwise (· ≤ ·) ∧
          ∀ m ∈ g.members, key m = Text.lower i.name → m.line < line) ∧
      (¬(g.members.map key).Pairwise (· ≤ ·) → line = last + 1) := by
  obtain ⟨line, group, hplace⟩ := exists_place hnew source false
  obtain ⟨rfl, front, g, back, hgroups, hbest, rfl⟩ := place_joined hfilled hplace
  have hg : g ∈ (ofSource source).groups := by simp [hgroups]
  have hrun := (isGrouping_groupsFrom 0 _).isRun_of_mem hg
  obtain ⟨hlower, hupper⟩ := IncludeGroup.lineFor_bounds hrun i
  exact ⟨g, g.lineFor i, g.lastLine, hbest, isFirstBest_of_bestGroup? hbest, hplace,
    (describes_of_mem hg).lastContentLine_eq, hlower, hupper,
    fun h => IncludeGroup.sorted_insertAt hrun h, fun h => IncludeGroup.lineFor_of_not_sorted h⟩

def twinGroups : Text :=
  "#include <a>\n\n#include \"B.h\"\n#include \"VEC.h\"\n#include \"z.h\"\n\n#include \"c.h\"".toList

theorem place_in_first_of_twins :
    let i : Include := ⟨"Vec.h".toList, .quoted⟩
    let g : IncludeGroup :=
      ⟨1, ⟨⟨"B.h".toList, .quoted⟩, 3⟩,
        [⟨⟨"VEC.h".toList, .quoted⟩, 4⟩, ⟨⟨"z.h".toList, .quoted⟩, 5⟩]⟩
    ofSource twinGroups ≠ [] ∧ (ofSource twinGroups).find? i.name = none ∧
      (g.members.map key).Pairwise (· ≤ ·) ∧ IsFirstBest i (ofSource twinGroups).groups g ∧
      (ofSource twinGroups).place twinGroups i false = .atLine 5 false ∧
      ((insertAt 5 1 ⟨i, 5⟩ g.members).map key).Pairwise (· ≤ ·) := by
  intro i g
  have hfilled : ofSource twinGroups ≠ [] := by decide +kernel
  have hnew : (ofSource twinGroups).find? i.name = none := by decide +kernel
  have hkeys : (g.members.map key).Pairwise (· ≤ ·) :=
    IncludeGroup.isSorted_iff.mp (by decide +kernel)
  have hchosen : (ofSource twinGroups).bestGroup? i = some g := by decide +kernel
  have hline : (ofSource twinGroups).place twinGroups i false = .atLine 5 false := by
    decide +kernel
  obtain ⟨g', line, last, hbest, hfirst, hplace, -, -, -, hsorted, -⟩ :=
    place_in_first_best hfilled hnew
  obtain rfl := Option.some.inj (hchosen.symm.trans hbest)
  obtain ⟨rfl, -⟩ := Placement.atLine.inj (hline.symm.trans hplace)
  exact ⟨hfilled, hnew, hkeys, hfirst, hline, (hsorted hkeys).1⟩

end Inventory

end SourceEdit
