import SourceEdit.Include.Placement
import SourceEdit.Proofs.DirectiveSpans
import SourceEdit.Proofs.IncludeDirective
import SourceEdit.Proofs.IncludeGroups
import SourceEdit.Proofs.IncludeSearch

set_option autoImplicit false

namespace SourceEdit

namespace Text

/-- A line can begin here: there is one, or the last one has text in it and this is the next. -/
def Admits (t : Text) (number : Nat) : Prop :=
  1 ≤ number ∧ (number ≤ t.lineCount ∨ number = t.lineCount + 1 ∧ t.getLast? ≠ some '\n')

theorem getLast?_of_getLast?_lines {t l : Text} (h : (lines t).getLast? = some l) (hl : l ≠ []) :
    t.getLast? ≠ some '\n' := by
  intro hlast
  obtain ⟨a, rfl⟩ := List.getLast?_eq_some_iff.mp hlast
  rw [lines_append, lines_of_not_mem (List.not_mem_nil), List.getLast?_concat] at h
  exact hl (Option.some.inj h).symm

theorem admits_below {t l : Text} {k : Nat} (h : (lines t)[k]? = some l) (hl : l ≠ []) :
    t.Admits (k + 2) := by
  have hk : k < (lines t).length := (List.getElem?_eq_some_iff.mp h).1
  rw [length_lines] at hk
  refine ⟨by omega, ?_⟩
  by_cases hlast : k + 2 ≤ t.lineCount
  · exact .inl hlast
  · refine .inr ⟨by omega, getLast?_of_getLast?_lines ?_ hl⟩
    rw [List.getLast?_eq_getElem?, length_lines, ← h]
    congr 1
    omega

theorem admits_line {t : Text} {k : Nat} (h : k < t.lineCount) : t.Admits (k + 1) :=
  ⟨by omega, .inl (by omega)⟩

end Text

namespace Directive

theorem IncludeAt.numberSign_mem {line : Text} {s : Span} (h : IncludeAt line s) : '#' ∈ line := by
  cases h with
  | mk hopening _ =>
    cases hopening with
    | mk => simp

end Directive

namespace Text

theorem admits_of_scan {mode : Comment.Mode} {t : Text} {k : Nat} {l : Text}
    (h : (lines (Comment.scan {} mode [] t))[k]? = some l) (hl : l ≠ []) : t.Admits (k + 2) := by
  have hlength := congrArg (·[k]?) (Inventory.length_lines_scan mode t)
  simp only [List.getElem?_map, h, Option.map_some] at hlength
  obtain ⟨raw, hraw, hlength⟩ := Option.map_eq_some_iff.mp hlength.symm
  refine admits_below hraw fun hnil => hl ?_
  rw [hnil, List.length_nil] at hlength
  exact List.length_eq_zero_iff.mp hlength.symm

theorem admits_capture {source : Text} {name : Text} {l : Nat × Text} {s : Span}
    (hl : l ∈ Directive.placed (Comment.blankOut source)) (hne : l.2 ≠ [])
    (hstop : s.stop ≤ l.2.length) :
    source.Admits ((Query.capture (.ofText (Comment.blankOut source)) source name
      (Directive.shift l.1 s)).endLine + 2) := by
  obtain ⟨k, hk⟩ := Directive.exists_isLine_of_mem_placed hl
  have hend : (Query.capture (.ofText (Comment.blankOut source)) source name
      (Directive.shift l.1 s)).endLine = k := by
    simp only [Query.capture, Directive.shift, LineIndex.lineCol_line, hk.2, count_take_line hk.1 hstop]
    rfl
  rw [hend]
  exact admits_of_scan hk.1 hne

end Text

namespace Placement

theorem leadingCommentLines_eq (scan : CommentScan) (done index : Nat) (ls : List Text) :
    leadingCommentLines scan done index ls = done ∨ ∃ k l, ls[k]? = some l ∧ l ≠ [] ∧
      leadingCommentLines scan done index ls = index + k + 1 := by
  induction ls generalizing scan done index with
  | nil => exact .inl (by cases scan <;> rfl)
  | cons l ls ih =>
    have keep : ∀ scan' n, n = leadingCommentLines scan' done (index + 1) ls →
        n = done ∨ ∃ k l', (l :: ls)[k]? = some l' ∧ l' ≠ [] ∧ n = index + k + 1 := by
      rintro scan' _ rfl
      refine (ih scan' done (index + 1)).imp_right ?_
      rintro ⟨k, l', hk, hl', heq⟩
      exact ⟨k + 1, l', hk, hl', by omega⟩
    have extend : ∀ n, l ≠ [] → n = leadingCommentLines .outside (index + 1) (index + 1) ls →
        n = done ∨ ∃ k l', (l :: ls)[k]? = some l' ∧ l' ≠ [] ∧ n = index + k + 1 := by
      rintro _ hl rfl
      rcases ih .outside (index + 1) (index + 1) with heq | ⟨k, l', hk, hl', heq⟩
      · exact .inr ⟨0, l, rfl, hl, by omega⟩
      · exact .inr ⟨k + 1, l', hk, hl', by omega⟩
    have hempty : Text.strip [] = [] := rfl
    cases scan with
    | inside =>
      rw [leadingCommentLines]
      split
      · exact keep _ _ rfl
      · split
        · next hend =>
          refine extend _ (fun hl => ?_) rfl
          rw [hl, hempty] at hend
          contradiction
        · exact .inl rfl
    | outside =>
      rw [leadingCommentLines]
      split
      · next hstart =>
        split
        · exact keep _ _ rfl
        · split
          · refine extend _ (fun hl => ?_) rfl
            rw [hl, hempty] at hstart
            contradiction
          · exact .inl rfl
      · split
        · next hstart =>
          refine extend _ (fun hl => ?_) rfl
          rw [hl, hempty] at hstart
          contradiction
        · split
          · exact keep _ _ rfl
          · exact .inl rfl

theorem admits_firstInclude {source : Text} {line : Nat} {group : Bool}
    (h : firstInclude source = .atLine line group) : source.Admits line := by
  unfold firstInclude at h
  split at h
  · next c rest hrun =>
    obtain ⟨rfl, -⟩ := atLine.inj h
    have hc : c ∈ Query.pragmaOnce.run source := hrun ▸ List.mem_cons_self
    simp only [Query.run, Query.spans, Directive.onces, Directive.onEachLine, List.mem_map,
      List.mem_filterMap, Option.map_eq_some_iff] at hc
    obtain ⟨_, ⟨_, ⟨l, hl, s, hs, rfl⟩, rfl⟩, rfl⟩ := hc
    obtain ⟨hstart, hstop⟩ := Directive.pragmaOnce?_bounds hs
    have hne : l.2 ≠ [] := List.ne_nil_of_length_pos (by omega)
    exact Text.admits_capture hl hne hstop
  · split at h
    · next c hfind =>
      obtain ⟨rfl, -⟩ := atLine.inj h
      have hname := List.find?_some hfind
      have hc := List.mem_of_find?_eq_some hfind
      simp only [Query.run, Query.spans, Directive.headerGuards, List.mem_map, List.mem_flatMap,
        List.mem_cons, List.not_mem_nil, or_false] at hc
      obtain ⟨_, ⟨⟨name, value⟩, hmem, hspan⟩, rfl⟩ := hc
      rcases hspan with rfl | rfl
      · exact absurd hname (by simp [Query.capture])
      · obtain ⟨l, hl, word, s, hs, hvalue⟩ := Directive.exists_definedName_of_mem_guards hmem
        dsimp only at hvalue
        rw [hvalue]
        obtain ⟨hne, -, hstop⟩ := Directive.definedName?_bounds hs
        exact Text.admits_capture hl hne hstop
    · obtain ⟨rfl, -⟩ := atLine.inj h
      rcases leadingCommentLines_eq .outside 0 0 (Text.lines source) with heq | ⟨k, l, hk, hl, heq⟩
      · rw [heq]
        exact Text.admits_line (Nat.succ_pos _)
      · rw [heq, Nat.zero_add]
        exact Text.admits_below hk hl

end Placement

namespace IncludeGroup

theorem exists_getLast (g : IncludeGroup) : ∃ m, g.members.getLast? = some m :=
  ⟨_, List.getLast?_eq_some_getLast (List.cons_ne_nil g.head g.tail)⟩

theorem lastLine_eq {g : IncludeGroup} {m : IncludeLine} (h : g.members.getLast? = some m) :
    g.lastLine = m.line := by
  rw [members, List.getLast?_cons, Option.some.injEq] at h
  rw [lastLine, h]

theorem exists_cut (g : IncludeGroup) (i : Include) : ∃ us vs, g.members = us ++ vs ∧
    g.lineFor i = ((vs.head?).map (·.line)).getD (g.lastLine + 1) ∧
    (isSorted (g.members.map key) = true →
      (∀ u ∈ us, Text.le (key u) (Text.lower i.name) = true) ∧
        ∀ v ∈ vs.head?, Text.le (key v) (Text.lower i.name) = false) ∧
    (isSorted (g.members.map key) = false → vs = []) := by
  cases hsorted : isSorted (g.members.map key) with
  | false =>
    exact ⟨g.members, [], (List.append_nil _).symm, by simp [lineFor, hsorted], by simp, by simp⟩
  | true =>
    cases hgreater : g.members.find? fun m => !Text.le (key m) (Text.lower i.name) with
    | none =>
      refine ⟨g.members, [], (List.append_nil _).symm, by simp [lineFor, hsorted, hgreater], ?_,
        by simp⟩
      rw [List.find?_eq_none] at hgreater
      exact fun _ => ⟨fun u hu => by simpa using hgreater u hu, by simp⟩
    | some m =>
      have hline : g.lineFor i = m.line := by simp [lineFor, hsorted, hgreater]
      obtain ⟨hm, us, vs, hsplit, hus⟩ := List.find?_eq_some_iff_append.mp hgreater
      refine ⟨us, m :: vs, hsplit, hline, fun _ => ⟨fun u hu => by simpa using hus u hu, ?_⟩, by simp⟩
      intro v hv
      obtain rfl := Option.some.inj hv
      simpa using hm

theorem lines_of_cut {g : IncludeGroup} (hrun : g.IsRun) {us vs : List IncludeLine}
    (hsplit : g.members = us ++ vs) {line : Nat}
    (hline : line = ((vs.head?).map (·.line)).getD (g.lastLine + 1)) :
    (∀ m ∈ us.getLast?, line = m.line + 1) ∧ ∀ m ∈ vs.head?, m.line = line := by
  cases vs with
  | nil =>
    refine ⟨fun m hm => ?_, by simp⟩
    rw [← List.append_nil us, ← hsplit] at hm
    rw [hline, ← lastLine_eq hm]
    rfl
  | cons v vs =>
    refine ⟨fun m hm => ?_, fun m hm => ?_⟩
    · rw [IsRun, hsplit] at hrun
      exact hline.trans ((List.isChain_append.mp hrun).2.2 m hm v rfl)
    · obtain rfl := Option.some.inj hm
      exact hline.symm

theorem exists_split_lineFor {g : IncludeGroup} (hrun : g.IsRun) (i : Include) :
    ∃ us vs, g.members = us ++ vs ∧ (∀ m ∈ us.getLast?, g.lineFor i = m.line + 1) ∧
      ∀ m ∈ vs.head?, m.line = g.lineFor i := by
  obtain ⟨us, vs, hsplit, hline, -⟩ := g.exists_cut i
  exact ⟨us, vs, hsplit, lines_of_cut hrun hsplit hline⟩

theorem best_mem (i : Include) (g : IncludeGroup) (gs : List IncludeGroup) :
    best i g gs ∈ g :: gs := by
  induction gs generalizing g with
  | nil => exact List.mem_singleton.mpr rfl
  | cons h gs ih =>
    rw [best, List.foldl_cons]
    split
    · exact .tail _ (ih h)
    · rcases List.mem_cons.mp (ih g) with heq | hmem
      · exact List.mem_cons.mpr (.inl heq)
      · exact .tail _ (.tail _ hmem)

end IncludeGroup

namespace Inventory

theorem exists_line_of_mem_ofLines {mode : Comment.Mode} {number : Nat} {ls : List Text}
    {l : IncludeLine} (h : l ∈ ofLines mode number ls) :
    ∃ k raw mode', l.line = number + k ∧ ls[k]? = some raw ∧
      includeOn? raw (Comment.scan {} mode' [] raw) = some l.item := by
  induction ls generalizing mode number with
  | nil => simp [ofLines] at h
  | cons raw ls ih =>
    rcases mem_ofLines_cons.mp h with ⟨rfl, hitem⟩ | h
    · exact ⟨0, raw, mode, rfl, rfl, hitem⟩
    · obtain ⟨k, raw', mode', hline, hk, hitem⟩ := ih h
      exact ⟨k + 1, raw', mode', by omega, hk, hitem⟩

theorem exists_line_of_mem {source : Text} {l : IncludeLine} (h : l ∈ ofSource source) :
    ∃ k raw, l.line = k + 1 ∧ (Text.lines source)[k]? = some raw ∧ '#' ∈ raw := by
  rw [ofSource_eq_ofLines] at h
  obtain ⟨k, raw, mode, hline, hk, hitem⟩ := exists_line_of_mem_ofLines h
  obtain ⟨s, hat, -⟩ := includeOn?_eq_some_iff.mp hitem
  refine ⟨k, raw, by omega, hk, ?_⟩
  obtain ⟨j, hj⟩ := List.mem_iff_getElem?.mp hat.numberSign_mem
  rcases Comment.getElem?_scan hj with hraw | hblank
  · exact List.mem_of_getElem? hraw
  · exact absurd hblank (by decide)

theorem admits_of_mem {source : Text} {l : IncludeLine} (h : l ∈ ofSource source) :
    source.Admits l.line ∧ source.Admits (l.line + 1) := by
  obtain ⟨k, raw, hline, hk, hmem⟩ := exists_line_of_mem h
  have hlt := (List.getElem?_eq_some_iff.mp hk).1
  rw [Text.length_lines] at hlt
  rw [hline]
  exact ⟨Text.admits_line hlt, Text.admits_below hk (List.ne_nil_of_mem hmem)⟩

theorem mem_of_mem_members {inventory : Inventory} {g : IncludeGroup} (hg : g ∈ inventory.groups)
    {m : IncludeLine} (hm : m ∈ g.members) : m ∈ inventory := by
  rw [← flatMap_members_groupsFrom 0 inventory]
  exact List.mem_flatMap.mpr ⟨g, hg, hm⟩

theorem groups_ne_nil {inventory : Inventory} (h : inventory ≠ []) : inventory.groups ≠ [] := by
  intro hnil
  refine h ?_
  rw [← flatMap_members_groupsFrom 0 inventory]
  exact congrArg (·.flatMap IncludeGroup.members) hnil

theorem place_first {source : Text} {i : Include} {newGroup group : Bool} {line : Nat}
    (h : place [] source i newGroup = .atLine line group) :
    Placement.firstInclude source = .atLine line group := h

theorem place_newGroup {inventory : Inventory} {source : Text} {i : Include} {group : Bool}
    {line : Nat} (hfilled : inventory ≠ [])
    (h : inventory.place source i true = .atLine line group) :
    group = true ∧ ∃ front g, inventory.groups = front ++ [g] ∧ line = g.lastLine + 1 := by
  unfold place at h
  split at h
  · contradiction
  · split at h
    · next hnil => exact absurd hnil (groups_ne_nil hfilled)
    · next g gs hgroups =>
      obtain ⟨hline, hgroup⟩ := Placement.atLine.inj h
      refine ⟨hgroup.symm, (g :: gs).dropLast, (gs.getLast?).getD g, ?_, hline.symm⟩
      rw [hgroups]
      exact (List.dropLast_append_getLast? _ (by rw [List.getLast?_cons]; exact rfl)).symm

theorem place_joined {inventory : Inventory} {source : Text} {i : Include} {group : Bool}
    {line : Nat} (hfilled : inventory ≠ [])
    (h : inventory.place source i false = .atLine line group) :
    group = false ∧ ∃ front g back, inventory.groups = front ++ g :: back ∧
      inventory.bestGroup? i = some g ∧ line = g.lineFor i := by
  unfold place at h
  split at h
  · contradiction
  · split at h
    · next hnil => exact absurd hnil (groups_ne_nil hfilled)
    · next g gs hgroups =>
      obtain ⟨hline, hgroup⟩ := Placement.atLine.inj h
      obtain ⟨front, back, hsplit⟩ := List.append_of_mem (IncludeGroup.best_mem i g gs)
      refine ⟨hgroup.symm, front, _, back, hgroups.trans hsplit, ?_, hline.symm⟩
      rw [bestGroup?, hgroups]

theorem admits_place {source : Text} {i : Include} {newGroup group : Bool} {line : Nat}
    (h : (ofSource source).place source i newGroup = .atLine line group) : source.Admits line := by
  have hmember : ∀ g ∈ (ofSource source).groups, ∀ m ∈ g.members,
      source.Admits m.line ∧ source.Admits (m.line + 1) :=
    fun g hg m hm => admits_of_mem (mem_of_mem_members hg hm)
  by_cases hfilled : ofSource source = []
  · rw [hfilled] at h
    exact Placement.admits_firstInclude (place_first h)
  · cases newGroup with
    | true =>
      obtain ⟨-, front, g, hgroups, rfl⟩ := place_newGroup hfilled h
      obtain ⟨m, hm⟩ := g.exists_getLast
      rw [IncludeGroup.lastLine_eq hm]
      exact (hmember g (by simp [hgroups]) m (List.mem_of_getLast? hm)).2
    | false =>
      obtain ⟨-, front, g, back, hgroups, -, rfl⟩ := place_joined hfilled h
      have hg : g ∈ (ofSource source).groups := by simp [hgroups]
      obtain ⟨us, vs, hsplit, hus, hvs⟩ :=
        g.exists_split_lineFor ((isGrouping_groupsFrom 0 _).isRun_of_mem hg) i
      have hmem : ∀ m ∈ us ++ vs, m ∈ g.members := fun m hm => hsplit ▸ hm
      cases vs with
      | cons m vs =>
        rw [← hvs m rfl]
        exact (hmember g hg m (hmem m (by simp))).1
      | nil =>
        obtain ⟨m, hm⟩ := g.exists_getLast
        rw [hsplit, List.append_nil] at hm
        rw [hus m hm]
        exact (hmember g hg m (hmem m (by simp [List.mem_of_getLast? hm]))).2

end Inventory

end SourceEdit
