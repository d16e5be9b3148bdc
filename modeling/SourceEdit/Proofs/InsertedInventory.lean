import SourceEdit.Proofs.GroupInsertion
import SourceEdit.Proofs.IncludeInsertion

/-!
The inventory of a text with an include more. Where the scan comes down to the chosen line outside
of comments and literals, nothing but the new directive is gained, nothing is lost, and what stood
below moves down by the lines that were put in; the new include is a member of the group that was
chosen for it, or the last group on its own.
-/

set_option autoImplicit false

namespace SourceEdit

namespace Text

theorem line_lineCount_append {above l : Text} (habove : above.StartsLine) (hl : '\n' ∉ l)
    (below : Text) : (above ++ (l ++ '\n' :: below)).line above.lineCount = l := by
  rcases habove with rfl | ⟨a, rfl⟩
  · rw [List.nil_append, lineCount, List.count_nil, line_succ_eq, lines_append, lines_of_not_mem hl]
    rfl
  · have hcount : (a ++ ['\n']).lineCount = a.lineCount + 1 := by
      rw [lineCount, lineCount, List.count_append, List.count_singleton_self]
    rw [hcount, line_succ_eq, List.append_assoc, List.singleton_append, lines_append, lines_append,
      lines_of_not_mem hl, List.getElem?_append_right (Nat.le_of_eq (length_lines a)),
      length_lines, Nat.sub_self]
    rfl

theorem count_ite (p : Prop) [Decidable p] :
    (if p then ['\n'] else [] : Text).count '\n' = (if p then ['\n'] else [] : Text).length := by
  split <;> rfl

theorem strip_ne_nil {t : Text} {c : Char} (hc : c ∈ t) (hblank : isBlank c = false) :
    strip t ≠ [] := by
  have hdrop : ∀ s : Text, c ∈ s → c ∈ s.dropWhile isBlank := by
    intro s hs
    rw [← List.takeWhile_append_dropWhile (p := isBlank) (l := s), List.mem_append] at hs
    refine hs.resolve_left fun htake => ?_
    rw [List.mem_takeWhile_imp htake] at hblank
    contradiction
  refine List.ne_nil_of_mem (a := c) ?_
  rw [strip, dropEndWhile, List.mem_reverse]
  exact hdrop _ (List.mem_reverse.mpr (hdrop t hc))

end Text

namespace Inventory

theorem line_lt_of_startsLine {above : Text} (h : above.StartsLine) {l : IncludeLine}
    (hl : l ∈ ofSource above) : l.line < above.lineCount := by
  rcases h with rfl | ⟨a, rfl⟩
  · contradiction
  · rw [ofSource_append_newline, ofSource_eq_ofLines] at hl
    have := (line_of_mem_ofLines hl).2
    rw [Text.length_lines, Text.lineCount] at this
    rw [Text.lineCount, List.count_append, List.count_singleton_self]
    omega

theorem ofLines_separator (p : Prop) [Decidable p] (number : Nat) (t : Text) :
    ofLines .code number (Text.lines ((if p then ['\n'] else []) ++ t)) =
      ofLines .code (number + (if p then ['\n'] else [] : Text).length) (Text.lines t) := by
  split <;> rfl

end Inventory

namespace Include

theorem Sound.ofLines_directive {i : Include} (h : i.Sound) (number : Nat) (below : Text) :
    Inventory.ofLines .code number (Text.lines (i.directive ++ '\n' :: below)) =
      ⟨i, number⟩ :: Inventory.ofLines .code (number + 1) (Text.lines below) := by
  rw [Text.lines_append, Text.lines_of_not_mem h.newline_not_mem_directive, List.singleton_append,
    Inventory.ofLines, h.includeOn?_scan, if_pos h.shownFrom_code, h.scan_directive.2]
  rfl

end Include

namespace Document

/-- The text above a line. A line behind the last one begins behind a newline. -/
def textAbove (d : Document) (line : Nat) : Text :=
  let text := if d.text.lineCount < line then d.text ++ ['\n'] else d.text
  text.take (text.positionOfLine line)

variable {d : Document} {line : Nat}

theorem textAbove_eq (h : d.text.Admits line) :
    d.textAbove line = d.text.take (d.text.positionOfLine line) ++ d.lineStarter line := by
  rcases h.2 with hline | ⟨rfl, hlast⟩
  · rw [textAbove, if_neg (Nat.not_lt.mpr hline), lineStarter,
      if_neg fun hand => Nat.not_lt.mpr hline hand.1, List.append_nil]
  · have hnext : (d.text ++ ['\n']).positionOfLine (d.text.lineCount + 1 : Nat) =
        (d.text ++ ['\n']).length := by
      rw [Text.positionOfLine_succ, Text.lineCount, Text.afterNewlines_count_append,
        List.length_append]
      rfl
    rw [textAbove, if_pos (Nat.lt_succ_self _), hnext, List.take_length,
      Text.positionOfLine_lineCount_succ, List.take_length,
      lineStarter, if_pos ⟨Nat.lt_succ_self _, hlast⟩]

theorem startsLine_textAbove (h : d.text.Admits line) : (d.textAbove line).StartsLine := by
  have habove := d.startsLine_aboveDirective line false
  rw [aboveDirective, separatorAbove, Bool.false_and, Bool.false_and, if_neg Bool.false_ne_true,
    List.append_nil] at habove
  rwa [textAbove_eq h]

theorem lineCount_textAbove (h : d.text.Admits line) : (d.textAbove line).lineCount = line := by
  obtain ⟨n, rfl⟩ : ∃ n, line = n + 1 := ⟨line - 1, by have := h.1; omega⟩
  rw [Text.lineCount, textAbove_eq h, List.count_append, Text.positionOfLine_succ]
  rcases h.2 with hline | ⟨heq, hlast⟩
  · have hn : n ≤ d.text.count '\n' := by rw [Text.lineCount] at hline; omega
    rw [Text.count_take_afterNewlines hn, lineStarter,
      if_neg fun hand => Nat.not_lt.mpr hline hand.1]
    rfl
  · have hn : d.text.count '\n' < n := by rw [Text.lineCount] at heq; omega
    rw [Text.afterNewlines_of_count_lt hn, List.take_length, lineStarter,
      if_pos ⟨by omega, hlast⟩, List.count_singleton_self]
    rw [Text.lineCount] at heq
    omega

theorem inventory_eq (h : d.text.Admits line) :
    d.inventory = Inventory.ofSource (d.textAbove line) ++
      Inventory.ofLines (Comment.modeAfter {} .code [] (d.textAbove line)) line
        (Text.lines (d.text.drop (d.text.positionOfLine line))) := by
  have hsource := Inventory.ofSource_append (startsLine_textAbove h)
    (d.text.drop (d.text.positionOfLine line))
  rw [lineCount_textAbove h] at hsource
  rw [← hsource, inventory, textAbove_eq h]
  by_cases hstarter : d.lineStarter line = []
  · rw [hstarter, List.append_nil, List.take_append_drop]
  · -- the chosen line is behind the last, so nothing stands below
    obtain ⟨rfl, hlast⟩ := h.2.resolve_left fun hline =>
      hstarter (if_neg fun hand => Nat.not_lt.mpr hline hand.1)
    rw [Text.positionOfLine_lineCount_succ, List.take_length, List.drop_length, List.append_nil,
      lineStarter,
      if_pos ⟨Nat.lt_succ_self _, hlast⟩, Inventory.ofSource_append_newline]

theorem lines_of_inventory_eq (h : d.text.Admits line) :
    (∀ l ∈ Inventory.ofSource (d.textAbove line), l.line < line) ∧
      ∀ mode ls, ∀ l ∈ Inventory.ofLines mode line ls, line ≤ l.line := by
  refine ⟨fun l hl => ?_, fun mode ls l hl => (Inventory.line_of_mem_ofLines hl).1⟩
  have := Inventory.line_lt_of_startsLine (startsLine_textAbove h) hl
  rwa [lineCount_textAbove h] at this

theorem count_directiveLines {i : Include} (hsound : i.Sound) (line : Nat) (newGroup : Bool) :
    (d.directiveLines i line newGroup).count '\n' =
      (d.separatorAbove line newGroup).length + 1 + (d.separatorBelow line newGroup).length := by
  rw [directiveLines_eq, List.count_append, List.count_append,
    List.count_eq_zero.mpr hsound.newline_not_mem_directive, List.count_cons_self, separatorAbove,
    separatorBelow, Text.count_ite, Text.count_ite]
  omega

theorem lineCount_aboveDirective (h : d.text.Admits line) (newGroup : Bool) :
    (d.aboveDirective line newGroup).lineCount =
      line + (d.separatorAbove line newGroup).length := by
  rw [aboveDirective, ← textAbove_eq h, Text.lineCount, List.count_append, Nat.add_right_comm,
    ← Text.lineCount, lineCount_textAbove h, separatorAbove, Text.count_ite]

theorem inventory_inserted (h : d.text.Admits line) {i : Include} (hsound : i.Sound)
    {newGroup : Bool} (hcode : Comment.modeAfter {} .code [] (d.textAbove line) = .code)
    {d' : Document} (htext : d'.text = d.aboveDirective line newGroup ++
      (i.directive ++ '\n' :: d.belowDirective line newGroup)) :
    d'.inventory = d.inventory.insertAt line ((d.directiveLines i line newGroup).count '\n')
      ⟨i, (d.aboveDirective line newGroup).lineCount⟩ := by
  obtain ⟨habove, hbelow⟩ := lines_of_inventory_eq h
  rw [lineCount_aboveDirective h, inventory_eq h, Inventory.insertAt_append habove (hbelow _ _),
    inventory, htext, aboveDirective, ← textAbove_eq h, List.append_assoc,
    Inventory.ofSource_append (startsLine_textAbove h), lineCount_textAbove h, hcode,
    separatorAbove, Inventory.ofLines_separator, hsound.ofLines_directive, belowDirective,
    separatorBelow, Inventory.ofLines_separator, ← Inventory.ofLines_add,
    count_directiveLines hsound, separatorAbove, separatorBelow]
  simp only [Nat.add_assoc]

theorem separatorAbove_of_mem {l : IncludeLine} (h : l ∈ d.inventory) :
    d.separatorAbove (l.line + 1) true = ['\n'] := by
  obtain ⟨k, raw, hline, hraw, hmem⟩ := Inventory.exists_line_of_mem h
  have hfilled : isFilled (d.text.line ((k + 1 + 1 : Nat) - 1 : Nat)) = true := by
    rw [Nat.add_sub_cancel, Text.line_succ_eq, hraw]
    simp [isFilled, Text.strip_ne_nil hmem (by decide)]
  rw [separatorAbove, hline, hfilled]
  simp

theorem exists_place {t : Text} {newGroup : Bool}
    (haccepted : (d.insertInclude t newGroup).2 = .ok true) :
    ∃ i line group, Include.parse? t = some i ∧
      d.inventory.place d.text i newGroup = .atLine line group := by
  cases hparse : Include.parse? t with
  | none => simp [insertInclude, hparse] at haccepted
  | some i =>
    cases hplace : d.inventory.place d.text i newGroup with
    | present => simp [insertInclude, hparse, hplace] at haccepted
    | atLine line group => exact ⟨i, line, group, rfl, hplace⟩

/-- An accepted insertion where the scan comes down to the chosen line outside of comments and
literals. The new text has the includes of the old one and the new include, which is read in the
line of its directive; what stood at the chosen line or below is further down by as many lines as
were put in. Among groups it joins the one that was chosen for it, or it is a new last one. -/
theorem inventory_insertInclude (hclosed : d.block = none) {t : Text} {newGroup : Bool}
    (haccepted : (d.insertInclude t newGroup).2 = .ok true) :
    ∃ i line group, Include.parse? t = some i ∧
      d.inventory.place d.text i newGroup = .atLine line group ∧
      let d' := (d.insertInclude t newGroup).1
      let k := (d.directiveLines i line group).count '\n'
      let added : IncludeLine := ⟨i, (d.aboveDirective line group).lineCount⟩
      d'.text = d.aboveDirective line group ++ (i.directive ++ '\n' :: d.belowDirective line group) ∧
        d'.text.line added.line = i.directive ∧
        (Comment.modeAfter {} .code [] (d.textAbove line) = .code →
          d'.inventory = d.inventory.insertAt line k added ∧
          (newGroup = false → d.inventory ≠ [] → ∃ front g back g',
            d.inventory.groups = front ++ g :: back ∧ d.inventory.bestGroup? i = some g ∧
            d'.inventory.groups = front ++ g' :: back.map (·.shift 1 k) ∧
            g'.first = g.first ∧ g'.members = Inventory.insertAt line k added g.members) ∧
          (newGroup = true → d.inventory ≠ [] →
            d'.inventory.groups = d.inventory.groups ++ [⟨d.inventory.length, added, []⟩])) := by
  obtain ⟨i, line, group, hparse, hplace⟩ := exists_place haccepted
  have hsound := Include.sound_of_parse hparse
  have hadmits := Inventory.admits_place hplace
  obtain ⟨d', hinsert, -, htext⟩ := insertInclude_of_place hclosed hparse hplace
  refine ⟨i, line, group, hparse, hplace, ?_⟩
  rw [hinsert]
  refine ⟨htext, ?_, fun hcode => ?_⟩
  · dsimp only
    rw [htext]
    exact Text.line_lineCount_append (d.startsLine_aboveDirective line group)
      hsound.newline_not_mem_directive _
  have hinventory := inventory_inserted hadmits hsound hcode htext
  refine ⟨hinventory, ?_, ?_⟩
  · rintro rfl hfilled
    obtain ⟨rfl, front, g, back, hgroups, hbest, rfl⟩ := Inventory.place_joined hfilled hplace
    have hline : (d.aboveDirective (g.lineFor i) false).lineCount = g.lineFor i :=
      lineCount_aboveDirective hadmits false
    have hcount : (d.directiveLines i (g.lineFor i) false).count '\n' = 1 :=
      count_directiveLines hsound _ _
    have hadded : (⟨i, g.lineFor i⟩ : IncludeLine).line = g.lineFor i := rfl
    obtain ⟨g', hgroups', hfirst, hmembers⟩ :=
      Inventory.groups_insertAt (Inventory.pairwise_ofSource d.text) hgroups hadded
    rw [hinventory, hcount, hline]
    exact ⟨front, g, back, g', hgroups, hbest, hgroups', hfirst, hmembers⟩
  · rintro rfl hfilled
    obtain ⟨rfl, front, g, hgroups, rfl⟩ := Inventory.place_newGroup hfilled hplace
    obtain ⟨m, hm⟩ := g.exists_getLast
    have hmem : m ∈ d.inventory := Inventory.mem_of_mem_members
      (show g ∈ d.inventory.groups by rw [hgroups]; exact List.mem_append_right _ (.head _))
      (List.mem_of_getLast? hm)
    have hseparator : d.separatorAbove (g.lastLine + 1) true = ['\n'] := by
      rw [IncludeGroup.lastLine_eq hm]
      exact separatorAbove_of_mem hmem
    rw [hinventory]
    refine Inventory.groups_insertAt_last (Inventory.pairwise_ofSource d.text) hgroups ?_ _
    rw [lineCount_aboveDirective hadmits, hseparator]
    exact Nat.succ_ne_self _

def twoGroups : Document :=
  .new .source "/* x */\n#include \"b.h\"\n\n#include <c>\nint y;".toList none

theorem inventory_insertInclude_in_front :
    let inserted := twoGroups.insertInclude "<a>".toList false
    twoGroups.block = none ∧ inserted.2 = .ok true ∧
      inserted.1.text.line 4 = "#include <a>".toList ∧ inserted.1.inventory.groups =
        [⟨0, ⟨⟨['b', '.', 'h'], .quoted⟩, 2⟩, []⟩,
          ⟨1, ⟨⟨['a'], .angled⟩, 4⟩, [⟨⟨['c'], .angled⟩, 5⟩]⟩] := by
  have haccepted : (twoGroups.insertInclude "<a>".toList false).2 = .ok true := by decide +kernel
  refine ⟨rfl, haccepted, ?_⟩
  obtain ⟨i, line, group, hparse, hplace, -, hdirective, hcode⟩ :=
    inventory_insertInclude (d := twoGroups) rfl haccepted
  have hname : Include.parse? "<a>".toList = some ⟨['a'], .angled⟩ := by decide
  rw [hname] at hparse
  obtain rfl := Option.some.inj hparse
  have hchosen : twoGroups.inventory.place twoGroups.text ⟨['a'], .angled⟩ false = .atLine 4 false := by
    decide +kernel
  rw [hchosen] at hplace
  obtain ⟨rfl, rfl⟩ := Placement.atLine.inj hplace
  obtain ⟨hinventory, -, -⟩ := hcode (by decide +kernel)
  have hline : (twoGroups.aboveDirective 4 false).lineCount = 4 := by decide +kernel
  rw [hline] at hdirective hinventory
  refine ⟨hdirective, ?_⟩
  rw [hinventory]
  decide +kernel

end Document

end SourceEdit
