import SourceEdit.Proofs.IncludeRemoval

set_option autoImplicit false

namespace SourceEdit

namespace Text

theorem StartsLine.positionOfLine {above : Text} (h : above.StartsLine) (below : Text) :
    (above ++ below).positionOfLine above.lineCount = above.length := by
  rw [lineCount, positionOfLine_succ]
  rcases h with rfl | ⟨a, rfl⟩
  · exact afterNewlines_zero _
  · rw [List.count_append, List.count_singleton_self, List.append_assoc, List.singleton_append,
      afterNewlines_count_append, List.length_append]
    rfl

theorem StartsLine.without_line {above l : Text} (habove : above.StartsLine) (hl : '\n' ∉ l)
    (below : Text) {t : Text} (ht : t = above ++ (l ++ '\n' :: below)) :
    t.take (t.positionOfLine above.lineCount) ++
      t.drop (t.positionOfLine (above.lineCount + 1 : Nat)) = above ++ below := by
  have hnext : t = (above ++ (l ++ ['\n'])) ++ below := by simp [ht]
  have hstarts : (above ++ (l ++ ['\n'])).StartsLine := habove.append (.inr ⟨l, rfl⟩)
  have hcount : (above ++ (l ++ ['\n'])).lineCount = above.lineCount + 1 := by
    rw [lineCount, lineCount, List.count_append, List.count_append, List.count_eq_zero.mpr hl,
      List.count_singleton_self]
  have hfirst : t.take (t.positionOfLine above.lineCount) = above := by
    rw [ht, habove.positionOfLine, List.take_left]
  have hsecond : t.drop (t.positionOfLine (above.lineCount + 1 : Nat)) = below := by
    rw [← hcount, hnext, hstarts.positionOfLine, List.drop_left]
  rw [hfirst, hsecond]

end Text

namespace Inventory

theorem find?_insertAt {inventory : Inventory} {added : IncludeLine}
    (hnew : inventory.find? added.item.name = none) (line k : Nat) :
    (inventory.insertAt line k added).find? added.item.name = some added := by
  rw [find?, List.find?_eq_none] at hnew
  have habove : (inventory.filter (·.line < line)).find? (·.item.name = added.item.name) = none :=
    List.find?_eq_none.mpr fun l hl => hnew l (List.mem_of_mem_filter hl)
  rw [find?, insertAt, List.find?_append, habove, Option.none_or, List.find?_cons_of_pos (by simp)]

end Inventory

namespace Document

variable {d : Document}

/-- For every text with an include, and every include of a name that is not in its inventory: if the
chosen line is one of the text and the scan comes down to it outside of comments and literals, the
include can be put in and taken out again, and the text is as before. -/
theorem removeInclude_insertInclude (hclosed : d.block = none) (hfilled : d.inventory ≠ [])
    {t : Text} {i : Include} (hparse : Include.parse? t = some i)
    (hnew : d.inventory.find? i.name = none) :
    ∃ line, d.inventory.place d.text i false = .atLine line false ∧
      (line ≤ d.text.lineCount →
        Comment.modeAfter {} .code [] (d.text.take (d.text.positionOfLine line)) = .code →
        let inserted := d.insertInclude t false
        let removed := inserted.1.removeInclude t
        inserted.2 = .ok true ∧ removed.2 = .ok true ∧ removed.1.text = d.text) := by
  obtain ⟨line, group, hplace⟩ := Inventory.exists_place hnew d.text false
  obtain ⟨rfl, -⟩ := Inventory.place_joined hfilled hplace
  refine ⟨line, hplace, fun hline hcode => ?_⟩
  have hadmits := Inventory.admits_place hplace
  have hsound := Include.sound_of_parse hparse
  have hstarter : d.lineStarter line = [] := if_neg fun hand => Nat.not_lt.mpr hline hand.1
  have habove : d.aboveDirective line false = d.text.take (d.text.positionOfLine line) := by
    rw [aboveDirective, hstarter, List.append_nil]
    exact List.append_nil _
  obtain ⟨inserted, hinsert, hblock, htext⟩ := insertInclude_of_place hclosed hparse hplace
  have hmode : Comment.modeAfter {} .code [] (d.textAbove line) = .code := by
    rw [textAbove_eq hadmits, hstarter, List.append_nil, hcode]
  have hfind : inserted.inventory.find? i.name =
      some ⟨i, (d.aboveDirective line false).lineCount⟩ := by
    rw [inventory_inserted hadmits hsound hmode htext]
    exact Inventory.find?_insertAt hnew _ _
  obtain ⟨removed, hremove, -, hremoved⟩ := removeInclude_of_find hblock hparse hfind
  have hback : removed.text = d.text := by
    rw [hremoved, (d.startsLine_aboveDirective line false).without_line
      hsound.newline_not_mem_directive _ htext, habove]
    exact List.take_append_drop _ _
  rw [hinsert]
  dsimp only
  rw [hremove]
  exact ⟨rfl, rfl, hback⟩

def commentedGroup : Document :=
  .new .source "/* x\ny */\n#include <a>\n#include <c>\nint z;".toList none

theorem removeInclude_insertInclude_in_group :
    let inserted := commentedGroup.insertInclude "<B>".toList false
    let removed := inserted.1.removeInclude "<B>".toList
    commentedGroup.block = none ∧ commentedGroup.inventory ≠ [] ∧
      commentedGroup.inventory.find? ['B'] = none ∧
      inserted.1.text = "/* x\ny */\n#include <a>\n#include <B>\n#include <c>\nint z;".toList ∧
      removed.2 = .ok true ∧ removed.1.text = commentedGroup.text := by
  have hfilled : commentedGroup.inventory ≠ [] := by decide +kernel
  have hnew : commentedGroup.inventory.find? ['B'] = none := by decide +kernel
  have hparse : Include.parse? "<B>".toList = some ⟨['B'], .angled⟩ := by decide
  refine ⟨rfl, hfilled, hnew, by decide +kernel, ?_⟩
  obtain ⟨line, hplace, hrestored⟩ :=
    removeInclude_insertInclude (d := commentedGroup) rfl hfilled hparse hnew
  have hchosen : commentedGroup.inventory.place commentedGroup.text ⟨['B'], .angled⟩ false =
      .atLine 4 false := by decide +kernel
  rw [hchosen] at hplace
  obtain ⟨rfl, -⟩ := Placement.atLine.inj hplace
  exact (hrestored (by decide +kernel) (by decide +kernel)).2

end Document

end SourceEdit
