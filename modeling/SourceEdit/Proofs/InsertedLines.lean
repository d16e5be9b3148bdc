import SourceEdit.Proofs.InsertedInventory
import SourceEdit.Proofs.LineNumbers

set_option autoImplicit false

namespace SourceEdit

namespace Text

theorem StartsLine.lines_append {above : Text} (h : above.StartsLine) (below : Text) :
    lines (above ++ below) = (lines above).dropLast ++ lines below := by
  rcases h with rfl | ⟨a, rfl⟩
  · rfl
  · rw [List.append_assoc, List.singleton_append, Text.lines_append, Text.lines_append,
      lines_of_not_mem List.not_mem_nil, List.dropLast_concat]

theorem lines_ite_append (p : Prop) [Decidable p] (t : Text) :
    lines ((if p then ['\n'] else []) ++ t) = (if p then [[]] else []) ++ lines t := by
  split <;> rfl

theorem lines_flatMap {ls : List Text} (h : ∀ l ∈ ls, '\n' ∉ l) :
    lines (ls.flatMap (· ++ ['\n'])) = ls ++ [[]] := by
  induction ls with
  | nil => rfl
  | cons l ls ih =>
    obtain ⟨hl, hls⟩ := List.forall_mem_cons.mp h
    rw [List.flatMap_cons, List.append_assoc, List.singleton_append, lines_append,
      lines_of_not_mem hl, ih hls]
    rfl

theorem lines_cut {t : Text} {k : Nat} (h : k ≤ t.count '\n') :
    (lines (t.take (afterNewlines k t))).dropLast = (lines t).take k ∧
      lines (t.drop (afterNewlines k t)) = (lines t).drop k := by
  have hclean : ∀ l ∈ (lines t).take k, '\n' ∉ l :=
    fun l hl => not_mem_of_mem_fields (List.mem_of_mem_take hl)
  have habove : (lines (t.take (afterNewlines k t))).dropLast = (lines t).take k := by
    rw [take_afterNewlines h, lines_flatMap hclean, List.dropLast_concat]
  refine ⟨habove, ?_⟩
  have hwhole := (startsLine_take_afterNewlines h).lines_append (t.drop (afterNewlines k t))
  rw [List.take_append_drop, habove] at hwhole
  exact List.append_cancel_left (hwhole.symm.trans (List.take_append_drop k (lines t)).symm)

end Text

namespace Document

variable {d : Document} {line : Nat}

theorem lines_textAbove (h : d.text.Admits line) :
    (Text.lines (d.textAbove line)).dropLast = (Text.lines d.text).take (line - 1) := by
  rw [textAbove_eq h]
  rcases h.2 with hline | ⟨rfl, hlast⟩
  · obtain ⟨k, rfl⟩ : ∃ k, line = k + 1 := ⟨line - 1, by have := h.1; omega⟩
    rw [lineStarter, if_neg fun hand => Nat.not_lt.mpr hline hand.1, List.append_nil,
      Text.positionOfLine_succ]
    exact (Text.lines_cut (Nat.le_of_lt_succ hline)).1
  · rw [lineStarter, if_pos ⟨Nat.lt_succ_self _, hlast⟩, Text.positionOfLine_lineCount_succ,
      List.take_length, Text.lines_append, Text.lines_of_not_mem List.not_mem_nil,
      List.dropLast_concat, Nat.add_sub_cancel, ← Text.length_lines, List.take_length]

theorem lines_textBelow (h : d.text.Admits line) :
    Text.lines (d.text.drop (d.text.positionOfLine line)) = (Text.lines d.text).drop (line - 1) ++
      if line = (Text.lines d.text).length + 1 then [[]] else [] := by
  rw [Text.length_lines]
  rcases h.2 with hline | ⟨rfl, -⟩
  · obtain ⟨k, rfl⟩ : ∃ k, line = k + 1 := ⟨line - 1, by have := h.1; omega⟩
    rw [if_neg (by omega), List.append_nil, Text.positionOfLine_succ]
    exact (Text.lines_cut (Nat.le_of_lt_succ hline)).2
  · rw [if_pos rfl, Text.positionOfLine_lineCount_succ, List.drop_length, Nat.add_sub_cancel,
      ← Text.length_lines, List.drop_length]
    rfl

/-- An empty line where a new group would touch the line above it. -/
def emptyAbove (d : Document) (line : Nat) (group : Bool) : List Text :=
  if group = true ∧ 1 < line ∧ isFilled (d.text.line (line - 1 : Nat)) = true then [[]] else []

def emptyBelow (d : Document) (line : Nat) (group : Bool) : List Text :=
  if group = true ∧ line ≤ (Text.lines d.text).length ∧ isFilled (d.text.line line) = true then [[]]
  else []

theorem lines_separatorAbove (d : Document) (line : Nat) (group : Bool) (t : Text) :
    Text.lines (d.separatorAbove line group ++ t) = d.emptyAbove line group ++ Text.lines t := by
  rw [separatorAbove, Text.lines_ite_append, emptyAbove]
  simp only [Bool.and_eq_true, decide_eq_true_eq, and_assoc]

theorem lines_separatorBelow (d : Document) (line : Nat) (group : Bool) (t : Text) :
    Text.lines (d.separatorBelow line group ++ t) = d.emptyBelow line group ++ Text.lines t := by
  rw [separatorBelow, Text.lines_ite_append, emptyBelow, Text.length_lines]
  simp only [Bool.and_eq_true, decide_eq_true_eq, and_assoc]

theorem lines_inserted (h : d.text.Admits line) {i : Include} (hsound : i.Sound) (group : Bool) :
    Text.lines (d.aboveDirective line group ++ (i.directive ++ '\n' :: d.belowDirective line group)) =
      ((Text.lines d.text).take (line - 1) ++ d.emptyAbove line group) ++ i.directive ::
        (d.emptyBelow line group ++ ((Text.lines d.text).drop (line - 1) ++
          if line = (Text.lines d.text).length + 1 then [[]] else [])) := by
  rw [aboveDirective, ← textAbove_eq h, List.append_assoc, (startsLine_textAbove h).lines_append,
    lines_textAbove h, lines_separatorAbove, Text.lines_append,
    Text.lines_of_not_mem hsound.newline_not_mem_directive, belowDirective, lines_separatorBelow,
    lines_textBelow h, List.append_assoc, List.singleton_append]

theorem emptyAbove_apart (h : line ≤ (Text.lines d.text).length + 1) :
    ∀ l ∈ ((Text.lines d.text).take (line - 1) ++ d.emptyAbove line true).getLast?,
      isFilled l = false := by
  intro l hl
  rw [emptyAbove] at hl
  split at hl
  · rw [List.getLast?_concat] at hl
    obtain rfl := Option.some.inj hl
    rfl
  · next hblank =>
    rw [List.append_nil, List.getLast?_take] at hl
    split at hl
    · contradiction
    · next hline =>
      obtain ⟨k, rfl⟩ : ∃ k, line = k + 2 := ⟨line - 2, by omega⟩
      have hat : (Text.lines d.text)[k]? = some l := by
        rw [show k + 2 - 1 - 1 = k by omega, List.getElem?_eq_getElem (by omega), Option.some_or] at hl
        rw [List.getElem?_eq_getElem (by omega), hl]
      have hself : d.text.line (k + 2 - 1 : Nat) = l := by
        rw [show k + 2 - 1 = k + 1 by omega, Text.line_succ_eq, hat, Option.getD_some]
      rw [hself] at hblank
      exact Bool.eq_false_iff.mpr fun hfilled => hblank ⟨rfl, by omega, hfilled⟩

theorem emptyBelow_apart (h : 1 ≤ line) :
    ∀ l ∈ (d.emptyBelow line true ++ ((Text.lines d.text).drop (line - 1) ++
      if line = (Text.lines d.text).length + 1 then [[]] else [])).head?, isFilled l = false := by
  intro l hl
  rw [emptyBelow] at hl
  split at hl
  · obtain rfl := Option.some.inj hl
    rfl
  · next hblank =>
    rw [List.nil_append, List.head?_append, List.head?_drop] at hl
    cases hat : (Text.lines d.text)[line - 1]? with
    | some raw =>
      rw [hat, Option.some_or] at hl
      obtain rfl := Option.some.inj hl
      obtain ⟨k, rfl⟩ : ∃ k, line = k + 1 := ⟨line - 1, by omega⟩
      rw [Nat.add_sub_cancel] at hat
      have hlt := (List.getElem?_eq_some_iff.mp hat).1
      rw [Text.line_succ_eq, hat, Option.getD_some] at hblank
      exact Bool.eq_false_iff.mpr fun hfilled => hblank ⟨rfl, hlt, hfilled⟩
    | none =>
      rw [hat, Option.none_or] at hl
      split at hl
      · obtain rfl := Option.some.inj hl
        rfl
      · contradiction

/-- The lines after an accepted insertion, for every text, include and choice of group. The line that
is chosen is one of the text or the next behind its last. All old lines are there in their order, with
the directive and at most one empty line on each side of it between them, and a text that gets the
directive behind its last line ends in a newline. What stands beside a new group is blank. -/
theorem lines_insertInclude (hclosed : d.block = none) {t : Text} {newGroup : Bool}
    (haccepted : (d.insertInclude t newGroup).2 = .ok true) :
    ∃ i line group, Include.parse? t = some i ∧
      d.inventory.place d.text i newGroup = .atLine line group ∧
      let old := Text.lines d.text
      let above := old.take (line - 1) ++ d.emptyAbove line group
      let below := d.emptyBelow line group ++ (old.drop (line - 1) ++
        if line = old.length + 1 then [[]] else [])
      1 ≤ line ∧ line ≤ old.length + 1 ∧
        Text.lines (d.insertInclude t newGroup).1.text = above ++ i.directive :: below ∧
        (group = true → (∀ l ∈ above.getLast?, isFilled l = false) ∧
          ∀ l ∈ below.head?, isFilled l = false) := by
  obtain ⟨i, line, group, hparse, hplace⟩ := exists_place haccepted
  have hadmits := Inventory.admits_place hplace
  obtain ⟨d', hinsert, -, htext⟩ := insertInclude_of_place hclosed hparse hplace
  have hlast : line ≤ (Text.lines d.text).length + 1 := by
    rw [Text.length_lines]
    rcases hadmits.2 with hline | ⟨hline, -⟩ <;> omega
  refine ⟨i, line, group, hparse, hplace, hadmits.1, hlast, ?_, ?_⟩
  · rw [hinsert]
    dsimp only
    rw [htext, lines_inserted hadmits (Include.sound_of_parse hparse)]
  · rintro rfl
    exact ⟨emptyAbove_apart hlast, emptyBelow_apart hadmits.1⟩

def guarded : Document := .new .source "#pragma once\nint x;".toList none

theorem lines_insertInclude_between :
    let inserted := guarded.insertInclude "<a>".toList true
    guarded.block = none ∧ inserted.2 = .ok true ∧ Text.lines inserted.1.text =
      ["#pragma once".toList, [], "#include <a>".toList, [], "int x;".toList] := by
  have haccepted : (guarded.insertInclude "<a>".toList true).2 = .ok true := by decide +kernel
  refine ⟨rfl, haccepted, ?_⟩
  obtain ⟨i, line, group, hparse, hplace, -, -, hlines, -⟩ :=
    lines_insertInclude (d := guarded) rfl haccepted
  have hname : Include.parse? "<a>".toList = some ⟨['a'], .angled⟩ := by decide
  rw [hname] at hparse
  obtain rfl := Option.some.inj hparse
  have hchosen : guarded.inventory.place guarded.text ⟨['a'], .angled⟩ true = .atLine 2 true := by
    decide +kernel
  rw [hchosen] at hplace
  obtain ⟨rfl, rfl⟩ := Placement.atLine.inj hplace
  rw [hlines]
  decide +kernel

end Document

end SourceEdit
