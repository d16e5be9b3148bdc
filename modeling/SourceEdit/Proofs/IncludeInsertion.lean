import SourceEdit.Document.Includes
import SourceEdit.Proofs.Commit
import SourceEdit.Proofs.IncludeDirective
import SourceEdit.Proofs.InventoryLines

set_option autoImplicit false

namespace SourceEdit

namespace Text

/-- A text behind which a line starts. -/
def StartsLine (t : Text) : Prop := t = [] ∨ ∃ a, t = a ++ ['\n']

theorem StartsLine.append {a b : Text} (ha : StartsLine a) (hb : StartsLine b) :
    StartsLine (a ++ b) := by
  rcases hb with rfl | ⟨b, rfl⟩
  · rwa [List.append_nil]
  · exact .inr ⟨a ++ b, by rw [List.append_assoc]⟩

theorem startsLine_ite (p : Prop) [Decidable p] :
    StartsLine (if p then ['\n'] else []) := by
  split
  · exact .inr ⟨[], rfl⟩
  · exact .inl rfl

theorem StartsLine.cons {c : Char} {t : Text} (h : StartsLine t) (hne : t ≠ [] ∨ c = '\n') :
    StartsLine (c :: t) := by
  rcases h with rfl | ⟨a, rfl⟩
  · obtain rfl := hne.resolve_left (fun h => h rfl)
    exact .inr ⟨[], rfl⟩
  · exact .inr ⟨c :: a, rfl⟩

theorem startsLine_take_afterNewlines {n : Nat} {t : Text} (h : n ≤ t.count '\n') :
    StartsLine (t.take (afterNewlines n t)) := by
  induction t generalizing n with
  | nil => exact .inl List.take_nil
  | cons c rest ih =>
    cases n with
    | zero => exact .inl rfl
    | succ n =>
      rw [afterNewlines, Nat.add_comm, List.take_succ_cons]
      by_cases hc : c = '\n'
      · rw [if_pos hc]
        rw [hc, List.count_cons_self] at h
        exact (ih (by omega)).cons (.inr hc)
      · rw [if_neg hc]
        rw [List.count_cons_of_ne hc] at h
        refine (ih h).cons (.inl ?_)
        cases rest with
        | nil => simp at h
        | cons d rest => simp [afterNewlines, Nat.add_comm 1]

end Text

namespace Inventory

def Holds (inventory : Inventory) (name : Text) : Prop := (inventory.find? name).isSome = true

instance (inventory : Inventory) (name : Text) : Decidable (inventory.Holds name) :=
  inferInstanceAs (Decidable (_ = true))

theorem not_holds_nil (name : Text) : ¬Holds [] name := by simp [Holds, find?]

theorem holds_append {a b : Inventory} {name : Text} :
    Holds (a ++ b) name ↔ a.Holds name ∨ b.Holds name := by
  simp [Holds, find?, List.find?_append]

theorem holds_map_lower (inventory : Inventory) (k : Nat) (name : Text) :
    Holds (inventory.map (·.lower k)) name ↔ inventory.Holds name := by
  simp [Holds, find?, IncludeLine.lower]

theorem holds_ofLines_number (mode : Comment.Mode) (m : Nat) (ls : List Text) (name : Text) :
    (ofLines mode m ls).Holds name ↔ (ofLines mode 0 ls).Holds name := by
  rw [← Nat.zero_add m, ofLines_add, holds_map_lower]

theorem holds_ofLines_append_newline (mode : Comment.Mode) (m : Nat) (a b name : Text) :
    (ofLines mode m (Text.lines (a ++ '\n' :: b))).Holds name ↔
      (ofLines mode m (Text.lines a)).Holds name ∨
        (ofLines (Comment.modeAfter {} mode [] a).atNewline 1 (Text.lines b)).Holds name := by
  rw [ofLines_append_newline, holds_append, holds_ofLines_number _ (m + a.lineCount),
    ← holds_ofLines_number _ 1]

theorem ofSource_append {above : Text} (h : above.StartsLine) (below : Text) :
    ofSource (above ++ below) = ofSource above ++
      ofLines (Comment.modeAfter {} .code [] above) above.lineCount (Text.lines below) := by
  rcases h with rfl | ⟨a, rfl⟩
  · rw [List.nil_append, ofSource_eq_ofLines, ofSource_eq_ofLines]
    rfl
  · have hcount : (a ++ ['\n']).lineCount = 1 + a.lineCount := by
      rw [Text.lineCount, Text.lineCount, List.count_append, List.count_singleton_self]
      omega
    rw [ofSource_append_newline, List.append_assoc, List.singleton_append, hcount,
      ofSource_eq_ofLines, ofSource_eq_ofLines, ofLines_append_newline,
      Comment.modeAfter_append_newline]
    rfl

/-- The lines below a line start are read from the mode in which the scan comes down to them. -/
theorem holds_ofSource_append {above : Text} (h : above.StartsLine) (below name : Text) :
    (ofSource (above ++ below)).Holds name ↔ (ofSource above).Holds name ∨
      (ofLines (Comment.modeAfter {} .code [] above) 1 (Text.lines below)).Holds name := by
  rw [ofSource_append h, holds_append, holds_ofLines_number, ← holds_ofLines_number _ 1]

theorem holds_ofSource_append_ite (p : Prop) [Decidable p] (source name : Text) :
    (ofSource (source ++ if p then ['\n'] else [])).Holds name ↔ (ofSource source).Holds name := by
  split
  · rw [ofSource_append_newline]
  · rw [List.append_nil]

theorem holds_of_holds_take {n : Nat} {source name : Text}
    (h : (ofSource (source.take (Text.afterNewlines n source))).Holds name) :
    (ofSource source).Holds name := by
  by_cases hn : n ≤ source.count '\n'
  · have habove := Text.startsLine_take_afterNewlines hn
    have happend := holds_ofSource_append habove (source.drop (Text.afterNewlines n source)) name
    rw [List.take_append_drop] at happend
    exact happend.mpr (.inl h)
  · rwa [Text.afterNewlines_of_count_lt (Nat.lt_of_not_le hn), List.take_length] at h

theorem firstInclude_ne_present (source : Text) : Placement.firstInclude source ≠ .present := by
  unfold Placement.firstInclude
  split
  · simp
  · split <;> simp

theorem place_eq_present_iff (inventory : Inventory) (source : Text) (i : Include)
    (newGroup : Bool) : inventory.place source i newGroup = .present ↔ inventory.Holds i.name := by
  by_cases h : inventory.Holds i.name
  · exact iff_of_true (if_pos h) h
  · refine iff_of_false ?_ h
    rw [place, if_neg (show ¬(inventory.find? i.name).isSome = true from h)]
    split
    · exact firstInclude_ne_present source
    · split <;> simp

theorem exists_place {inventory : Inventory} {i : Include}
    (hnew : inventory.find? i.name = none) (source : Text) (newGroup : Bool) :
    ∃ line group, inventory.place source i newGroup = .atLine line group := by
  cases hplace : inventory.place source i newGroup with
  | present =>
    have hholds := (inventory.place_eq_present_iff source i newGroup).mp hplace
    rw [Holds, hnew] at hholds
    contradiction
  | atLine line group => exact ⟨line, group, rfl⟩

end Inventory

namespace Include

theorem Sound.newline_not_mem_directive {i : Include} (h : i.Sound) : '\n' ∉ i.directive := by
  rw [directive_eq, List.mem_append, List.mem_cons, List.mem_append, List.mem_singleton]
  rintro (hc | hc | hc | hc)
  · exact absurd hc (by decide)
  · revert hc; cases i.quoting <;> decide
  · exact h.noNewline hc
  · revert hc; cases i.quoting <;> decide

theorem Sound.holds_ofLines {i : Include} (h : i.Sound) (mode : Comment.Mode) (below : Text) :
    (Inventory.ofLines mode 1 (Text.lines (i.directive ++ '\n' :: below))).Holds i.name ↔
      i.ShownFrom mode ∨ (Inventory.ofLines (Comment.modeAfter {} mode [] i.directive).atNewline 1
        (Text.lines below)).Holds i.name := by
  rw [Inventory.holds_ofLines_append_newline, Text.lines_of_not_mem h.newline_not_mem_directive,
    Inventory.ofLines, h.includeOn?_scan]
  refine or_congr_left ?_
  by_cases hshown : i.ShownFrom mode <;>
    simp [hshown, Inventory.ofLines, Inventory.Holds, Inventory.find?]

end Include

namespace Document

def separatorAbove (d : Document) (line : Nat) (newGroup : Bool) : Text :=
  if newGroup && decide (1 < line) && isFilled (d.text.line (line - 1 : Nat)) then ['\n'] else []

def separatorBelow (d : Document) (line : Nat) (newGroup : Bool) : Text :=
  if newGroup && decide (line ≤ d.text.lineCount) && isFilled (d.text.line line) then ['\n'] else []

def aboveDirective (d : Document) (line : Nat) (newGroup : Bool) : Text :=
  d.text.take (d.text.positionOfLine line) ++ d.lineStarter line ++ d.separatorAbove line newGroup

def belowDirective (d : Document) (line : Nat) (newGroup : Bool) : Text :=
  d.separatorBelow line newGroup ++ d.text.drop (d.text.positionOfLine line)

theorem directiveLines_eq (d : Document) (i : Include) (line : Nat) (newGroup : Bool) :
    d.directiveLines i line newGroup =
      d.separatorAbove line newGroup ++ i.directive ++ '\n' :: d.separatorBelow line newGroup := by
  have hbelow : ∀ p : Bool, (if p then ['\n', '\n'] else ['\n']) =
      '\n' :: (if p then ['\n'] else []) := by decide
  have hkeyword : "#include ".toList = Include.keyword := rfl
  simp only [directiveLines, separatorAbove, separatorBelow, Include.directive, hbelow, hkeyword,
    List.append_assoc]

theorem startsLine_aboveDirective (d : Document) (line : Nat) (newGroup : Bool) :
    (d.aboveDirective line newGroup).StartsLine := by
  refine Text.StartsLine.append ?_ (Text.startsLine_ite _)
  by_cases h : ((line : Int) - 1).toNat ≤ d.text.count '\n'
  · exact (Text.startsLine_take_afterNewlines h).append (Text.startsLine_ite _)
  · have hend : d.text.positionOfLine line = d.text.length :=
      Text.afterNewlines_of_count_lt (Nat.lt_of_not_le h)
    have hcount : d.text.lineCount < line := by rw [Text.lineCount]; omega
    rw [hend, List.take_length, lineStarter]
    by_cases hlast : d.text.getLast? = some '\n'
    · rw [if_neg (fun hand => hand.2 hlast), List.append_nil]
      obtain ⟨a, ha⟩ := List.getLast?_eq_some_iff.mp hlast
      exact .inr ⟨a, ha⟩
    · rw [if_pos ⟨hcount, hlast⟩]
      exact .inr ⟨d.text, rfl⟩

theorem edit_single {d : Document} (hclosed : d.block = none) {p q : Nat} (hpq : p ≤ q)
    (hq : q ≤ d.text.length) (text : Text) (cursor : Option CursorRequest) :
    ∃ d' : Document, d.edit [⟨p, q, text⟩] cursor = (d', none) ∧ d'.block = none ∧
      d'.text = d.text.take p ++ text ++ d.text.drop q := by
  have hsort : Edit.sort [⟨p, q, text⟩] = [⟨p, q, text⟩] := List.mergeSort_singleton _
  refine ⟨d.change [⟨p, q, text⟩] cursor, ?_, hclosed, ?_⟩
  · rw [edit_eq_commit hclosed, commit_of_fit (List.cons_ne_nil _ _)
      (Edit.fit_single hpq hq text), hsort]
  · simp [change, Edit.applyAll, Edit.applyFrom]

theorem editOrFail_single {d : Document} (hclosed : d.block = none) {p q : Nat} (hpq : p ≤ q)
    (hq : q ≤ d.text.length) (text : Text) :
    ∃ d' : Document, d.editOrFail [⟨p, q, text⟩] none = (d', .ok true) ∧ d'.block = none ∧
      d'.text = d.text.take p ++ text ++ d.text.drop q := by
  obtain ⟨d', hedit, hrest⟩ := edit_single hclosed hpq hq text none
  exact ⟨d', by rw [editOrFail, hedit], hrest⟩

theorem insertInclude_of_place {d : Document} (hclosed : d.block = none) {t : Text} {i : Include}
    {line : Nat} {newGroup group : Bool} (hparse : Include.parse? t = some i)
    (hplace : d.inventory.place d.text i newGroup = .atLine line group) :
    ∃ d' : Document, d.insertInclude t newGroup = (d', .ok true) ∧ d'.block = none ∧
      d'.text = d.aboveDirective line group ++
        (i.directive ++ '\n' :: d.belowDirective line group) := by
  obtain ⟨d', hedit, hblock, htext⟩ := editOrFail_single hclosed (Nat.le_refl _)
    (Text.afterNewlines_le ((line : Int) - 1).toNat d.text)
    (d.lineStarter line ++ d.directiveLines i line group)
  refine ⟨d', ?_, hblock, ?_⟩
  · simp only [insertInclude, hparse, hplace]
    exact hedit
  · rw [htext, directiveLines_eq]
    simp only [aboveDirective, belowDirective, Text.positionOfLine, List.append_assoc,
      List.cons_append]

theorem insertInclude_refused_iff {d : Document} (hclosed : d.block = none) {t : Text} {i : Include}
    (hparse : Include.parse? t = some i) (newGroup : Bool) :
    d.insertInclude t newGroup = (d, .ok false) ↔ d.inventory.Holds i.name := by
  rw [← d.inventory.place_eq_present_iff d.text i newGroup]
  cases hplace : d.inventory.place d.text i newGroup with
  | present => simp [insertInclude, hparse, hplace]
  | atLine line group =>
    obtain ⟨d', haccepted, -⟩ := insertInclude_of_place hclosed hparse hplace
    simp [haccepted]

theorem not_holds_aboveDirective {d : Document} {i : Include} {line : Nat} {newGroup group : Bool}
    (hplace : d.inventory.place d.text i newGroup = .atLine line group) :
    ¬(Inventory.ofSource (d.aboveDirective line group)).Holds i.name := by
  have habsent : ¬d.inventory.Holds i.name := by
    rw [← d.inventory.place_eq_present_iff d.text i newGroup, hplace]
    simp
  intro habove
  rw [aboveDirective, separatorAbove, Inventory.holds_ofSource_append_ite, lineStarter,
    Inventory.holds_ofSource_append_ite] at habove
  exact habsent (Inventory.holds_of_holds_take habove)

/-- The mode in which the scan comes down to a directive on this line. -/
def modeAbove (d : Document) (line : Nat) (newGroup : Bool) : Comment.Mode :=
  Comment.modeAfter {} .code [] (d.aboveDirective line newGroup)

/-- The includes below a directive on this line, as they are read behind the directive. -/
def includesBelow (d : Document) (i : Include) (line : Nat) (newGroup : Bool) : Inventory :=
  .ofLines (Comment.modeAfter {} (d.modeAbove line newGroup) [] i.directive).atNewline 1
    (Text.lines (d.belowDirective line newGroup))

/-- After an insertion its include is there if its directive is shown where it stands or if one of
that name is read below it. -/
theorem holds_inserted_iff {d : Document} {i : Include} (hsound : i.Sound) {line : Nat}
    {newGroup group : Bool} (hplace : d.inventory.place d.text i newGroup = .atLine line group)
    {d' : Document} (htext : d'.text = d.aboveDirective line group ++
      (i.directive ++ '\n' :: d.belowDirective line group)) :
    d'.inventory.Holds i.name ↔
      i.ShownFrom (d.modeAbove line group) ∨ (d.includesBelow i line group).Holds i.name := by
  rw [inventory, htext, Inventory.holds_ofSource_append (d.startsLine_aboveDirective line group),
    or_iff_right (not_holds_aboveDirective hplace)]
  exact hsound.holds_ofLines _ _

/-- An include that was inserted is refused from then on exactly if its directive is shown where it
stands or one of its name is read below it. Where the lines above end outside of comments and
literals it is always shown; where they end in a block comment it never is. -/
theorem insertInclude_again_refused_iff {d : Document} (hclosed : d.block = none) {t : Text}
    {newGroup : Bool} (haccepted : (d.insertInclude t newGroup).2 = .ok true) (again : Bool) :
    ∃ i line group, Include.parse? t = some i ∧
      d.inventory.place d.text i newGroup = .atLine line group ∧
      let d' := (d.insertInclude t newGroup).1
      d'.text = d.aboveDirective line group ++
        (i.directive ++ '\n' :: d.belowDirective line group) ∧
      (d'.insertInclude t again = (d', .ok false) ↔
        i.ShownFrom (d.modeAbove line group) ∨ (d.includesBelow i line group).Holds i.name) ∧
      (d.modeAbove line group = .code → d'.insertInclude t again = (d', .ok false)) ∧
      ∀ skip, d.modeAbove line group = .block skip →
        (d'.insertInclude t again = (d', .ok false) ↔ (d.includesBelow i line group).Holds i.name)
      := by
  obtain ⟨i, hparse⟩ : ∃ i, Include.parse? t = some i := by
    cases hparse : Include.parse? t with
    | none => simp [insertInclude, hparse] at haccepted
    | some i => exact ⟨i, rfl⟩
  obtain ⟨line, group, hplace⟩ : ∃ line group,
      d.inventory.place d.text i newGroup = .atLine line group := by
    cases hplace : d.inventory.place d.text i newGroup with
    | present => simp [insertInclude, hparse, hplace] at haccepted
    | atLine line group => exact ⟨line, group, rfl⟩
  obtain ⟨d', hfirst, hblock, htext⟩ := insertInclude_of_place hclosed hparse hplace
  have hsound := Include.sound_of_parse hparse
  have hagain := (insertInclude_refused_iff hblock hparse again).trans
    (holds_inserted_iff hsound hplace htext)
  refine ⟨i, line, group, hparse, hplace, ?_⟩
  rw [hfirst]
  refine ⟨htext, hagain, fun hcode => ?_, fun skip hinside => ?_⟩
  · rw [hagain, hcode]
    exact .inl hsound.shownFrom_code
  · rw [hagain, hinside]
    exact or_iff_right (hsound.not_shownFrom_block skip)

def brokenComment : Document := .new .source "#include <a> /* x\ny */\n".toList none

theorem insertInclude_again_accepted_in_comment :
    let first := brokenComment.insertInclude "<z>".toList false
    brokenComment.block = none ∧ first.2 = .ok true ∧
      first.1.text = "#include <a> /* x\n#include <z>\ny */\n".toList ∧
      first.1.insertInclude "<z>".toList false ≠ (first.1, .ok false) := by
  have haccepted : (brokenComment.insertInclude "<z>".toList false).2 = .ok true := by decide +kernel
  refine ⟨rfl, haccepted, by decide +kernel, fun hrefused => ?_⟩
  obtain ⟨i, line, group, hparse, hplace, -, -, -, hblock⟩ :=
    insertInclude_again_refused_iff (d := brokenComment) rfl haccepted false
  have hname : Include.parse? "<z>".toList = some ⟨['z'], .angled⟩ := by decide
  rw [hname] at hparse
  obtain rfl := Option.some.inj hparse
  have hsecond : brokenComment.inventory.place brokenComment.text ⟨['z'], .angled⟩ false =
      .atLine 2 false := by decide +kernel
  rw [hsecond] at hplace
  obtain ⟨rfl, rfl⟩ := Placement.atLine.inj hplace
  have hmode : brokenComment.modeAbove 2 false = .block 0 := by decide +kernel
  have hbelow : brokenComment.includesBelow ⟨['z'], .angled⟩ 2 false = [] := by decide +kernel
  have hholds := (hblock 0 hmode).mp hrefused
  rw [hbelow] at hholds
  exact Inventory.not_holds_nil _ hholds

end Document

end SourceEdit
