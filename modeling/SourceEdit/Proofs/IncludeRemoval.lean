import SourceEdit.Proofs.CommentModes
import SourceEdit.Proofs.InsertedInventory

/-!
The inventory of a text without the line of an include. The line goes as a whole, with the end or
the beginning of a comment that stands on it. What is above is read as before; what is below is read
from where the scan came down to the line, not from where it left it, and that alone decides which
includes are found there.
-/

set_option autoImplicit false

namespace SourceEdit

namespace Text

theorem take_afterNewlines_succ {t raw : Text} {k : Nat} (h : (lines t)[k]? = some raw) :
    '\n' ∉ raw ∧
      (t.take (afterNewlines (k + 1) t) = t.take (afterNewlines k t) ++ (raw ++ ['\n']) ∨
        t = t.take (afterNewlines k t) ++ raw ∧ afterNewlines (k + 1) t = t.length) := by
  induction t using line_induction generalizing k with
  | last l hl =>
    rw [lines_of_not_mem hl] at h
    cases k with
    | zero =>
      obtain rfl := Option.some.inj h
      have hcount := List.count_eq_zero.mpr hl
      exact ⟨hl, .inr ⟨by rw [afterNewlines_zero]; rfl, afterNewlines_of_count_lt (by omega)⟩⟩
    | succ k => simp at h
  | more l rest hl ih =>
    rw [lines_append, lines_of_not_mem hl, List.singleton_append] at h
    have htake : ∀ n, (l ++ '\n' :: rest).take (l.length + 1 + n) = l ++ '\n' :: rest.take n := by
      intro n
      rw [show l ++ '\n' :: rest = (l ++ ['\n']) ++ rest by simp,
        show l.length + 1 = (l ++ ['\n']).length by simp, List.take_length_add_append]
      simp
    cases k with
    | zero =>
      obtain rfl := Option.some.inj h
      refine ⟨hl, .inl ?_⟩
      rw [afterNewlines_append hl, htake, afterNewlines_zero, afterNewlines_zero]
      rfl
    | succ k =>
      obtain ⟨hraw, hrest⟩ := ih h
      rw [afterNewlines_append hl, afterNewlines_append hl, htake, htake, List.length_append,
        List.length_cons]
      refine ⟨hraw, hrest.imp (fun hmore => ?_) fun hlast => ⟨?_, by omega⟩⟩
      · rw [hmore, List.append_assoc, List.cons_append]
      · rw [List.append_assoc, List.cons_append, ← hlast.1]

theorem startsLine_or_drop_eq_nil (t : Text) (k : Nat) :
    StartsLine (t.take (t.afterNewlines k)) ∨ t.drop (t.afterNewlines k) = [] := by
  by_cases hk : k ≤ t.count '\n'
  · exact .inl (startsLine_take_afterNewlines hk)
  · right
    rw [afterNewlines_of_count_lt (Nat.not_le.mp hk), List.drop_length]

end Text

namespace IncludeLine

def raise (l : IncludeLine) : IncludeLine := { l with line := l.line - 1 }

end IncludeLine

namespace Inventory

/-- Without the first include of this name. What is behind it is one line further up. -/
def without (name : Text) : Inventory → Inventory
  | [] => []
  | l :: ls => if l.item.name = name then ls.map (·.raise) else l :: without name ls

theorem without_append_cons {name : Text} {above : Inventory} (below : Inventory) {l : IncludeLine}
    (habove : ∀ a ∈ above, a.item.name ≠ name) (hl : l.item.name = name) :
    without name (above ++ l :: below) = above ++ below.map (·.raise) := by
  induction above with
  | nil => simp [without, hl]
  | cons a above ih =>
    have hne := habove a List.mem_cons_self
    simp [without, hne, ih fun b hb => habove b (.tail _ hb)]

theorem map_raise_ofLines (mode : Comment.Mode) (number : Nat) (ls : List Text) :
    (ofLines mode (number + 1) ls).map (·.raise) = ofLines mode number ls := by
  rw [ofLines_add, List.map_map]
  exact List.map_id' _

theorem ofLines_singleton_of_mem {mode : Comment.Mode} {number : Nat} {raw : Text}
    {l : IncludeLine} (h : l ∈ ofLines mode number [raw]) : ofLines mode number [raw] = [l] := by
  rw [ofLines, ofLines, List.append_nil] at h ⊢
  cases hraw : includeOn? raw (Comment.scan {} mode [] raw) with
  | none => simp [hraw] at h
  | some i =>
    rw [hraw] at h
    rw [List.mem_singleton.mp h]
    rfl

theorem name_ne_of_find?_eq {name : Text} {above below : Inventory} {l : IncludeLine}
    (hfind : find? (above ++ l :: below) name = some l) (habove : ∀ a ∈ above, a.line < l.line) :
    ∀ a ∈ above, a.item.name ≠ name := by
  intro a ha hname
  obtain ⟨b, hb⟩ : ∃ b, above.find? name = some b :=
    Option.isSome_iff_exists.mp (List.find?_isSome.mpr ⟨a, ha, by simpa using hname⟩)
  rw [find?] at hb hfind
  rw [List.find?_append, hb, Option.some_or] at hfind
  obtain rfl := Option.some.inj hfind
  exact Nat.lt_irrefl _ (habove b (List.mem_of_find?_eq_some hb))

/-- The line of an include cuts its source in two. The includes above it are those of the text
above it, and those below it depend on the mode in which the scan comes down to them. -/
theorem ofSource_cut {source above passed below : Text} {l : IncludeLine} (h : l ∈ ofSource source)
    (habove : above = source.take (source.positionOfLine l.line))
    (hpassed : passed = source.take (source.positionOfLine (l.line + 1 : Nat)))
    (hbelow : below = source.drop (source.positionOfLine (l.line + 1 : Nat))) :
    (∀ a ∈ ofSource above, a.line < l.line) ∧
      ofSource source = ofSource above ++ l ::
        ofLines (Comment.modeAfter {} .code [] passed) (l.line + 1) (Text.lines below) ∧
      ofSource (above ++ below) = ofSource above ++
        ofLines (Comment.modeAfter {} .code [] above) l.line (Text.lines below) := by
  obtain ⟨k, raw, hline, hraw, -⟩ := exists_line_of_mem h
  have hk : k ≤ source.count '\n' := by
    have := (List.getElem?_eq_some_iff.mp hraw).1
    rw [Text.length_lines, Text.lineCount] at this
    omega
  rw [hline, Text.positionOfLine_succ] at habove hpassed hbelow
  have hstarts : above.StartsLine := habove ▸ Text.startsLine_take_afterNewlines hk
  have hcount : above.lineCount = k + 1 := by
    rw [habove, Text.lineCount, Text.count_take_afterNewlines hk]
  have happend : ∀ b, ofSource (above ++ b) = ofSource above ++
      ofLines (Comment.modeAfter {} .code [] above) (k + 1) (Text.lines b) :=
    fun b => by rw [ofSource_append hstarts, hcount]
  obtain ⟨hnewline, hend⟩ := Text.take_afterNewlines_succ hraw
  rw [← habove, ← hpassed] at hend
  have hnone : ∀ mode number, ofLines mode number (Text.lines []) = [] := fun _ _ => rfl
  have hown : ofSource passed = ofSource above ++
        ofLines (Comment.modeAfter {} .code [] above) (k + 1) [raw] ∧
      ofSource source = ofSource passed ++
        ofLines (Comment.modeAfter {} .code [] passed) (k + 1 + 1) (Text.lines below) := by
    rcases hend with hmore | ⟨hlast, hlength⟩
    · have hpassedStarts : passed.StartsLine :=
        .inr ⟨above ++ raw, by rw [hmore, List.append_assoc]⟩
      have hpassedCount : passed.lineCount = k + 1 + 1 := by
        rw [hmore, Text.lineCount, List.count_append, List.count_append,
          List.count_eq_zero.mpr hnewline, List.count_singleton_self, Nat.zero_add, ← hcount]
        rfl
      constructor
      · rw [hmore, happend, ofLines_append_newline, hnone, List.append_nil,
          Text.lines_of_not_mem hnewline]
      · rw [← hpassedCount, ← ofSource_append hpassedStarts, hpassed, hbelow,
          List.take_append_drop]
    · rw [hlength, List.take_length] at hpassed
      rw [hlength, List.drop_length] at hbelow
      constructor
      · rw [hpassed, hlast, happend, Text.lines_of_not_mem hnewline]
      · rw [hbelow, hnone, List.append_nil, hpassed]
  have hbefore : ∀ a ∈ ofSource above, a.line < k + 1 :=
    fun a ha => hcount ▸ line_lt_of_startsLine hstarts ha
  have hsingle : ofLines (Comment.modeAfter {} .code [] above) (k + 1) [raw] = [l] := by
    rw [hown.2, hown.1, List.mem_append, List.mem_append] at h
    rcases h with (h | h) | h
    · have := hbefore l h
      omega
    · exact ofLines_singleton_of_mem h
    · have := (line_of_mem_ofLines h).1
      omega
  refine ⟨by rwa [hline], ?_, by rw [hline, happend]⟩
  rw [hown.2, hown.1, hsingle, hline, List.append_assoc, List.singleton_append]

end Inventory

namespace Document

theorem removeInclude_of_find {d : Document} (hclosed : d.block = none) {t : Text} {i : Include}
    {l : IncludeLine} (hparse : Include.parse? t = some i)
    (hfind : d.inventory.find? i.name = some l) :
    ∃ d' : Document, d.removeInclude t = (d', .ok true) ∧ d'.block = none ∧
      d'.text = d.text.take (d.text.positionOfLine l.line) ++
        d.text.drop (d.text.positionOfLine (l.line + 1 : Nat)) := by
  have hline : d.inventory.lineOfText? t = some l.line := by
    rw [Inventory.lineOfText?, hparse, Option.bind_some, hfind, Option.map_some]
  obtain ⟨d', hedit, hblock, htext⟩ := editOrFail_single hclosed
    (Text.positionOfLine_le_succ d.text l.line) (Text.positionOfLine_le d.text _) []
  refine ⟨d', ?_, hblock, by rw [htext, List.append_nil]⟩
  rw [removeInclude, hline]
  exact hedit

theorem exists_removed {d : Document} (hclosed : d.block = none) {t : Text}
    (haccepted : (d.removeInclude t).2 = .ok true) :
    ∃ i l, Include.parse? t = some i ∧ d.inventory.find? i.name = some l ∧
      (d.removeInclude t).1.text = d.text.take (d.text.positionOfLine l.line) ++
        d.text.drop (d.text.positionOfLine (l.line + 1 : Nat)) := by
  cases hline : d.inventory.lineOfText? t with
  | none => simp [removeInclude, hline] at haccepted
  | some line =>
    obtain ⟨i, hparse, hfind⟩ := Option.bind_eq_some_iff.mp hline
    obtain ⟨l, hl, rfl⟩ := Option.map_eq_some_iff.mp hfind
    obtain ⟨d', hremove, -, htext⟩ := removeInclude_of_find hclosed hparse hl
    exact ⟨i, l, hparse, hl, by rw [hremove, htext]⟩

/-- An accepted removal. The line of the first include of the name goes, and what is above and below
it stays. The includes that are found are the others, those below it one line further up, exactly if
the lines below hold the same includes whether they are read from the mode in which the scan comes
down to the removed line or from the one in which it leaves it. These are the same, as long as there
is anything below, exactly if the same comment or literal is open at both ends of the line; so nothing
is lost around a line that neither ends nor begins a comment, nor a literal behind an escaped
newline. -/
theorem inventory_removeInclude_iff {d : Document} (hclosed : d.block = none) {t : Text}
    (haccepted : (d.removeInclude t).2 = .ok true) :
    ∃ i l, Include.parse? t = some i ∧ d.inventory.find? i.name = some l ∧
      let d' := (d.removeInclude t).1
      let above := d.text.take (d.text.positionOfLine l.line)
      let passed := d.text.take (d.text.positionOfLine (l.line + 1 : Nat))
      let below := d.text.drop (d.text.positionOfLine (l.line + 1 : Nat))
      let before := Comment.modeAfter {} .code [] above
      let behind := Comment.modeAfter {} .code [] passed
      d'.text = above ++ below ∧
        (d'.inventory = d.inventory.without i.name ↔
          Inventory.ofLines before l.line (Text.lines below) =
            Inventory.ofLines behind l.line (Text.lines below)) ∧
        (below ≠ [] → (before = behind ↔ Comment.SameOpen above passed)) ∧
        (Comment.SameOpen above passed → d'.inventory = d.inventory.without i.name) := by
  obtain ⟨i, l, hparse, hfind, htext⟩ := exists_removed hclosed haccepted
  have hmem : l ∈ Inventory.ofSource d.text := List.mem_of_find?_eq_some hfind
  have hname : l.item.name = i.name := by simpa using List.find?_some hfind
  obtain ⟨habove, hold, hnew⟩ := Inventory.ofSource_cut hmem rfl rfl rfl
  refine ⟨i, l, hparse, hfind, ?_⟩
  intro d' above passed below before behind
  have hothers : ∀ a ∈ Inventory.ofSource above, a.item.name ≠ i.name := by
    rw [inventory, hold] at hfind
    exact Inventory.name_ne_of_find?_eq hfind habove
  have hwithout : d.inventory.without i.name =
      Inventory.ofSource above ++ Inventory.ofLines behind l.line (Text.lines below) := by
    rw [inventory, hold, Inventory.without_append_cons _ hothers hname,
      Inventory.map_raise_ofLines]
  have hinventory : d'.inventory = d.inventory.without i.name ↔
      Inventory.ofLines before l.line (Text.lines below) =
        Inventory.ofLines behind l.line (Text.lines below) := by
    rw [hwithout, inventory, show d'.text = above ++ below from htext, hnew]
    exact List.append_right_inj _
  have hmodes : below ≠ [] → (before = behind ↔ Comment.SameOpen above passed) := by
    intro hbelow
    obtain ⟨k, raw, hline, hraw, -⟩ := Inventory.exists_line_of_mem hmem
    have hk : k ≤ d.text.count '\n' := by
      have hlt := (List.getElem?_eq_some_iff.mp hraw).1
      rw [Text.length_lines, Text.lineCount] at hlt
      omega
    have hstarts : Text.StartsLine above := by
      show Text.StartsLine (d.text.take (d.text.positionOfLine l.line))
      rw [hline, Text.positionOfLine_succ]
      exact Text.startsLine_take_afterNewlines hk
    have hends := Text.startsLine_or_drop_eq_nil d.text (k + 1)
    rw [← Text.positionOfLine_succ, ← hline] at hends
    exact Comment.modeAfter_eq_iff_sameOpen hstarts (hends.resolve_right hbelow)
  refine ⟨htext, hinventory, hmodes, fun hsame => hinventory.mpr ?_⟩
  by_cases hbelow : below = []
  · rw [hbelow]
    rfl
  · rw [(hmodes hbelow).mpr hsame]

def framedIncludes : Document :=
  .new .source "/* x */ #include <a>\n\n#include <b> /* y\nz */\n#include <a> // w".toList none

theorem inventory_removeInclude_framed :
    let removed := framedIncludes.removeInclude "<a>".toList
    framedIncludes.block = none ∧ removed.2 = .ok true ∧
      removed.1.inventory = [⟨⟨['b'], .angled⟩, 2⟩, ⟨⟨['a'], .angled⟩, 4⟩] := by
  have haccepted : (framedIncludes.removeInclude "<a>".toList).2 = .ok true := by decide +kernel
  refine ⟨rfl, haccepted, ?_⟩
  obtain ⟨i, l, hparse, hfind, -, -, hmodes, hsame⟩ :=
    inventory_removeInclude_iff (d := framedIncludes) rfl haccepted
  have hname : Include.parse? "<a>".toList = some ⟨['a'], .angled⟩ := by decide
  rw [hname] at hparse
  obtain rfl := Option.some.inj hparse
  have hfirst : framedIncludes.inventory.find? ['a'] = some ⟨⟨['a'], .angled⟩, 1⟩ := by
    decide +kernel
  rw [hfirst] at hfind
  obtain rfl := Option.some.inj hfind
  rw [hsame ((hmodes (by decide +kernel)).mp (by decide +kernel))]
  decide +kernel

def endsComment : Document :=
  .new .source "/* x\n*/ #include <a>\n#include <b>\n".toList none

def beginsLiteral : Document :=
  .new .source "#include <a> \"\\\n/*\n#include <b>\n".toList none

/-- With its line the comment loses its end, and the second include is lost in it. A comment marker
that was in the literal begins a comment without it. -/
theorem removeInclude_loses_include :
    (let removed := endsComment.removeInclude "<a>".toList
    endsComment.block = none ∧ removed.2 = .ok true ∧
      Include.parse? "<a>".toList = some ⟨['a'], .angled⟩ ∧
      removed.1.text = "/* x\n#include <b>\n".toList ∧ removed.1.inventory = [] ∧
      endsComment.inventory.without ['a'] = [⟨⟨['b'], .angled⟩, 2⟩] ∧
      removed.1.inventory ≠ endsComment.inventory.without ['a']) ∧
    let removed := beginsLiteral.removeInclude "<a>".toList
    beginsLiteral.block = none ∧ removed.2 = .ok true ∧
      removed.1.text = "/*\n#include <b>\n".toList ∧ removed.1.inventory = [] ∧
      beginsLiteral.inventory.without ['a'] = [⟨⟨['b'], .angled⟩, 2⟩] := by
  decide +kernel

end Document

end SourceEdit
