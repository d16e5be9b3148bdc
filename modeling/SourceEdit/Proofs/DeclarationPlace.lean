import SourceEdit.Proofs.BlankedTwice
import SourceEdit.Proofs.EditedText
import SourceEdit.Proofs.IncludeForms
import SourceEdit.Proofs.IncludeSearch
import SourceEdit.Proofs.MarkedLines

/-!
Where a forward declaration comes to stand. It goes below the last line of the text that begins with an
include directive, whether or not that line is in a comment, while the inventory has the lines that
begin with one once the comments are blanked.
-/

set_option autoImplicit false

namespace SourceEdit

namespace Text

variable {t l : Text} {k : Nat}

theorem exists_of_lines_cons {ls : List Text} (h : lines t = l :: ls) :
    '\n' ∉ l ∧ (t = l ∧ ls = [] ∨ ∃ below, t = l ++ '\n' :: below ∧ ls = lines below) := by
  induction t using line_induction with
  | last raw hraw =>
    rw [lines_of_not_mem hraw, List.cons.injEq] at h
    exact ⟨h.1 ▸ hraw, .inl ⟨h.1, h.2.symm⟩⟩
  | more raw rest hraw _ =>
    rw [lines_append, lines_of_not_mem hraw, List.singleton_append, List.cons.injEq] at h
    exact ⟨h.1 ▸ hraw, .inr ⟨rest, by rw [h.1], h.2.symm⟩⟩

theorem lines_cut_end (h : (lines t)[k]? = some l) :
    lines (t.take (afterNewlines k t + l.length)) = (lines t).take (k + 1) ∧
      (t.drop (afterNewlines k t + l.length) = [] ∧ (lines t).drop (k + 1) = [] ∨
        ∃ below, t.drop (afterNewlines k t + l.length) = '\n' :: below ∧
          (lines t).drop (k + 1) = lines below) := by
  obtain ⟨hlt, hl⟩ := List.getElem?_eq_some_iff.mp h
  have hk : k ≤ t.count '\n' := Nat.le_of_lt_succ (by rwa [length_lines] at hlt)
  obtain ⟨habove, hbelow⟩ := lines_cut hk
  rw [List.drop_eq_getElem_cons hlt, hl] at hbelow
  have hcut := exists_of_lines_cons hbelow
  rw [List.take_add, (startsLine_take_afterNewlines hk).lines_append, habove, List.take_add_one, h,
    ← List.drop_drop]
  obtain ⟨hclean, ⟨hlast, hnone⟩ | ⟨below, hmore, hlines⟩⟩ := hcut
  · rw [hlast, hnone, List.take_length, lines_of_not_mem hclean, List.drop_length]
    exact ⟨rfl, .inl ⟨rfl, rfl⟩⟩
  · rw [hmore, hlines, List.take_left, lines_of_not_mem hclean, List.drop_left]
    exact ⟨rfl, .inr ⟨below, rfl, rfl⟩⟩

theorem lines_insert_below (h : (lines t)[k]? = some l) (inserted : Text) :
    lines (t.take (afterNewlines k t + l.length) ++ ('\n' :: inserted ++ ['\n']) ++
        t.drop (afterNewlines k t + l.length)) =
      (lines t).take (k + 1) ++ (lines inserted ++ [] :: (lines t).drop (k + 1)) := by
  have hbelow : lines (t.drop (afterNewlines k t + l.length)) = [] :: (lines t).drop (k + 1) := by
    rcases (lines_cut_end h).2 with ⟨hdrop, hlines⟩ | ⟨below, hdrop, hlines⟩
    · rw [hdrop, hlines]
      rfl
    · rw [hdrop, hlines]
      exact lines_append [] below
  rw [List.append_assoc, List.cons_append, List.cons_append, lines_append, List.append_assoc,
    List.singleton_append, lines_append, (lines_cut_end h).1, hbelow]

end Text

namespace Comment

/-- The mode in which the scan goes on below these lines. -/
def modeBelow (ls : List Text) : Mode :=
  ls.foldl (fun mode l => (modeAfter {} mode [] l).atNewline) .code

theorem modeBelow_lines (t : Text) : modeBelow (Text.lines t) = (modeAfter {} .code [] t).atNewline := by
  have hfrom (mode : Mode) : (Text.lines t).foldl (fun mode l => (modeAfter {} mode [] l).atNewline)
      mode = (modeAfter {} mode [] t).atNewline := by
    induction t using Text.line_induction generalizing mode with
    | last l hl => rw [Text.lines_of_not_mem hl]; rfl
    | more l rest hl ih =>
      rw [Text.lines_append, Text.lines_of_not_mem hl, List.singleton_append, List.foldl_cons, ih,
        modeAfter_append_newline]
  exact hfrom .code

theorem modeBelow_cases (t : Text) : (modeBelow (Text.lines t)).blanked = modeBelow (Text.lines t) ∨
    ∃ skip, modeBelow (Text.lines t) = .block skip := by
  have hend := modeAfter_ne_blockEnd t
  rw [modeBelow_lines]
  cases hmode : modeAfter {} .code [] t with
  | code => exact .inl rfl
  | literal quote escaped => cases escaped <;> exact .inl rfl
  | line => exact .inl rfl
  | block skip => exact .inr ⟨skip - 1, rfl⟩
  | blockEnd left => exact absurd hmode (hend left)

theorem length_lines_scan (mode : Mode) (t : Text) :
    (Text.lines (scan {} mode [] t)).length = (Text.lines t).length := by
  have hlengths := congrArg List.length (Inventory.length_lines_scan mode t)
  rwa [List.length_map, List.length_map] at hlengths

theorem lines_blankOut_inserted (above inserted below : Text) :
    ((Text.lines (blankOut (above ++ '\n' :: (inserted ++ '\n' :: below)))).drop
        (Text.lines above).length).take (Text.lines inserted).length =
      Text.lines (scan {} (modeBelow (Text.lines above)) [] inserted) := by
  have hlength : (Text.lines (blankOut above)).length = (Text.lines above).length :=
    length_lines_scan .code above
  rw [blankOut, blankOutWith, scan_append_newline, scan_append_newline, Text.lines_append,
    Text.lines_append, ← hlength, ← length_lines_scan (modeBelow (Text.lines above)) inserted,
    ← modeBelow_lines]
  exact (congrArg _ List.drop_left).trans List.take_left

theorem step_block_shown (skip : Nat) (line : Text) (c : Char) (rest : Text) :
    (step {} (.block skip) line c rest).1 = blank c := by
  cases skip with
  | zero =>
    rw [step]
    split <;> rfl
  | succ skip => rfl

theorem scan_eq_self {mode : Mode} (hmode : mode.blanked = mode) {t : Text} (h : '/' ∉ t)
    (line : Text) : scan {} mode line t = t := by
  induction t generalizing mode line with
  | nil => rfl
  | cons c rest ih =>
    rw [List.mem_cons, not_or] at h
    have hplain : ¬mode.Commented (c :: rest) := by
      cases mode with
      | code => exact not_opensComment (Ne.symm h.1) rest
      | literal => exact not_false
      | line | block | blockEnd => contradiction
    rw [scan_cons, step_of_not_commented hplain, ih (blanked_next hmode line c) h.2]

end Comment

namespace ForwardDeclaration

theorem mem_of_mem_qualifiers {t q : Text} (hq : q ∈ qualifiers t) {c : Char} (hc : c ∈ q) : c ∈ t := by
  fun_induction qualifiers t generalizing q with
  | case1 =>
    rw [List.mem_singleton.mp hq] at hc
    exact hc
  | case2 rest ih =>
    rcases List.mem_cons.mp hq with rfl | hq
    · exact absurd hc List.not_mem_nil
    · exact .tail _ (.tail _ (ih hq hc))
  | case3 d rest _ hnil ih =>
    rw [List.mem_singleton.mp hq, List.mem_singleton] at hc
    exact hc ▸ List.mem_cons_self
  | case4 d rest _ first others hrest ih =>
    rcases List.mem_cons.mp hq with rfl | hq
    · rcases List.mem_cons.mp hc with rfl | hc
      · exact List.mem_cons_self
      · exact .tail _ (ih (hrest ▸ List.mem_cons_self) hc)
    · exact .tail _ (ih (hrest ▸ .tail _ hq) hc)

theorem parse?_parts {t : Text} {f : ForwardDeclaration} (h : parse? t = some f) :
    (f.keyword = "class".toList ∨ f.keyword = "struct".toList) ∧
      ∀ name ∈ f.name :: f.namespaces, ∀ c ∈ name, c ∈ t := by
  obtain ⟨keyword, rest, hspan⟩ : ∃ keyword rest,
      (Text.strip t).span (· ≠ ' ') = (keyword, rest) := ⟨_, _, rfl⟩
  rw [parse?, hspan] at h
  dsimp only at h
  split at h
  · contradiction
  next hvalid =>
  rw [Bool.or_eq_true, not_or, Bool.not_eq_true, Bool.not_eq_false'] at hvalid
  obtain rfl := Option.some.inj h
  have hkeyword := hvalid.1
  rw [isKeyword, Bool.or_eq_true, decide_eq_true_eq, decide_eq_true_eq] at hkeyword
  refine ⟨hkeyword, fun name hname c hc => ?_⟩
  have hrest : ∀ d ∈ Text.strip (rest.drop 1), d ∈ t := by
    intro d hd
    have hbehind := List.mem_of_mem_drop (Text.mem_of_mem_strip hd)
    rw [List.span_eq_takeWhile_dropWhile, Prod.mk.injEq] at hspan
    rw [← hspan.2] at hbehind
    exact Text.mem_of_mem_strip ((List.dropWhile_sublist _).subset hbehind)
  have hpart : name = [] ∨ name ∈ qualifiers (Text.strip (rest.drop 1)) := by
    rcases List.mem_cons.mp hname with rfl | hname
    · cases hlast : (qualifiers (Text.strip (rest.drop 1))).getLast? with
      | none => exact .inl rfl
      | some last => exact .inr (List.mem_of_getLast? hlast)
    · exact .inr ((List.dropLast_sublist _).subset hname)
  rcases hpart with rfl | hpart
  · exact absurd hc List.not_mem_nil
  · exact hrest c (mem_of_mem_qualifiers hpart hc)

theorem exists_render_cons {t : Text} {f : ForwardDeclaration} (h : parse? t = some f) :
    ∃ c rest, f.render = c :: rest ∧ c ≠ ' ' ∧ c ≠ '\n' := by
  obtain ⟨keyword, namespaces, name⟩ := f
  cases namespaces with
  | nil =>
    rcases (parse?_parts h).1 with hkeyword | hkeyword <;> simp only at hkeyword <;> subst hkeyword
    · exact ⟨'c', _, rfl, by decide, by decide⟩
    · exact ⟨'s', _, rfl, by decide, by decide⟩
  | cons outer namespaces => exact ⟨'n', _, rfl, by decide, by decide⟩

theorem slash_not_mem_wrap {outer inner : Text} (houter : '/' ∉ outer) (hinner : '/' ∉ inner) :
    '/' ∉ wrap outer inner := by
  have hopening : '/' ∉ "namespace ".toList := by decide +kernel
  have hbrace : '/' ∉ [' ', '{', '\n'] := by decide
  have hclosing : '/' ∉ ['\n', '}'] := by decide
  exact List.not_mem_append (List.not_mem_append (List.not_mem_append
    (List.not_mem_append hopening houter) hbrace) hinner) hclosing

theorem slash_not_mem_wrapped {names : List Text} (h : ∀ name ∈ names, '/' ∉ name) {inner : Text}
    (hinner : '/' ∉ inner) : '/' ∉ names.foldr wrap inner := by
  induction names with
  | nil => exact hinner
  | cons outer names ih =>
    exact slash_not_mem_wrap (h outer List.mem_cons_self) (ih fun name hname => h name (.tail _ hname))

theorem slash_not_mem_render {t : Text} {f : ForwardDeclaration} (h : parse? t = some f)
    (ht : '/' ∉ t) : '/' ∉ f.render := by
  obtain ⟨hkeyword, hnames⟩ := parse?_parts h
  have hname : ∀ name ∈ f.name :: f.namespaces, '/' ∉ name :=
    fun name hname hmem => ht (hnames name hname '/' hmem)
  rw [List.forall_mem_cons] at hname
  obtain ⟨keyword, namespaces, name⟩ := f
  have hstatement : '/' ∉ statement ⟨keyword, namespaces, name⟩ := by
    simp only [statement, List.mem_append, List.mem_cons, List.not_mem_nil, or_false, not_or]
    refine ⟨⟨?_, by decide, hname.1⟩, by decide⟩
    rcases hkeyword with hkeyword | hkeyword <;> simp only at hkeyword <;> subst hkeyword <;> decide
  exact slash_not_mem_wrapped hname.2 hstatement

end ForwardDeclaration

namespace Directive

theorem exists_of_getLast?_filter {α : Type} {p : α → Bool} {xs : List α} {x : α}
    (h : (xs.filter p).getLast? = some x) :
    ∃ front back, xs = front ++ x :: back ∧ p x = true ∧ ∀ y ∈ back, p y = false := by
  rw [List.getLast?_eq_head?_reverse, ← List.filter_reverse, List.head?_filter,
    List.find?_eq_some_iff_append] at h
  obtain ⟨hx, back, front, hxs, hback⟩ := h
  refine ⟨front.reverse, back.reverse, ?_, hx, fun y hy => ?_⟩
  · rw [← List.reverse_reverse xs, hxs]
    simp
  · simpa using hback y (List.mem_reverse.mp hy)

/-- This line of the text, counted from zero, begins with an include directive. -/
def OpensInclude (t : Text) (k : Nat) : Prop :=
  ∃ l, (Text.lines t)[k]? = some l ∧ (behind? includeKeyword l).isSome = true

/-- It is the last one that does. -/
structure LastOpening (t : Text) (k : Nat) : Prop where
  opens : OpensInclude t k
  last : ∀ j, k < j → ¬OpensInclude t j

theorem exists_placed {t l : Text} {k : Nat} (h : (Text.lines t)[k]? = some l) :
    (placed t)[k]? = some (t.afterNewlines k, l) := by
  have hplaced : (placed t)[k]? = _ := getElem?_placedFrom 0 t k
  rw [hplaced, h, Option.map_some, Nat.zero_add]

end Directive

namespace Document

open Comment (blankOut modeBelow scan)
open Directive (LastOpening OpensInclude behind? includeKeyword)

variable {d : Document} {t : Text} {k : Nat}

theorem lastIncludeLineEnd?_eq_none (h : lastIncludeLineEnd? t = none) (k : Nat) : ¬OpensInclude t k := by
  rintro ⟨l, hl, hopens⟩
  rw [lastIncludeLineEnd?, Option.map_eq_none_iff, List.getLast?_eq_none_iff] at h
  have hmem := List.mem_of_getElem? (Directive.exists_placed hl)
  have hnone := List.filter_eq_nil_iff.mp h _ hmem
  exact hnone hopens

theorem exists_lastOpening {offset : Nat} (h : lastIncludeLineEnd? t = some offset) :
    ∃ k l, LastOpening t k ∧ (Text.lines t)[k]? = some l ∧
      offset = t.afterNewlines k + l.length := by
  obtain ⟨l, hl, rfl⟩ := Option.map_eq_some_iff.mp h
  obtain ⟨front, back, hplaced, hopens, hback⟩ := Directive.exists_of_getLast?_filter hl
  have hat : (Directive.placed t)[front.length]? = some l := by rw [hplaced]; simp
  obtain ⟨hline, hoffset⟩ := Directive.isLine_of_getElem? hat
  refine ⟨front.length, l.2, ⟨⟨l.2, hline, hopens⟩, ?_⟩, hline, by rw [hoffset]⟩
  rintro j hj ⟨raw, hraw, hraws⟩
  have hbelow := Directive.exists_placed hraw
  rw [hplaced, List.getElem?_append_right (Nat.le_of_lt hj),
    show j - front.length = (j - front.length - 1) + 1 by omega, List.getElem?_cons_succ] at hbelow
  have hnone := hback _ (List.mem_of_getElem? hbelow)
  exact Bool.false_ne_true (hnone.symm.trans hraws)

/-- The inventory has its last include on this line just if the line holds one and none below it does. -/
theorem inventory_getLast?_iff : d.inventory.getLast?.map (·.line) = some (k + 1) ↔
    (∃ i, Inventory.HeldAt .code d.text k i) ∧ ∀ j i, k < j → ¬Inventory.HeldAt .code d.text j i := by
  have hmem (l : IncludeLine) : l ∈ d.inventory ↔
      ∃ j, l.line = 1 + j ∧ Inventory.HeldAt .code d.text j l.item := by
    rw [inventory, Inventory.ofSource_eq_ofLines, Inventory.mem_ofLines_iff]
  have hsorted : d.inventory.Pairwise (·.line < ·.line) := Inventory.pairwise_ofSource d.text
  have hgreatest {l : IncludeLine} (hl : d.inventory.getLast? = some l) :
      ∀ m ∈ d.inventory, m.line ≤ l.line := by
    obtain ⟨front, hfront⟩ := List.getLast?_eq_some_iff.mp hl
    rw [hfront] at hsorted ⊢
    intro m hm
    rcases List.mem_append.mp hm with hm | hm
    · exact Nat.le_of_lt ((List.pairwise_append.mp hsorted).2.2 m hm l (List.mem_singleton_self l))
    · rw [List.mem_singleton.mp hm]
  constructor
  · intro h
    obtain ⟨l, hl, hline⟩ := Option.map_eq_some_iff.mp h
    obtain ⟨j, hj, hheld⟩ := (hmem l).mp (List.mem_of_getLast? hl)
    obtain rfl : j = k := by omega
    refine ⟨⟨l.item, hheld⟩, fun j' i hlt hheld' => ?_⟩
    have hle := hgreatest hl ⟨i, 1 + j'⟩ ((hmem _).mpr ⟨j', rfl, hheld'⟩)
    simp only at hle
    omega
  · rintro ⟨⟨i, hheld⟩, hbelow⟩
    have hin : (⟨i, 1 + k⟩ : IncludeLine) ∈ d.inventory := (hmem _).mpr ⟨k, rfl, hheld⟩
    obtain ⟨l, hl⟩ := Option.ne_none_iff_exists'.mp
      (mt List.getLast?_eq_none_iff.mp (List.ne_nil_of_mem hin))
    obtain ⟨j, hj, hlast⟩ := (hmem l).mp (List.mem_of_getLast? hl)
    have hle := hgreatest hl _ hin
    have hge : ¬k < j := fun hlt => hbelow j l.item hlt hlast
    simp only at hle
    rw [hl, Option.map_some, Option.some.injEq]
    omega

/-- The lines of a declaration are shown as they are below this line. -/
def ShowsBelow (d' : Document) (k : Nat) (f : ForwardDeclaration) : Prop :=
  ((Text.lines (blankOut d'.text)).drop (k + 1)).take (Text.lines f.render).length =
    Text.lines f.render

/-- The declaration stands below the last line that begins with an include directive. It is shown just if
the scan of it shows all in the mode in which it comes from above; without a slash in it, just if no
block comment comes down. The line is that of the last include in the inventory just if it holds
an include and no line below does. -/
structure DeclaredBelow (d d' : Document) (t : Text) (f : ForwardDeclaration) (k : Nat) : Prop where
  last : LastOpening d.text k
  lines : Text.lines d'.text = (Text.lines d.text).take (k + 1) ++
    (Text.lines f.render ++ [] :: (Text.lines d.text).drop (k + 1))
  shows_iff : d'.ShowsBelow k f ↔
    scan {} (modeBelow ((Text.lines d.text).take (k + 1))) [] f.render = f.render
  shows_plain_iff : '/' ∉ t → (d'.ShowsBelow k f ↔
    ∀ skip, modeBelow ((Text.lines d.text).take (k + 1)) ≠ .block skip)
  inventory_iff : d.inventory.getLast?.map (·.line) = some (k + 1) ↔
    (∃ i, Inventory.HeldAt .code d.text k i) ∧ ∀ j i, k < j → ¬Inventory.HeldAt .code d.text j i

theorem declaredBelow_insertion {d' : Document} {f : ForwardDeclaration} {l : Text}
    (hparse : ForwardDeclaration.parse? t = some f) (hlast : LastOpening d.text k)
    (hl : (Text.lines d.text)[k]? = some l)
    (htext : d'.text = d.text.take (d.text.afterNewlines k + l.length) ++ ('\n' :: f.render ++ ['\n']) ++
      d.text.drop (d.text.afterNewlines k + l.length)) : DeclaredBelow d d' t f k := by
  have habove := (Text.lines_cut_end hl).1
  have hmode := Comment.modeBelow_cases (d.text.take (d.text.afterNewlines k + l.length))
  have hlength : ((Text.lines d.text).take (k + 1)).length = k + 1 := by
    have hlt := (List.getElem?_eq_some_iff.mp hl).1
    rw [List.length_take]
    omega
  have hshows : d'.ShowsBelow k f ↔
      scan {} (modeBelow ((Text.lines d.text).take (k + 1))) [] f.render = f.render := by
    have hshown := Comment.lines_blankOut_inserted
      (d.text.take (d.text.afterNewlines k + l.length)) f.render
      (d.text.drop (d.text.afterNewlines k + l.length))
    rw [habove, hlength] at hshown
    have hjoined : d'.text = d.text.take (d.text.afterNewlines k + l.length) ++
        '\n' :: (f.render ++ '\n' :: d.text.drop (d.text.afterNewlines k + l.length)) := by
      rw [htext]
      simp
    rw [ShowsBelow, hjoined, hshown, Text.lines_inj]
  rw [habove] at hmode
  refine ⟨hlast, by rw [htext]; exact Text.lines_insert_below hl f.render, hshows, fun hslash => ?_,
    inventory_getLast?_iff⟩
  rw [hshows]
  rcases hmode with hplain | ⟨skip, hblock⟩
  · refine iff_of_true
      (Comment.scan_eq_self hplain (ForwardDeclaration.slash_not_mem_render hparse hslash) []) ?_
    intro skip hblock
    rw [hblock] at hplain
    contradiction
  · refine iff_of_false (fun hscan => ?_) fun h => h skip hblock
    obtain ⟨c, rest, hrender, hspace, hnewline⟩ := ForwardDeclaration.exists_render_cons hparse
    have hhead := (List.cons.inj ((Comment.scan_cons _ _ _ _ _).symm.trans
      (hblock ▸ hrender ▸ hscan))).1
    rw [Comment.step_block_shown, Comment.blank, if_neg hnewline] at hhead
    exact hspace hhead.symm

/-- The document is a header, the declaration is well formed and not there yet, and this is the last
line that begins with an include directive. -/
structure Declares (d : Document) (t : Text) (f : ForwardDeclaration) (k : Nat) : Prop
    extends Declarable d t f where
  last : LastOpening d.text k

theorem insertForwardDeclaration_declares (hclosed : d.block = none) (t : Text) :
    d.insertForwardDeclaration t = (d, .ok false) ∧ (∀ f k, ¬d.Declares t f k) ∨
      ∃ d' f k, d.insertForwardDeclaration t = (d', .ok true) ∧ d.Declares t f k ∧
        DeclaredBelow d d' t f k := by
  rcases insertForwardDeclaration_cases hclosed t with
    ⟨hrefused, hnone⟩ | ⟨d', f, offset, heq, hdeclarable, hoffset, htext⟩
  · exact .inl ⟨hrefused, fun f k h =>
      lastIncludeLineEnd?_eq_none (hnone f h.toDeclarable) k h.last.opens⟩
  · obtain ⟨k, l, hlast, hl, rfl⟩ := exists_lastOpening hoffset
    exact .inr ⟨d', f, k, heq, ⟨hdeclarable, hlast⟩,
      declaredBelow_insertion hdeclarable.parse hlast hl htext⟩

theorem Declares.unique {f f' : ForwardDeclaration} {k' : Nat} (h : d.Declares t f k)
    (h' : d.Declares t f' k') : f = f' ∧ k = k' := by
  refine ⟨Option.some.inj (h.parse.symm.trans h'.parse), ?_⟩
  have hnot := h.last.last k'
  have hnot' := h'.last.last k
  by_contra hne
  rcases Nat.lt_or_gt_of_ne hne with hlt | hlt
  · exact hnot hlt h'.last.opens
  · exact hnot' hlt h.last.opens

/-- For every document without an open block and every declaration: it is declared just if the document
is a header, the declaration is well formed and not there yet, and some line begins with an include
directive, be it in a comment; otherwise nothing changes. It stands below the last such line, and it is
shown there, with no slash in it, just if no block comment comes down from that line. The line is that
of the last include in the inventory just if it holds an include and no line below does. -/
theorem insertForwardDeclaration_below_opening (hclosed : d.block = none) (t : Text) :
    ((d.insertForwardDeclaration t).2 = .ok true ↔ ∃ f k, d.Declares t f k) ∧
    ((d.insertForwardDeclaration t).2 ≠ .ok true → d.insertForwardDeclaration t = (d, .ok false)) ∧
    ∀ f k, d.Declares t f k → DeclaredBelow d (d.insertForwardDeclaration t).1 t f k := by
  rcases insertForwardDeclaration_declares hclosed t with
    ⟨hrefused, hnone⟩ | ⟨d', f, k, heq, h, hbelow⟩
  · rw [hrefused]
    exact ⟨iff_of_false (by simp) fun ⟨f, k, h⟩ => hnone f k h, fun _ => rfl,
      fun f k h => absurd h (hnone f k)⟩
  · rw [heq]
    refine ⟨iff_of_true rfl ⟨f, k, h⟩, fun hne => absurd rfl hne, fun f' k' h' => ?_⟩
    obtain ⟨rfl, rfl⟩ := h.unique h'
    exact hbelow

def includingHeader : Document := new .source "#include <a>\nint x;".toList (some "foo.h".toList)

theorem lastOpening_includingHeader : LastOpening includingHeader.text 0 := by
  have hlines : Text.lines includingHeader.text =
      ["#include <a>".toList, "int x;".toList] := by decide +kernel
  refine ⟨⟨_, by rw [hlines]; rfl, by decide +kernel⟩, ?_⟩
  rintro j hj ⟨l, hl, hopens⟩
  rw [hlines] at hl
  match j with
  | 1 =>
    obtain rfl := Option.some.inj hl
    exact absurd hopens (by decide +kernel)
  | j + 2 => simp at hl

theorem insertForwardDeclaration_below_opening_live :
    let d := includingHeader
    let t := "class N::A".toList
    let f : ForwardDeclaration := ⟨"class".toList, [['N']], ['A']⟩
    d.block = none ∧ (d.insertForwardDeclaration t).2 = .ok true ∧ '/' ∉ t ∧ d.Declares t f 0 ∧
      (d.insertForwardDeclaration t).1.ShowsBelow 0 f ∧
      d.inventory.getLast?.map (·.line) = some 1 := by
  intro d t f
  have hslash : '/' ∉ t := by decide +kernel
  have hdeclares : d.Declares t f 0 :=
    ⟨⟨by decide +kernel, by decide +kernel, by decide +kernel⟩, lastOpening_includingHeader⟩
  obtain ⟨hiff, -, hbelow⟩ := insertForwardDeclaration_below_opening (show d.block = none from rfl) t
  have hdeclared := hbelow f 0 hdeclares
  have hmode : modeBelow ((Text.lines d.text).take 1) = .code := by decide +kernel
  have hopen : ∀ skip, modeBelow ((Text.lines d.text).take 1) ≠ .block skip := by
    intro skip
    rw [hmode]
    exact nofun
  exact ⟨rfl, hiff.mpr ⟨f, 0, hdeclares⟩, hslash, hdeclares,
    (hdeclared.shows_plain_iff hslash).mpr hopen, by decide +kernel⟩

/-- The line of the last include directive is in a comment, and so is the declaration; without any
include in the inventory it is declared all the same. -/
theorem insertForwardDeclaration_in_comment :
    let d := new .source "#include <a>\n/*\n#include <b>\n*/\n".toList (some "foo.h".toList)
    let d₁ := new .source "/*\n#include <a>\n*/\n".toList (some "foo.h".toList)
    let t := "class A".toList
    (d.insertForwardDeclaration t).2 = .ok true ∧
      (d.insertForwardDeclaration t).1.text =
        "#include <a>\n/*\n#include <b>\nclass A;\n\n*/\n".toList ∧
      blankOut (d.insertForwardDeclaration t).1.text =
        "#include <a>\n  \n            \n        \n\n  \n".toList ∧
      d.inventory.map (·.line) = [1] ∧
      d₁.inventory = [] ∧ (d₁.insertForwardDeclaration t).2 = .ok true := by
  decide +kernel

end Document

end SourceEdit
