import SourceEdit.Proofs.Confinement
import SourceEdit.Proofs.EditedText
import SourceEdit.Proofs.LiteralSearch
import SourceEdit.Proofs.OpenBlocks

set_option autoImplicit false

namespace SourceEdit

namespace Text

theorem occursAt_line (above s below : Text) :
    (above ++ '\n' :: (s ++ '\n' :: below)).OccursAt s true (above.length + 1) := by
  have hlength : (above ++ ['\n']).length = above.length + 1 := List.length_append
  rw [List.append_cons, ← hlength]
  refine ⟨by simp, ?_, fun _ => ?_, fun _ => ?_⟩
  · rw [List.drop_left]
    exact List.prefix_append s _
  · rw [List.take_left, List.getLast?_concat]
    exact not_isWord_newline
  · rw [← List.length_append, ← List.append_assoc, List.getElem?_append_right (Nat.le_refl _),
      Nat.sub_self]
    exact not_isWord_newline

theorem findForward?_of_occursAt {p : Pattern} {s : Text} {wholeWord : Bool}
    (hp : Pattern.Steps p (Needle.step s wholeWord)) {t : Text} {k : Nat}
    (h : t.OccursAt s wholeWord k) : (t.findForward? p 0).isSome = true := by
  rw [findForward?_eq hp, Option.isSome_map, List.find?_isSome]
  exact ⟨k, List.mem_range.mpr (Nat.lt_succ_of_le h.le), by simpa using h⟩

end Text

namespace ForwardDeclaration

/-- How a namespace opens. -/
def opening (outer : Text) : Text := "namespace ".toList ++ outer ++ [' ', '{']

/-- The lines of a declaration: the namespaces open one after another, and they close behind the
statement. -/
def rows (f : ForwardDeclaration) : List Text :=
  f.namespaces.map opening ++ f.statement :: List.replicate f.namespaces.length ['}']

/-- The lines with a newline in front of them and one behind. -/
def inserted (f : ForwardDeclaration) : Text := Text.joinWith ['\n'] ([] :: f.rows ++ [[]])

theorem rows_ne_nil (f : ForwardDeclaration) : f.rows ≠ [] :=
  List.append_ne_nil_of_right_ne_nil _ (List.cons_ne_nil _ _)

theorem rows_cons (keyword outer : Text) (rest : List Text) (name : Text) :
    rows ⟨keyword, outer :: rest, name⟩ =
      opening outer :: (rows ⟨keyword, rest, name⟩ ++ [['}']]) := by
  simp [rows, statement, List.replicate_succ']

theorem wrap_eq (outer inner : Text) :
    wrap outer inner = opening outer ++ ['\n'] ++ (inner ++ ['\n'] ++ ['}']) := by
  unfold wrap opening
  generalize "namespace ".toList = word
  simp

theorem render_eq (f : ForwardDeclaration) : f.render = Text.joinWith ['\n'] f.rows := by
  obtain ⟨keyword, namespaces, name⟩ := f
  induction namespaces with
  | nil => rfl
  | cons outer rest ih =>
    have hinner := rows_ne_nil ⟨keyword, rest, name⟩
    have hclosed : Text.joinWith ['\n'] (rows ⟨keyword, rest, name⟩ ++ [['}']]) =
        render ⟨keyword, rest, name⟩ ++ ['\n'] ++ ['}'] := by
      rw [Text.joinWith_append _ hinner (List.cons_ne_nil ['}'] []), ih]
      rfl
    rw [rows_cons, Text.joinWith_cons _ _ (List.append_ne_nil_of_left_ne_nil hinner _), hclosed]
    exact wrap_eq outer _

theorem inserted_eq (f : ForwardDeclaration) : f.inserted = '\n' :: f.render ++ ['\n'] := by
  rw [inserted, List.cons_append,
    Text.joinWith_cons _ _ (List.append_ne_nil_of_left_ne_nil f.rows_ne_nil _),
    Text.joinWith_append _ f.rows_ne_nil (List.cons_ne_nil _ _), ← render_eq]
  simp [Text.joinWith]

/-- Whatever the namespaces are, the statement has a line of its own. -/
theorem exists_inserted_eq (f : ForwardDeclaration) : ∃ above below,
    f.inserted = above ++ '\n' :: (f.statement ++ '\n' :: below) := by
  have hrows : [] :: f.rows ++ [[]] = ([] :: f.namespaces.map opening) ++
      f.statement :: (List.replicate f.namespaces.length ['}'] ++ [[]]) := by
    simp [rows]
  rw [inserted, hrows, Text.joinWith_append _ (List.cons_ne_nil _ _) (List.cons_ne_nil _ _),
    Text.joinWith_cons _ f.statement (List.append_ne_nil_of_right_ne_nil _ (List.cons_ne_nil _ _)),
    List.append_assoc, List.append_assoc]
  exact ⟨_, _, rfl⟩

end ForwardDeclaration

namespace Document

variable {d : Document} {t : Text}

theorem insertForwardDeclaration_of_declarable {f : ForwardDeclaration} (h : d.Declarable t f)
    {offset : Nat} (hoffset : lastIncludeLineEnd? d.text = some offset) :
    d.insertForwardDeclaration t = d.editOrFail [.insertion offset f.inserted] none := by
  rw [insertForwardDeclaration, h.header, h.parse, f.inserted_eq]
  dsimp only
  rw [h.absent, hoffset]
  rfl

theorem exists_declarable (haccepted : (d.insertForwardDeclaration t).2 = .ok true) :
    ∃ f offset, d.Declarable t f ∧ lastIncludeLineEnd? d.text = some offset := by
  unfold insertForwardDeclaration at haccepted
  split at haccepted
  · next f hheader hparse =>
    split at haccepted
    · simp at haccepted
    · next hnew =>
      split at haccepted
      · simp at haccepted
      · next offset hoffset =>
        exact ⟨f, offset, ⟨hheader, hparse, by simpa using hnew⟩, hoffset⟩
  · simp at haccepted

theorem insertForwardDeclaration_of_occursAt {f : ForwardDeclaration}
    (hparse : ForwardDeclaration.parse? t = some f) {k : Nat}
    (h : d.text.OccursAt f.statement true k) : d.insertForwardDeclaration t = (d, .ok false) := by
  have hfound := Text.findForward?_of_occursAt
    (Needle.steps_wholeWord (Pattern.steps_ofText f.statement)) h
  unfold insertForwardDeclaration
  split
  · next f' _ hparse' =>
    obtain rfl := Option.some.inj (hparse.symm.trans hparse')
    rw [if_pos hfound]
  · rfl

theorem editOrFail_eq_withBlock {b : EditBlock} (hb : d.block = some b) (hdepth : 1 ≤ b.depth)
    (edits : List Edit) : d.editOrFail edits none =
      ({ d with block := some { b with edits := b.edits ++ edits } }, .ok true) := by
  rw [editOrFail, edit_eq_withBlock hb hdepth, Option.none_or]

/-- A declaration of the same statement, in whatever namespaces. -/
structure Repeats (f f' : ForwardDeclaration) : Prop where
  keyword : f'.keyword = f.keyword
  name : f'.name = f.name

theorem Repeats.statement {f f' : ForwardDeclaration} (h : Repeats f f') :
    f'.statement = f.statement := by
  rw [ForwardDeclaration.statement, ForwardDeclaration.statement, h.keyword, h.name]

theorem Declarable.repeated {d' : Document} {t' : Text} {f f' : ForwardDeclaration}
    (h : d.Declarable t f) (hfile : d'.fileName = d.fileName) (htext : d'.text = d.text)
    (hparse : ForwardDeclaration.parse? t' = some f') (hrepeats : Repeats f f') :
    d'.Declarable t' f' where
  header := by
    rw [isHeader, hfile]
    exact h.header
  parse := hparse
  absent := by
    rw [htext, hrepeats.statement]
    exact h.absent

/-- For every document and every declaration that it accepts: without an open block, the lines of
the declaration are inserted, each namespace on its own, and a declaration that repeats it is
refused. In an open block they are recorded, the text stays, and a repetition is accepted as well.
-/
theorem insertForwardDeclaration_again (haccepted : (d.insertForwardDeclaration t).2 = .ok true) :
    ∃ f offset, ForwardDeclaration.parse? t = some f ∧ offset ≤ d.text.length ∧
      let d' := (d.insertForwardDeclaration t).1
      (d.block = none →
        d'.text = d.text.take offset ++ f.inserted ++ d.text.drop offset ∧
        ∀ t' f', ForwardDeclaration.parse? t' = some f' → Repeats f f' →
          d'.insertForwardDeclaration t' = (d', .ok false)) ∧
      ∀ b, d.block = some b → 1 ≤ b.depth →
        d' = { d with
          block := some { b with edits := b.edits ++ [.insertion offset f.inserted] } } ∧
        ∀ t' f', ForwardDeclaration.parse? t' = some f' → Repeats f f' →
          (d'.insertForwardDeclaration t').2 = .ok true := by
  obtain ⟨f, offset, hdeclarable, hoffset⟩ := exists_declarable haccepted
  have hle := lastIncludeLineEnd?_le hoffset
  refine ⟨f, offset, hdeclarable.parse, hle, ?_⟩
  rw [insertForwardDeclaration_of_declarable hdeclarable hoffset]
  refine ⟨fun hclosed => ?_, fun b hb hdepth => ?_⟩
  · obtain ⟨d', hedit, -, htext⟩ := editOrFail_single hclosed (Nat.le_refl _) hle f.inserted
    rw [Edit.insertion, hedit]
    refine ⟨htext, fun t' f' hparse hrepeats => ?_⟩
    obtain ⟨above, below, hinserted⟩ := f.exists_inserted_eq
    have hline : d'.text = (d.text.take offset ++ above) ++
        '\n' :: (f.statement ++ '\n' :: (below ++ d.text.drop offset)) := by
      rw [htext, hinserted]
      simp
    have hthere :
        d'.text.OccursAt f'.statement true ((d.text.take offset ++ above).length + 1) := by
      rw [hline, hrepeats.statement]
      exact Text.occursAt_line _ _ _
    exact insertForwardDeclaration_of_occursAt hparse hthere
  · rw [editOrFail_eq_withBlock hb hdepth]
    refine ⟨rfl, fun t' f' hparse hrepeats => ?_⟩
    generalize hd' : { d with block := _ } = d'
    have htext : d'.text = d.text := by rw [← hd']
    have hdeclarable' := hdeclarable.repeated (by rw [← hd']) htext hparse hrepeats
    obtain ⟨b', hb', hdepth'⟩ : d'.Opened :=
      ⟨{ b with edits := b.edits ++ [.insertion offset f.inserted] }, by rw [← hd'], hdepth⟩
    rw [insertForwardDeclaration_of_declarable hdeclarable' (htext ▸ hoffset),
      editOrFail_eq_withBlock hb' hdepth']

theorem insertForwardDeclaration_again_refused :
    let d := new .source "#include <a>\n".toList (some "foo.h".toList)
    let d' := (d.insertForwardDeclaration "class N::A".toList).1
    (d.insertForwardDeclaration "class N::A".toList).2 = .ok true ∧
      d'.text = "#include <a>\nnamespace N \x7b\nclass A;\n\x7d\n\n".toList ∧
      d'.insertForwardDeclaration "class A".toList = (d', .ok false) := by
  intro d d'
  have haccepted : (d.insertForwardDeclaration "class N::A".toList).2 = .ok true := by
    decide +kernel
  obtain ⟨f, offset, hparse, -, hclosed, -⟩ := insertForwardDeclaration_again haccepted
  have hf : ForwardDeclaration.parse? "class N::A".toList =
      some ⟨"class".toList, [['N']], ['A']⟩ := by decide +kernel
  obtain rfl := Option.some.inj (hf.symm.trans hparse)
  exact ⟨haccepted, by decide +kernel,
    (hclosed rfl).2 _ ⟨"class".toList, [], ['A']⟩ (by decide +kernel) ⟨rfl, rfl⟩⟩

/-- In one open block a declaration and its repetition are both accepted, and when it closes the
text has both. -/
theorem insertForwardDeclaration_again_in_block :
    let d := (new .source "#include <a>\n".toList (some "foo.h".toList)).openBlock
    let first := d.insertForwardDeclaration "class A".toList
    let second := first.1.insertForwardDeclaration "class N::A".toList
    first.2 = .ok true ∧ second.2 = .ok true ∧
      (second.1.closeBlock false).1.text =
        "#include <a>\nclass A;\n\nnamespace N \x7b\nclass A;\n\x7d\n\n".toList := by
  intro d first second
  have hrecorded : second.1 = { d with block := some ⟨1, [.insertion 12 "\nclass A;\n".toList,
      .insertion 12 "\nnamespace N \x7b\nclass A;\n\x7d\n".toList], none⟩ } := by
    decide +kernel
  refine ⟨by decide +kernel, by decide +kernel, ?_⟩
  rw [hrecorded]
  simp only [closeBlock, commit, Nat.lt_irrefl, if_false]
  rw [Edit.sort_of_pairwise (by decide +kernel)]
  decide +kernel

end Document

end SourceEdit
