import SourceEdit.Proofs.EditTools
import SourceEdit.Proofs.MarkedLines

set_option autoImplicit false

namespace SourceEdit

namespace Text

def filledComment (l : Text) : Text := if l = [] then [] else lineComment l

theorem filledComment_eq_self_iff {l : Text} : filledComment l = l ↔ l = [] := by
  rw [filledComment]
  split
  · next h => exact iff_of_true h.symm h
  · next h =>
    refine iff_of_false (fun hsame => ?_) h
    have hlength := congrArg List.length hsame
    rw [lineComment, List.length_append] at hlength
    exact absurd hlength (by simp)

theorem lineOfPosition_positionOfLine {t : Text} {k : Nat} (h : k < t.lineCount) :
    t.lineOfPosition (t.positionOfLine (k + 1 : Nat)) = k + 1 :=
  (t.placed_succ h).offsets 0 (Nat.zero_le _)

end Text

namespace Document

variable {d : Document}

theorem commentSelection_at_line (hclosed : d.block = none) {k : Nat} (hk : k < d.text.lineCount) :
    ∃ d' : Document,
      (d.setPosition (d.text.positionOfLine (k + 1 : Nat)) false).commentSelection = (d', none) ∧
        d'.block = none ∧
        Text.lines d'.text = Text.onLines Text.filledComment (k + 1) (k + 1) (Text.lines d.text) := by
  let d₁ := d.setPosition (d.text.positionOfLine (k + 1 : Nat)) false
  have hposition : d₁.position = d.text.positionOfLine (k + 1 : Nat) :=
    Nat.min_eq_left (Text.positionOfLine_le _ _)
  have hline : d₁.text.lineOfPosition d₁.position = k + 1 := by
    rw [hposition]
    exact Text.lineOfPosition_positionOfLine hk
  have hstart : d₁.lineStart d₁.position = d.text.afterNewlines k := by
    rw [lineStart, hline]
    exact d.text.positionOfLine_succ k
  have hraw : (Text.lines d.text)[k]? = some (d.text.line (k + 1 : Nat)) := by
    rw [Text.line_succ_eq, List.getElem?_eq_getElem (by rwa [Text.length_lines]), Option.getD_some]
  obtain ⟨d', hcomment, hblock, htext⟩ := commentSelection_unselected
    (show d₁.block = none from hclosed) (d.hasSelection_setPosition _)
  refine ⟨d', hcomment, hblock, ?_⟩
  rw [htext, hline, hstart]
  split
  · next hempty =>
    have hkeeps : Text.onLines Text.filledComment (k + 1) (k + 1) (Text.lines d.text) =
        Text.onLines id (k + 1) (k + 1) (Text.lines d.text) := by
      refine Text.onLines_congr fun j l hfirst hlast hl => ?_
      obtain rfl : j = k := by omega
      obtain rfl := Option.some.inj (hl.symm.trans hraw)
      exact Text.filledComment_eq_self_iff.mpr (List.isEmpty_iff.mp hempty)
    rw [hkeeps, Text.onLines_id]
    rfl
  · next hfilled =>
    have hmarked := Text.lines_take_append_changeLines (fun _ => Text.newline_not_mem_lineComment)
      (Nat.le_of_lt_succ hk) 1
    have hone : Text.changeLines Text.lineComment 1 (d.text.drop (d.text.afterNewlines k)) =
        ['/', '/'] ++ d.text.drop (d.text.afterNewlines k) := Text.changeLines_one _ _
    rw [hone, ← List.append_assoc] at hmarked
    refine hmarked.trans (Text.onLines_congr fun j l hfirst hlast hl => ?_)
    obtain rfl : j = k := by omega
    obtain rfl := Option.some.inj (hl.symm.trans hraw)
    have hne : d.text.line (j + 1 : Nat) ≠ [] := fun hnil => hfilled (List.isEmpty_iff.mpr hnil)
    rw [Text.filledComment, if_neg hne]

end Document

namespace Server

open Document

variable {s : Server} {p : Path} {d changed : Document} {first last : Int} {dryRun : Bool}

theorem commentEach_onLines (hclosed : d.block = none) {k n : Nat} (h : k + n ≤ d.text.lineCount) :
    ∃ d' : Document, commentEach ((List.range n).map (k + 1 + ·)) d = (d', none) ∧
      Text.lines d'.text = Text.onLines Text.filledComment (k + 1) (k + n) (Text.lines d.text) := by
  induction n generalizing d k with
  | zero => exact ⟨d, rfl, (Text.onLines_of_lt (Nat.lt_succ_self k) _).symm⟩
  | succ n ih =>
    obtain ⟨d₁, hline, hclosed₁, hlines₁⟩ := commentSelection_at_line hclosed (k := k) (by omega)
    have hcount : d₁.text.lineCount = d.text.lineCount := by
      rw [← Text.length_lines, hlines₁, Text.length_onLines, Text.length_lines]
    obtain ⟨d₂, hrest, hlines₂⟩ := ih hclosed₁ (k := k + 1) (by omega)
    have hrange : (List.range (n + 1)).map (k + 1 + ·) =
        (k + 1) :: (List.range n).map (k + 1 + 1 + ·) := by
      rw [List.range_succ_eq_map, List.map_cons, List.map_map]
      congr 2
      funext j
      rw [Function.comp_apply]
      omega
    refine ⟨d₂, ?_, ?_⟩
    · rw [hrange, commentEach, hline]
      exact hrest
    · rw [hlines₂, hlines₁, Text.onLines_onLines (Nat.le_succ _) (by omega), Nat.add_right_comm,
        Nat.add_assoc]

theorem commentRange_onLines (hclosed : d.block = none) (first last : Nat) (hfirst : 1 ≤ first)
    (hlast : first ≤ last) (hcount : first ≤ d.text.lineCount) :
    ∃ changed, commentRange first last d = (changed, .ok (changed.text != d.text)) ∧
      Text.lines changed.text =
        Text.onLines Text.filledComment first (min last d.text.lineCount) (Text.lines d.text) := by
  obtain ⟨k, rfl⟩ : ∃ k, first = k + 1 := ⟨first - 1, by omega⟩
  obtain ⟨n, hn⟩ : ∃ n, min last d.text.lineCount = k + n :=
    ⟨min last d.text.lineCount - k, by omega⟩
  obtain ⟨d', heach, hlines⟩ := commentEach_onLines hclosed (k := k) (n := n) (by omega)
  refine ⟨d', ?_, hn ▸ hlines⟩
  rw [commentRange, if_neg (Nat.not_lt.mpr hcount), hn, show k + n + 1 - (k + 1) = n by omega, heach]

/-- The lines of a text from this number to that one. -/
def RangeEmpty (t : Text) (first last : Int) : Prop :=
  ∀ number : Nat, first ≤ number → number ≤ min last t.lineCount → t.line number = []

theorem onLines_eq_self_iff (t : Text) (first last : Nat) (hfirst : 1 ≤ first) :
    Text.onLines Text.filledComment first (min last t.lineCount) (Text.lines t) = Text.lines t ↔
      RangeEmpty t first last := by
  have hraw {k : Nat} {l : Text} (hl : (Text.lines t)[k]? = some l) :
      k < t.lineCount ∧ t.line (k + 1 : Nat) = l := by
    have hk := (List.getElem?_eq_some_iff.mp hl).1
    rw [Text.length_lines] at hk
    exact ⟨hk, by rw [Text.line_succ_eq, hl, Option.getD_some]⟩
  constructor
  · intro h number hnumber hlast
    obtain ⟨k, rfl⟩ : ∃ k, number = k + 1 := ⟨number - 1, by omega⟩
    have hlt : k < (Text.lines t).length := by rw [Text.length_lines]; omega
    have hl := List.getElem?_eq_getElem hlt
    have hline := congrArg (·[k]?) h
    simp only [Text.getElem?_onLines, hl, Option.map_some, Option.some.injEq] at hline
    rw [if_pos (by omega), Text.filledComment_eq_self_iff] at hline
    rw [(hraw hl).2, hline]
  · intro h
    refine (Text.onLines_congr fun k l hk hlast hl => ?_).trans (Text.onLines_id _ _ _)
    obtain ⟨hlt, hline⟩ := hraw hl
    exact Text.filledComment_eq_self_iff.mpr (hline ▸ h (k + 1) (by omega) (by omega))

theorem exists_commentRange (hclosed : d.block = none) (hfirst : 1 ≤ first) (hlast : first ≤ last)
    (hcount : first ≤ d.text.lineCount) :
    ∃ changed, commentRange first.toNat last.toNat d = (changed, .ok (changed.text != d.text)) ∧
      Text.lines changed.text = Text.onLines Text.filledComment first.toNat
        (min last.toNat d.text.lineCount) (Text.lines d.text) ∧
      (changed.text = d.text ↔ RangeEmpty d.text first last) := by
  obtain ⟨changed, hrange, hlines⟩ := commentRange_onLines hclosed first.toNat last.toNat (by omega)
    (by omega) (by omega)
  refine ⟨changed, hrange, hlines, ?_⟩
  have hempty := onLines_eq_self_iff d.text first.toNat last.toNat (by omega)
  rw [Int.toNat_of_nonneg (by omega), Int.toNat_of_nonneg (by omega)] at hempty
  rw [← hempty, ← hlines, Text.lines_inj]

section
variable [Users] [FileLock]

/-- A call of the tool on a file with these lines, and what it does to them. -/
structure CommentsOut (s : Server) (p : Path) (first last : Int) (d changed : Document) : Prop where
  lines : Text.lines changed.text = Text.onLines Text.filledComment first.toNat
    (min last.toNat d.text.lineCount) (Text.lines d.text)
  unchanged : ∀ dryRun, (s.commentLines p first last dryRun).2.Begins "No change" ↔
    RangeEmpty d.text first last
  empty : RangeEmpty d.text first last → ∀ dryRun,
    s.commentLines p first last dryRun = (s, .unchanged "nothing to comment".toList)
  rehearsal : ¬RangeEmpty d.text first last → s.commentLines p first last true =
    (s, .preview (s.difference (changed.fileName.getD []) d changed))
  written : ¬RangeEmpty d.text first last → Path.isAbsolute s.fs.workDir = true → s.fs.IsTree →
    (∀ file, s.resolvePath p = .ok file → s.fs.isFile file = true → s.fs.FreeBeside file) →
    ∃ file, s.resolvePath p = .ok file ∧
      (s.fs.Savable file → (s.commentLines p first last false).2 =
          .edited (s.displayPath file) (s.difference file d changed) ∧
        s.fs.Rewritten (s.commentLines p first last false).1.fs file (Utf8.encode changed.text)) ∧
      (¬s.fs.Savable file → (s.commentLines p first last false).2.Begins "Error" ∧
        s.fs.LeftAlone (s.commentLines p first last false).1.fs)

theorem not_begins_noChange_of_accepted {operation : Operation} {reason : Text}
    (hload : s.loadDocument p = .ok d) (haccepted : operation d = (changed, .ok true)) :
    ¬(s.editFile p operation reason dryRun).2.Begins "No change" := by
  obtain ⟨hpreview, hsaved⟩ := editFile_accepted hload haccepted reason
  intro hbegins
  cases dryRun with
  | true =>
    rw [hpreview] at hbegins
    exact absurd (hbegins.head_eq rfl rfl) (by decide : 'N' ≠ 'D')
  | false =>
    rw [hsaved] at hbegins
    revert hbegins
    cases (changed.save s.fs none).2.2 with
    | some failure => exact (Answer.not_begins_of_errorText rfl).1
    | none => exact fun hbegins => absurd (hbegins.head_eq rfl rfl) (by decide : 'N' ≠ 'S')

/-- For every file that can be loaded and every range of lines that begins in it: each line of the range
that has a character gets a marker in front, and all others stay. The answer is that there is no
change just if all lines of the range are empty; otherwise a dry run shows the difference. A call writes
the marked lines to the file and nothing else if the file can be saved, and leaves all as it was if
not. -/
theorem commentLines_comments_out [LawfulFileLock] (hload : s.loadDocument p = .ok d) (hfirst : 1 ≤ first)
    (hlast : first ≤ last) (hcount : first ≤ d.text.lineCount) :
    ∃ changed, s.CommentsOut p first last d changed := by
  obtain ⟨_, _, -, -, -, hread⟩ := exists_read_of_loadDocument hload
  obtain ⟨changed, hrange, hlines, hsame⟩ := exists_commentRange hread.closed hfirst hlast hcount
  have hcall (dryRun : Bool) : s.commentLines p first last dryRun = s.editFile p
      (commentRange first.toNat last.toNat) "nothing to comment".toList dryRun :=
    if_neg (by omega)
  have hempty (h : RangeEmpty d.text first last) (dryRun : Bool) :
      s.commentLines p first last dryRun = (s, .unchanged "nothing to comment".toList) := by
    have hunchanged : (changed.text != d.text) = false := by rw [hsame.mpr h, bne_self_eq_false]
    rw [hcall, editFile, hload]
    simp only [hrange, hunchanged]
  have haccepted (h : ¬RangeEmpty d.text first last) :
      commentRange first.toNat last.toNat d = (changed, .ok true) := by
    rw [hrange, bne_iff_ne.mpr (mt hsame.mp h)]
  refine ⟨changed, hlines, fun dryRun => ⟨fun hbegins => ?_, fun h => ?_⟩, hempty, fun h => ?_,
    fun h hworkDir htree hbeside => ?_⟩
  · by_contra h
    rw [hcall] at hbegins
    exact not_begins_noChange_of_accepted hload (haccepted h) hbegins
  · rw [hempty h]
    exact ⟨[':', ' '] ++ "nothing to comment".toList, rfl⟩
  · rw [hcall, (editFile_accepted hload (haccepted h) _).1]
  · obtain ⟨file, content, hedits, hname, hsave⟩ := save_edited
      (c := .commentLines p first last false) hworkDir htree hbeside hload (haccepted h)
    refine ⟨file, hedits.resolved, ?_⟩
    rw [hcall, (editFile_accepted hload (haccepted h) _).2, hname, Option.getD_some]
    rcases hsave with ⟨hnot, hfailed, hleft⟩ | ⟨hsavable, hsaved, -, hrewritten⟩
    · obtain ⟨failure, hfailure⟩ := Option.ne_none_iff_exists'.mp hfailed
      rw [hfailure]
      exact ⟨fun h => absurd h hnot, fun _ => ⟨Answer.begins_of_errorText rfl, hleft⟩⟩
    · rw [hsaved]
      exact ⟨fun _ => ⟨rfl, hrewritten⟩, fun hnot => absurd hsavable hnot⟩

end

def gappedServer : Server :=
  (sampleServer false).withFs { sampleTree false with
    entries := [(["in".toList], .directory),
      (["in".toList, ['a']], .file (Utf8.encode "x\n\ny".toList) {})] }

theorem gapped_lines_commented_out :
    let s := gappedServer
    let d : Document := { Document.new .source "x\n\ny".toList (some "/in/a".toList) with
      disk := some (Utf8.encode "x\n\ny".toList) }
    s.loadDocument ['a'] = .ok d ∧ (1 : Int) ≤ 1 ∧ (1 : Int) ≤ 9 ∧ (1 : Int) ≤ d.text.lineCount ∧
      (s.commentLines ['a'] 1 9 false).1.fs.content? "/in/a".toList =
        some (Utf8.encode "//x\n\n//y".toList) ∧
      ∃ changed, s.CommentsOut ['a'] 1 9 d changed ∧ changed.text = "//x\n\n//y".toList := by
  intro s d
  have hload : s.loadDocument ['a'] = .ok d := by decide +kernel
  have hcount : (1 : Int) ≤ d.text.lineCount := by decide +kernel
  refine ⟨hload, by decide, by decide, hcount, by decide +kernel, ?_⟩
  obtain ⟨changed, hchanged⟩ : ∃ changed, s.CommentsOut ['a'] 1 9 d changed :=
    commentLines_comments_out hload (by decide) (by decide) hcount
  exact ⟨changed, hchanged, Text.lines_inj.mp (hchanged.lines.trans (by decide +kernel))⟩

end Server

end SourceEdit
