import Mathlib.Data.List.TakeWhile
import SourceEdit.Include.Placement
import SourceEdit.Proofs.HiddenLines

/-!
The leading comments of a source under the comment scan. The search for their end reads each line by
its first and last characters, the comment scan reads it whole. They agree on all of a leading line
but what stands behind the first end of a comment on it, if that line ends with an end marker again.
-/

set_option autoImplicit false

namespace SourceEdit

namespace Text

theorem isPrefixOf_blanks {x : Char} (hx : isBlank x = false) (xs : Text) {b : Text}
    (hb : allBlank b = true) : (x :: xs).isPrefixOf b = false := by
  cases b with
  | nil => rfl
  | cons c rest =>
    have hne : x ≠ c := by
      rintro rfl
      rw [((allBlank_cons x rest).mp hb).1] at hx
      contradiction
    simp [List.isPrefixOf, hne]

theorem isPrefixOf_append_blanks {x y : Char} (hx : isBlank x = false) (hy : isBlank y = false)
    {b : Text} (hb : allBlank b = true) (t : Text) :
    [x, y].isPrefixOf (t ++ b) = [x, y].isPrefixOf t := by
  match t with
  | [] => exact isPrefixOf_blanks hx [y] hb
  | [a] => simp [List.isPrefixOf, isPrefixOf_blanks hy [] hb]
  | a :: a' :: rest => simp [List.isPrefixOf]

theorem exists_around_strip (t : Text) : ∃ front back, t = front ++ dropBlank t ∧
    dropBlank t = strip t ++ back ∧ allBlank front = true ∧ allBlank back = true := by
  refine ⟨t.takeWhile isBlank, (dropBlank t).takeEndWhile isBlank,
    List.takeWhile_append_dropWhile.symm,
    (dropEndWhile_append_takeEndWhile _ _).symm, ?_, ?_⟩
  · exact List.all_eq_true.mpr fun c hc => List.mem_takeWhile_imp hc
  · refine List.all_eq_true.mpr fun c hc => ?_
    rw [takeEndWhile, List.mem_reverse] at hc
    exact List.mem_takeWhile_imp hc

theorem isEmpty_strip (t : Text) : (strip t).isEmpty = (dropBlank t).isEmpty := by
  obtain ⟨-, back, -, hback, -, hblank⟩ := exists_around_strip t
  cases hstrip : strip t with
  | cons c rest =>
    rw [hback, hstrip]
    rfl
  | nil =>
    rw [hstrip, List.nil_append] at hback
    have hhead := List.head?_dropWhile_not isBlank t
    rw [← dropBlank, hback] at hhead
    cases back with
    | nil => rw [hback]
    | cons c rest => exact absurd hhead (by simp [((allBlank_cons c rest).mp hblank).1])

end Text

namespace Comment

theorem occursIn_end (t : Text) :
    Text.occursIn Placement.blockEnd t = (behindEnd? t).isSome := by
  induction t with
  | nil => rfl
  | cons c rest ih =>
    rw [Text.occursIn] at ih
    rw [Text.occursIn, Text.firstIndex?, behindEnd?, Placement.blockEnd]
    split
    · rfl
    · rw [Option.isSome_map, ← ih, Placement.blockEnd]

theorem behindEnd?_blanks_append {b : Text} (hb : Text.allBlank b = true) (t : Text) :
    behindEnd? (b ++ t) = behindEnd? t := by
  induction b with
  | nil => rfl
  | cons c rest ih =>
    obtain ⟨hc, hrest⟩ := (Text.allBlank_cons c rest).mp hb
    have hne : '*' ≠ c := by
      rintro rfl
      exact absurd hc (by decide)
    rw [List.cons_append, behindEnd?, if_neg (by simp [List.isPrefixOf, hne]), ih hrest]

theorem behindEnd?_append_blanks {b : Text} (hb : Text.allBlank b = true) (t : Text) :
    (behindEnd? (t ++ b)).isSome = (behindEnd? t).isSome := by
  induction t with
  | nil => rw [List.nil_append, ← List.append_nil b, behindEnd?_blanks_append hb]
  | cons c rest ih =>
    rw [List.cons_append, behindEnd?, behindEnd?, ← List.cons_append,
      Text.isPrefixOf_append_blanks (by decide) (by decide) hb]
    split
    · rfl
    · exact ih

/-- Blanks around a text neither end a comment nor hide an end of one. -/
theorem occursIn_end_strip (t : Text) :
    Text.occursIn Placement.blockEnd (Text.strip t) = (behindEnd? t).isSome := by
  obtain ⟨front, back, hfront, hback, hblank, hblank'⟩ := Text.exists_around_strip t
  rw [occursIn_end, ← behindEnd?_append_blanks hblank', ← hback,
    ← behindEnd?_blanks_append hblank (Text.dropBlank t), ← hfront]

end Comment

namespace Placement

open Comment (Mode scan modeAfter behindEnd? scanLines blankOut)

/-- What the search for the end of the leading comments takes a line for. -/
inductive Reading where
  | other
  | blank
  | lineComment
  | opening
  | closing (rest : Text)

def readBlock (l body : Text) : Reading :=
  match behindEnd? body with
  | none => .opening
  | some rest => if blockEnd.isSuffixOf (Text.strip l) then .closing rest else .other

def readStart (l t : Text) : Reading :=
  if ['/', '*'].isPrefixOf t then readBlock l (t.drop 2)
  else if ['/', '/'].isPrefixOf t then .lineComment
  else if t.isEmpty then .blank
  else .other

def CommentScan.read : CommentScan → Text → Reading
  | .inside, l => readBlock l l
  | .outside, l => readStart l (Text.dropBlank l)

def Reading.behind? : Reading → Option CommentScan
  | .other => none
  | .opening => some .inside
  | _ => some .outside

theorem tests_eq_readBlock {ends : Bool} {body : Text} (hends : ends = (behindEnd? body).isSome)
    (l : Text) (other blank opening ended : Nat) :
    (if !ends then opening else if blockEnd.isSuffixOf (Text.strip l) then ended else other) =
      match readBlock l body with
      | .other => other
      | .blank => blank
      | .opening => opening
      | _ => ended := by
  rw [hends, readBlock]
  cases behindEnd? body with
  | none => rfl
  | some rest =>
    simp only [Option.isSome_some, Bool.not_true, Bool.false_eq_true, if_false]
    split <;> rfl

theorem leadingCommentLines_cons (s : CommentScan) (done index : Nat) (l : Text) (ls : List Text) :
    leadingCommentLines s done index (l :: ls) =
      match s.read l with
      | .other => done
      | .blank => leadingCommentLines .outside done (index + 1) ls
      | .opening => leadingCommentLines .inside done (index + 1) ls
      | _ => leadingCommentLines .outside (index + 1) (index + 1) ls := by
  cases s with
  | inside => exact tests_eq_readBlock (Comment.occursIn_end_strip l) l _ _ _ _
  | outside =>
    obtain ⟨-, back, -, hback, -, hblank⟩ := Text.exists_around_strip l
    have hstart : ∀ y, Text.isBlank y = false →
        ['/', y].isPrefixOf (Text.strip l) = ['/', y].isPrefixOf (Text.dropBlank l) := by
      intro y hy
      rw [hback, Text.isPrefixOf_append_blanks (by decide) hy hblank]
    simp only [leadingCommentLines, CommentScan.read, readStart, hstart '*' (by decide),
      hstart '/' (by decide), Text.isEmpty_strip]
    by_cases hblock : ['/', '*'].isPrefixOf (Text.dropBlank l) = true
    · have hlong : 2 ≤ (Text.strip l).length := by
        rw [← hstart '*' (by decide)] at hblock
        exact (List.isPrefixOf_iff_prefix.mp hblock).length_le
      have hends : Text.occursIn blockEnd ((Text.strip l).drop 2) =
          (behindEnd? ((Text.dropBlank l).drop 2)).isSome := by
        rw [hback, List.drop_append_of_le_length hlong, Comment.behindEnd?_append_blanks hblank,
          Comment.occursIn_end]
      rw [if_pos hblock, if_pos hblock]
      exact tests_eq_readBlock hends l _ _ _ _
    · rw [if_neg hblock, if_neg hblock]
      split_ifs <;> rfl

/-- Lines that are leading comments from this state on, up to one that ends a comment. -/
inductive Leading : CommentScan → List Text → Prop
  | nil : Leading .outside []
  | cons {s s' : CommentScan} {l : Text} {ls : List Text} (hread : (s.read l).behind? = some s')
      (hbelow : Leading s' ls) : Leading s (l :: ls)

theorem leading_take (s : CommentScan) (done index : Nat) (ls : List Text) :
    leadingCommentLines s done index ls = done ∨
      ∃ n, leadingCommentLines s done index ls = index + n ∧ Leading s (ls.take n) := by
  induction ls generalizing s done index with
  | nil => exact .inl (by cases s <;> rfl)
  | cons l ls ih =>
    have hstep : ∀ s' done', (s.read l).behind? = some s' →
        leadingCommentLines s done index (l :: ls) = leadingCommentLines s' done' (index + 1) ls →
        (done' = done ∨ done' = index + 1 ∧ s' = .outside) →
        leadingCommentLines s done index (l :: ls) = done ∨
          ∃ n, leadingCommentLines s done index (l :: ls) = index + n ∧
            Leading s ((l :: ls).take n) := by
      intro s' done' hread heq hdone
      rw [heq]
      rcases ih s' done' (index + 1) with hend | ⟨n, hend, hleading⟩
      · rcases hdone with rfl | ⟨rfl, rfl⟩
        · exact .inl hend
        · exact .inr ⟨1, hend, .cons hread .nil⟩
      · exact .inr ⟨n + 1, by omega, .cons hread hleading⟩
    have hcons := leadingCommentLines_cons s done index l ls
    cases hread : s.read l with rw [hread] at hcons hstep
    | other => exact .inl hcons
    | blank => exact hstep .outside done rfl hcons (.inl rfl)
    | opening => exact hstep .inside done rfl hcons (.inl rfl)
    | lineComment | closing => exact hstep .outside (index + 1) rfl hcons (.inr ⟨rfl, rfl⟩)

def CommentScan.mode : CommentScan → Mode
  | .outside => .code
  | .inside => .block 0

/-- The mode and the rest of the line with which the comment scan goes on behind what is hidden. -/
def Reading.remainder : Reading → Mode × Text
  | .lineComment => (.line, [])
  | .opening => (.block 0, [])
  | .closing rest => (.code, rest)
  | _ => (.code, [])

theorem exists_hides_readBlock {l body : Text} (h : readBlock l body ≠ .other) (line : Text) :
    ∃ line', Comment.Hides (.block 0) line body (readBlock l body).remainder.1 line'
      (readBlock l body).remainder.2 := by
  unfold readBlock at h ⊢
  cases hend : behindEnd? body with
  | none => exact Comment.exists_hides_open hend line
  | some rest =>
    simp only [hend] at h ⊢
    split at h
    · next hlast =>
      rw [if_pos hlast]
      exact Comment.exists_hides_closed hend line
    · contradiction

theorem exists_hides_readStart {l t : Text} (ht : '\n' ∉ t) (h : readStart l t ≠ .other)
    (line : Text) : ∃ line', Comment.Hides .code line t (readStart l t).remainder.1 line'
      (readStart l t).remainder.2 := by
  unfold readStart at h ⊢
  by_cases hblock : ['/', '*'].isPrefixOf t = true
  · obtain ⟨body, rfl⟩ := List.isPrefixOf_iff_prefix.mp hblock
    rw [if_pos hblock] at h ⊢
    obtain ⟨line', hstart⟩ := Comment.exists_hides_blockStart line body
    obtain ⟨line'', hbody⟩ := exists_hides_readBlock h line'
    exact ⟨line'', hstart.trans hbody⟩
  · rw [if_neg hblock] at h ⊢
    by_cases hline : ['/', '/'].isPrefixOf t = true
    · obtain ⟨body, rfl⟩ := List.isPrefixOf_iff_prefix.mp hline
      rw [if_pos hline]
      exact Comment.exists_hides_lineComment (fun hmem => ht (List.mem_append_right _ hmem)) line
    · rw [if_neg hline] at h ⊢
      by_cases hempty : t.isEmpty = true
      · rw [if_pos hempty, List.isEmpty_iff.mp hempty]
        exact ⟨line, .refl _ _ _⟩
      · exact absurd (if_neg hempty) h

/-- A leading line is hidden up to the first end of a comment on it. -/
theorem exists_hides_read {s : CommentScan} {l : Text} (hl : '\n' ∉ l) (h : s.read l ≠ .other) :
    ∃ line', Comment.Hides s.mode [] l (s.read l).remainder.1 line' (s.read l).remainder.2 := by
  cases s with
  | inside => exact exists_hides_readBlock h []
  | outside =>
    obtain ⟨front, -, hfront, -, hblank, -⟩ := Text.exists_around_strip l
    have hrest : '\n' ∉ Text.dropBlank l := fun hmem =>
      hl ((List.dropWhile_sublist _).subset hmem)
    obtain ⟨line', hstart⟩ := Comment.exists_hides_blanks hblank [] (Text.dropBlank l)
    obtain ⟨line'', hbehind⟩ := exists_hides_readStart hrest h line'
    rw [← hfront] at hstart
    exact ⟨line'', hstart.trans hbehind⟩

/-- What stands behind the first end of a comment on each of the lines. Where the scan does not come
out of it, the lines below belong to it. -/
def exposed : CommentScan → List Text → List Text
  | _, [] => []
  | s, l :: ls =>
    match s.read l with
    | .closing rest =>
      if (modeAfter {} .code [] rest).atNewline = .code then rest :: exposed .outside ls
      else [Text.joinWith ['\n'] (rest :: ls)]
    | .opening => exposed .inside ls
    | _ => exposed .outside ls

/-- Leading lines are hidden exactly if all that is exposed on them is. -/
theorem Leading.hidden_iff {s : CommentScan} {ls : List Text} (h : Leading s ls)
    (hlines : ∀ l ∈ ls, '\n' ∉ l) :
    (∀ x ∈ scanLines s.mode ls, Text.allBlank x = true) ↔
      ∀ t ∈ exposed s ls, Text.allBlank (blankOut t) = true := by
  induction h with
  | nil => simp [scanLines, exposed]
  | @cons s s' l ls hread hbelow ih =>
    obtain ⟨hl, hls⟩ := List.forall_mem_cons.mp hlines
    have hother : s.read l ≠ .other := by
      intro h
      rw [h] at hread
      contradiction
    obtain ⟨line', hhides⟩ := exists_hides_read hl hother
    rw [scanLines, List.forall_mem_cons, hhides.shown_iff, hhides.mode_eq, exposed]
    cases hr : s.read l with
    | other => exact absurd hr hother
    | blank | lineComment | opening =>
      rw [hr] at hread
      obtain rfl := Option.some.inj hread
      exact (and_iff_right rfl).trans (ih hls)
    | closing rest =>
      rw [hr] at hread
      obtain rfl := Option.some.inj hread
      -- the rest is scanned as if nothing stood in front of it, or something of it is shown
      calc Text.allBlank (scan {} .code line' rest) = true ∧
            (∀ x ∈ scanLines (modeAfter {} .code line' rest).atNewline ls, Text.allBlank x = true)
          ↔ Text.allBlank (scan {} .code [] rest) = true ∧
            ∀ x ∈ scanLines (modeAfter {} .code [] rest).atNewline ls, Text.allBlank x = true := by
            rw [Comment.allBlank_scan_iff .code line' []]
            exact and_congr_right fun hshown => by rw [(Comment.scan_congr hshown line').2]
        _ ↔ _ := by
            dsimp only
            split_ifs with hmode
            · rw [hmode, List.forall_mem_cons]
              exact and_congr_right fun _ => ih hls
            · rw [List.forall_mem_singleton]
              exact (Comment.allBlank_scan_joinWith .code [] rest ls).symm

/-- In a source without a pragma and a header guard the lines above the one for the first include are
hidden exactly if all that stands on them behind the first end of a comment is hidden as well. -/
theorem firstInclude_above_hidden_iff {source : Text}
    (hpragma : Query.pragmaOnce.run source = []) (hguard : Query.headerGuard.run source = []) :
    ∃ n, firstInclude source = .atLine (n + 1) true ∧
      ((∀ l ∈ (Text.lines (blankOut source)).take n, Text.allBlank l = true) ↔
        ∀ t ∈ exposed .outside ((Text.lines source).take n), Text.allBlank (blankOut t) = true) := by
  refine ⟨leadingCommentLines .outside 0 0 (Text.lines source), ?_, ?_⟩
  · rw [firstInclude, hpragma, hguard]
    rfl
  · have hleading : Leading .outside
        ((Text.lines source).take (leadingCommentLines .outside 0 0 (Text.lines source))) := by
      rcases leading_take .outside 0 0 (Text.lines source) with hnone | ⟨n, hn, hleading⟩
      · rw [hnone]
        exact .nil
      · rwa [hn, Nat.zero_add]
    have hlines : Text.lines (blankOut source) = scanLines .code (Text.lines source) :=
      Comment.lines_scan .code source
    rw [hlines, Comment.take_scanLines]
    exact hleading.hidden_iff fun l hl => Text.not_mem_of_mem_fields (List.mem_of_mem_take hl)

theorem firstInclude_above_hidden_open :
    let source := "/* a */ /*/\n// b */\nint x;\n".toList
    Query.pragmaOnce.run source = [] ∧ Query.headerGuard.run source = [] ∧
      exposed .outside ((Text.lines source).take 2) = [" /*/\n// b */".toList] ∧
      firstInclude source = .atLine 3 true ∧
      ∀ l ∈ (Text.lines (blankOut source)).take 2, Text.allBlank l = true := by
  intro source
  have hpragma : Query.pragmaOnce.run source = [] := by decide
  have hguard : Query.headerGuard.run source = [] := by decide
  have hexposed : exposed .outside ((Text.lines source).take 2) = [" /*/\n// b */".toList] := by decide
  obtain ⟨n, hplace, hiff⟩ := firstInclude_above_hidden_iff hpragma hguard
  have hline : firstInclude source = .atLine 3 true := by decide
  obtain rfl : n = 2 := by
    rw [hline] at hplace
    injection hplace with h
    omega
  rw [hexposed] at hiff
  exact ⟨hpragma, hguard, hexposed, hline, hiff.mpr (by decide)⟩

/-- Code between two comments on one line: the search takes the line for a comment. -/
theorem firstInclude_below_code :
    let source := "/* a */ int x; /* b */\n".toList
    Query.pragmaOnce.run source = [] ∧ Query.headerGuard.run source = [] ∧
      firstInclude source = .atLine 2 true ∧
      ¬∀ l ∈ (Text.lines (blankOut source)).take 1, Text.allBlank l = true := by
  decide

end Placement

end SourceEdit
