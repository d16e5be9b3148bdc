import Mathlib.Data.List.TakeWhile
import SourceEdit.Include.Inventory
import SourceEdit.Proofs.LinePositions

set_option autoImplicit false

namespace SourceEdit

namespace Directive

theorem skipSpaces_suffix (t : Text) : skipSpaces t <:+ t := List.dropWhile_suffix _

theorem behind?_suffix {word line rest : Text} (h : behind? word line = some rest) :
    rest <:+ line := by
  unfold behind? at h
  split at h
  · next tail hline =>
    dsimp only at h
    split at h
    · obtain rfl := Option.some.inj h
      have htail : tail <:+ line := (hline ▸ List.suffix_cons '#' tail).trans (skipSpaces_suffix line)
      exact ((List.drop_suffix _ _).trans (skipSpaces_suffix tail)).trans htail
    · contradiction
  · contradiction

theorem closedLength?_eq (closing : Char) (body : Text) : closedLength? closing body =
    if (body.dropWhile (· ≠ closing)).head?.any (· = closing) then
      some ((body.takeWhile (· ≠ closing)).length + 2)
    else none := by
  have hlength := congrArg List.length
    (List.takeWhile_append_dropWhile (p := (· ≠ closing)) (l := body))
  have hhead := List.head?_dropWhile_not (· ≠ closing) body
  rw [List.length_append] at hlength
  rw [closedLength?]
  cases hrest : body.dropWhile (· ≠ closing) with
  | nil =>
    rw [hrest, List.length_nil, Nat.add_zero] at hlength
    exact if_neg (by omega)
  | cons d rest =>
    rw [hrest] at hhead hlength
    rw [List.length_cons] at hlength
    have hd : d = closing := by simpa using hhead
    rw [if_pos (by omega), if_pos (by simp [hd])]

theorem closedLength?_eq_some_iff {quote : Char} {body : Text} {n : Nat} :
    closedLength? quote body = some n ↔
      ∃ inner behind, quote ∉ inner ∧ body = inner ++ quote :: behind ∧ n = inner.length + 2 := by
  rw [closedLength?_eq]
  constructor
  · intro h
    have hbody := List.takeWhile_append_dropWhile (p := (· ≠ quote)) (l := body)
    cases hrest : body.dropWhile (· ≠ quote) with
    | nil =>
      rw [hrest] at h
      contradiction
    | cons c behind =>
      rw [hrest] at h hbody
      split at h
      · next hc =>
        rw [List.head?_cons, Option.any_some, decide_eq_true_eq] at hc
        rw [hc] at hbody
        refine ⟨_, behind, fun hmem => ?_, hbody.symm, (Option.some.inj h).symm⟩
        have := List.mem_takeWhile_imp hmem
        simp at this
      · contradiction
  · rintro ⟨inner, behind, hquote, rfl, rfl⟩
    have hinner : ∀ c ∈ inner, decide (c ≠ quote) = true := by
      intro c hc
      rw [decide_eq_true_eq]
      rintro rfl
      exact hquote hc
    rw [List.takeWhile_append_of_pos hinner, List.dropWhile_append_of_pos hinner]
    simp

theorem targetLength?_bounds {t : Text} {n : Nat} (h : targetLength? t = some n) :
    0 < n ∧ n ≤ t.length := by
  have hclosed : ∀ quote body, closedLength? quote body = some n →
      0 < n ∧ n ≤ body.length + 1 := by
    intro quote body hc
    obtain ⟨inner, behind, -, rfl, rfl⟩ := closedLength?_eq_some_iff.mp hc
    rw [List.length_append, List.length_cons]
    omega
  unfold targetLength? at h
  split at h
  · exact hclosed _ _ h
  · exact hclosed _ _ h
  · contradiction

/-- What is found in a line is a part of it and not empty. -/
def FindsParts (find? : Text → Option Span) : Prop :=
  ∀ ⦃line : Text⦄ ⦃s : Span⦄, find? line = some s → s.start < s.stop ∧ s.stop ≤ line.length

theorem includeTarget?_bounds : FindsParts includeTarget? := by
  intro line s h
  simp only [includeTarget?, Option.bind_eq_some_iff, Option.map_eq_some_iff] at h
  obtain ⟨rest, hrest, n, hn, rfl⟩ := h
  have h1 := (behind?_suffix hrest).length_le
  have h2 := (skipSpaces_suffix rest).length_le
  have h3 := targetLength?_bounds hn
  simp only [columns]
  omega

theorem argument?_bounds {word line rest : Text} (h : argument? word line = some rest) :
    line ≠ [] ∧ rest.length ≤ line.length := by
  obtain ⟨t, ht, hrest⟩ := Option.bind_eq_some_iff.mp h
  have hlength := (behind?_suffix ht).length_le
  split at hrest
  · obtain rfl := Option.some.inj hrest
    have := (skipSpaces_suffix t).length_le
    refine ⟨?_, by omega⟩
    rintro rfl
    simp [behind?, skipSpaces] at ht
  · contradiction

theorem pragmaOnce?_bounds : FindsParts pragmaOnce? := by
  intro line s h
  obtain ⟨rest, hrest, hs⟩ := Option.bind_eq_some_iff.mp h
  have hlength := (argument?_bounds hrest).2
  split at hs
  · next hword =>
    obtain rfl := Option.some.inj hs
    have hfour := (List.isPrefixOf_iff_prefix.mp (Bool.and_eq_true_iff.mp hword).1).length_le
    simp only [List.length_cons, List.length_nil] at hfour
    simp only [columns]
    omega
  · contradiction

theorem definedName?_bounds {name line : Text} {s : Span} (h : definedName? name line = some s) :
    line ≠ [] ∧ s.start ≤ s.stop ∧ s.stop ≤ line.length := by
  obtain ⟨rest, hrest, hs⟩ := Option.bind_eq_some_iff.mp h
  obtain ⟨hline, hlength⟩ := argument?_bounds hrest
  split at hs
  · next hword =>
    obtain rfl := Option.some.inj hs
    have hname := (List.isPrefixOf_iff_prefix.mp (Bool.and_eq_true_iff.mp hword).1).length_le
    exact ⟨hline, Nat.le_add_right _ _, by simp only [columns]; omega⟩
  · contradiction

end Directive

namespace Inventory

/-- The include of a line, read from the line itself where the scan shows a target. -/
def includeOn? (raw shown : Text) : Option Include :=
  (Directive.includeTarget? shown).bind fun s => Include.parse? (raw.slice s.start s.stop)

/-- The includes of lines, the first of which has this number and is scanned from this mode. -/
def ofLines (mode : Comment.Mode) (number : Nat) : List Text → Inventory
  | [] => []
  | l :: ls =>
    ((includeOn? l (Comment.scan {} mode [] l)).map fun i => ⟨i, number⟩).toList ++
      ofLines (Comment.modeAfter {} mode [] l).atNewline (number + 1) ls

def ofPlaced (index : LineIndex) (source : Text) (placed : List (Nat × Text)) : Inventory :=
  placed.filterMap fun l => (Directive.includeTarget? l.2).bind fun s =>
    includeAt? (Query.capture index source ['p', 'a', 't', 'h'] (Directive.shift l.1 s))

theorem ofSource_eq_ofPlaced (source : Text) :
    ofSource source =
      ofPlaced (.ofText (Comment.blankOut source)) source
        (Directive.placed (Comment.blankOut source)) := by
  simp only [ofSource, Query.run, Query.spans, Directive.includeTargets, Directive.onEachLine,
    List.map_map, List.filterMap_map, List.filterMap_filterMap, ofPlaced]
  congr 1
  funext l
  cases Directive.includeTarget? l.2 <;> rfl

theorem includeAt?_capture {before before' l shown : Text} (behind behind' : Text)
    (hbefore : before.length = before'.length) (hshown : '\n' ∉ shown)
    (hlength : shown.length = l.length) (name : Text) {s : Span} (hstart : s.start ≤ s.stop)
    (hstop : s.stop ≤ shown.length) :
    includeAt? (Query.capture (.ofText (before' ++ shown ++ behind')) (before ++ l ++ behind) name
        (Directive.shift before.length s)) =
      (Include.parse? (l.slice s.start s.stop)).map fun i => ⟨i, before'.count '\n' + 1⟩ := by
  have hline : (before' ++ shown ++ behind').take (before.length + s.start) =
      before' ++ shown.take s.start := by
    rw [hbefore, List.append_assoc, List.take_append, List.take_append]
    simp only [Nat.add_sub_cancel_left, List.take_of_length_le (Nat.le_add_right _ _)]
    have : s.start - shown.length = 0 := by omega
    rw [this, List.take_zero, List.append_nil]
  have hcount : (shown.take s.start).count '\n' = 0 :=
    List.count_eq_zero.mpr fun h => hshown (List.mem_of_mem_take h)
  have hslice : Text.slice (before ++ l ++ behind) (before.length + s.start)
      (before.length + s.stop) = l.slice s.start s.stop := by
    have h0 : s.stop - l.length = 0 := by omega
    rw [Text.slice, List.append_assoc, List.take_length_add_append, List.drop_length_add_append,
      List.take_append, h0, List.take_zero, List.append_nil]
    rfl
  simp only [includeAt?, Query.capture, Directive.shift, hslice, LineIndex.lineCol_line, hline,
    List.count_append, hcount]
  rfl

theorem ofPlaced_cons (index : LineIndex) (source : Text) (l : Nat × Text)
    (ls : List (Nat × Text)) :
    ofPlaced index source (l :: ls) =
      ((Directive.includeTarget? l.2).bind fun s => includeAt?
        (Query.capture index source ['p', 'a', 't', 'h'] (Directive.shift l.1 s))).toList ++
        ofPlaced index source ls := by
  rw [ofPlaced, List.filterMap_cons]
  cases (Directive.includeTarget? l.2).bind fun s => includeAt?
    (Query.capture index source ['p', 'a', 't', 'h'] (Directive.shift l.1 s)) <;> rfl

theorem bind_includeAt?_capture {before before' l : Text} (behind behind' : Text)
    (hbefore : before.length = before'.length) (hl : '\n' ∉ l) (mode : Comment.Mode) :
    ((Directive.includeTarget? (Comment.scan {} mode [] l)).bind fun s => includeAt?
      (Query.capture (.ofText (before' ++ Comment.scan {} mode [] l ++ behind'))
        (before ++ l ++ behind) ['p', 'a', 't', 'h'] (Directive.shift before.length s))) =
      (includeOn? l (Comment.scan {} mode [] l)).map fun i => ⟨i, before'.count '\n' + 1⟩ := by
  cases h : Directive.includeTarget? (Comment.scan {} mode [] l) with
  | none => simp [includeOn?, h]
  | some s =>
    obtain ⟨hstart, hstop⟩ := Directive.includeTarget?_bounds h
    simp only [includeOn?, h, Option.bind_some]
    exact includeAt?_capture behind behind' hbefore (Comment.newline_not_mem_scan hl _ _ _)
      (Comment.length_scan _ _ _ _) _ hstart.le hstop

theorem ofPlaced_lines (mode : Comment.Mode) (before before' t : Text)
    (hbefore : before.length = before'.length) :
    ofPlaced (.ofText (before' ++ Comment.scan {} mode [] t)) (before ++ t)
        (Directive.placedFrom before.length (Text.lines (Comment.scan {} mode [] t))) =
      ofLines mode (before'.count '\n' + 1) (Text.lines t) := by
  induction t using Text.line_induction generalizing mode before before' with
  | last l hl =>
    have hline := bind_includeAt?_capture [] [] hbefore hl mode
    simp only [List.append_nil] at hline
    rw [Text.lines_of_not_mem hl, Text.lines_of_not_mem (Comment.newline_not_mem_scan hl _ _ _),
      Directive.placedFrom, Directive.placedFrom, ofPlaced_cons, hline]
    rfl
  | more l rest hl ih =>
    have hline := bind_includeAt?_capture ('\n' :: rest)
      ('\n' :: Comment.scan {} (Comment.modeAfter {} mode [] l).atNewline [] rest) hbefore hl mode
    -- the line joins what stands before the rest, whose mode is the one behind the line
    have hrest := ih (Comment.modeAfter {} mode [] l).atNewline
      (before ++ l ++ ['\n']) (before' ++ Comment.scan {} mode [] l ++ ['\n'])
      (by simp [hbefore, Comment.length_scan])
    have hzero : (Comment.scan {} mode [] l).count '\n' = 0 :=
      List.count_eq_zero.mpr (Comment.newline_not_mem_scan hl _ _ _)
    simp only [List.append_assoc, List.cons_append, List.nil_append, List.length_append,
      List.length_cons, List.length_nil, List.count_append, List.count_singleton_self,
      hzero, Nat.zero_add] at hrest hline
    rw [Comment.scan_append_newline, Text.lines_append, Text.lines_append, Text.lines_of_not_mem hl,
      Text.lines_of_not_mem (Comment.newline_not_mem_scan hl _ _ _)]
    simp only [List.cons_append, List.nil_append, Directive.placedFrom, ofPlaced_cons, ofLines,
      hline, Comment.length_scan, Nat.add_assoc, hrest]

theorem ofSource_eq_ofLines (source : Text) :
    ofSource source = ofLines .code 1 (Text.lines source) := by
  rw [ofSource_eq_ofPlaced]
  exact ofPlaced_lines .code [] [] source rfl

end Inventory

end SourceEdit
