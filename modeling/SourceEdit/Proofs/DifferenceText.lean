import SourceEdit.Proofs.CompletedLines
import SourceEdit.Proofs.HunkPatches

set_option autoImplicit false

namespace SourceEdit

namespace Text

theorem ofInt_natCast (n : Nat) : ofInt n = Nat.toDigits 10 n := by
  rw [ofInt, Int.toString_eq_repr, Int.repr_eq_if, if_pos (Int.natCast_nonneg n),
    Int.toNat_natCast, Nat.repr_eq_ofList_toDigits, String.toList_ofList]

theorem ofInt_natCast_inj {m n : Nat} (h : ofInt m = ofInt n) : m = n := by
  rw [ofInt_natCast, ofInt_natCast] at h
  rw [← @Nat.ofDigitChars_ten_toDigits m, h, Nat.ofDigitChars_ten_toDigits]

theorem not_mem_ofInt {c : Char} (hc : c.isDigit = false) (n : Nat) : c ∉ ofInt n := by
  intro hmem
  rw [ofInt_natCast] at hmem
  rw [Nat.isDigit_of_mem_toDigits (by decide) (by decide) hmem] at hc
  contradiction

theorem first_split_unique {c : Char} {s s' t t' : Text} (hs : c ∉ s) (hs' : c ∉ s')
    (h : s ++ c :: t = s' ++ c :: t') : s = s' ∧ t = t' := by
  -- What one front has more than the other would begin with the character.
  have hmore {m front t t' : Text} (hfront : c ∉ front ++ m) (h : c :: t = m ++ c :: t') :
      m = [] := by
    cases m with
    | nil => rfl
    | cons d m =>
      obtain ⟨rfl, -⟩ := List.cons.inj h
      exact absurd (List.mem_append_right front List.mem_cons_self) hfront
  have hfront : s = s' := by
    rcases List.append_eq_append_iff.mp h with ⟨m, rfl, hm⟩ | ⟨m, rfl, hm⟩
    · rw [hmore hs' hm, List.append_nil]
    · rw [hmore hs hm, List.append_nil]
  rw [hfront] at h
  exact ⟨hfront, (List.cons.inj (List.append_cancel_left h)).2⟩

end Text

namespace Diff

open Text

variable {s s' : Text}

theorem Ended.append_inj {l l' : Text} (h : Ended l) (h' : Ended l') (heq : l ++ s = l' ++ s') :
    l = l' ∧ s = s' := by
  obtain ⟨t, ht, rfl⟩ := h
  obtain ⟨t', ht', rfl⟩ := h'
  rw [List.append_assoc, List.append_assoc] at heq
  obtain ⟨rfl, hs⟩ := first_split_unique ht ht' heq
  exact ⟨rfl, hs⟩

def firstNumber (start length : Nat) : Nat := if length = 0 then start else start + 1

theorem rangeText_eq (start length : Nat) : rangeText start length =
    ofInt (firstNumber start length) ++ if length = 1 then [] else ',' :: ofInt length := by
  rw [rangeText, firstNumber]
  by_cases hone : length = 1
  · rw [if_pos hone, if_pos hone, hone, if_neg Nat.one_ne_zero, List.append_nil]
    rfl
  · rw [if_neg hone, if_neg hone]
    split <;> rfl

theorem not_mem_rangeText {c : Char} (hc : c.isDigit = false) (hcomma : c ≠ ',')
    (start length : Nat) : c ∉ rangeText start length := by
  rw [rangeText_eq, List.mem_append, not_or]
  refine ⟨not_mem_ofInt hc _, ?_⟩
  split
  · exact List.not_mem_nil
  · rw [List.mem_cons, not_or]
    exact ⟨hcomma, not_mem_ofInt hc _⟩

theorem rangeText_inj {start length start' length' : Nat}
    (h : rangeText start length = rangeText start' length') :
    start = start' ∧ length = length' := by
  have hcomma (n : Nat) : ',' ∉ ofInt n := not_mem_ofInt (by decide) n
  suffices hsame : firstNumber start length = firstNumber start' length' ∧ length = length' by
    obtain ⟨hstart, rfl⟩ := hsame
    rw [firstNumber, firstNumber] at hstart
    split at hstart
    · exact ⟨hstart, rfl⟩
    · exact ⟨Nat.succ.inj hstart, rfl⟩
  rw [rangeText_eq, rangeText_eq] at h
  by_cases hone : length = 1
  · by_cases hone' : length' = 1
    · rw [if_pos hone, if_pos hone', List.append_nil, List.append_nil] at h
      exact ⟨ofInt_natCast_inj h, hone.trans hone'.symm⟩
    · rw [if_pos hone, if_neg hone', List.append_nil] at h
      exact absurd (h ▸ hcomma _) (by simp)
  · by_cases hone' : length' = 1
    · rw [if_neg hone, if_pos hone', List.append_nil] at h
      exact absurd (h ▸ hcomma _) (by simp)
    · rw [if_neg hone, if_neg hone'] at h
      obtain ⟨hfirst, hlength⟩ := first_split_unique (hcomma _) (hcomma _) h
      exact ⟨ofInt_natCast_inj hfirst, ofInt_natCast_inj hlength⟩

def Segment.marked : Segment → List (Char × Text)
  | .kept lines => lines.map (' ', ·)
  | .replaced old new => old.map ('-', ·) ++ new.map ('+', ·)

def Hunk.marked (h : Hunk) : List (Char × Text) := h.segments.flatMap Segment.marked

def markedText (marked : List (Char × Text)) : Text :=
  marked.flatMap fun (mark, line) => mark :: line

theorem segmentText_eq (s : Segment) : segmentText s = markedText s.marked := by
  cases s with
  | kept lines => rw [segmentText, Segment.marked, markedText, List.flatMap_map]
  | replaced old new =>
    rw [segmentText, Segment.marked, markedText, List.flatMap_append, List.flatMap_map,
      List.flatMap_map]

theorem hunkText_eq (h : Hunk) : hunkText h =
    '@' :: '@' :: ' ' :: '-' :: (rangeText h.oldStart h.old.length ++ ' ' :: '+' ::
      (rangeText h.newStart h.new.length ++ ' ' :: '@' :: '@' :: '\n' :: markedText h.marked)) := by
  have hlines : h.segments.flatMap segmentText = markedText h.marked := by
    rw [Hunk.marked, markedText, List.flatMap_assoc]
    exact List.flatMap_congr fun s _ => segmentText_eq s
  calc hunkText h
    _ = "@@ -".toList ++ rangeText h.oldStart h.old.length ++ " +".toList ++
          rangeText h.newStart h.new.length ++ " @@\n".toList ++
          h.segments.flatMap segmentText := rfl
    _ = _ := by
      rw [hlines]
      simp

def linesWithout (mark : Char) (marked : List (Char × Text)) : List Text :=
  (marked.filter (·.1 ≠ mark)).map Prod.snd

theorem linesWithout_append (mark : Char) (m m' : List (Char × Text)) :
    linesWithout mark (m ++ m') = linesWithout mark m ++ linesWithout mark m' := by
  rw [linesWithout, List.filter_append, List.map_append]
  rfl

theorem linesWithout_map (mark c : Char) (lines : List Text) :
    linesWithout mark (lines.map (c, ·)) = if c = mark then [] else lines := by
  by_cases hc : c = mark <;> simp [linesWithout, List.filter_map, Function.comp_def, hc]

theorem linesWithout_flatMap {mark : Char} {side : Segment → List Text}
    (hside : ∀ s, linesWithout mark s.marked = side s) (segments : List Segment) :
    linesWithout mark (segments.flatMap Segment.marked) = segments.flatMap side := by
  induction segments with
  | nil => rfl
  | cons s segments ih =>
    rw [List.flatMap_cons, linesWithout_append, hside, ih, List.flatMap_cons]

theorem linesWithout_plus (h : Hunk) : linesWithout '+' h.marked = h.old := by
  refine linesWithout_flatMap (fun s => ?_) h.segments
  cases s with
  | kept lines => exact linesWithout_map '+' ' ' lines
  | replaced old new =>
    rw [Segment.marked, linesWithout_append, linesWithout_map, linesWithout_map]
    exact List.append_nil old

theorem linesWithout_minus (h : Hunk) : linesWithout '-' h.marked = h.new := by
  refine linesWithout_flatMap (fun s => ?_) h.segments
  cases s with
  | kept lines => exact linesWithout_map '-' ' ' lines
  | replaced old new =>
    rw [Segment.marked, linesWithout_append, linesWithout_map, linesWithout_map]
    rfl

/-- No line looks like the first one of a hunk, and each ends at its newline. -/
def Readable (marked : List (Char × Text)) : Prop := ∀ p ∈ marked, p.1 ≠ '@' ∧ Ended p.2

/-- What follows the lines of a hunk. -/
def HunkOrEnd (t : Text) : Prop := ∀ c, t.head? = some c → c = '@'

theorem markedText_inj {m m' : List (Char × Text)} (hm : Readable m) (hm' : Readable m')
    (hs : HunkOrEnd s) (hs' : HunkOrEnd s') (h : markedText m ++ s = markedText m' ++ s') :
    m = m' ∧ s = s' := by
  induction m generalizing m' with
  | nil =>
    cases m' with
    | nil => exact ⟨rfl, h⟩
    | cons p m' => exact absurd (hs p.1 (congrArg List.head? h)) (hm' p List.mem_cons_self).1
  | cons p m ih =>
    cases m' with
    | nil => exact absurd (hs' p.1 (congrArg List.head? h.symm)) (hm p List.mem_cons_self).1
    | cons p' m' =>
      rw [markedText, markedText, List.flatMap_cons, List.flatMap_cons, List.append_assoc,
        List.append_assoc] at h
      obtain ⟨hmark, hrest⟩ := List.cons.inj h
      have hended := (hm p List.mem_cons_self).2
      have hended' := (hm' p' List.mem_cons_self).2
      obtain ⟨hline, hrest⟩ := hended.append_inj hended' hrest
      obtain ⟨rfl, hs⟩ :=
        ih (fun q hq => hm q (.tail p hq)) (fun q hq => hm' q (.tail p' hq)) hrest
      exact ⟨by rw [Prod.ext hmark hline], hs⟩

theorem hunkText_inj {h h' : Hunk} (hm : Readable h.marked) (hm' : Readable h'.marked)
    (hs : HunkOrEnd s) (hs' : HunkOrEnd s') (heq : hunkText h ++ s = hunkText h' ++ s') :
    h.change = h'.change ∧ s = s' := by
  have hblank (start length : Nat) : ' ' ∉ rangeText start length :=
    not_mem_rangeText (by decide) (by decide) start length
  rw [hunkText_eq, hunkText_eq] at heq
  simp only [List.cons_append, List.append_assoc, List.cons.injEq, true_and] at heq
  obtain ⟨hold, hrest⟩ := first_split_unique (hblank _ _) (hblank _ _) heq
  obtain ⟨-, hrest⟩ := first_split_unique (hblank _ _) (hblank _ _) (List.cons.inj hrest).2
  simp only [List.cons.injEq, true_and] at hrest
  obtain ⟨hmarked, hs⟩ := markedText_inj hm hm' hs hs' hrest
  refine ⟨?_, hs⟩
  rw [Hunk.change, Hunk.change, (rangeText_inj hold).1, ← linesWithout_plus, ← linesWithout_minus,
    hmarked, linesWithout_plus, linesWithout_minus]

theorem hunkOrEnd_hunks (hunks : List Hunk) : HunkOrEnd (hunks.flatMap hunkText) := by
  intro c hc
  cases hunks with
  | nil => contradiction
  | cons h later =>
    rw [List.flatMap_cons, hunkText_eq] at hc
    exact (Option.some.inj hc).symm

theorem hunks_inj {hunks hunks' : List Hunk} (hm : ∀ h ∈ hunks, Readable h.marked)
    (hm' : ∀ h ∈ hunks', Readable h.marked)
    (heq : hunks.flatMap hunkText = hunks'.flatMap hunkText) :
    hunks.map Hunk.change = hunks'.map Hunk.change := by
  have hne (h : Hunk) (t : Text) : hunkText h ++ t ≠ [] := by
    rw [hunkText_eq]
    exact List.cons_ne_nil _ _
  induction hunks generalizing hunks' with
  | nil =>
    cases hunks' with
    | nil => rfl
    | cons h' later' => exact absurd heq.symm (hne h' _)
  | cons h later ih =>
    cases hunks' with
    | nil => exact absurd heq (hne h _)
    | cons h' later' =>
      rw [List.flatMap_cons, List.flatMap_cons] at heq
      obtain ⟨hchange, hlater⟩ := hunkText_inj (hm h List.mem_cons_self)
        (hm' h' List.mem_cons_self) (hunkOrEnd_hunks later) (hunkOrEnd_hunks later') heq
      rw [List.map_cons, List.map_cons, hchange,
        ih (fun k hk => hm k (.tail h hk)) (fun k hk => hm' k (.tail h' hk)) hlater]

theorem Segment.mem_marked {s : Segment} {p : Char × Text} (h : p ∈ s.marked) :
    p.1 ≠ '@' ∧ (p.2 ∈ s.before ∨ p.2 ∈ s.after) := by
  cases s with
  | kept lines =>
    obtain ⟨l, hl, rfl⟩ := List.mem_map.mp h
    exact ⟨by simp, .inl hl⟩
  | replaced old new =>
    rcases List.mem_append.mp h with h | h
    · obtain ⟨l, hl, rfl⟩ := List.mem_map.mp h
      exact ⟨by simp, .inl hl⟩
    · obtain ⟨l, hl, rfl⟩ := List.mem_map.mp h
      exact ⟨by simp, .inr hl⟩

theorem Hunk.mem_marked {h : Hunk} {p : Char × Text} (hp : p ∈ h.marked) :
    p.1 ≠ '@' ∧ (p.2 ∈ h.old ∨ p.2 ∈ h.new) := by
  obtain ⟨s, hs, hmem⟩ := List.mem_flatMap.mp hp
  obtain ⟨hmark, hline⟩ := Segment.mem_marked hmem
  exact ⟨hmark, hline.imp (List.mem_flatMap_of_mem hs) (List.mem_flatMap_of_mem hs)⟩

section
variable (before after oldName newName : Text)

def changes : List Hunk := hunks (segments (endedLines before) (endedLines after))

theorem patches_changes :
    Patches 0 (endedLines before) (changes before after) (endedLines after) := by
  have h := patches_hunks (segments (endedLines before) (endedLines after))
  rwa [before_segments, after_segments] at h

theorem readable_changes {h : Hunk} (hh : h ∈ changes before after) : Readable h.marked := by
  intro p hp
  obtain ⟨hold, hnew⟩ := (patches_changes before after).subset hh
  obtain ⟨hmark, hline⟩ := h.mem_marked hp
  refine ⟨hmark, ?_⟩
  rcases hline with hline | hline
  · exact ended_of_mem_endedLines (hold hline)
  · exact ended_of_mem_endedLines (hnew hline)

theorem changes_self : changes before before = [] := by
  rw [changes, segments_self]
  split
  · rfl
  · exact hunks_kept _

def fileNames : Text := "--- a/".toList ++ oldName ++ "\n+++ b/".toList ++ newName ++ ['\n']

theorem unified_eq : unified before after oldName newName =
    if changes before after = [] then []
    else fileNames oldName newName ++ (changes before after).flatMap hunkText := by
  rw [unified, ← changes]
  cases changes before after <;> rfl

theorem unified_self : unified before before oldName newName = [] := by
  rw [unified_eq, if_pos (changes_self before)]

end

section
variable {before after after' oldName newName : Text}

theorem changes_of_unified_eq
    (h : unified before after oldName newName = unified before after' oldName newName) :
    (changes before after).map Hunk.change = (changes before after').map Hunk.change := by
  have hnames (t : Text) : fileNames oldName newName ++ t ≠ [] := List.cons_ne_nil _ _
  rw [unified_eq, unified_eq] at h
  split at h <;> split at h
  · next hnone hnone' => rw [hnone, hnone']
  · exact absurd h.symm (hnames _)
  · exact absurd h (hnames _)
  · exact hunks_inj (fun _ => readable_changes before after)
      (fun _ => readable_changes before after') (List.append_cancel_left h)

theorem endedLines_of_unified_eq
    (h : unified before after oldName newName = unified before after' oldName newName) :
    endedLines after = endedLines after' :=
  (patches_changes before after).unique (patches_changes before after') (changes_of_unified_eq h)

end

/-- A difference says what the first text becomes but for the newlines that complete it, and it is
empty exactly if the two texts are the same but for these. A text lacks none of them exactly if each
of its carriage returns has a newline behind it and its last line has a line break. -/
theorem unified_eq_iff_completed_eq (before after after' oldName newName : Text) :
    (unified before after oldName newName = unified before after' oldName newName ↔
      completed after = completed after') ∧
    (unified before after oldName newName = [] ↔ completed before = completed after) ∧
    (completed after = after ↔ Complete after) := by
  have hlines (t u : Text) :
      unified before t oldName newName = unified before u oldName newName ↔
        completed t = completed u := by
    rw [← endedLines_eq_iff]
    refine ⟨endedLines_of_unified_eq, fun h => ?_⟩
    rw [unified_eq, unified_eq, changes, changes, h]
  refine ⟨hlines after after', ?_, completed_eq_self_iff⟩
  rw [← hlines before after, unified_self, eq_comm]

/-- A newline at the end of the text is not shown, and neither is one behind a carriage return. -/
theorem unified_hides_newlines :
    (unified "a".toList "a".toList "x".toList "x".toList =
        unified "a".toList "a\n".toList "x".toList "x".toList ∧
      unified "a".toList "a\n".toList "x".toList "x".toList = [] ∧ "a".toList ≠ "a\n".toList) ∧
    unified "a\r".toList "a\r\n".toList "x".toList "x".toList = [] ∧
      "a\r".toList ≠ "a\r\n".toList := by
  decide

end Diff

end SourceEdit
