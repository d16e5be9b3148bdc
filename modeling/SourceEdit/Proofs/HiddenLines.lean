import SourceEdit.Proofs.CommentScan

set_option autoImplicit false

namespace SourceEdit

namespace Text

theorem allBlank_append (a b : Text) :
    allBlank (a ++ b) = true ↔ allBlank a = true ∧ allBlank b = true := by
  rw [allBlank, List.all_append, Bool.and_eq_true]
  rfl

theorem allBlank_cons (c : Char) (t : Text) :
    allBlank (c :: t) = true ↔ isBlank c = true ∧ allBlank t = true := by
  rw [allBlank, List.all_cons, Bool.and_eq_true]
  rfl

end Text

namespace Comment

def behindEnd? : Text → Option Text
  | [] => none
  | c :: rest => if ['*', '/'].isPrefixOf (c :: rest) then some (rest.drop 1) else behindEnd? rest

/-- The scan shows nothing in front of a rest of the text and goes on with that in this mode. -/
structure Hides (mode : Mode) (line t : Text) (next : Mode) (line' rest : Text) : Prop where
  shown_iff : Text.allBlank (scan {} mode line t) = true ↔
    Text.allBlank (scan {} next line' rest) = true
  mode_eq : modeAfter {} mode line t = modeAfter {} next line' rest

namespace Hides

theorem refl (mode : Mode) (line t : Text) : Hides mode line t mode line t := ⟨Iff.rfl, rfl⟩

theorem trans {mode next last : Mode} {line line' line'' t t' t'' : Text}
    (h : Hides mode line t next line' t') (h' : Hides next line' t' last line'' t'') :
    Hides mode line t last line'' t'' :=
  ⟨h.shown_iff.trans h'.shown_iff, h.mode_eq.trans h'.mode_eq⟩

theorem cons {mode next last : Mode} {line line' rest rest' : Text} {c d : Char}
    (hstep : step {} mode line c rest = (d, next)) (hd : Text.isBlank d = true)
    (h : Hides next (nextLine line c) rest last line' rest') :
    Hides mode line (c :: rest) last line' rest' where
  shown_iff := by
    rw [scan_cons, hstep, Text.allBlank_cons, ← h.shown_iff]
    exact and_iff_right hd
  mode_eq := by rw [modeAfter_cons, hstep, h.mode_eq]

end Hides

theorem isBlank_blank (c : Char) : Text.isBlank (blank c) = true := by
  unfold blank
  split
  · next h => rw [h, Text.isBlank_newline]
  · decide

theorem exists_hides_open {t : Text} (h : behindEnd? t = none) (line : Text) :
    ∃ line', Hides (.block 0) line t (.block 0) line' [] := by
  induction t generalizing line with
  | nil => exact ⟨line, .refl _ _ _⟩
  | cons c rest ih =>
    rw [behindEnd?] at h
    split at h
    · contradiction
    · next hend =>
      obtain ⟨line', hrest⟩ := ih h (nextLine line c)
      exact ⟨line', .cons (if_neg hend) (isBlank_blank c) hrest⟩

theorem exists_hides_closed {t rest : Text} (h : behindEnd? t = some rest) (line : Text) :
    ∃ line', Hides (.block 0) line t .code line' rest := by
  induction t generalizing line with
  | nil => contradiction
  | cons c tail ih =>
    rw [behindEnd?] at h
    split at h
    · next hend =>
      obtain ⟨behind, hmarker⟩ := List.isPrefixOf_iff_prefix.mp hend
      obtain ⟨rfl, rfl⟩ := List.cons.inj hmarker
      obtain rfl := Option.some.inj h
      have hlast : Hides (.blockEnd 1) (nextLine line '*') ('/' :: behind) .code _ behind :=
        .cons rfl (isBlank_blank '/') (.refl _ _ _)
      exact ⟨_, .cons rfl (isBlank_blank '*') hlast⟩
    · next hend =>
      obtain ⟨line', hrest⟩ := ih h (nextLine line c)
      exact ⟨line', .cons (if_neg hend) (isBlank_blank c) hrest⟩

theorem exists_hides_blockStart (line body : Text) :
    ∃ line', Hides .code line ('/' :: '*' :: body) (.block 0) line' body := by
  have hstar : Hides (.block 1) (nextLine line '/') ('*' :: body) (.block 0) _ body :=
    .cons rfl (isBlank_blank '*') (.refl _ _ _)
  exact ⟨_, .cons rfl (isBlank_blank '/') hstar⟩

theorem exists_hides_restOfLine {t : Text} (h : '\n' ∉ t) (line : Text) :
    ∃ line', Hides .line line t .line line' [] := by
  induction t generalizing line with
  | nil => exact ⟨line, .refl _ _ _⟩
  | cons c rest ih =>
    rw [List.mem_cons, not_or] at h
    obtain ⟨line', hrest⟩ := ih h.2 (nextLine line c)
    exact ⟨line', .cons (if_neg (Ne.symm h.1)) (by decide) hrest⟩

theorem exists_hides_lineComment {t : Text} (h : '\n' ∉ t) (line : Text) :
    ∃ line', Hides .code line ('/' :: '/' :: t) .line line' [] := by
  obtain ⟨line', hrest⟩ := exists_hides_restOfLine h (nextLine (nextLine line '/') '/')
  exact ⟨line', .cons rfl (isBlank_blank '/') (.cons rfl (by decide) hrest)⟩

theorem step_code_of_isBlank {c : Char} (h : Text.isBlank c = true) (line rest : Text) :
    step {} .code line c rest = (c, .code) := by
  have hne : ∀ d, Text.isBlank d = false → c ≠ d := by
    rintro d hd rfl
    rw [h] at hd
    contradiction
  simp [step, stepCode, (hne '/' (by decide)).symm, hne '"' (by decide), hne '\'' (by decide),
    hne '<' (by decide)]

theorem exists_hides_blanks {b : Text} (h : Text.allBlank b = true) (line rest : Text) :
    ∃ line', Hides .code line (b ++ rest) .code line' rest := by
  induction b generalizing line with
  | nil => exact ⟨line, .refl _ _ _⟩
  | cons c b ih =>
    obtain ⟨hc, hb⟩ := (Text.allBlank_cons c b).mp h
    obtain ⟨line', hrest⟩ := ih hb (nextLine line c)
    exact ⟨line', .cons (step_code_of_isBlank hc line (b ++ rest)) hc hrest⟩

/-- What stands in front of a character on its line counts for an angle bracket alone, and that is
shown. -/
theorem stepCode_congr {line : Text} {c : Char} {rest : Text}
    (h : Text.isBlank (stepCode {} line c rest).1 = true) (line' : Text) :
    stepCode {} line' c rest = stepCode {} line c rest := by
  by_cases hc : c = '<'
  · subst hc
    have hshown : (stepCode {} line '<' rest).1 = '<' := by
      simp only [stepCode, List.isPrefixOf, show ('/' == '<') = false from rfl, Bool.false_and,
        Bool.false_eq_true, if_false]
      split_ifs <;> rfl
    rw [hshown] at h
    exact absurd h (by decide)
  · simp [stepCode, hc]

theorem step_congr {mode : Mode} {line : Text} {c : Char} {rest : Text}
    (h : Text.isBlank (step {} mode line c rest).1 = true) (line' : Text) :
    step {} mode line' c rest = step {} mode line c rest := by
  cases mode with
  | code => exact stepCode_congr h line'
  | line =>
    by_cases hc : c = '\n'
    · simp only [step, if_pos hc] at h ⊢
      exact stepCode_congr h line'
    · simp only [step, if_neg hc]
  | literal quote escaped => cases escaped <;> rfl
  | block skip => cases skip <;> rfl
  | blockEnd left => rfl

theorem scan_congr {mode : Mode} {line t : Text} (h : Text.allBlank (scan {} mode line t) = true)
    (line' : Text) : scan {} mode line' t = scan {} mode line t ∧
      modeAfter {} mode line' t = modeAfter {} mode line t := by
  induction t generalizing mode line line' with
  | nil => exact ⟨rfl, rfl⟩
  | cons c rest ih =>
    rw [scan_cons, Text.allBlank_cons] at h
    obtain ⟨hscan, hmode⟩ := ih h.2 (nextLine line' c)
    rw [scan_cons, scan_cons, modeAfter_cons, modeAfter_cons, step_congr h.1, hscan, hmode]
    exact ⟨rfl, rfl⟩

/-- Whether anything is shown does not depend on what stands in front on the line. -/
theorem allBlank_scan_iff (mode : Mode) (line line' t : Text) :
    Text.allBlank (scan {} mode line t) = true ↔ Text.allBlank (scan {} mode line' t) = true := by
  constructor
  · intro h
    rwa [(scan_congr h line').1]
  · intro h
    rwa [(scan_congr h line).1]

theorem allBlank_scan_joinWith (mode : Mode) (line l : Text) (ls : List Text) :
    Text.allBlank (scan {} mode line (Text.joinWith ['\n'] (l :: ls))) = true ↔
      Text.allBlank (scan {} mode line l) = true ∧
        ∀ x ∈ scanLines (modeAfter {} mode line l).atNewline ls, Text.allBlank x = true := by
  induction ls generalizing mode line l with
  | nil => simp [Text.joinWith, scanLines]
  | cons l' ls ih =>
    rw [Text.joinWith_cons _ _ (List.cons_ne_nil l' ls), List.append_assoc, List.singleton_append,
      scan_append_newline, Text.allBlank_append, Text.allBlank_cons, ih, scanLines,
      List.forall_mem_cons]
    simp only [Text.isBlank_newline, true_and]

end Comment

end SourceEdit
