import Mathlib.Data.List.Basic
import SourceEdit.Comment
import SourceEdit.Text.Lines

set_option autoImplicit false

namespace SourceEdit

namespace Text

theorem fields_of_not_mem {sep : Char} {t : Text} (h : sep ∉ t) : fields sep t = [t] := by
  induction t with
  | nil => rfl
  | cons c rest ih =>
    rw [List.mem_cons, not_or] at h
    rw [fields, if_neg (Ne.symm h.1), ih h.2]

theorem fields_append_cons (sep : Char) (a b : Text) :
    fields sep (a ++ sep :: b) = fields sep a ++ fields sep b := by
  induction a with
  | nil => simp [fields]
  | cons c rest ih =>
    rw [List.cons_append, fields, fields, ih]
    split
    · rfl
    · cases hf : fields sep rest with
      | nil => exact absurd hf (fields_ne_nil sep rest)
      | cons f fs => rfl

theorem not_mem_of_mem_fields {sep : Char} {t f : Text} (h : f ∈ fields sep t) : sep ∉ f := by
  induction t generalizing f with
  | nil =>
    rw [fields, List.mem_singleton] at h
    rw [h]
    exact List.not_mem_nil
  | cons c rest ih =>
    rw [fields] at h
    split at h
    · rcases List.mem_cons.mp h with rfl | h
      · exact List.not_mem_nil
      · exact ih h
    · next hc =>
      split at h
      · rw [List.mem_singleton] at h
        rw [h, List.mem_singleton]
        exact fun h => hc h.symm
      · next g gs hg =>
        have hmem : ∀ f ∈ g :: gs, sep ∉ f := fun f hf => ih (hg ▸ hf)
        rcases List.mem_cons.mp h with rfl | h
        · rw [List.mem_cons, not_or]
          exact ⟨fun h => hc h.symm, hmem g List.mem_cons_self⟩
        · exact hmem f (.tail _ h)

/-- A text is one line, or a line with a newline and a text behind it. -/
@[elab_as_elim]
theorem line_induction {P : Text → Prop} (t : Text) (last : ∀ l, '\n' ∉ l → P l)
    (more : ∀ l rest, '\n' ∉ l → P rest → P (l ++ '\n' :: rest)) : P t := by
  by_cases h : '\n' ∈ t
  · obtain ⟨l, rest, ht, hl⟩ := List.eq_append_cons_of_mem h
    subst ht
    exact more l rest hl (line_induction rest last more)
  · exact last t h
termination_by t.length
decreasing_by subst ht; simp only [List.length_append, List.length_cons]; omega

theorem lines_append (a b : Text) : lines (a ++ '\n' :: b) = lines a ++ lines b :=
  fields_append_cons '\n' a b

theorem lines_of_not_mem {t : Text} (h : '\n' ∉ t) : lines t = [t] := fields_of_not_mem h

end Text

namespace Comment

theorem scan_cons (m : Markers) (mode : Mode) (line : Text) (c : Char) (rest : Text) :
    scan m mode line (c :: rest) =
      (step m mode line c rest).1 ::
        scan m (step m mode line c rest).2 (nextLine line c) rest := rfl

theorem modeAfter_cons (m : Markers) (mode : Mode) (line : Text) (c : Char) (rest : Text) :
    modeAfter m mode line (c :: rest) =
      modeAfter m (step m mode line c rest).2 (nextLine line c) rest := rfl

theorem blank_eq (c : Char) : blank c = c ∨ blank c = ' ' ∧ c ≠ '\n' := by
  unfold blank
  split
  · exact .inl rfl
  · next h => exact .inr ⟨rfl, h⟩

theorem step_shown (m : Markers) (mode : Mode) (line : Text) (c : Char) (rest : Text) :
    (step m mode line c rest).1 = c ∨ (step m mode line c rest).1 = ' ' ∧ c ≠ '\n' := by
  have hcode : (stepCode m line c rest).1 = c ∨ (stepCode m line c rest).1 = ' ' ∧ c ≠ '\n' := by
    unfold stepCode
    repeat' split
    all_goals first | exact blank_eq c | exact .inl rfl
  unfold step
  match mode with
  | .code => exact hcode
  | .literal _ true => exact .inl rfl
  | .literal _ false =>
    dsimp only
    repeat' split
    all_goals exact .inl rfl
  | .line =>
    dsimp only
    split
    · exact hcode
    · next h => exact .inr ⟨rfl, h⟩
  | .block (_ + 1) => exact blank_eq c
  | .block 0 =>
    dsimp only
    split <;> exact blank_eq c
  | .blockEnd _ => exact blank_eq c

theorem newline_not_mem_scan {t : Text} (h : '\n' ∉ t) (m : Markers) (mode : Mode) (line : Text) :
    '\n' ∉ scan m mode line t := by
  induction t generalizing mode line with
  | nil => exact h
  | cons c rest ih =>
    rw [List.mem_cons, not_or] at h
    rw [scan_cons, List.mem_cons, not_or]
    refine ⟨?_, ih h.2 _ _⟩
    rcases step_shown m mode line c rest with hs | hs
    · rw [hs]; exact h.1
    · rw [hs.1]; decide

def Mode.atNewline : Mode → Mode
  | .code => .code
  | .literal quote true => .literal quote false
  | .literal _ false => .code
  | .line => .code
  | .block skip => .block (skip - 1)
  | .blockEnd left => behindEnd (left - 1)

theorem step_newline (mode : Mode) (line rest : Text) :
    step {} mode line '\n' rest = ('\n', mode.atNewline) := by
  have hcode : stepCode {} line '\n' rest = ('\n', .code) := by
    simp [stepCode]
  match mode with
  | .code => exact hcode
  | .literal quote true => rfl
  | .literal quote false => simp [step, Mode.atNewline]
  | .line => simp [step, hcode, Mode.atNewline]
  | .block (_ + 1) => rfl
  | .block 0 => simp [step, blank, Mode.atNewline]
  | .blockEnd _ => rfl

/-- No marker holds a newline, so what stands behind one is not looked at. -/
theorem step_append_newline (mode : Mode) (line : Text) (c : Char) (rest b : Text) :
    step {} mode line c (rest ++ '\n' :: b) = step {} mode line c rest := by
  have hprefix : ∀ x y : Char, y ≠ '\n' →
      [x, y].isPrefixOf (c :: (rest ++ '\n' :: b)) = [x, y].isPrefixOf (c :: rest) := by
    intro x y hy
    cases rest with
    | nil => simp [List.isPrefixOf, hy]
    | cons d rest => simp [List.isPrefixOf]
  simp only [step, stepCode, hprefix _ _ (show '/' ≠ '\n' by decide),
    hprefix _ _ (show '*' ≠ '\n' by decide)]

theorem scan_append_newline (mode : Mode) (line a b : Text) :
    scan {} mode line (a ++ '\n' :: b) =
      scan {} mode line a ++ '\n' :: scan {} (modeAfter {} mode line a).atNewline [] b := by
  induction a generalizing mode line with
  | nil => simp [scan_cons, step_newline, nextLine, scan, modeAfter]
  | cons c rest ih =>
    rw [List.cons_append, scan_cons, scan_cons, step_append_newline, ih, modeAfter_cons,
      List.cons_append]

theorem modeAfter_append_newline (mode : Mode) (line a b : Text) :
    modeAfter {} mode line (a ++ '\n' :: b) =
      modeAfter {} (modeAfter {} mode line a).atNewline [] b := by
  induction a generalizing mode line with
  | nil => simp [modeAfter_cons, step_newline, nextLine, modeAfter]
  | cons c rest ih =>
    rw [List.cons_append, modeAfter_cons, step_append_newline, ih, modeAfter_cons]

def scanLines : Mode → List Text → List Text
  | _, [] => []
  | mode, l :: ls => scan {} mode [] l :: scanLines (modeAfter {} mode [] l).atNewline ls

theorem lines_scan_append {mode : Mode} {l : Text} (hl : '\n' ∉ l) (rest : Text) :
    Text.lines (scan {} mode [] (l ++ '\n' :: rest)) =
      scan {} mode [] l :: Text.lines (scan {} (modeAfter {} mode [] l).atNewline [] rest) := by
  rw [scan_append_newline, Text.lines_append,
    Text.lines_of_not_mem (newline_not_mem_scan hl _ _ _), List.singleton_append]

theorem lines_scan (mode : Mode) (t : Text) :
    Text.lines (scan {} mode [] t) = scanLines mode (Text.lines t) := by
  induction t using Text.line_induction generalizing mode with
  | last l hl =>
    rw [Text.lines_of_not_mem hl, Text.lines_of_not_mem (newline_not_mem_scan hl _ _ _)]
    rfl
  | more l rest hl ih =>
    rw [lines_scan_append hl, ih, Text.lines_append, Text.lines_of_not_mem hl]
    rfl

theorem map_length_scanLines (mode : Mode) (ls : List Text) :
    (scanLines mode ls).map List.length = ls.map List.length := by
  induction ls generalizing mode with
  | nil => rfl
  | cons l ls ih => rw [scanLines, List.map_cons, List.map_cons, length_scan, ih]

theorem take_scanLines (n : Nat) (mode : Mode) (ls : List Text) :
    (scanLines mode ls).take n = scanLines mode (ls.take n) := by
  induction ls generalizing n mode with
  | nil => cases n <;> rfl
  | cons l ls ih =>
    cases n with
    | zero => rfl
    | succ n => rw [scanLines, List.take_succ_cons, List.take_succ_cons, ih, scanLines]

end Comment

end SourceEdit
