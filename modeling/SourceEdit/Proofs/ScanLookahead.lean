import SourceEdit.Proofs.CommentModes
import SourceEdit.Proofs.HiddenLines

/-!
How far the comment scan looks ahead: one character, and only behind a slash in code or an asterisk in a
block comment. So a text that changes from an offset on is scanned alike up to there, and what is shown
of the text in front of that offset can depend on the next character alone.
-/

set_option autoImplicit false

namespace SourceEdit.Comment

variable {mode : Mode} {line rest rest' : Text} {c : Char}

theorem isPrefixOf_pair (x y : Char) (rest : Text) :
    [x, y].isPrefixOf (c :: rest) = (x == c && rest.head? == some y) := by
  cases rest with
  | nil => simp [List.isPrefixOf]
  | cons d rest =>
    show (x == c && (y == d && true)) = (x == c && d == y)
    rw [Bool.and_true, show (y == d) = (d == y) from BEq.comm]

theorem step_congr_head (h : rest.head? = rest'.head?) (mode : Mode) (line : Text) (c : Char) :
    step {} mode line c rest = step {} mode line c rest' := by
  simp only [step, stepCode, isPrefixOf_pair, h]

/-- The next character counts behind a slash in code and an asterisk in a block comment. -/
theorem step_congr_rest (hcode : ¬(mode = .code ∧ c = '/')) (hblock : ¬(mode = .block 0 ∧ c = '*'))
    (line rest rest' : Text) : step {} mode line c rest = step {} mode line c rest' := by
  have hplain (hc : c ≠ '/') : stepCode {} line c rest = stepCode {} line c rest' := by
    simp only [stepCode, isPrefixOf_pair, beq_false_of_ne hc.symm, Bool.false_and]
  cases mode with
  | code => exact hplain fun hc => hcode ⟨rfl, hc⟩
  | literal _ escaped => cases escaped <;> rfl
  | line =>
    by_cases hc : c = '\n'
    · subst hc
      exact (step_newline _ _ _).trans (step_newline _ _ _).symm
    · rw [step, step, if_neg hc, if_neg hc]
  | block skip =>
    cases skip with
    | succ skip => rfl
    | zero =>
      have hc : c ≠ '*' := fun hc => hblock ⟨rfl, hc⟩
      simp only [step, isPrefixOf_pair, beq_false_of_ne hc.symm, Bool.false_and]
  | blockEnd _ => rfl

variable {a x y : Text}

theorem drop_append_cons {k : Nat} (hk : k < a.length) :
    (a ++ x).drop k = a[k] :: (a.drop (k + 1) ++ x) := by
  rw [List.drop_append_of_le_length (Nat.le_of_lt hk), List.drop_eq_getElem_cons hk,
    List.cons_append]

theorem lineBefore_append {k : Nat} (hk : k ≤ a.length) : lineBefore (a ++ x) k = lineBefore a k := by
  rw [lineBefore, lineBefore, List.take_append_of_le_length hk]

theorem modeAt_append {k : Nat} (hk : k < a.length) : modeAt {} (a ++ x) k = modeAt {} (a ++ y) k := by
  induction k with
  | zero => rfl
  | succ k ih =>
    have hlt : k < a.length := Nat.lt_of_succ_lt hk
    have hnext : (a.drop (k + 1) ++ x).head? = (a.drop (k + 1) ++ y).head? := by
      rw [List.drop_eq_getElem_cons hk]
      rfl
    rw [modeAt_succ (drop_append_cons hlt), modeAt_succ (drop_append_cons hlt), ih hlt,
      lineBefore_append (Nat.le_of_lt hlt), lineBefore_append (Nat.le_of_lt hlt),
      step_congr_head hnext]

theorem modeAt_concat (a x : Text) (c : Char) :
    modeAt {} (a ++ [c] ++ x) (a.length + 1) =
      (step {} (modeAt {} (a ++ [c] ++ x) a.length) (lineBefore (a ++ [c]) a.length) c x).2 := by
  have hlength : a.length < (a ++ [c]).length := by simp
  have hdrop : (a ++ [c] ++ x).drop a.length = c :: x := by
    rw [List.append_assoc, List.drop_left, List.singleton_append]
  rw [modeAt_succ hdrop, lineBefore_append (Nat.le_of_lt hlength)]

theorem modeAt_length_append {a : Text} (h : ∀ c, a.getLast? = some c → c ≠ '/' ∧ c ≠ '*') (x y : Text) :
    modeAt {} (a ++ x) a.length = modeAt {} (a ++ y) a.length := by
  cases a using List.reverseRecOn with
  | nil => rfl
  | append_singleton a c =>
    obtain ⟨hslash, hstar⟩ := h c List.getLast?_concat
    have hlength : a.length < (a ++ [c]).length := by simp
    rw [List.length_append, List.length_singleton, modeAt_concat, modeAt_concat,
      modeAt_append (x := x) (y := y) hlength]
    exact congrArg Prod.snd (step_congr_rest (fun h => hslash h.2) (fun h => hstar h.2) _ _ _)

/-- The scan of a part is the scan from where it begins, cut off where it ends. -/
theorem slice_blankOut (a u b : Text) :
    (blankOut (a ++ (u ++ b))).slice a.length (a.length + u.length) =
      (scan {} (modeAt {} (a ++ (u ++ b)) a.length) (lineBefore (a ++ (u ++ b)) a.length)
        (u ++ b)).take u.length := by
  have hlength : a.length ≤ (a ++ (u ++ b)).length := by simp
  have hdrop := (drop_blankOutWith {} hlength).1
  rw [List.drop_left] at hdrop
  rw [Text.slice, List.drop_take, Nat.add_sub_cancel_left]
  exact congrArg (List.take u.length) hdrop

theorem allBlank_take_scan {u : Text} (h : Text.allBlank (scan {} mode line u) = true) (b : Text) :
    Text.allBlank ((scan {} mode line (u ++ b)).take u.length) = true := by
  induction u generalizing mode line with
  | nil => rfl
  | cons c u ih =>
    rw [scan_cons, Text.allBlank_cons] at h
    obtain ⟨hshown, hrest⟩ := h
    have hstep : step {} mode line c (u ++ b) = step {} mode line c u ∨
        u = [] ∧ Text.isBlank (step {} mode line c b).1 = true := by
      cases u with
      | cons d u => exact .inl (step_congr_head rfl mode line c)
      | nil =>
        by_cases hcode : mode = .code ∧ c = '/'
        · obtain ⟨rfl, rfl⟩ := hcode
          exact absurd (show Text.isBlank '/' = true from hshown) (by decide)
        · by_cases hblock : mode = .block 0 ∧ c = '*'
          · obtain ⟨rfl, rfl⟩ := hblock
            refine .inr ⟨rfl, ?_⟩
            rw [step]
            split <;> exact isBlank_blank '*'
          · exact .inl (step_congr_rest hcode hblock line b [])
    rw [List.cons_append, scan_cons, List.length_cons, List.take_succ_cons, Text.allBlank_cons]
    rcases hstep with hstep | ⟨rfl, hblank⟩
    · rw [hstep]
      exact ⟨hshown, ih hrest⟩
    · exact ⟨hblank, rfl⟩

theorem allBlank_take_scan_blockEnd_iff {shown w b : Text}
    (hfits : mode.Fits line shown (w ++ '*' :: '/' :: b)) :
    Text.allBlank ((scan {} mode line (w ++ '*' :: '/' :: b)).take (w.length + 2)) = true ↔
      Text.allBlank (scan {} mode line (w ++ ['*', '/'])) = true := by
  induction w generalizing mode line shown with
  | nil =>
    simp only [List.nil_append, List.length_nil, Nat.zero_add, scan_cons, List.take_succ_cons,
      List.take_zero, Text.allBlank_cons, scan]
    cases mode with
    | code =>
      have hshown (rest : Text) : step {} .code line '*' rest = ('*', .code) := by
        simp [step, stepCode, isPrefixOf_pair]
      simp only [hshown, show Text.isBlank '*' = false by decide, Bool.false_eq_true, false_and]
    | literal quote escaped =>
      have hshown (rest : Text) : (step {} (.literal quote escaped) line '*' rest).1 = '*' := by
        cases escaped with
        | true => rfl
        | false =>
          rw [step]
          split
          · rfl
          · split <;> rfl
      simp only [hshown, show Text.isBlank '*' = false by decide, Bool.false_eq_true, false_and]
    | line => exact Iff.rfl
    | block skip =>
      cases skip with
      | succ skip => cases skip <;> exact Iff.rfl
      | zero => exact Iff.rfl
    | blockEnd left => exact absurd hfits.2 (by simp)
  | cons c w ih =>
    have hhead : (w ++ '*' :: '/' :: b).head? = (w ++ ['*', '/']).head? := by cases w <;> rfl
    have hnext : (step {} mode line c (w ++ '*' :: '/' :: b)).2.Fits (nextLine line c)
        (nextLine shown (step {} mode line c (w ++ '*' :: '/' :: b)).1) (w ++ '*' :: '/' :: b) :=
      fits_step hfits
    rw [List.cons_append, List.cons_append, scan_cons, scan_cons, List.length_cons,
      Nat.add_right_comm, List.take_succ_cons, Text.allBlank_cons, Text.allBlank_cons,
      step_congr_head hhead]
    rw [step_congr_head hhead] at hnext
    exact and_congr_right fun _ => ih hnext

/-- At this offset the scan is in no comment and in no literal. A line comment ends in front of its
newline. -/
def Outside (t : Text) (p : Nat) : Prop :=
  modeAt {} t p = .code ∨ modeAt {} t p = .line ∧ (t[p]? = none ∨ t[p]? = some '\n')

instance (t : Text) (p : Nat) : Decidable (Outside t p) := inferInstanceAs (Decidable (_ ∨ _ ∧ _))

/-- A block comment that is begun here is in a line comment, or its first slash makes one with a slash in
front of it. -/
def joinsLine (t : Text) : Nat → Bool
  | 0 => false
  | p + 1 => modeAt {} t (p + 1) = .line || (modeAt {} t p = .code && t[p]? = some '/')

theorem modeAt_blockStart {a y : Text} (h : Outside (a ++ y) a.length) (x : Text) :
    modeAt {} (a ++ '/' :: x) a.length = if joinsLine (a ++ y) a.length then .line else .code := by
  cases a using List.reverseRecOn with
  | nil => rfl
  | append_singleton a c =>
    have hlength : a.length < (a ++ [c]).length := by simp
    have hchar : (a ++ [c] ++ y)[a.length]? = some c := by simp
    have hsame : modeAt {} (a ++ [c] ++ '/' :: x) a.length = modeAt {} (a ++ [c] ++ y) a.length :=
      modeAt_append hlength
    rw [List.length_append, List.length_singleton] at h ⊢
    rw [joinsLine, hchar, modeAt_concat, hsame]
    rw [Outside, modeAt_concat] at h
    rw [modeAt_concat]
    have hnext := h.imp_right And.left
    generalize modeAt {} (a ++ [c] ++ y) a.length = mode at hnext ⊢
    by_cases hcode : mode = .code ∧ c = '/'
    · obtain ⟨rfl, rfl⟩ := hcode
      simp [step, stepCode]
    · have hblock : ¬(mode = .block 0 ∧ c = '*') := by
        rintro ⟨rfl, rfl⟩
        rw [step] at hnext
        split at hnext <;> simp [Mode.behindEnd] at hnext
      have hjoins : (decide (mode = .code) && decide (some c = some '/')) = false := by
        simpa using hcode
      rw [step_congr_rest hcode hblock _ ('/' :: x) y, hjoins, Bool.or_false]
      rcases hnext with hnext | hnext <;> rw [hnext] <;> rfl

def Mode.Quotes : Mode → Prop
  | .literal quote _ => Text.isBlank quote = false
  | _ => True

theorem quotes_stepCode (line : Text) (c : Char) (rest : Text) : (stepCode {} line c rest).2.Quotes := by
  unfold stepCode
  split_ifs with _ _ hquote
  · trivial
  · trivial
  · rcases hquote with rfl | rfl
    · exact (by decide : Text.isBlank '"' = false)
    · exact (by decide : Text.isBlank '\'' = false)
  · exact (by decide : Text.isBlank '>' = false)
  · trivial

theorem quotes_step (h : mode.Quotes) (line : Text) (c : Char) (rest : Text) :
    (step {} mode line c rest).2.Quotes := by
  cases mode with
  | code => exact quotes_stepCode line c rest
  | literal quote escaped =>
    cases escaped with
    | true => exact h
    | false =>
      rw [step]
      split_ifs
      · exact h
      · trivial
      · exact h
  | line =>
    rw [step]
    split_ifs
    · exact quotes_stepCode line c rest
    · trivial
  | block skip =>
    cases skip with
    | succ skip => trivial
    | zero =>
      rw [step]
      split_ifs <;> trivial
  | blockEnd left =>
    rw [step, Mode.behindEnd]
    split_ifs <;> trivial

theorem quotes_modeAt (t : Text) (k : Nat) : (modeAt {} t k).Quotes := by
  induction k with
  | zero => trivial
  | succ k ih =>
    rw [modeAt]
    split
    · exact ih
    · exact quotes_step ih _ _ _

theorem mode_of_step_blank {shown : Text} (hquotes : mode.Quotes)
    (hfits : mode.Fits line shown (c :: rest)) (hblank : Text.isBlank c = true) (hc : c ≠ '\n')
    (h : (step {} mode line c rest).2 = .code ∨ (step {} mode line c rest).2 = .line) :
    mode = .code ∨ mode = .line := by
  cases mode with
  | code => exact .inl rfl
  | line => exact .inr rfl
  | literal quote escaped =>
    cases escaped with
    | true => simp [step] at h
    | false =>
      have hquote : c ≠ quote := by
        rintro rfl
        exact Bool.false_ne_true (hquotes.symm.trans hblank)
      simp only [step, hquote, hc, or_self, if_false] at h
      split at h <;> simp at h
  | block skip =>
    cases skip with
    | succ skip => simp [step] at h
    | zero =>
      rw [step] at h
      split at h <;> simp [Mode.behindEnd] at h
  | blockEnd left =>
    obtain rfl : c = '/' := Option.some.inj hfits.2
    exact absurd hblank (by decide)

/-- With only blanks in front of it on its line, an offset outside is as at the start of the line. -/
theorem mode_at_lineStart {t : Text} {p : Nat} (hp : p ≤ t.length)
    (hblank : Text.allBlank (lineBefore t p) = true)
    (h : modeAt {} t p = .code ∨ modeAt {} t p = .line) :
    modeAt {} t (p - (lineBefore t p).length) = .code ∨
      modeAt {} t (p - (lineBefore t p).length) = .line := by
  induction p with
  | zero => exact h
  | succ p ih =>
    have hdrop := List.drop_eq_getElem_cons hp
    have hnext := lineBefore_succ hdrop
    by_cases hc : t[p] = '\n'
    · rw [hnext, nextLine, if_pos hc]
      exact h
    · rw [nextLine, if_neg hc] at hnext
      rw [hnext, Text.allBlank_cons] at hblank
      have hfits := fits_modeAt (Nat.le_of_succ_le hp)
      rw [hdrop] at hfits
      rw [modeAt_succ hdrop] at h
      have hbefore := mode_of_step_blank (quotes_modeAt t p) hfits hblank.1 hc h
      rw [hnext, List.length_cons, Nat.add_sub_add_right]
      exact ih (Nat.le_of_succ_le hp) hblank.2 hbefore

end SourceEdit.Comment
