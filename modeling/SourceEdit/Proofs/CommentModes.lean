import SourceEdit.Proofs.CommentStrides

/-!
The mode of the comment scan at an offset, and what holds on behind a newline: only a block comment
and a backslash in a literal reach into the next line. Any other line leaves the scan of the next one
as if there were nothing in front of it.
-/

set_option autoImplicit false

namespace SourceEdit.Comment

/-- The mode in front of an offset. -/
def modeAt (m : Markers) (source : Text) : Nat → Mode
  | 0 => .code
  | k + 1 =>
    match source.drop k with
    | [] => modeAt m source k
    | c :: rest => (step m (modeAt m source k) (lineBefore source k) c rest).2

variable {m : Markers} {source : Text} {k : Nat} {c : Char} {rest : Text}

theorem modeAt_succ (h : source.drop k = c :: rest) :
    modeAt m source (k + 1) = (step m (modeAt m source k) (lineBefore source k) c rest).2 := by
  rw [modeAt, h]

theorem lineBefore_succ (h : source.drop k = c :: rest) :
    lineBefore source (k + 1) = nextLine (lineBefore source k) c := by
  rw [lineBefore_add, h]
  rfl

theorem drop_succ (h : source.drop k = c :: rest) : source.drop (k + 1) = rest := by
  rw [← List.drop_drop, h]
  rfl

theorem le_length_of_drop (h : source.drop k = c :: rest) : k ≤ source.length := by
  refine Nat.le_of_not_lt fun hlt => ?_
  rw [List.drop_eq_nil_of_le (Nat.le_of_lt hlt)] at h
  contradiction

theorem drop_blankOutWith (m : Markers) (hk : k ≤ source.length) :
    (blankOutWith m source).drop k =
      scan m (modeAt m source k) (lineBefore source k) (source.drop k) ∧
    modeAfter m .code [] source =
      modeAfter m (modeAt m source k) (lineBefore source k) (source.drop k) := by
  induction k with
  | zero => exact ⟨rfl, rfl⟩
  | succ k ih =>
    obtain ⟨hscan, hmode⟩ := ih (Nat.le_of_succ_le hk)
    have h := List.drop_eq_getElem_cons hk
    rw [h, scan_cons] at hscan
    rw [h, modeAfter_cons] at hmode
    rw [modeAt_succ h, lineBefore_succ h, drop_succ hscan]
    exact ⟨rfl, hmode⟩

theorem modeAt_length (m : Markers) (source : Text) :
    modeAt m source source.length = modeAfter m .code [] source := by
  have h := (drop_blankOutWith m (Nat.le_refl source.length)).2
  rw [List.drop_length] at h
  exact h.symm

theorem drop_blankOutWith_cons (m : Markers) (h : source.drop k = c :: rest) :
    (blankOutWith m source).drop k =
      (step m (modeAt m source k) (lineBefore source k) c rest).1 ::
        scan m (modeAt m source (k + 1)) (lineBefore source (k + 1)) rest := by
  rw [(drop_blankOutWith m (le_length_of_drop h)).1, h, scan_cons, modeAt_succ h, lineBefore_succ h]

theorem drop_blankOut_cons (h : source.drop k = c :: rest) :
    (blankOut source).drop k =
      (step {} (modeAt {} source k) (lineBefore source k) c rest).1 ::
        scan {} (modeAt {} source (k + 1)) (lineBefore source (k + 1)) rest :=
  drop_blankOutWith_cons {} h

def OpensComment (t : Text) : Prop := ['/', '/'] <+: t ∨ ['/', '*'] <+: t

def modeBehind (line : Text) (c : Char) : Mode :=
  match literalAt line c with
  | none => .code
  | some quote => .literal quote false

theorem stepCode_of_opensComment (h : OpensComment (c :: rest)) (line : Text) :
    c = '/' ∧
      (stepCode {} line c rest = (' ', .line) ∨ stepCode {} line c rest = (' ', .block 1)) := by
  have hc : c = '/' := by
    rcases h with ⟨_, h⟩ | ⟨_, h⟩ <;> exact (List.cons.inj h).1.symm
  subst hc
  refine ⟨rfl, ?_⟩
  by_cases hline : (['/', '/'] : Text).isPrefixOf ('/' :: rest) = true
  · exact .inl (by rw [stepCode, if_pos hline]; rfl)
  · have hblock : (['/', '*'] : Text).isPrefixOf ('/' :: rest) = true :=
      List.isPrefixOf_iff_prefix.mpr (h.resolve_left (mt List.isPrefixOf_iff_prefix.mpr hline))
    exact .inr (by rw [stepCode, if_neg hline, if_pos hblock]; rfl)

theorem stepCode_of_plain (h : ¬OpensComment (c :: rest)) (line : Text) :
    stepCode {} line c rest = (c, modeBehind line c) := by
  rw [OpensComment, not_or, ← List.isPrefixOf_iff_prefix, ← List.isPrefixOf_iff_prefix] at h
  rw [stepCode, if_neg h.1, if_neg h.2, modeBehind, literalAt]
  split
  · rfl
  · split <;> rfl

/-- What the mode says of the line in front of it, which is given as it is and as it is shown. A line
with a comment on it holds a slash, unless the comment began above and has not ended yet. -/
def Mode.Fits (line shown rest : Text) : Mode → Prop
  | .code => shown = line ∨ '/' ∈ line
  | .literal _ _ => shown = line ∨ '/' ∈ line
  | .line => '/' ∈ line
  | .block skip => skip ≤ 1
  | .blockEnd left => left = 1 ∧ rest.head? = some '/'

theorem agree_nextLine {line shown : Text} (h : shown = line ∨ '/' ∈ line) (c : Char) :
    nextLine shown c = nextLine line c ∨ '/' ∈ nextLine line c := by
  unfold nextLine
  split
  · exact .inl rfl
  · exact h.imp (congrArg (c :: ·)) (.tail c)

theorem slash_mem_nextLine (line : Text) : '/' ∈ nextLine line '/' := List.mem_cons_self

theorem fits_step {mode : Mode} {line shown : Text} (h : mode.Fits line shown (c :: rest)) :
    (step {} mode line c rest).2.Fits (nextLine line c)
      (nextLine shown (step {} mode line c rest).1) rest := by
  match mode with
  | .code =>
    by_cases hopens : OpensComment (c :: rest)
    · obtain ⟨rfl, hstep | hstep⟩ := stepCode_of_opensComment hopens line
      · rw [step, hstep]
        exact slash_mem_nextLine line
      · rw [step, hstep]
        exact Nat.le_refl 1
    · rw [step, stepCode_of_plain hopens, modeBehind]
      split <;> exact agree_nextLine h c
  | .literal quote true => exact agree_nextLine h c
  | .literal quote false =>
    rw [step]
    split
    · exact agree_nextLine h c
    · split <;> exact agree_nextLine h c
  | .line =>
    by_cases hc : c = '\n'
    · subst hc
      rw [step_newline]
      exact agree_nextLine (.inr h) '\n'
    · rw [step, if_neg hc]
      show '/' ∈ nextLine line c
      rw [nextLine, if_neg hc]
      exact .tail c h
  | .block (skip + 1) => exact Nat.le_of_succ_le h
  | .block 0 =>
    rw [step]
    split
    · next hend =>
      obtain ⟨_, htail⟩ := List.isPrefixOf_iff_prefix.mp hend
      exact ⟨rfl, congrArg List.head? (List.cons.inj htail).2.symm⟩
    · exact Nat.zero_le 1
  | .blockEnd left =>
    obtain ⟨rfl, hc⟩ := h
    cases Option.some.inj hc
    exact .inr (slash_mem_nextLine line)

theorem fits_modeAt (hk : k ≤ source.length) :
    (modeAt {} source k).Fits (lineBefore source k) (lineBefore (blankOut source) k)
      (source.drop k) := by
  induction k with
  | zero => exact .inl rfl
  | succ k ih =>
    have h := List.drop_eq_getElem_cons hk
    rw [modeAt_succ h, lineBefore_succ h, lineBefore_succ (drop_blankOut_cons h)]
    exact fits_step (h ▸ ih (Nat.le_of_succ_le hk))

theorem modeAfter_ne_blockEnd (source : Text) (left : Nat) :
    modeAfter {} .code [] source ≠ .blockEnd left := by
  intro h
  have hfits := fits_modeAt (Nat.le_refl source.length)
  rw [modeAt_length, h, List.drop_length] at hfits
  exact absurd hfits.2 (by simp)

/-- The next line is not scanned as if it came first. -/
def Mode.Continues : Mode → Prop
  | .block _ => True
  | .literal _ escaped => escaped = true
  | _ => False

instance (mode : Mode) : Decidable mode.Continues :=
  match mode with
  | .block _ => inferInstanceAs (Decidable True)
  | .literal _ escaped => inferInstanceAs (Decidable (escaped = true))
  | .code => inferInstanceAs (Decidable False)
  | .line => inferInstanceAs (Decidable False)
  | .blockEnd _ => inferInstanceAs (Decidable False)

theorem Mode.atNewline_of_not_continues {mode : Mode} (h : ¬mode.Continues)
    (hend : ∀ left, mode ≠ .blockEnd left) : mode.atNewline = .code := by
  match mode with
  | .code => rfl
  | .line => rfl
  | .literal _ false => rfl
  | .literal _ true => exact absurd rfl h
  | .block _ => exact absurd trivial h
  | .blockEnd left => exact absurd rfl (hend left)

theorem Mode.exists_scan_ne {mode : Mode} (h : mode.Continues) :
    ∃ b, scan {} mode.atNewline [] b ≠ blankOut b := by
  match mode with
  | .literal quote true =>
    refine ⟨['/', '/'], fun hscan => ?_⟩
    have hkept : (scan {} (.literal quote false) [] ['/', '/']).head? = some '/' := by
      rw [scan_cons, step, if_neg (fun h => absurd h.1 (by decide))]
      split <;> rfl
    rw [atNewline] at hscan
    rw [hscan] at hkept
    exact absurd hkept (by decide)
  | .block skip =>
    have hblank (k : Nat) : scan {} (.block k) [] ['x'] = [' '] := by cases k <;> rfl
    refine ⟨['x'], ?_⟩
    rw [atNewline, hblank]
    decide

/-- The lines behind a newline are scanned as if there were nothing in front of it just where the
text in front of it ends neither in a block comment nor behind a backslash in a literal. -/
theorem blankOut_append_newline_iff (a : Text) :
    (∀ b, blankOut (a ++ '\n' :: b) = blankOut a ++ '\n' :: blankOut b) ↔
      ¬(modeAfter {} .code [] a).Continues := by
  have hscan (b : Text) : blankOut (a ++ '\n' :: b) =
      blankOut a ++ '\n' :: scan {} (modeAfter {} .code [] a).atNewline [] b :=
    scan_append_newline .code [] a b
  constructor
  · intro h hcontinues
    obtain ⟨b, hb⟩ := Mode.exists_scan_ne hcontinues
    have hb' := h b
    rw [hscan b] at hb'
    exact hb (List.cons.inj (List.append_cancel_left hb')).2
  · intro h b
    rw [hscan b, Mode.atNewline_of_not_continues h (modeAfter_ne_blockEnd a)]
    rfl

def InComment (t : Text) : Prop := modeAfter {} .code [] t = .block 0

/-- Behind this text a literal is open that goes on up to this quote. -/
def InLiteral (t : Text) (quote : Char) : Prop := modeAfter {} .code [] t = .literal quote false

/-- The same is open behind both texts, or nothing is. -/
structure SameOpen (t u : Text) : Prop where
  comment : InComment t ↔ InComment u
  literal : ∀ quote, InLiteral t quote ↔ InLiteral u quote

/-- At the start of a line nothing else can be open. A literal is only open there if its newline was
escaped. -/
theorem modeAfter_newline_cases (a : Text) : modeAfter {} .code [] (a ++ ['\n']) = .code ∨
    InComment (a ++ ['\n']) ∨ ∃ quote, InLiteral (a ++ ['\n']) quote := by
  unfold InComment InLiteral
  rw [modeAfter_append_newline, modeAfter]
  have hfits := fits_modeAt (Nat.le_refl a.length)
  rw [modeAt_length] at hfits
  cases hmode : modeAfter {} .code [] a with
  | code | line => exact .inl rfl
  | literal quote escaped =>
    cases escaped with
    | true => exact .inr (.inr ⟨quote, rfl⟩)
    | false => exact .inl rfl
  | block skip =>
    rw [hmode] at hfits
    have hskip : skip - 1 = 0 := Nat.sub_eq_zero_of_le hfits
    exact .inr (.inl (by rw [Mode.atNewline, hskip]))
  | blockEnd left => exact absurd hmode (modeAfter_ne_blockEnd a left)

theorem modeAfter_eq_iff_sameOpen {t u : Text} (ht : t = [] ∨ ∃ a, t = a ++ ['\n'])
    (hu : u = [] ∨ ∃ a, u = a ++ ['\n']) :
    modeAfter {} .code [] t = modeAfter {} .code [] u ↔ SameOpen t u := by
  have hcases : ∀ v, (v = [] ∨ ∃ a, v = a ++ ['\n']) → modeAfter {} .code [] v = .code ∨
      InComment v ∨ ∃ quote, InLiteral v quote := by
    rintro _ (rfl | ⟨a, rfl⟩)
    · exact .inl rfl
    · exact modeAfter_newline_cases a
  refine ⟨fun h => ⟨by rw [InComment, InComment, h], fun _ => by rw [InLiteral, InLiteral, h]⟩,
    fun h => ?_⟩
  rcases hcases t ht with hcode | hcomment | ⟨quote, hliteral⟩
  · rcases hcases u hu with hcode' | hcomment | ⟨quote, hliteral⟩
    · rw [hcode, hcode']
    · exact (h.comment.mpr hcomment).trans hcomment.symm
    · exact ((h.literal quote).mpr hliteral).trans hliteral.symm
  · exact hcomment.trans (h.comment.mp hcomment).symm
  · exact hliteral.trans ((h.literal quote).mp hliteral).symm

theorem blankOut_append_newline_open_target :
    ¬(modeAfter {} .code [] "#include <a".toList).Continues ∧
      blankOut ("#include <a".toList ++ '\n' :: "//b>".toList) =
        blankOut "#include <a".toList ++ '\n' :: blankOut "//b>".toList := by
  have hends : ¬(modeAfter {} .code [] "#include <a".toList).Continues := by decide
  exact ⟨hends, (blankOut_append_newline_iff _).mpr hends _⟩

end SourceEdit.Comment
