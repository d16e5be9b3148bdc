import SourceEdit.Proofs.CommentModes
import SourceEdit.Proofs.HiddenLines

set_option autoImplicit false

namespace SourceEdit.Comment

variable {source : Text} {k : Nat} {mode : Mode} {c : Char} {line rest : Text}

theorem drop_of_getElem? (h : source[k]? = some c) : source.drop k = c :: source.drop (k + 1) := by
  obtain ⟨hk, rfl⟩ := List.getElem?_eq_some_iff.mp h
  exact List.drop_eq_getElem_cons hk

/-- The mode in the blanked text, which has no comments. -/
def Mode.blanked : Mode → Mode
  | .code => .code
  | .literal quote escaped => .literal quote escaped
  | .line => .code
  | .block _ => .code
  | .blockEnd _ => .code

/-- The text that follows begins in a comment or with one. -/
def Mode.Commented (t : Text) : Mode → Prop
  | .code => OpensComment t
  | .literal _ _ => False
  | .line => True
  | .block _ => True
  | .blockEnd _ => True

theorem opensComment_cons_iff :
    OpensComment (c :: rest) ↔ c = '/' ∧ (rest.head? = some '/' ∨ rest.head? = some '*') := by
  have hmarker (d : Char) : ['/', d] <+: c :: rest ↔ c = '/' ∧ rest.head? = some d := by
    cases rest <;> simp [List.cons_prefix_cons, eq_comm]
  rw [OpensComment, hmarker, hmarker, and_or_left]

theorem not_opensComment (hc : c ≠ '/') (rest : Text) : ¬OpensComment (c :: rest) :=
  fun h => hc (opensComment_cons_iff.mp h).1

theorem OpensComment.eq_cons {t : Text} (h : OpensComment t) : ∃ rest, t = '/' :: rest := by
  rcases h with ⟨rest, rfl⟩ | ⟨rest, rfl⟩ <;> exact ⟨_, rfl⟩

theorem blanked_of_commented (h : mode.Commented (c :: rest)) : mode.blanked = .code := by
  cases mode <;> first | rfl | contradiction

theorem step_of_commented (h : mode.Commented (c :: rest)) (line : Text) :
    Text.isBlank (step {} mode line c rest).1 = true ∧
      (step {} mode line c rest).2.blanked = .code := by
  match mode with
  | .code =>
    obtain ⟨-, hstep | hstep⟩ := stepCode_of_opensComment h line <;> rw [step, hstep] <;>
      exact ⟨by decide, rfl⟩
  | .line =>
    by_cases hc : c = '\n'
    · subst hc
      rw [step_newline]
      exact ⟨by decide, rfl⟩
    · rw [step, if_neg hc]
      exact ⟨by decide, rfl⟩
  | .block (_ + 1) => exact ⟨isBlank_blank c, rfl⟩
  | .block 0 =>
    rw [step]
    split <;> exact ⟨isBlank_blank c, rfl⟩
  | .blockEnd left =>
    refine ⟨isBlank_blank c, ?_⟩
    rw [step, Mode.behindEnd]
    split <;> rfl

def Mode.next (line : Text) (c : Char) : Mode → Mode
  | .code => modeBehind line c
  | .literal quote true => .literal quote false
  | .literal quote false =>
    if c = '\\' ∧ quote ≠ '>' then .literal quote true
    else if c = quote ∨ c = '\n' then .code
    else .literal quote false
  | mode => mode

theorem step_of_not_commented (h : ¬mode.Commented (c :: rest)) (line : Text) :
    step {} mode line c rest = (c, mode.next line c) := by
  match mode with
  | .code => exact stepCode_of_plain h line
  | .literal _ true => rfl
  | .literal _ false =>
    rw [step, Mode.next]
    split
    · rfl
    · split <;> rfl
  | .line => exact absurd trivial h
  | .block _ => exact absurd trivial h
  | .blockEnd _ => exact absurd trivial h

theorem blanked_of_not_commented (h : ¬mode.Commented (c :: rest)) : mode.blanked = mode := by
  cases mode <;> first | rfl | exact absurd trivial h

theorem blanked_next (h : mode.blanked = mode) (line : Text) (c : Char) :
    (mode.next line c).blanked = mode.next line c := by
  match mode with
  | .code =>
    rw [Mode.next, modeBehind]
    split <;> rfl
  | .literal _ true => rfl
  | .literal _ false =>
    rw [Mode.next]
    split
    · rfl
    · split <;> rfl
  | .line => exact h
  | .block _ => exact h
  | .blockEnd _ => exact h

theorem next_congr {line' : Text}
    (h : mode = .code → c = '<' → isIncludePrefix line' = isIncludePrefix line) :
    mode.next line' c = mode.next line c := by
  match mode with
  | .code =>
    rw [Mode.next, Mode.next, modeBehind, modeBehind, literalAt, literalAt]
    by_cases hc : c = '<'
    · rw [h rfl hc]
    · simp only [hc, false_and, if_false]
  | .literal _ true => rfl
  | .literal _ false => rfl
  | .line => rfl
  | .block _ => rfl
  | .blockEnd _ => rfl

theorem mem_dropWhile {p : Char → Bool} {t : Text} (h : c ∈ t) (hc : p c = false) :
    c ∈ t.dropWhile p := by
  rw [← List.takeWhile_append_dropWhile (p := p) (l := t), List.mem_append] at h
  refine h.resolve_left fun htake => ?_
  have hc' := List.all_eq_true.mp (List.all_takeWhile) c htake
  rw [hc] at hc'
  contradiction

theorem slash_not_mem_of_isIncludePrefix (h : isIncludePrefix line = true) : '/' ∉ line := by
  have hspace : Text.isSpaceOrTab '/' = false := by decide
  intro hmem
  unfold isIncludePrefix at h
  rw [Bool.and_eq_true] at h
  obtain ⟨hword, hbefore⟩ := h
  obtain ⟨t, ht⟩ := List.isPrefixOf_iff_prefix.mp hword
  have hrest := mem_dropWhile hmem hspace
  rw [← ht, List.drop_left] at hbefore
  rw [← ht, List.mem_append] at hrest
  have ht' := mem_dropWhile (hrest.resolve_left (by decide)) hspace
  split at hbefore
  · next before hhash =>
    rw [hhash] at ht'
    have hslash : '/' ∈ before := (List.mem_cons.mp ht').resolve_left (by decide)
    have hspace' := List.all_eq_true.mp hbefore '/' hslash
    rw [hspace] at hspace'
    contradiction
  · contradiction

/-- An include target that shows in the blanked text only. -/
structure Obscured (source : Text) (k : Nat) : Prop where
  mode_eq : modeAt {} source k = .code
  opens : source[k]? = some '<'
  shown : isIncludePrefix (lineBefore (blankOut source) k) = true
  hidden : isIncludePrefix (lineBefore source k) = false

theorem isIncludePrefix_eq (hmode : modeAt {} source k = .code) (hc : source[k]? = some '<')
    (h : ¬Obscured source k) :
    isIncludePrefix (lineBefore (blankOut source) k) = isIncludePrefix (lineBefore source k) := by
  have hk := (List.getElem?_eq_some_iff.mp hc).1
  have hfits := fits_modeAt (Nat.le_of_lt hk)
  rw [hmode] at hfits
  cases hhidden : isIncludePrefix (lineBefore source k) with
  | true =>
    rw [hfits.resolve_right (slash_not_mem_of_isIncludePrefix hhidden), hhidden]
  | false => exact Bool.eq_false_iff.mpr fun hshown => h ⟨hmode, hc, hshown, hhidden⟩

/-- A marker is not made by what is shown behind its first character. -/
theorem commented_of_scan {m : Mode} (h : mode.Commented (c :: scan {} m line rest)) :
    mode.Commented (c :: rest) := by
  match mode with
  | .code =>
    have ⟨hc, hhead⟩ := opensComment_cons_iff.mp h
    refine opensComment_cons_iff.mpr ⟨hc, ?_⟩
    match rest with
    | [] => exact hhead
    | d :: rest =>
      rw [scan_cons] at hhead
      rcases step_shown {} m line d rest with hshown | ⟨hshown, -⟩ <;> rw [hshown] at hhead
      · exact hhead
      · exact absurd hhead (by simp)
  | .literal _ _ => exact h
  | .line => trivial
  | .block _ => trivial
  | .blockEnd _ => trivial

theorem modeAt_blankOut (hk : k ≤ source.length) (h : ∀ j < k, ¬Obscured source j) :
    modeAt {} (blankOut source) k = (modeAt {} source k).blanked := by
  induction k with
  | zero => rfl
  | succ k ih =>
    have hmode := ih (Nat.le_of_succ_le hk) fun j hj => h j (Nat.lt_succ_of_lt hj)
    have hdrop := List.drop_eq_getElem_cons hk
    rw [modeAt_succ (drop_blankOut_cons hdrop), hmode]
    by_cases hcommented : (modeAt {} source k).Commented (source[k] :: source.drop (k + 1))
    · obtain ⟨hblank, hnext⟩ := step_of_commented hcommented (lineBefore source k)
      rw [blanked_of_commented hcommented, step_code_of_isBlank hblank, modeAt_succ hdrop, hnext]
    · have hstep := step_of_not_commented hcommented (lineBefore source k)
      have hhere := blanked_of_not_commented hcommented
      rw [hhere, hstep, step_of_not_commented (mt commented_of_scan hcommented), modeAt_succ hdrop,
        hstep, blanked_next hhere]
      exact next_congr fun hcode hc =>
        isIncludePrefix_eq hcode (by rw [← hc]; exact List.getElem?_eq_getElem hk)
          (h k (Nat.lt_succ_self k))

theorem Obscured.modeAt_succ_eq (h : Obscured source k) : modeAt {} source (k + 1) = .code := by
  have hdrop := drop_of_getElem? h.opens
  have hplain : ¬Mode.code.Commented ('<' :: source.drop (k + 1)) := not_opensComment (by decide) _
  rw [modeAt_succ hdrop, h.mode_eq, step_of_not_commented hplain, Mode.next, modeBehind, literalAt,
    h.hidden]
  rfl

theorem Obscured.modeAt_blankOut_succ_eq (h : Obscured source k)
    (hmode : modeAt {} (blankOut source) k = .code) :
    modeAt {} (blankOut source) (k + 1) = .literal '>' false := by
  have hdrop := drop_of_getElem? h.opens
  have hplain (t : Text) : ¬Mode.code.Commented ('<' :: t) := not_opensComment (by decide) t
  have hshown := drop_blankOut_cons hdrop
  rw [h.mode_eq, step_of_not_commented (hplain _)] at hshown
  rw [modeAt_succ hshown, hmode, step_of_not_commented (hplain _), Mode.next, modeBehind, literalAt,
    h.shown]
  rfl

theorem modeAt_blankOut_iff :
    (∀ k ≤ source.length, modeAt {} (blankOut source) k = (modeAt {} source k).blanked) ↔
      ∀ k, ¬Obscured source k := by
  constructor
  · intro h k hobscured
    have hk := (List.getElem?_eq_some_iff.mp hobscured.opens).1
    have hmode := h k (Nat.le_of_lt hk)
    rw [hobscured.mode_eq] at hmode
    have hnext := h (k + 1) hk
    rw [hobscured.modeAt_blankOut_succ_eq hmode, hobscured.modeAt_succ_eq] at hnext
    exact absurd hnext nofun
  · exact fun h k hk => modeAt_blankOut hk fun j _ => h j

theorem not_commented_of_blanked {t : Text} (h : mode.blanked = mode)
    (hplain : mode = .code → ¬OpensComment t) : ¬mode.Commented t := by
  match mode with
  | .code => exact hplain rfl
  | .literal _ _ => exact id
  | .line => contradiction
  | .block _ => contradiction
  | .blockEnd _ => contradiction

theorem not_commented_of_slash {t : Text} (hdrop : source.drop k = c :: rest)
    (hslash : (blankOut source).drop k = '/' :: t) :
    ¬(modeAt {} source k).Commented (c :: rest) := by
  intro hcommented
  have hshown := hslash.symm.trans (drop_blankOut_cons hdrop)
  have hblank := (step_of_commented hcommented (lineBefore source k)).1
  rw [← (List.cons.inj hshown).1] at hblank
  exact absurd hblank (by decide)

theorem blanked_modeAt (h : ∀ k, modeAt {} source k = .code → ¬OpensComment (source.drop k))
    (hk : k ≤ source.length) : (modeAt {} source k).blanked = modeAt {} source k := by
  induction k with
  | zero => rfl
  | succ k ih =>
    have hhere := ih (Nat.le_of_succ_le hk)
    have hdrop := List.drop_eq_getElem_cons hk
    rw [modeAt_succ hdrop, step_of_not_commented (not_commented_of_blanked hhere (hdrop ▸ h k))]
    exact blanked_next hhere _ _

theorem blankOut_eq_self_iff (t : Text) :
    blankOut t = t ↔ ∀ k, modeAt {} t k = .code → ¬OpensComment (t.drop k) := by
  constructor
  · intro h k hmode hopens
    obtain ⟨rest, hdrop⟩ := hopens.eq_cons
    refine not_commented_of_slash hdrop ((congrArg (List.drop k) h).trans hdrop) ?_
    rw [hmode, ← hdrop]
    exact hopens
  · intro h
    refine List.ext_getElem (length_blankOut t) fun k hk hk' => ?_
    have hdrop := List.drop_eq_getElem_cons hk'
    have hplain := not_commented_of_blanked (blanked_modeAt h (Nat.le_of_lt hk')) (hdrop ▸ h k)
    have hshown := drop_blankOut_cons hdrop
    rw [step_of_not_commented hplain, List.drop_eq_getElem_cons hk] at hshown
    exact (List.cons.inj hshown).1

/-- A marker in a literal of the source that begins a comment in the blanked text. -/
structure Reopened (source : Text) (k : Nat) : Prop where
  literal : ∃ quote escaped, modeAt {} source k = .literal quote escaped
  mode_eq : modeAt {} (blankOut source) k = .code
  opens : OpensComment ((blankOut source).drop k)

theorem literal_of_opensComment (h : OpensComment ((blankOut source).drop k)) :
    ∃ quote escaped, modeAt {} source k = .literal quote escaped := by
  obtain ⟨_, hslash⟩ := h.eq_cons
  cases hdrop : source.drop k with
  | nil =>
    rw [List.drop_eq_nil_iff, ← length_blankOut, ← List.drop_eq_nil_iff] at hdrop
    rw [hdrop] at hslash
    contradiction
  | cons c rest =>
    have hcommented := not_commented_of_slash hdrop hslash
    have hplain : ¬(modeAt {} source k).Commented
        (c :: scan {} (modeAt {} source (k + 1)) (lineBefore source (k + 1)) rest) :=
      mt commented_of_scan hcommented
    rw [drop_blankOut_cons hdrop, step_of_not_commented hcommented] at h
    cases hmode : modeAt {} source k with
    | literal quote escaped => exact ⟨quote, escaped, rfl⟩
    | code => exact absurd h (hmode ▸ hplain)
    | line => exact absurd (hmode ▸ trivial) hcommented
    | block _ => exact absurd (hmode ▸ trivial) hcommented
    | blockEnd _ => exact absurd (hmode ▸ trivial) hcommented

theorem Reopened.exists_obscured (h : Reopened source k) : ∃ j < k, Obscured source j := by
  by_contra hnone
  push Not at hnone
  obtain ⟨_, hslash⟩ := h.opens.eq_cons
  have hk := le_length_of_drop hslash
  rw [length_blankOut] at hk
  obtain ⟨quote, escaped, hliteral⟩ := h.literal
  have hmode := modeAt_blankOut hk hnone
  rw [h.mode_eq, hliteral] at hmode
  contradiction

/-- Blanking a second time changes nothing just where no comment marker is in a literal of the source
and outside of literals in the blanked text. It takes each character as the first time just where no
include target shows in the blanked text only, and there is always one in front of such a marker. -/
theorem blankOut_twice (source : Text) :
    (blankOut (blankOut source) = blankOut source ↔ ∀ k, ¬Reopened source k) ∧
    ((∀ k ≤ source.length, modeAt {} (blankOut source) k = (modeAt {} source k).blanked) ↔
      ∀ k, ¬Obscured source k) ∧
    ∀ k, Reopened source k → ∃ j < k, Obscured source j := by
  refine ⟨?_, modeAt_blankOut_iff, fun k => Reopened.exists_obscured⟩
  rw [blankOut_eq_self_iff]
  constructor
  · exact fun h k hk => h k hk.mode_eq hk.opens
  · exact fun h k hmode hopens => h k ⟨literal_of_opensComment hopens, hmode, hopens⟩

theorem blankOut_twice_markers :
    let source := "#include <a//b> /* \" */\nx = \"//\";".toList
    (∀ k, ¬Reopened source k) ∧ ∀ k, ¬Obscured source k := by
  intro source
  have htwice := blankOut_twice source
  exact ⟨htwice.1.mp (by decide +kernel), htwice.2.1.mp (by decide +kernel)⟩

/-- The comment hides the target, so its quote opens a literal and the comment behind it stays. -/
theorem blankOut_twice_hidden_target :
    let source := "/**/#include <a\"b> //x".toList
    blankOut source = "    #include <a\"b> //x".toList ∧
      blankOut (blankOut source) = "    #include <a\"b>    ".toList ∧
      blankOut (blankOut source) ≠ blankOut source := by
  decide +kernel

end SourceEdit.Comment
