import Mathlib.Data.List.Induction
import SourceEdit.Proofs.CommentScan

set_option autoImplicit false

namespace SourceEdit.Comment

structure Markers.Proper (m : Markers) : Prop where
  line_ne_nil : m.line ≠ []
  blockStart_ne_nil : m.blockStart ≠ []
  blockEnd_ne_nil : m.blockEnd ≠ []
  line_head : m.line.head? ≠ some '\n'

/-- How far the scan has come, the closing delimiter of the literal it is in, and what it shows. -/
structure Stage where
  offset : Nat
  quote : Option Char
  shown : Text
deriving DecidableEq, Repr

def lineBefore (source : Text) (offset : Nat) : Text :=
  (source.take offset).reverse.takeWhile (· ≠ '\n')

def lineLength (t : Text) : Nat := (Text.firstIndex? ['\n'] t).getD t.length

def endLength (m : Markers) (t : Text) : Nat :=
  match Text.firstIndex? m.blockEnd t with
  | some n => n + m.blockEnd.length
  | none => t.length

def blockLength (m : Markers) (t : Text) : Nat :=
  m.blockStart.length + endLength m (t.drop m.blockStart.length)

def literalAt (line : Text) (c : Char) : Option Char :=
  if c = '"' ∨ c = '\'' then some c
  else if c = '<' ∧ isIncludePrefix line then some '>'
  else none

def stride? (m : Markers) (source : Text) (s : Stage) : Option Stage :=
  match source.drop s.offset, s.quote with
  | [], _ => none
  | c :: rest, some quote =>
    if c = '\\' ∧ quote ≠ '>' ∧ rest ≠ [] then
      some ⟨s.offset + 2, some quote, s.shown ++ (c :: rest).take 2⟩
    else if c = quote ∨ c = '\n' then some ⟨s.offset + 1, none, s.shown ++ [c]⟩
    else some ⟨s.offset + 1, some quote, s.shown ++ [c]⟩
  | c :: rest, none =>
    if m.line.isPrefixOf (c :: rest) then
      let n := lineLength (c :: rest)
      some ⟨s.offset + n, none, s.shown ++ List.replicate n ' '⟩
    else if m.blockStart.isPrefixOf (c :: rest) then
      let n := blockLength m (c :: rest)
      some ⟨s.offset + n, none, s.shown ++ ((c :: rest).take n).map blank⟩
    else some ⟨s.offset + 1, literalAt (lineBefore source s.offset) c, s.shown ++ [c]⟩

def strides (m : Markers) (source : Text) : (n : Nat) → Stage → Option Text
  | 0, s => if stride? m source s = none then some s.shown else none
  | n + 1, s =>
    match stride? m source s with
    | none => some s.shown
    | some s => strides m source n s

def Stage.start : Stage := ⟨0, none, []⟩

/-- From one mode the scan takes `n` characters, shows this text for them and goes on in another. -/
structure Passes (m : Markers) (mode : Mode) (line t : Text) (n : Nat) (shown : Text)
    (next : Mode) : Prop where
  scan_eq : scan m mode line t = shown ++ scan m next ((t.take n).foldl nextLine line) (t.drop n)
  length_eq : shown.length = n
  le_length : n ≤ t.length

variable {m : Markers}

namespace Passes

theorem refl (mode : Mode) (line t : Text) : Passes m mode line t 0 [] mode :=
  ⟨rfl, rfl, Nat.zero_le _⟩

theorem cons {mode mode' next : Mode} {line rest shown : Text} {c d : Char} {n : Nat}
    (hstep : step m mode line c rest = (d, mode'))
    (h : Passes m mode' (nextLine line c) rest n shown next) :
    Passes m mode line (c :: rest) (n + 1) (d :: shown) next where
  scan_eq := by simp [scan_cons, hstep, h.scan_eq]
  length_eq := by simp [h.length_eq]
  le_length := by simp [h.le_length]

theorem trans {mode next last : Mode} {line t a b : Text} {n k : Nat}
    (h : Passes m mode line t n a next)
    (h' : Passes m next ((t.take n).foldl nextLine line) (t.drop n) k b last) :
    Passes m mode line t (n + k) (a ++ b) last where
  scan_eq := by
    rw [h.scan_eq, h'.scan_eq, List.take_add, List.foldl_append, List.drop_drop, List.append_assoc]
  length_eq := by simp [h.length_eq, h'.length_eq]
  le_length := by
    have := h.le_length
    have := h'.le_length
    rw [List.length_drop] at this
    omega

end Passes

theorem lineLength_cons {c : Char} (hc : c ≠ '\n') (rest : Text) :
    lineLength (c :: rest) = lineLength rest + 1 := by
  have hbegins : ['\n'].isPrefixOf (c :: rest) = false := by simp [List.isPrefixOf, hc.symm]
  rw [lineLength, Text.firstIndex?, if_neg (by rw [hbegins]; exact Bool.false_ne_true), lineLength]
  cases Text.firstIndex? ['\n'] rest <;> rfl

theorem passes_line (line t : Text) :
    Passes m .line line t (lineLength t) (List.replicate (lineLength t) ' ') .code := by
  induction t generalizing line with
  | nil => exact ⟨rfl, rfl, Nat.le_refl _⟩
  | cons c rest ih =>
    by_cases hc : c = '\n'
    · subst hc
      exact ⟨rfl, rfl, Nat.zero_le _⟩
    · have hstep : step m .line line c rest = (' ', .line) := by simp [step, hc]
      rw [lineLength_cons hc, List.replicate_succ]
      exact .cons hstep (ih (nextLine line c))

theorem ne_newline_of_begins (hm : m.Proper) {c : Char} {rest : Text}
    (h : m.line.isPrefixOf (c :: rest) = true) : c ≠ '\n' := by
  rintro rfl
  obtain ⟨d, marker, hmarker⟩ := List.exists_cons_of_ne_nil hm.line_ne_nil
  have hhead := hm.line_head
  simp_all

theorem passes_lineComment (hm : m.Proper) {line rest : Text} {c : Char}
    (h : m.line.isPrefixOf (c :: rest) = true) :
    Passes m .code line (c :: rest) (lineLength (c :: rest))
      (List.replicate (lineLength (c :: rest)) ' ') .code := by
  have hc := ne_newline_of_begins hm h
  have hstep : step m .code line c rest = (' ', .line) := by simp [step, stepCode, h, blank, hc]
  rw [lineLength_cons hc, List.replicate_succ]
  exact .cons hstep (passes_line (nextLine line c) rest)

theorem passes_block {n : Nat} {t : Text} (hn : n ≤ t.length) (line : Text) :
    Passes m (.block n) line t n ((t.take n).map blank) (.block 0) := by
  induction n generalizing t line with
  | zero => exact .refl _ _ _
  | succ n ih =>
    cases t with
    | nil => simp at hn
    | cons c rest => exact .cons rfl (ih (Nat.le_of_succ_le_succ hn) (nextLine line c))

theorem passes_behindEnd {n : Nat} {t : Text} (hn : n ≤ t.length) (line : Text) :
    Passes m (.behindEnd n) line t n ((t.take n).map blank) .code := by
  induction n generalizing t line with
  | zero => exact .refl _ _ _
  | succ n ih =>
    cases t with
    | nil => simp at hn
    | cons c rest => exact .cons rfl (ih (Nat.le_of_succ_le_succ hn) (nextLine line c))

theorem endLength_of_begins {t : Text} (h : m.blockEnd.isPrefixOf t = true) :
    endLength m t = m.blockEnd.length := by
  have hfirst : Text.firstIndex? m.blockEnd t = some 0 := by
    cases t with
    | nil => simp_all [Text.firstIndex?]
    | cons c rest => rw [Text.firstIndex?, if_pos h]
  rw [endLength, hfirst]
  exact Nat.zero_add _

theorem endLength_cons {c : Char} {rest : Text} (h : m.blockEnd.isPrefixOf (c :: rest) = false) :
    endLength m (c :: rest) = endLength m rest + 1 := by
  rw [endLength, Text.firstIndex?, if_neg (by rw [h]; exact Bool.false_ne_true), endLength]
  cases Text.firstIndex? m.blockEnd rest with
  | none => rfl
  | some n => exact Nat.add_right_comm n 1 _

theorem passes_toEnd (hm : m.Proper) (line t : Text) :
    Passes m (.block 0) line t (endLength m t) ((t.take (endLength m t)).map blank) .code := by
  obtain ⟨k, hk⟩ : ∃ k, m.blockEnd.length = k + 1 :=
    Nat.exists_eq_succ_of_ne_zero fun h => hm.blockEnd_ne_nil (List.length_eq_zero_iff.mp h)
  induction t generalizing line with
  | nil =>
    have hlength : endLength m [] = 0 := by simp [endLength, Text.firstIndex?, hm.blockEnd_ne_nil]
    rw [hlength]
    exact ⟨rfl, rfl, Nat.le_refl _⟩
  | cons c rest ih =>
    cases hbegins : m.blockEnd.isPrefixOf (c :: rest) with
    | true =>
      have hstep : step m (.block 0) line c rest = (blank c, .behindEnd k) := by
        simp only [step, hbegins, if_true, hk, Nat.add_sub_cancel]
      have hle := (List.isPrefixOf_iff_prefix.mp hbegins).length_le
      rw [hk, List.length_cons] at hle
      rw [endLength_of_begins hbegins, hk]
      exact .cons hstep (passes_behindEnd (Nat.le_of_succ_le_succ hle) (nextLine line c))
    | false =>
      have hstep : step m (.block 0) line c rest = (blank c, .block 0) := by
        simp only [step, hbegins, Bool.false_eq_true, if_false]
      rw [endLength_cons hbegins]
      exact .cons hstep (ih (nextLine line c))

theorem passes_blockComment (hm : m.Proper) {line t : Text} (hline : m.line.isPrefixOf t = false)
    (h : m.blockStart.isPrefixOf t = true) :
    Passes m .code line t (blockLength m t) ((t.take (blockLength m t)).map blank) .code := by
  obtain ⟨k, hk⟩ : ∃ k, m.blockStart.length = k + 1 :=
    Nat.exists_eq_succ_of_ne_zero fun h => hm.blockStart_ne_nil (List.length_eq_zero_iff.mp h)
  have hle := (List.isPrefixOf_iff_prefix.mp h).length_le
  rw [hk] at hle
  cases t with
  | nil => simp at hle
  | cons c rest =>
    have hstep : step m .code line c rest = (blank c, .block k) := by
      simp only [step, stepCode, hline, h, Bool.false_eq_true, if_false, if_true, hk,
        Nat.add_sub_cancel]
    have hstart : Passes m .code line (c :: rest) m.blockStart.length
        (((c :: rest).take m.blockStart.length).map blank) (.block 0) := by
      rw [hk]
      exact .cons hstep (passes_block (Nat.le_of_succ_le_succ hle) (nextLine line c))
    rw [blockLength, List.take_add, List.map_append]
    exact hstart.trans (passes_toEnd hm _ _)

theorem lineBefore_eq_foldl (source : Text) (offset : Nat) :
    lineBefore source offset = (source.take offset).foldl nextLine [] := by
  rw [lineBefore]
  induction source.take offset using List.reverseRecOn with
  | nil => rfl
  | append_singleton t c ih =>
    rw [List.foldl_concat, ← ih, List.reverse_concat, nextLine]
    by_cases hc : c = '\n' <;> simp [hc]

theorem lineBefore_add (source : Text) (offset n : Nat) :
    lineBefore source (offset + n) =
      ((source.drop offset).take n).foldl nextLine (lineBefore source offset) := by
  rw [lineBefore_eq_foldl, lineBefore_eq_foldl, List.take_add, List.foldl_append]

def Stage.mode (s : Stage) : Mode :=
  match s.quote with
  | none => .code
  | some quote => .literal quote false

theorem passes_last {mode next mode' : Mode} {line : Text} {c d : Char}
    (hstep : step m mode line c [] = (d, mode')) : Passes m mode line [c] 1 [d] next :=
  ⟨by simp [hstep, scan], rfl, Nat.le_refl _⟩

theorem passes_escape {quote c : Char} {rest : Text} (hquote : quote ≠ '>') (line : Text) :
    Passes m (.literal quote false) line ('\\' :: c :: rest) 2 ['\\', c] (.literal quote false) :=
  .cons (show _ = (_, .literal quote true) by simp [step, hquote]) (.cons rfl (.refl _ _ _))

theorem passes_inLiteral {quote c : Char} {rest : Text} (line : Text)
    (hescape : ¬(c = '\\' ∧ quote ≠ '>' ∧ rest ≠ [])) :
    Passes m (.literal quote false) line (c :: rest) 1 [c]
      (if c = quote ∨ c = '\n' then .code else .literal quote false) := by
  by_cases hbackslash : c = '\\' ∧ quote ≠ '>'
  · -- it is the last character
    have hrest : rest = [] :=
      Decidable.byContradiction fun hrest => hescape ⟨hbackslash.1, hbackslash.2, hrest⟩
    subst hrest
    exact passes_last (show _ = (_, .literal quote true) by simp [step, hbackslash])
  · refine .cons ?_ (.refl _ _ _)
    simp only [step, if_neg hbackslash]
    split <;> rfl

theorem passes_plain {line t : Text} {c : Char} (hline : m.line.isPrefixOf (c :: t) = false)
    (hblock : m.blockStart.isPrefixOf (c :: t) = false) :
    Passes m .code line (c :: t) 1 [c] (Stage.mode ⟨0, literalAt line c, []⟩) := by
  refine .cons ?_ (.refl _ _ _)
  simp only [step, stepCode, hline, hblock, Bool.false_eq_true, if_false, literalAt]
  repeat' split
  all_goals simp_all [Stage.mode]

theorem exists_passes_of_stride (hm : m.Proper) {source : Text} {s s' : Stage}
    (h : stride? m source s = some s') :
    ∃ n shown, 0 < n ∧ s'.offset = s.offset + n ∧ s'.shown = s.shown ++ shown ∧
      Passes m s.mode (lineBefore source s.offset) (source.drop s.offset) n shown s'.mode := by
  obtain ⟨offset, quote, shown⟩ := s
  cases hrest : source.drop offset with
  | nil => simp [stride?, hrest] at h
  | cons c rest =>
    cases quote with
    | some quote =>
      simp only [stride?, hrest] at h
      split at h
      · next hescape =>
        obtain ⟨rfl, hquote, hne⟩ := hescape
        obtain ⟨d, rest, rfl⟩ := List.exists_cons_of_ne_nil hne
        obtain rfl := Option.some.inj h
        exact ⟨2, _, by omega, rfl, rfl, passes_escape hquote _⟩
      · next hescape =>
        have hpasses := passes_inLiteral (m := m) (lineBefore source offset) hescape
        split at h
        · next hend =>
          obtain rfl := Option.some.inj h
          rw [if_pos hend] at hpasses
          exact ⟨1, _, by omega, rfl, rfl, hpasses⟩
        · next hend =>
          obtain rfl := Option.some.inj h
          rw [if_neg hend] at hpasses
          exact ⟨1, _, by omega, rfl, rfl, hpasses⟩
    | none =>
      simp only [stride?, hrest] at h
      split at h
      · next hline =>
        obtain rfl := Option.some.inj h
        refine ⟨_, _, ?_, rfl, rfl, passes_lineComment hm hline⟩
        rw [lineLength_cons (ne_newline_of_begins hm hline)]
        exact Nat.succ_pos _
      · next hline =>
        rw [Bool.not_eq_true] at hline
        split at h
        · next hblock =>
          obtain rfl := Option.some.inj h
          refine ⟨_, _, ?_, rfl, rfl, passes_blockComment hm hline hblock⟩
          have := List.length_pos_of_ne_nil hm.blockStart_ne_nil
          rw [blockLength]
          omega
        · next hblock =>
          rw [Bool.not_eq_true] at hblock
          obtain rfl := Option.some.inj h
          exact ⟨1, _, by omega, rfl, rfl, passes_plain hline hblock⟩

/-- What a stage shows and what the scan shows of the rest are the blanked source. -/
structure Stage.Sound (m : Markers) (source : Text) (s : Stage) : Prop where
  shown_append : s.shown ++ scan m s.mode (lineBefore source s.offset) (source.drop s.offset) =
    blankOutWith m source
  length_eq : s.shown.length = s.offset
  offset_le : s.offset ≤ source.length

theorem Stage.sound_start (source : Text) : Sound m source start := ⟨rfl, rfl, Nat.zero_le _⟩

theorem Stage.Sound.stride (hm : m.Proper) {source : Text} {s s' : Stage} (hs : s.Sound m source)
    (h : stride? m source s = some s') : s'.Sound m source ∧ s.offset < s'.offset := by
  obtain ⟨n, shown, hn, hoffset, hshown, hpasses⟩ := exists_passes_of_stride hm h
  have hle := hpasses.le_length
  have hlength := hpasses.length_eq
  have hbefore := hs.length_eq
  have hbound := hs.offset_le
  rw [List.length_drop] at hle
  refine ⟨⟨?_, ?_, by omega⟩, by omega⟩
  · rw [hshown, hoffset, lineBefore_add, ← List.drop_drop, List.append_assoc, ← hpasses.scan_eq,
      hs.shown_append]
  · rw [hshown, hoffset, List.length_append, hbefore, hlength]

theorem stride?_eq_none_iff {source : Text} {s : Stage} :
    stride? m source s = none ↔ source.length ≤ s.offset := by
  rw [← List.drop_eq_nil_iff]
  cases hrest : source.drop s.offset with
  | nil => simp [stride?, hrest]
  | cons c rest =>
    cases hquote : s.quote <;> simp only [stride?, hrest, hquote] <;> repeat' split
    all_goals simp

theorem Stage.Sound.shown_eq {source : Text} {s : Stage} (hs : s.Sound m source)
    (hend : source.length ≤ s.offset) : s.shown = blankOutWith m source := by
  rw [← hs.shown_append, List.drop_eq_nil_of_le hend, scan, List.append_nil]

theorem Stage.Sound.strides (hm : m.Proper) {source : Text} {n : Nat} {s : Stage}
    (hs : s.Sound m source) (hn : source.length - s.offset ≤ n) :
    strides m source n s = some (blankOutWith m source) := by
  induction n generalizing s with
  | zero =>
    have hend : source.length ≤ s.offset := by omega
    rw [Comment.strides, if_pos (stride?_eq_none_iff.mpr hend), hs.shown_eq hend]
  | succ n ih =>
    rw [Comment.strides]
    cases hstride : stride? m source s with
    | none => exact congrArg some (hs.shown_eq (stride?_eq_none_iff.mp hstride))
    | some s' =>
      obtain ⟨hs', hlt⟩ := hs.stride hm hstride
      exact ih hs' (by omega)

theorem getElem?_scan_eq (m : Markers) (mode : Mode) (line : Text) {t : Text} {k : Nat} {c : Char}
    (h : t[k]? = some c) : (scan m mode line t)[k]? = some c ∨
      (scan m mode line t)[k]? = some ' ' ∧ c ≠ '\n' := by
  induction t generalizing mode line k with
  | nil => simp at h
  | cons d rest ih =>
    rw [scan_cons]
    cases k with
    | zero =>
      obtain rfl := Option.some.inj h
      rcases step_shown m mode line d rest with hs | ⟨hs, hd⟩
      · exact .inl (by rw [hs]; rfl)
      · exact .inr ⟨by rw [hs]; rfl, hd⟩
    | succ k => exact ih _ _ h

theorem newline_at_iff (m : Markers) (source : Text) (k : Nat) :
    (blankOutWith m source)[k]? = some '\n' ↔ source[k]? = some '\n' := by
  constructor
  · intro h
    have hk := (List.getElem?_eq_some_iff.mp h).1
    rw [length_blankOutWith] at hk
    have hsource := List.getElem?_eq_getElem hk
    rcases getElem?_scan_eq m .code [] hsource with hs | ⟨hs, -⟩
    · rw [hsource, ← hs]
      exact h
    · rw [blankOutWith, hs] at h
      contradiction
  · intro h
    exact (getElem?_scan_eq m .code [] h).resolve_right fun hblank => hblank.2 rfl

/-- With proper markers the strides come to the end of the source, in no more strides than it has
characters, and show what the scan shows. That is a text of the same length, with the character of
the source at each offset, or a space in place of one that is no newline. -/
theorem strides_eq_blankOutWith {m : Markers} (hm : m.Proper) (source : Text) :
    strides m source source.length .start = some (blankOutWith m source) ∧
      (blankOutWith m source).length = source.length ∧
      (∀ (k : Nat) (c : Char), source[k]? = some c → (blankOutWith m source)[k]? = some c ∨
        (blankOutWith m source)[k]? = some ' ' ∧ c ≠ '\n') ∧
      ∀ k : Nat, (blankOutWith m source)[k]? = some '\n' ↔ source[k]? = some '\n' :=
  ⟨(Stage.sound_start source).strides hm (Nat.sub_le _ _), length_blankOutWith m source,
    fun _ _ h => getElem?_scan_eq m .code [] h, newline_at_iff m source⟩

theorem strides_overlapping :
    let m : Markers := ⟨['-', '-'], ['-'], ['-', '-', '>']⟩
    let source := "a - b\n--> '- \\'' --x".toList
    m.Proper ∧ strides m source source.length .start = some "a    \n    '- \\''    ".toList := by
  intro m source
  have hm : m.Proper := ⟨by decide, by decide, by decide, by decide⟩
  refine ⟨hm, ?_⟩
  rw [(strides_eq_blankOutWith hm source).1]
  decide +kernel

end SourceEdit.Comment
