import SourceEdit.Proofs.ExchangeLine
import SourceEdit.Proofs.MatchSpans
import SourceEdit.Proofs.TableEntries

set_option autoImplicit false

namespace SourceEdit.DialogExchange

/-- No entry begins in a text with this behind it. -/
def NoEntryIn (u rest : Text) : Prop := ∀ a b, u = a ++ b → b ≠ [] → ¬marker <+: b ++ rest

variable {u v w rest t : Text}

theorem NoEntryIn.append (hu : NoEntryIn u (v ++ rest)) (hv : NoEntryIn v rest) :
    NoEntryIn (u ++ v) rest := by
  intro a b heq hb
  rcases List.append_eq_append_iff.mp heq with ⟨z, -, hz⟩ | ⟨z, hz, rfl⟩
  · exact hv z b hz hb
  · by_cases hnil : z = []
    · subst hnil
      exact hv [] v rfl hb
    · rw [List.append_assoc]
      exact hu a z hz hnil

theorem noEntryIn_of_not_mem (h : 'D' ∉ u) (rest : Text) : NoEntryIn u rest := by
  rintro a b rfl hb ⟨z, hz⟩
  obtain ⟨c, b, rfl⟩ := List.exists_cons_of_ne_nil hb
  obtain rfl : 'D' = c := (List.cons.inj hz).1
  exact h (List.mem_append_right a List.mem_cons_self)

theorem noEntryIn_of_isBlank (h : IsBlank u) (rest : Text) : NoEntryIn u rest :=
  noEntryIn_of_not_mem (not_mem_of_isBlank (by decide) h) rest

theorem noEntryIn_of_free (h : ¬marker <:+: u)
    (hrest : ∀ c, rest.head? = some c → c ∉ marker) : NoEntryIn u rest := by
  rintro a b rfl hb ⟨z, hz⟩
  rcases List.append_eq_append_iff.mp hz with ⟨w, hw, -⟩ | ⟨w, hw, hbehind⟩
  · refine h (List.IsInfix.trans ⟨[], w, ?_⟩ (List.suffix_append a b).isInfix)
    rw [List.nil_append, hw]
  · cases w with
    | nil =>
      rw [List.append_nil] at hw
      exact h (hw ▸ (List.suffix_append a b).isInfix)
    | cons c w =>
      refine hrest c (by rw [hbehind]; rfl) ?_
      rw [hw]
      exact List.mem_append_right b List.mem_cons_self

theorem not_mem_marker_of_gap {gap : Text} (h : IsBlank gap) {d : Char} (hd : d ∉ marker) (t : Text) :
    ∀ c, (gap ++ d :: t).head? = some c → c ∉ marker := by
  intro c hc
  cases gap with
  | nil =>
    obtain rfl := Option.some.inj hc
    exact hd
  | cons g gap =>
    obtain rfl := Option.some.inj hc
    intro hin
    have hblank : marker.all (fun c => !Text.isBlank c) = true := by decide
    have hg := List.all_eq_true.mp hblank g hin
    rw [h g List.mem_cons_self] at hg
    contradiction

theorem noEntryIn_head {className s : Text} (hs : IsHead className s) (hname : ¬marker <:+: className)
    (rest : Text) : NoEntryIn s rest := by
  obtain ⟨g₁, g₂, g₃, hg₁, hg₂, hg₃, rfl⟩ := hs
  have hopen : NoEntryIn (g₃ ++ ['(']) rest :=
    (noEntryIn_of_isBlank hg₃ _).append (noEntryIn_of_not_mem (by decide) _)
  have hscope : NoEntryIn ("::DoDataExchange".toList ++ (g₃ ++ ['('])) rest := by
    have hmarker : '_' ∈ marker := by decide
    have hscope : '_' ∉ "::DoDataExchange".toList := by decide
    refine (noEntryIn_of_free (fun h => hscope (h.subset hmarker)) ?_).append hopen
    rw [List.append_assoc]
    exact not_mem_marker_of_gap hg₃ (by decide) _
  have hclass : NoEntryIn
      (className ++ (g₂ ++ ("::DoDataExchange".toList ++ (g₃ ++ ['('])))) rest := by
    refine (noEntryIn_of_free hname ?_).append ((noEntryIn_of_isBlank hg₂ _).append hscope)
    rw [List.append_assoc]
    exact not_mem_marker_of_gap hg₂ (by decide) _
  exact (noEntryIn_of_not_mem (by decide) _).append ((noEntryIn_of_isBlank hg₁ _).append hclass)

theorem matchesAt_eq_nil {p : Point} (h : ¬marker <+: p.ahead) : entry.matchesAt p = [] := by
  have hnone : entry.matchAt? p = none := by
    rw [Pattern.matchAt?, entry_eq, Pattern.run, (Pattern.steps_ofText _).run, Point.past?_eq,
      if_neg h, Option.bind_none]
  rw [Pattern.matchesAt, hnone]

theorem matchesFrom_skip {resume offset : Nat} {before : Text}
    (h : ∀ a b, u = a ++ b → b ≠ [] → resume ≤ offset + a.length → ¬marker <+: b ++ rest) :
    entry.matchesFrom resume before offset (u ++ rest) =
      entry.matchesFrom resume (u.reverse ++ before) (offset + u.length) rest := by
  induction u generalizing offset before with
  | nil => rfl
  | cons c u ih =>
    have hhere : entry.matchesHere resume ⟨before, c :: (u ++ rest), offset, []⟩ = [] := by
      rw [Pattern.matchesHere]
      split
      · next hresume => exact matchesAt_eq_nil (h [] (c :: u) rfl (List.cons_ne_nil c u) hresume)
      · rfl
    rw [List.cons_append, Pattern.matchesFrom_cons, hhere, List.nil_append,
      show Pattern.resumeBehind [] resume = resume from rfl, ih fun a b heq hb hresume => ?_]
    · simp [Nat.add_assoc, Nat.add_comm 1]
    · refine h (c :: a) b (congrArg _ heq) hb ?_
      simpa [Nat.add_assoc, Nat.add_comm 1] using hresume

theorem matchesFrom_of_noEntryIn (h : NoEntryIn u rest) (resume : Nat) (before : Text)
    (offset : Nat) :
    entry.matchesFrom resume before offset (u ++ rest) =
      entry.matchesFrom resume (u.reverse ++ before) (offset + u.length) rest :=
  matchesFrom_skip fun a b heq hb _ => h a b heq hb

theorem length_written (e : Entry) :
    e.written.length = e.middle.length + e.member.held.length + 2 := by
  rw [Entry.written_eq, List.length_append, List.length_append]
  rfl

theorem not_marker_of_last {e : Entry} {a b : Text} (heq : e.written = a ++ b) (hb : b.length = 1)
    (t : Text) : ¬marker <+: b ++ t := by
  obtain ⟨c, rfl⟩ := List.length_eq_one_iff.mp hb
  have hlast : e.written = (e.middle ++ (e.member.held ++ [')'])) ++ [';'] := by
    rw [Entry.written_eq]
    simp
  obtain rfl : c = ';' :=
    List.singleton_inj.mp (List.append_inj_right' (heq.symm.trans hlast) rfl)
  rintro ⟨z, hz⟩
  exact absurd (List.cons.inj hz).1 (by decide)

/-- The search finds an entry that is next, and then goes on behind its semicolon. -/
theorem matchesFrom_entry (e : Entry) (before : Text) {resume offset : Nat}
    (hresume : resume ≤ offset) (ht : EndsLine t) : ∃ resume' ≤ offset + e.written.length,
      entry.matchesFrom resume before offset (e.written ++ t) = e.found offset ::
        entry.matchesFrom resume' (e.written.reverse ++ before) (offset + e.written.length) t := by
  have hlength := length_written e
  obtain ⟨w, hw⟩ : ∃ w, e.written = 'D' :: w := ⟨_, rfl⟩
  have hhere : entry.matchesHere resume ⟨before, 'D' :: (w ++ t), offset, []⟩ = [e.found offset] := by
    have hmatch := matchAt?_entry (p := ⟨before, 'D' :: (w ++ t), offset, []⟩) e rfl
      (by rw [hw]; rfl) ht
    rw [Pattern.matchesHere, if_pos hresume, Pattern.matchesAt, hmatch]
    refine if_neg ?_
    simp only [Entry.found]
    omega
  refine ⟨(e.found offset).span.stop, ?_, ?_⟩
  · simp only [Entry.found]
    omega
  · rw [hw, List.cons_append, Pattern.matchesFrom_cons, hhere,
      show Pattern.resumeBehind [e.found offset] resume = (e.found offset).span.stop from rfl,
      matchesFrom_skip fun a b heq hb hstop => ?_]
    · simp [Nat.add_assoc, Nat.add_comm 1]
    · have hsplit : e.written = ('D' :: a) ++ b := by rw [hw, heq, List.cons_append]
      refine not_marker_of_last hsplit ?_ t
      have hsum := congrArg List.length hsplit
      have hpos := List.length_pos_iff.mpr hb
      simp only [Entry.found, List.length_append, List.length_cons] at hstop hsum
      omega

theorem groupText_found (e : Entry) (front t : Text) :
    groupText (front ++ (e.written ++ t)) (e.found front.length) 1 = e.control.held ∧
      groupText (front ++ (e.written ++ t)) (e.found front.length) 2 = e.member.held := by
  have hcontrol : front ++ (e.written ++ t) =
      (front ++ e.front) ++ (e.control.held ++ (',' :: (e.member.written ++ [')', ';']) ++ t)) := by
    rw [Entry.written, Entry.front]
    simp [Argument.written]
  have hmember : front ++ (e.written ++ t) =
      (front ++ e.middle) ++ (e.member.held ++ ([')', ';'] ++ t)) := by
    rw [Entry.written_eq]
    simp
  constructor
  · have hslice := Text.slice_middle (front ++ e.front) e.control.held
      (',' :: (e.member.written ++ [')', ';']) ++ t)
    rwa [← hcontrol, List.length_append] at hslice
  · have hslice := Text.slice_middle (front ++ e.middle) e.member.held ([')', ';'] ++ t)
    rwa [← hmember, List.length_append] at hslice

def linesText (lines : List (Entry × Text)) : Text := lines.flatMap fun l => l.1.written ++ l.2

theorem endsLine_of_gap {gap rest : Text} (h : IsBlank gap)
    (hrest : rest = ['}'] ∨ '\n' ∈ gap ∧ rest.head? = some 'D') : EndsLine (gap ++ rest) := by
  rcases hrest with rfl | ⟨hline, hhead⟩
  · exact ⟨((NotInLine.nil _).cons (by decide)).append (not_mem_of_isBlank (by decide) h),
      ((NotInLine.nil _).cons (by decide)).append (not_mem_of_isBlank (by decide) h),
      (NoComma.nil.cons (by decide)).append (not_mem_of_isBlank (by decide) h)⟩
  · obtain ⟨g₁, g₂, rfl⟩ := List.append_of_mem hline
    have h₁ : IsBlank g₁ := fun c hc => h c (List.mem_append_left _ hc)
    have h₂ : IsBlank g₂ := fun c hc => h c (List.mem_append_right _ (.tail _ hc))
    obtain ⟨r, rfl⟩ := List.head?_eq_some_iff.mp hhead
    have hnext : ((g₂ ++ 'D' :: r).dropWhile Text.isBlank).head? ≠ some ',' := by
      rw [dropWhile_blanks h₂, List.dropWhile_cons_of_neg (by decide)]
      simp
    rw [List.append_assoc, List.cons_append]
    exact ⟨(NotInLine.newline (by decide) _).append (not_mem_of_isBlank (by decide) h₁),
      (NotInLine.newline (by decide) _).append (not_mem_of_isBlank (by decide) h₁),
      (NoComma.newline hnext).append (not_mem_of_isBlank (by decide) h₁)⟩

theorem held_of_matchesFrom {lines : List (Entry × Text)} (hblank : ∀ l ∈ lines, IsBlank l.2)
    (heach : ∀ l ∈ lines.dropLast, '\n' ∈ l.2) {resume : Nat} {front region : Text}
    (hresume : resume ≤ front.length) (hregion : region = front ++ (linesText lines ++ ['}'])) :
    (entry.matchesFrom resume front.reverse front.length (linesText lines ++ ['}'])).map
        (fun m => (groupText region m 1, groupText region m 2)) =
      lines.map fun l => (l.1.control.held, l.1.member.held) := by
  induction lines generalizing resume front with
  | nil =>
    have hnone :
        entry.matchesFrom resume front.reverse front.length (linesText [] ++ ['}']) = [] := by
      have hbrace := noEntryIn_of_not_mem (u := ['}']) (by decide) []
      refine (matchesFrom_of_noEntryIn hbrace resume front.reverse front.length).trans ?_
      rw [Pattern.matchesFrom]
      split
      · exact matchesAt_eq_nil (show ¬marker <+: [] by decide)
      · rfl
    rw [hnone]
    rfl
  | cons l lines ih =>
    obtain ⟨e, gap⟩ := l
    obtain ⟨hgap, hlines⟩ := List.forall_mem_cons.mp hblank
    have hsplit : linesText ((e, gap) :: lines) ++ ['}'] =
        e.written ++ (gap ++ (linesText lines ++ ['}'])) := by
      simp [linesText]
    have hends : EndsLine (gap ++ (linesText lines ++ ['}'])) := by
      refine endsLine_of_gap hgap ?_
      cases lines with
      | nil => exact .inl rfl
      | cons l lines => exact .inr ⟨heach (e, gap) (by simp), rfl⟩
    have hrest : ∀ l ∈ lines.dropLast, '\n' ∈ l.2 := by
      cases lines with
      | nil => simp
      | cons l lines => exact fun m hm => heach m (.tail _ hm)
    obtain ⟨resume', hresume', hmatches⟩ :=
      matchesFrom_entry e front.reverse hresume hends
    have hskip := matchesFrom_of_noEntryIn
      (noEntryIn_of_isBlank hgap (linesText lines ++ ['}'])) resume'
      (e.written.reverse ++ front.reverse) (front.length + e.written.length)
    have hnext : (front ++ (e.written ++ gap)).reverse =
        gap.reverse ++ (e.written.reverse ++ front.reverse) := by simp
    have hlength : (front ++ (e.written ++ gap)).length =
        front.length + e.written.length + gap.length := by
      simp [Nat.add_assoc]
    have hheld := groupText_found e front (gap ++ (linesText lines ++ ['}']))
    rw [← hsplit, ← hregion] at hheld
    rw [hsplit, hmatches, hskip, ← hnext, ← hlength, List.map_cons, List.map_cons, hheld.1, hheld.2]
    refine congrArg _ (ih hlines hrest (hlength ▸ Nat.le_add_right_of_le hresume') ?_)
    rw [hregion, hsplit]
    simp

/-- What is behind the head of a function: the rest of the parameter list, and a body with one entry
on each line. -/
structure Body where
  parameter : Text
  gap : Text
  indent : Text
  lines : List (Entry × Text)
  noBrace : ∀ c ∈ parameter, c ≠ '{' ∧ c ≠ '}'
  noMarker : ¬marker <:+: parameter
  blankGap : IsBlank gap
  blankIndent : IsBlank indent
  blankBehind : ∀ l ∈ lines, IsBlank l.2
  newlineBehind : ∀ l ∈ lines.dropLast, '\n' ∈ l.2

namespace Body

def inner (b : Body) : Text :=
  b.parameter ++ ([')'] ++ (b.gap ++ (['{'] ++ (b.indent ++ linesText b.lines))))

def written (b : Body) : Text := b.inner ++ ['}']

end Body

theorem bodyLength?_append {depth : Int} (h : ∀ c ∈ u, c ≠ '{' ∧ c ≠ '}') (t : Text) :
    bodyLength? depth (u ++ t) = (bodyLength? depth t).map (· + u.length) := by
  induction u with
  | nil => simp
  | cons c u ih =>
    obtain ⟨hc, hu⟩ := List.forall_mem_cons.mp h
    rw [List.cons_append, bodyLength?, if_neg hc.1, if_neg hc.2, ih hu, Option.map_map]
    refine congrArg (Option.map · _) (funext fun n => ?_)
    rw [Function.comp_apply, List.length_cons, Nat.add_assoc]

theorem Entry.not_mem_written {c : Char} (hspace : Text.isSpaceOrTab c = false)
    (hmark : c ∈ [',', ';', '(', ')', '{', '}']) (hsign : c ∉ marker ++ ['(', ',', ')', ';'])
    (e : Entry) : c ∉ e.written := by
  have hargument (a : Argument) : c ∉ a.written := a.not_mem_written hspace (.inr hmark)
  have hname : c ∉ e.name := fun h => e.isWord.noMark c h hmark
  simp only [List.mem_append, List.mem_cons, not_or] at hsign
  simp only [written, List.mem_append, List.mem_cons, not_or]
  tauto

theorem Entry.noBrace (e : Entry) : ∀ c ∈ e.written, c ≠ '{' ∧ c ≠ '}' := fun _ hc =>
  ⟨fun h => e.not_mem_written (by decide) (by decide) (by decide) (h ▸ hc),
    fun h => e.not_mem_written (by decide) (by decide) (by decide) (h ▸ hc)⟩

theorem noBrace_of_isBlank (h : IsBlank u) : ∀ c ∈ u, c ≠ '{' ∧ c ≠ '}' := fun c hc =>
  ⟨fun heq => not_mem_of_isBlank (by decide) h (heq ▸ hc),
    fun heq => not_mem_of_isBlank (by decide) h (heq ▸ hc)⟩

theorem bodyLength?_inner (b : Body) (rest : Text) :
    bodyLength? 0 (b.inner ++ '}' :: rest) = some (b.inner.length + 1) := by
  have hfront : ∀ c ∈ b.parameter ++ ([')'] ++ b.gap), c ≠ '{' ∧ c ≠ '}' := by
    intro c hc
    rcases List.mem_append.mp hc with hc | hc
    · exact b.noBrace c hc
    rcases List.mem_append.mp hc with hc | hc
    · obtain rfl := List.mem_singleton.mp hc
      decide
    · exact noBrace_of_isBlank b.blankGap c hc
  have hlines : ∀ c ∈ b.indent ++ linesText b.lines, c ≠ '{' ∧ c ≠ '}' := by
    intro c hc
    rcases List.mem_append.mp hc with hc | hc
    · exact noBrace_of_isBlank b.blankIndent c hc
    obtain ⟨l, hl, hc⟩ := List.mem_flatMap.mp hc
    rcases List.mem_append.mp hc with hc | hc
    · exact l.1.noBrace c hc
    · exact noBrace_of_isBlank (b.blankBehind l hl) c hc
  have hsplit : b.inner ++ '}' :: rest = (b.parameter ++ ([')'] ++ b.gap)) ++
      '{' :: ((b.indent ++ linesText b.lines) ++ '}' :: rest) := by
    simp [Body.inner]
  rw [hsplit, bodyLength?_append hfront, bodyLength?, if_pos rfl, bodyLength?_append hlines]
  simp [bodyLength?, Body.inner]
  omega

theorem entries_body {className s : Text} (b : Body) (hs : IsHead className s)
    (hname : ¬marker <:+: className) : entries (s ++ (b.inner ++ ['}'])) =
      .ofList (b.lines.map fun l => (l.1.control.held, l.1.member.held)) := by
  have hsplit : s ++ (b.inner ++ ['}']) =
      (s ++ (b.parameter ++ ([')'] ++ (b.gap ++ (['{'] ++ b.indent))))) ++
        (linesText b.lines ++ ['}']) := by
    simp [Body.inner]
  have hclear : NoEntryIn (s ++ (b.parameter ++ ([')'] ++ (b.gap ++ (['{'] ++ b.indent)))))
      (linesText b.lines ++ ['}']) := by
    have hindent : NoEntryIn (['{'] ++ b.indent) (linesText b.lines ++ ['}']) :=
      (noEntryIn_of_not_mem (by decide) _).append (noEntryIn_of_isBlank b.blankIndent _)
    have hgap : NoEntryIn ([')'] ++ (b.gap ++ (['{'] ++ b.indent))) (linesText b.lines ++ ['}']) :=
      (noEntryIn_of_not_mem (by decide) _).append ((noEntryIn_of_isBlank b.blankGap _).append hindent)
    refine (noEntryIn_head hs hname _).append ((noEntryIn_of_free b.noMarker ?_).append hgap)
    intro c hc
    obtain rfl : ')' = c := Option.some.inj hc
    decide
  have hskip := matchesFrom_of_noEntryIn hclear 0 [] 0
  have hheld := held_of_matchesFrom b.blankBehind b.newlineBehind (Nat.zero_le _) hsplit
  rw [List.append_nil, Nat.zero_add, ← hsplit, ← Pattern.allMatches] at hskip
  rw [entries, hskip, hheld]

theorem Argument.after_eq_nil {a : Argument} (h : ∀ c ∈ a.held, Text.isBlank c = false) :
    a.after = [] := by
  refine List.eq_nil_iff_forall_not_mem.mpr fun c hc => ?_
  have hblank := Text.isBlank_of_isSpaceOrTab (a.spaceAfter c hc)
  rw [h c (List.mem_append_right a.text hc)] at hblank
  contradiction

theorem Argument.held_eq_text_iff {a : Argument} : a.held = a.text ↔ a.after = [] :=
  List.append_right_eq_self

/-- The table holds the arguments themselves if no control has blanks behind it, and the member of
the last line of each control has none either. -/
theorem ofList_held_iff (lines : List (Entry × Text)) :
    Table.ofList (lines.map fun l => (l.1.control.held, l.1.member.held)) =
        Table.ofList (lines.map fun l => (l.1.control.text, l.1.member.text)) ↔
      (∀ l ∈ lines, l.1.control.after = []) ∧
        ∀ front l back, lines = front ++ l :: back →
          (∀ l' ∈ back, l'.1.control.text ≠ l.1.control.text) → l.1.member.after = [] := by
  have hcontrol : (∀ l ∈ lines, l.1.control.after = []) →
      (lines.map fun l => (l.1.control.held, l.1.member.held)) =
        lines.map fun l => (l.1.control.text, l.1.member.held) := fun h =>
    List.map_congr_left fun l hl => by rw [Argument.held_eq_text_iff.mpr (h l hl)]
  have hlast := Table.ofList_map_eq_iff lines (fun l => l.1.control.text) (fun l => l.1.member.held)
    (fun l => l.1.member.text)
  simp only [Argument.held_eq_text_iff] at hlast
  constructor
  · intro h
    have hafter : ∀ l ∈ lines, l.1.control.after = [] := by
      intro l hl
      have hkey : l.1.control.held ∈
          Table.keys (Table.ofList (lines.map fun l => (l.1.control.held, l.1.member.held))) :=
        Table.mem_keys_ofList.mpr (by simpa using ⟨l.1, ⟨l.2, hl⟩, rfl⟩)
      rw [h, Table.mem_keys_ofList, List.map_map, List.mem_map] at hkey
      obtain ⟨l', -, heq⟩ := hkey
      exact Argument.after_eq_nil (heq ▸ l'.1.control.isWord.noBlank)
    exact ⟨hafter, hlast.mp (hcontrol hafter ▸ h)⟩
  · rintro ⟨hafter, h⟩
    rw [hcontrol hafter]
    exact hlast.mpr h

/-- Where the head is followed by a parameter list and a body with one entry on each line, the table
has what the groups hold, line by line. These are the controls and members themselves, each control
where it came first and with its last member, exactly if no blanks are behind them where it matters.
-/
theorem extract_lines_iff {source className : Text} {m : Match} (b : Body)
    (hname : ¬marker <:+: className) (hhead : (head className).first? source 0 = some m)
    (hbehind : b.written <+: source.drop m.span.stop) :
    extract source className = .ofList (b.lines.map fun l => (l.1.control.held, l.1.member.held)) ∧
      (extract source className =
          .ofList (b.lines.map fun l => (l.1.control.text, l.1.member.text)) ↔
        (∀ l ∈ b.lines, l.1.control.after = []) ∧
          ∀ front l back, b.lines = front ++ l :: back →
            (∀ l' ∈ back, l'.1.control.text ≠ l.1.control.text) → l.1.member.after = []) := by
  have hextract : extract source className =
      .ofList (b.lines.map fun l => (l.1.control.held, l.1.member.held)) := by
    obtain ⟨front, s, behind, rfl, hs, hfront, rfl⟩ := first?_eq_some_iff.mp hhead
    obtain ⟨rest, hrest⟩ := hbehind
    rw [drop_behind_head, Body.written, List.append_assoc] at hrest
    obtain rfl : b.inner ++ '}' :: rest = behind := hrest
    rw [extract_eq hs hfront (bodyLength?_inner b rest), entries_body b hs hname]
  rw [hextract]
  exact ⟨rfl, ofList_held_iff b.lines⟩

def paddedEntry (n : Nat) : Entry where
  name := ['T']
  data := ⟨[' '], ['p'], [], by simp [Text.isSpaceOrTab], by simp, by decide⟩
  control := ⟨[' ', '\t'], ['I'], List.replicate n ' ', by simp [Text.isSpaceOrTab],
    by simp [Text.isSpaceOrTab], by decide⟩
  member := ⟨[], ['m'], List.replicate n ' ', by simp, by simp [Text.isSpaceOrTab], by decide⟩
  isWord := by decide

def paddedBody (n : Nat) : Body where
  parameter := ['*', 'p']
  gap := ['\n']
  indent := ['\n']
  lines := [(paddedEntry n, ['\n'])]
  noBrace := by simp
  noMarker hmarker := absurd (hmarker.subset (show '_' ∈ marker by decide)) (by decide)
  blankGap := by decide
  blankIndent := by decide
  blankBehind := List.forall_mem_singleton.mpr (show IsBlank ['\n'] by decide)
  newlineBehind := by simp

def paddedSource (n : Nat) : Text := "void C::DoDataExchange(".toList ++ (paddedBody n).written

theorem extract_lines_tidy : ∃ m, (head ['C']).first? (paddedSource 0) 0 = some m ∧
    (paddedBody 0).written <+: (paddedSource 0).drop m.span.stop ∧
    extract (paddedSource 0) ['C'] = [(['I'], ['m'])] := by
  have hhead : (head ['C']).first? (paddedSource 0) 0 = some ⟨⟨0, 23⟩, []⟩ := by decide +kernel
  have hname : ¬marker <:+: ['C'] := fun h =>
    absurd (h.subset (show '_' ∈ marker by decide)) (by decide)
  have hbehind : (paddedBody 0).written <+: (paddedSource 0).drop 23 := List.prefix_rfl
  obtain ⟨hextract, -⟩ := extract_lines_iff (paddedBody 0) hname hhead hbehind
  exact ⟨_, hhead, hbehind, hextract⟩

theorem extract_lines_padded : ∃ m, (head ['C']).first? (paddedSource 1) 0 = some m ∧
    (paddedBody 1).written <+: (paddedSource 1).drop m.span.stop ∧
    extract (paddedSource 1) ['C'] = [(['I', ' '], ['m', ' '])] ∧
    Table.ofList ((paddedBody 1).lines.map fun l => (l.1.control.text, l.1.member.text)) =
      [(['I'], ['m'])] := by
  refine ⟨⟨⟨0, 23⟩, []⟩, ?_, List.prefix_rfl, ?_, rfl⟩
  · decide +kernel
  · decide +kernel

end SourceEdit.DialogExchange
