import SourceEdit.Proofs.ExchangeRegion

/-!
One line of the dialog data exchange. The expression for an entry has several ways through a line,
and two of its repetitions may go on to the lines below. What is written on the line leaves one of
these ways: the last argument is the one behind the last comma of the line, since no other comma
comes next to it, and each of the two groups goes as far as the mark behind it, blanks in front of
the mark included.
-/

set_option autoImplicit false

namespace SourceEdit.DialogExchange

/-- A name or an argument: without blanks and without the marks around it. -/
structure IsWord (t : Text) : Prop where
  filled : t ≠ []
  noBlank : ∀ c ∈ t, Text.isBlank c = false
  noMark : ∀ c ∈ t, c ∉ [',', ';', '(', ')', '{', '}']

instance (t : Text) : Decidable (IsWord t) :=
  decidable_of_iff (t ≠ [] ∧ t.all (fun c => !Text.isBlank c) = true ∧
      t.all (fun c => c ∉ [',', ';', '(', ')', '{', '}']) = true)
    ⟨fun ⟨hfilled, hblank, hmark⟩ => ⟨hfilled, by simpa using hblank, by simpa using hmark⟩,
      fun h => ⟨h.filled, by simpa using h.noBlank, by simpa using h.noMark⟩⟩

structure Argument where
  before : Text
  text : Text
  after : Text
  spaceBefore : ∀ c ∈ before, Text.isSpaceOrTab c = true
  spaceAfter : ∀ c ∈ after, Text.isSpaceOrTab c = true
  isWord : IsWord text

def Argument.held (a : Argument) : Text := a.text ++ a.after

def Argument.written (a : Argument) : Text := a.before ++ a.held

structure Entry where
  name : Text
  data : Argument
  control : Argument
  member : Argument
  isWord : IsWord name

def marker : Text := "DDX_".toList

namespace Entry

def written (e : Entry) : Text :=
  marker ++ (e.name ++ '(' :: (e.data.written ++ ',' :: (e.control.written ++
    ',' :: (e.member.written ++ [')', ';']))))

/-- What is in front of the first group. -/
def front (e : Entry) : Text :=
  marker ++ (e.name ++ '(' :: (e.data.written ++ ',' :: e.control.before))

def middle (e : Entry) : Text := e.front ++ (e.control.held ++ ',' :: e.member.before)

theorem written_eq (e : Entry) : e.written = e.middle ++ (e.member.held ++ [')', ';']) := by
  simp [written, middle, front, Argument.written]

/-- The match of an entry that begins at this offset. -/
def found (e : Entry) (offset : Nat) : Match where
  span := ⟨offset, offset + e.middle.length + e.member.held.length + 1⟩
  groups := [(2, ⟨offset + e.middle.length, offset + e.middle.length + e.member.held.length⟩),
    (1, ⟨offset + e.front.length, offset + e.front.length + e.control.held.length⟩)]

end Entry

namespace Argument

theorem isBlank_before (a : Argument) : IsBlank a.before := fun c hc =>
  Text.isBlank_of_isSpaceOrTab (a.spaceBefore c hc)

theorem not_mem_written {c : Char} (hspace : Text.isSpaceOrTab c = false)
    (hword : Text.isBlank c = true ∨ c ∈ [',', ';', '(', ')', '{', '}']) (a : Argument) :
    c ∉ a.written := by
  intro hin
  rw [written, held, List.mem_append, List.mem_append] at hin
  rcases hin with hin | hin | hin
  · simp [a.spaceBefore c hin] at hspace
  · rcases hword with hblank | hmark
    · simp [a.isWord.noBlank c hin] at hblank
    · exact a.isWord.noMark c hin hmark
  · simp [a.spaceAfter c hin] at hspace

theorem newline_not_mem_held (a : Argument) : '\n' ∉ a.held := fun h =>
  a.not_mem_written (by decide) (by decide) (List.mem_append_right a.before h)

end Argument

def NotInLine (c : Char) (t : Text) : Prop := ∀ a b, t = a ++ c :: b → '\n' ∈ a

/-- No comma can be reached along the line and over blanks behind it. -/
def NoComma (t : Text) : Prop :=
  ∀ a b, t = a ++ b → '\n' ∉ a → (b.dropWhile Text.isBlank).head? ≠ some ','

variable {c : Char} {u t : Text}

theorem NotInLine.nil (c : Char) : NotInLine c [] := by
  intro a b h
  simp at h

theorem NotInLine.cons {d : Char} (hd : d ≠ c) (h : NotInLine c t) : NotInLine c (d :: t) := by
  intro a b heq
  cases a with
  | nil => exact absurd (List.cons.inj heq).1 hd
  | cons d' a => exact .tail _ (h a b (List.cons.inj heq).2)

theorem NotInLine.newline (hc : c ≠ '\n') (t : Text) : NotInLine c ('\n' :: t) := by
  intro a b heq
  cases a with
  | nil => exact absurd (List.cons.inj heq).1.symm hc
  | cons d a =>
    obtain rfl : '\n' = d := (List.cons.inj heq).1
    exact List.mem_cons_self

theorem NotInLine.append (hu : c ∉ u) (h : NotInLine c t) : NotInLine c (u ++ t) := by
  induction u with
  | nil => exact h
  | cons d u ih =>
    rw [List.mem_cons, not_or] at hu
    exact (ih hu.2).cons (Ne.symm hu.1)

theorem NoComma.nil : NoComma [] := by
  intro a b heq hline
  rw [List.nil_eq_append_iff.mp heq |>.2]
  simp

theorem NoComma.cons {d : Char} (hd : d ≠ ',') (h : NoComma t) : NoComma (d :: t) := by
  intro a b heq hline
  cases a with
  | nil =>
    rw [← show d :: t = b from heq, List.dropWhile_cons]
    split
    · exact h [] t rfl List.not_mem_nil
    · simpa using hd
  | cons d' a =>
    rw [List.mem_cons, not_or] at hline
    exact h a b (List.cons.inj heq).2 hline.2

theorem NoComma.newline (h : (t.dropWhile Text.isBlank).head? ≠ some ',') : NoComma ('\n' :: t) := by
  intro a b heq hline
  cases a with
  | nil => rwa [← show '\n' :: t = b from heq, List.dropWhile_cons_of_pos (by decide)]
  | cons d a => exact absurd ((List.cons.inj heq).1 ▸ List.mem_cons_self) hline

theorem NoComma.append (hu : ',' ∉ u) (h : NoComma t) : NoComma (u ++ t) := by
  induction u with
  | nil => exact h
  | cons d u ih =>
    rw [List.mem_cons, not_or] at hu
    exact (ih hu.2).cons (Ne.symm hu.1)

theorem NoComma.notInLine (h : NoComma t) : NotInLine ',' t := by
  intro a b heq
  by_contra hline
  refine h a (',' :: b) heq hline ?_
  rw [List.dropWhile_cons_of_neg (by decide)]
  rfl

/-- What is behind an entry: no parenthesis on the rest of its line, and no comma to be reached. -/
structure EndsLine (t : Text) : Prop where
  noOpen : NotInLine '(' t
  noClose : NotInLine ')' t
  noComma : NoComma t

variable {α : Type} {k : Point → Option α} {p : Point} {x : α} {v : Text} {b : Pattern}

theorem steps_any : Pattern.Steps .any (·.pastChar? (· ≠ '\n')) := ⟨fun _ _ => rfl⟩

theorem ahead_advance (h : p.ahead = u ++ t) : (p.advance u.length).ahead = t := by
  rw [Point.advance, h, List.drop_left]

theorem run_char (h : p.ahead = c :: t) : (Pattern.char c).run k p = k (p.advance 1) := by
  rw [Pattern.run, Point.pastChar?_eq, if_pos (by simp [h]), Option.bind_some]

theorem run_char_eq_none (h : p.ahead.head? ≠ some c) : (Pattern.char c).run k p = none := by
  rw [Pattern.run, Point.pastChar?_eq, if_neg, Option.bind_none]
  cases hahead : p.ahead with
  | nil => simp
  | cons d rest => simpa [hahead] using h

/-- The rest of a line is taken up to the last place where the rest of the expression goes on. -/
theorem run_inLine (hahead : p.ahead = u ++ c :: v) (hu : '\n' ∉ u)
    (hk : k (p.advance u.length) = some x)
    (hlater : ∀ (q : Point) (a : Text), v = a ++ q.ahead → '\n' ∉ a → k q = none) :
    inLine.run k p = some x := by
  rw [inLine, Pattern.run_many steps_any, Pattern.longest_eq_some_iff]
  refine ⟨u.length, ?_, hk, fun j hj hle => ?_⟩
  · refine Point.le_runLength (hahead ▸ List.prefix_append u _) fun d hd => ?_
    exact decide_eq_true fun heq : d = '\n' => hu (heq ▸ hd)
  · obtain ⟨i, rfl⟩ : ∃ i, j = u.length + (i + 1) := ⟨j - u.length - 1, by omega⟩
    have htake : p.ahead.take (u.length + (i + 1)) = u ++ c :: v.take i := by
      rw [hahead, List.take_length_add_append, List.take_succ_cons]
    have hdrop : (p.advance (u.length + (i + 1))).ahead = v.drop i := by
      rw [Point.advance, hahead, List.drop_length_add_append, List.drop_succ_cons]
    refine hlater _ (v.take i) (hdrop ▸ (List.take_append_drop i v).symm) fun hin => ?_
    have hline := (Point.take_of_le_runLength hle).2 '\n'
    rw [htake] at hline
    exact absurd (hline (List.mem_append_right u (.tail _ hin))) (by decide)

theorem run_inLine_char (hahead : p.ahead = u ++ c :: v) (hu : '\n' ∉ u) (hv : NotInLine c v)
    (hk : k (p.advance (u.length + 1)) = some x) :
    inLine.run ((Pattern.char c).run k) p = some x := by
  refine run_inLine hahead hu ?_ fun q a heq hline => run_char_eq_none fun hhead => ?_
  · rwa [run_char (ahead_advance hahead), ← Point.advance_add]
  · obtain ⟨b, hb⟩ := List.head?_eq_some_iff.mp hhead
    exact hline (hv a b (hb ▸ heq))

theorem run_blanks (hahead : p.ahead = u ++ c :: v) (hu : IsBlank u) (hc : Text.isBlank c = false)
    (hk : k (p.advance u.length) = some x) : blanks.run k p = some x := by
  refine Pattern.run_many_of_skip steps_blank ?_
  rw [Point.skip, hahead, List.takeWhile_append_of_pos hu, List.takeWhile_cons_of_neg (by simp [hc]),
    List.append_nil]
  exact hk

theorem run_blanks_comma (k : Point → Option α) (p : Point) :
    blanks.run ((Pattern.char ',').run k) p = (Pattern.char ',').run k (p.skip Text.isBlank) := by
  refine Pattern.run_many_eq_skip steps_blank fun q hq => run_char_eq_none fun hhead => ?_
  rw [hhead] at hq
  exact absurd hq (by decide)

theorem ahead_skip (p : Point) (kind : Char → Bool) :
    (p.skip kind).ahead = p.ahead.dropWhile kind := by
  have hsplit : p.ahead.takeWhile kind ++ p.ahead.dropWhile kind = p.ahead :=
    List.takeWhile_append_dropWhile
  exact ahead_advance hsplit.symm

theorem run_comma_eq_none {a : Text} (h : NoComma v) (heq : v = a ++ p.ahead) (hline : '\n' ∉ a) :
    blanks.run ((Pattern.char ',').run k) p = none := by
  rw [run_blanks_comma]
  refine run_char_eq_none ?_
  rw [ahead_skip]
  exact h a p.ahead heq hline

theorem run_argument {i : Nat} (a : Argument) (hahead : p.ahead = a.written ++ c :: v)
    (hb : ∀ q : Point, q.ahead = c :: v → q.offset = p.offset + a.before.length + a.held.length →
      q.groups = (i, ⟨p.offset + a.before.length, q.offset⟩) :: p.groups → b.run k q = some x)
    (hlater : ∀ (q : Point) (w : Text), v = w ++ q.ahead → '\n' ∉ w → b.run k q = none) :
    (Pattern.seq blanks (.seq (.group i inLine) b)).run k p = some x := by
  have hsplit : p.ahead = a.before ++ (a.held ++ c :: v) := by
    rw [hahead, Argument.written, List.append_assoc]
  obtain ⟨d, word, hword⟩ := List.exists_cons_of_ne_nil a.isWord.filled
  have hd : Text.isBlank d = false := a.isWord.noBlank d (hword ▸ List.mem_cons_self)
  have hbegins : p.ahead = a.before ++ d :: (word ++ a.after ++ c :: v) := by
    rw [hsplit, Argument.held, hword]
    rfl
  refine run_blanks hbegins a.isBlank_before hd ?_
  refine run_inLine (ahead_advance hsplit) a.newline_not_mem_held ?_ fun q w hw hline =>
    hlater (q.close i _) w hw hline
  exact hb _ (ahead_advance (ahead_advance hsplit)) rfl rfl

def lastArgument : Pattern := .seq blanks (.seq (.group 2 inLine) (.char ')'))

def lastTwo : Pattern :=
  .seq blanks (.seq (.group 1 inLine) (.seq blanks (.seq (.char ',') lastArgument)))

theorem entry_eq : entry = .seq (.ofText marker) (.seq inLine (.seq (.char '(')
    (.seq inLine (.seq (.char ',') lastTwo)))) := rfl

theorem run_lastTwo {first second : Argument}
    (hahead : p.ahead = first.written ++ ',' :: (second.written ++ ')' :: v))
    (hclose : NotInLine ')' v) (hcomma : NoComma v)
    (hk : ∀ q : Point, q.offset = p.offset + first.before.length + first.held.length + 1 +
        second.before.length + second.held.length + 1 →
      q.groups = [(2, ⟨p.offset + first.before.length + first.held.length + 1 +
          second.before.length, p.offset + first.before.length + first.held.length + 1 +
          second.before.length + second.held.length⟩),
        (1, ⟨p.offset + first.before.length,
          p.offset + first.before.length + first.held.length⟩)] ++ p.groups → k q = some x) :
    lastTwo.run k p = some x := by
  have hsecond : NoComma (second.written ++ ')' :: v) :=
    (hcomma.cons (by decide)).append (second.not_mem_written (by decide) (by decide))
  refine run_argument first hahead (fun q hq hoffset hgroups => ?_) fun q w heq hline =>
    run_comma_eq_none hsecond heq hline
  refine run_blanks (u := []) hq (by simp [IsBlank]) (by decide) ?_
  rw [List.length_nil, Point.advance_zero, Pattern.run, run_char hq]
  have hbehind : (q.advance 1).ahead = second.written ++ ')' :: v := ahead_advance (u := [',']) hq
  refine run_argument second hbehind (fun r hr hstop hheld => ?_) fun r w heq hline =>
    run_char_eq_none fun hhead => ?_
  · rw [run_char hr]
    refine hk _ ?_ ?_
    · simp only [Point.advance, hstop, hoffset]
    · simp only [Point.advance, hheld, hstop, hoffset, hgroups]
      rfl
  · obtain ⟨b, hb⟩ := List.head?_eq_some_iff.mp hhead
    exact hline (hclose w b (hb ▸ heq))

theorem run_lastTwo_eq_none {a : Argument} (hahead : p.ahead = a.written ++ c :: v)
    (hcomma : NoComma p.ahead) : lastTwo.run k p = none := by
  have hsplit : p.ahead = a.before ++ (a.held ++ c :: v) := by
    rw [hahead, Argument.written, List.append_assoc]
  obtain ⟨d, word, hword⟩ := List.exists_cons_of_ne_nil a.isWord.filled
  have hd : Text.isBlank d = false := a.isWord.noBlank d (hword ▸ List.mem_cons_self)
  have hrun : p.runLength Text.isBlank = a.before.length := by
    rw [Point.runLength, hsplit, List.takeWhile_append_of_pos a.isBlank_before, Argument.held, hword,
      List.cons_append, List.cons_append, List.takeWhile_cons_of_neg (by simp [hd]), List.append_nil]
  refine (Pattern.run_many steps_blank _ _).trans (Pattern.longest_eq_none_iff.mpr fun n hn => ?_)
  refine (Pattern.run_many steps_any _ _).trans (Pattern.longest_eq_none_iff.mpr fun j hj => ?_)
  refine run_comma_eq_none (a := p.ahead.take (n + j)) hcomma ?_ ?_
  · have hrest : ((p.advance n).advance j).ahead = p.ahead.drop (n + j) := List.drop_drop
    exact (hrest ▸ List.take_append_drop (n + j) p.ahead).symm
  · rw [List.take_add, List.mem_append, not_or]
    constructor
    · rw [hsplit, List.take_append_of_le_length (hrun ▸ hn)]
      exact fun hin => absurd (a.spaceBefore _ (List.mem_of_mem_take hin)) (by decide)
    · exact fun hin => absurd ((Point.take_of_le_runLength hj).2 _ hin) (by decide)

theorem eq_of_first_mark {a w : Text} (hu : c ∉ u) (hv : NotInLine c v)
    (heq : u ++ c :: v = a ++ c :: w) (hline : '\n' ∉ a) : w = v := by
  rcases List.append_eq_append_iff.mp heq with ⟨z, ha, hz⟩ | ⟨z, ha, hz⟩
  · cases z with
    | nil => exact (List.cons.inj hz).2.symm
    | cons d z =>
      have hin := hv z w (List.cons.inj hz).2
      exact absurd (ha ▸ List.mem_append_right u (.tail d hin)) hline
  · cases z with
    | nil => exact (List.cons.inj hz).2
    | cons d z =>
      obtain rfl : c = d := (List.cons.inj hz).1
      exact absurd (ha ▸ List.mem_append_right a List.mem_cons_self) hu

/-- Where an entry is next on the line, and nothing behind it goes on with it, it is matched as far
as its closing parenthesis. -/
theorem matchAt?_entry (e : Entry) (hgroups : p.groups = []) (hahead : p.ahead = e.written ++ t)
    (ht : EndsLine t) : entry.matchAt? p = some (e.found p.offset) := by
  have hclose : NotInLine ')' (';' :: t) := ht.noClose.cons (by decide)
  have hcomma : NoComma (';' :: t) := ht.noComma.cons (by decide)
  let arguments : Text := e.data.written ++ ',' :: (e.control.written ++
    ',' :: (e.member.written ++ ')' :: ';' :: t))
  have hsplit : p.ahead = marker ++ (e.name ++ '(' :: arguments) := by
    rw [hahead, Entry.written]
    simp [arguments]
  have hmember : NoComma (e.member.written ++ ')' :: ';' :: t) :=
    (hcomma.cons (by decide)).append (e.member.not_mem_written (by decide) (by decide))
  have hopen : NotInLine '(' arguments :=
    (((((ht.noOpen.cons (by decide)).cons (by decide)).append
      (e.member.not_mem_written (by decide) (by decide))).cons (by decide)).append
      (e.control.not_mem_written (by decide) (by decide))).cons (by decide) |>.append
      (e.data.not_mem_written (by decide) (by decide))
  rw [Pattern.matchAt?, entry_eq, Pattern.run, (Pattern.steps_ofText _).run, Point.past?_eq,
    if_pos (hsplit ▸ List.prefix_append _ _), Option.bind_some]
  have hname := ahead_advance hsplit
  have hnewline : '\n' ∉ e.name := fun hin => absurd (e.isWord.noBlank _ hin) (by decide)
  refine run_inLine_char hname hnewline hopen ?_
  have hdata : ((p.advance marker.length).advance (e.name.length + 1)).ahead = arguments := by
    rw [Point.advance_add]
    exact ahead_advance (u := ['(']) (ahead_advance hname)
  have hcontrol := ahead_advance hdata
  refine run_inLine hdata (e.data.not_mem_written (by decide) (by decide)) ?_
    fun q a heq hline => ?_
  · rw [Pattern.run, run_char hcontrol]
    refine run_lastTwo (ahead_advance (u := [',']) hcontrol) hclose hcomma fun q hoffset hheld => ?_
    have hmarker : marker.length = 4 := rfl
    have hfront : e.front.length =
        4 + (e.name.length + 1) + e.data.written.length + 1 + e.control.before.length := by
      simp [Entry.front, hmarker]
      omega
    have hmiddle : e.middle.length =
        e.front.length + e.control.held.length + 1 + e.member.before.length := by
      simp [Entry.middle]
      omega
    simp only [Point.advance, hmarker] at hoffset hheld
    rw [hgroups, List.append_nil] at hheld
    rw [hoffset, hheld, Entry.found, hmiddle, hfront]
    simp only [Nat.add_assoc]
  · rw [Pattern.run]
    by_cases hhead : q.ahead.head? = some ','
    · obtain ⟨w, hw⟩ := List.head?_eq_some_iff.mp hhead
      obtain rfl := eq_of_first_mark (e.control.not_mem_written (by decide) (by decide))
        hmember.notInLine (hw ▸ heq) hline
      rw [run_char hw]
      have hlast := ahead_advance (u := [',']) hw
      exact run_lastTwo_eq_none hlast (hlast ▸ hmember)
    · exact run_char_eq_none hhead

end SourceEdit.DialogExchange
