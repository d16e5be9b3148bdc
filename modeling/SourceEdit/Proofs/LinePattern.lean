import SourceEdit.Proofs.IncludeLines
import SourceEdit.Proofs.PatternSteps

/-!
Regular expressions for directives. A match begins at the start of a line and stays in it, and there is
one way through it at most, so the matcher finds in the whole text what is found in one line after the
other.
-/

set_option autoImplicit false

namespace SourceEdit

namespace Directive

open Pattern (Steps literal)

def blanksPattern : Pattern := .many (.oneOf false [.char ' ', .char '\t'])

def directivePattern (word : Text) (rest : Pattern) : Pattern :=
  .seq (.assert .lineStart)
    (.seq blanksPattern (literal ['#'] (.seq blanksPattern (literal word rest))))

def directiveStep (word : Text) (next : Point → Option Point) (p : Point) : Option Point :=
  if p.holds .lineStart then
    ((p.skip Text.isSpaceOrTab).past? ['#']).bind fun q =>
      ((q.skip Text.isSpaceOrTab).past? word).bind next
  else none

theorem pastChar?_eq_none {p : Point} {kind kind' : Char → Bool}
    (hp : p.ahead.head?.any kind = true) (hne : ∀ c, kind c = true → kind' c = false) :
    p.pastChar? kind' = none := by
  rw [Point.pastChar?_eq]
  cases hahead : p.ahead with
  | nil => simp [hahead] at hp
  | cons c rest =>
    rw [hahead] at hp
    have hc : kind c = true := hp
    simp [hne c hc]

theorem steps_blank :
    Steps (.oneOf false [.char ' ', .char '\t']) (·.pastChar? Text.isSpaceOrTab) := by
  have hkind : (fun c => [ClassItem.char ' ', .char '\t'].any (·.holds c) != false) =
      Text.isSpaceOrTab := by
    funext c
    simp [ClassItem.holds, Text.isSpaceOrTab]
  exact hkind ▸ Pattern.steps_oneOf false _

theorem past?_eq_none {p : Point} (hp : p.ahead.head?.any Text.isSpaceOrTab = true) {c : Char}
    (hc : Text.isSpaceOrTab c = false) (word : Text) : p.past? (c :: word) = none := by
  rw [Point.past?_cons, pastChar?_eq_none hp fun d hd => ?_]
  · rfl
  · rw [decide_eq_false_iff_not]
    rintro rfl
    rw [hc] at hd
    contradiction

theorem steps_directive {b : Pattern} {g : Point → Option Point} (hb : Steps b g) {c : Char}
    (hc : Text.isSpaceOrTab c = false) (word : Text) :
    Steps (directivePattern (c :: word) b) (directiveStep (c :: word) g) := by
  have hword := steps_blank.many (hb.literal (c :: word)) fun p hp => by
    rw [past?_eq_none hp hc]
    rfl
  have hsign := steps_blank.many (hword.literal ['#']) fun p hp => by
    rw [past?_eq_none hp (by decide)]
    rfl
  refine ((Pattern.steps_assert .lineStart).seq hsign).congr fun p => ?_
  rw [directiveStep]
  split <;> rfl

theorem behind?_eq (word line : Text) : behind? word line =
    if ['#'] <+: skipSpaces line then
      if word <+: skipSpaces ((skipSpaces line).drop 1) then
        some ((skipSpaces ((skipSpaces line).drop 1)).drop word.length)
      else none
    else none := by
  unfold behind?
  split
  · next rest hline =>
    have hsign : ['#'] <+: skipSpaces line := hline ▸ ⟨rest, rfl⟩
    rw [if_pos hsign, hline]
    simp only [List.isPrefixOf_iff_prefix, List.drop_one, List.tail_cons]
  · next hline =>
    rw [if_neg]
    rintro ⟨rest, hrest⟩
    exact hline rest hrest.symm

def pointAt (p : Point) (line rest : Text) : Point := p.advance (line.length - rest.length)

section
variable {p : Point} {line behind : Text} (hahead : p.ahead = line ++ behind)
  (hbehind : ∀ c, behind.head? = some c → c = '\n')

include hahead in
theorem ahead_pointAt {rest : Text} (hrest : rest <:+ line) :
    (pointAt p line rest).ahead = rest ++ behind := by
  obtain ⟨front, rfl⟩ := hrest
  have hlength : (front ++ rest).length - rest.length = front.length := by simp
  rw [pointAt, Point.advance, hlength, hahead, List.append_assoc, List.drop_left]

theorem pointAt_advance {rest : Text} (hrest : rest <:+ line) {n : Nat} (hn : n ≤ rest.length) :
    (pointAt p line rest).advance n = pointAt p line (rest.drop n) := by
  have hle := hrest.length_le
  rw [pointAt, ← Point.advance_add, pointAt, List.length_drop]
  congr 1
  omega

include hbehind in
theorem takeWhile_append_behind (rest : Text) {kind : Char → Bool} (hkind : kind '\n' = false) :
    (rest ++ behind).takeWhile kind = rest.takeWhile kind := by
  induction rest with
  | nil =>
    cases behind with
    | nil => rfl
    | cons c t =>
      obtain rfl := hbehind c rfl
      simp [hkind]
  | cons c rest ih => rw [List.cons_append, List.takeWhile_cons, List.takeWhile_cons, ih]

theorem drop_takeWhile (kind : Char → Bool) (t : Text) :
    t.drop (t.takeWhile kind).length = t.dropWhile kind := by
  calc t.drop (t.takeWhile kind).length
      = (t.takeWhile kind ++ t.dropWhile kind).drop (t.takeWhile kind).length := by
        rw [List.takeWhile_append_dropWhile]
    _ = t.dropWhile kind := List.drop_left

include hahead hbehind in
theorem skip_pointAt {rest : Text} (hrest : rest <:+ line) {kind : Char → Bool}
    (hkind : kind '\n' = false) :
    (pointAt p line rest).skip kind = pointAt p line (rest.dropWhile kind) := by
  rw [Point.skip, ahead_pointAt hahead hrest, takeWhile_append_behind hbehind rest hkind,
    pointAt_advance hrest (List.takeWhile_prefix kind).length_le]
  rw [drop_takeWhile]

include hahead hbehind in
theorem past?_pointAt {rest : Text} (hrest : rest <:+ line) {word : Text} (hword : '\n' ∉ word) :
    (pointAt p line rest).past? word =
      if word <+: rest then some (pointAt p line (rest.drop word.length)) else none := by
  have hstarts : word <+: rest ++ behind ↔ word <+: rest := by
    refine ⟨fun h => ?_, fun h => h.trans (List.prefix_append rest behind)⟩
    rcases List.prefix_or_prefix_of_prefix h (List.prefix_append rest behind) with h' | ⟨more, rfl⟩
    · exact h'
    · rw [List.prefix_append_right_inj] at h
      cases more with
      | nil => simp
      | cons c more =>
        obtain ⟨behind', rfl⟩ := h
        obtain rfl := hbehind c rfl
        simp at hword
  rw [Point.past?_eq, ahead_pointAt hahead hrest]
  simp only [hstarts]
  split
  · next h => rw [pointAt_advance hrest h.length_le]
  · rfl

include hahead hbehind in
theorem pastChar?_pointAt {rest : Text} (hrest : rest <:+ line) {kind : Char → Bool}
    (hkind : kind '\n' = false) : (pointAt p line rest).pastChar? kind =
      if rest.head?.any kind then some (pointAt p line (rest.drop 1)) else none := by
  rw [Point.pastChar?_eq, ahead_pointAt hahead hrest]
  cases rest with
  | nil =>
    cases behind with
    | nil => rfl
    | cons c t =>
      obtain rfl := hbehind c rfl
      simp [hkind]
  | cons c rest =>
    rw [pointAt_advance hrest (by simp)]
    rfl

include hahead hbehind in
theorem directiveStep_eq (hstart : p.holds .lineStart = true) {word : Text} (hword : '\n' ∉ word)
    (next : Point → Option Point) : directiveStep word next p =
      (behind? word line).bind fun rest => next (pointAt p line rest) := by
  have hwhole : pointAt p line line = p := by
    rw [pointAt, Nat.sub_self]
    exact p.advance_zero
  have hindent : p.skip Text.isSpaceOrTab = pointAt p line (skipSpaces line) := by
    conv_lhs => rw [← hwhole]
    exact skip_pointAt hahead hbehind List.suffix_rfl (by decide)
  have hsign : (skipSpaces line).drop 1 <:+ line :=
    (List.drop_suffix _ _).trans (skipSpaces_suffix line)
  have hgap : skipSpaces ((skipSpaces line).drop 1) <:+ line := (skipSpaces_suffix _).trans hsign
  rw [directiveStep, if_pos hstart, hindent,
    past?_pointAt hahead hbehind (skipSpaces_suffix line) (by decide), behind?_eq]
  split
  · rw [List.length_singleton, Option.bind_some,
      skip_pointAt hahead hbehind hsign (by decide), ← skipSpaces,
      past?_pointAt hahead hbehind hgap hword]
    split <;> rfl
  · rfl

theorem close_columns {rest : Text} (hrest : rest <:+ line) {n : Nat} (hn : n ≤ rest.length)
    (index : Nat) : (pointAt p line (rest.drop n)).close index (pointAt p line rest).offset =
      (p.advance (columns line rest n).stop).close index
        (p.offset + (columns line rest n).start) := by
  rw [← pointAt_advance hrest hn, pointAt, ← Point.advance_add]
  rfl

end

def lineMatch (offset : Nat) (s : Span) : Match :=
  ⟨⟨offset, offset + s.stop⟩, [(1, shift offset s)]⟩

/-- The pattern matches at the start of a line and nowhere else, and its match is what the search in
the line finds. -/
structure FindsInLines (pattern : Pattern) (find? : Text → Option Span) : Prop where
  bounds : FindsParts find?
  inside : ∀ {before ahead : Text} {offset : Nat}, before.head?.all (· = '\n') = false →
    pattern.matchAt? ⟨before, ahead, offset, []⟩ = none
  start : ∀ {before line behind : Text} {offset : Nat}, (∀ c, behind.head? = some c → c = '\n') →
    before.head?.all (· = '\n') = true → '\n' ∉ line →
      pattern.matchAt? ⟨before, line ++ behind, offset, []⟩ = (find? line).map (lineMatch offset)

theorem FindsInLines.of_steps {word : Text} {pattern : Pattern} {next : Point → Option Point}
    {find? : Text → Option Span} (hsteps : Steps pattern (directiveStep word next))
    (hbounds : FindsParts find?)
    (hstep : ∀ {p : Point} {line behind : Text}, p.ahead = line ++ behind →
      (∀ c, behind.head? = some c → c = '\n') → p.holds .lineStart = true → '\n' ∉ line →
        directiveStep word next p = (find? line).map fun s =>
          (p.advance s.stop).close 1 (p.offset + s.start)) : FindsInLines pattern find? where
  bounds := hbounds
  inside {before ahead offset} hinside := by
    have hnone : directiveStep word next ⟨before, ahead, offset, []⟩ = none := by
      rw [directiveStep, Point.holds, hinside]
      rfl
    exact hsteps.run_eq_none hnone _
  start {before line behind offset} hbehind hstart hline := by
    have hfound := hstep (p := ⟨before, line ++ behind, offset, []⟩) rfl hbehind hstart hline
    rw [Pattern.matchAt?, hsteps.run, hfound]
    cases find? line <;> rfl

namespace FindsInLines

variable {pattern : Pattern} {find? : Text → Option Span} (h : FindsInLines pattern find?)
  {before line behind : Text} {offset resume : Nat}
include h

theorem matchesAt_start (hbehind : ∀ c, behind.head? = some c → c = '\n')
    (hstart : before.head?.all (· = '\n') = true) (hline : '\n' ∉ line) :
    pattern.matchesAt ⟨before, line ++ behind, offset, []⟩ =
      ((find? line).map (lineMatch offset)).toList := by
  rw [Pattern.matchesAt, h.start hbehind hstart hline]
  cases hfound : find? line with
  | none => rfl
  | some s =>
    have hbounds := h.bounds hfound
    exact if_neg (by simp only [lineMatch]; omega)

theorem matchesAt_inside {ahead : Text} (hinside : before.head?.all (· = '\n') = false) :
    pattern.matchesAt ⟨before, ahead, offset, []⟩ = [] := by
  rw [Pattern.matchesAt, h.inside hinside]

theorem matchesFrom_inside (resume : Nat) (hinside : before.head?.all (· = '\n') = false)
    (hline : '\n' ∉ line) (rest : Text) :
    pattern.matchesFrom resume before offset (line ++ '\n' :: rest) =
      pattern.matchesFrom resume ('\n' :: (line.reverse ++ before))
        (offset + line.length + 1) rest := by
  induction line generalizing before offset with
  | nil => simp [Pattern.matchesFrom, h.matchesAt_inside hinside]
  | cons c line ih =>
    rw [List.mem_cons, not_or] at hline
    have hnext : (c :: before).head?.all (· = '\n') = false := by simpa using Ne.symm hline.1
    simp [Pattern.matchesFrom, h.matchesAt_inside hinside, ih hnext hline.2, Nat.add_right_comm,
      Nat.add_assoc]

theorem matchesFrom_inside_last (resume : Nat) (hinside : before.head?.all (· = '\n') = false)
    (hline : '\n' ∉ line) : pattern.matchesFrom resume before offset line = [] := by
  induction line generalizing before offset with
  | nil => simp [Pattern.matchesFrom, h.matchesAt_inside hinside]
  | cons c line ih =>
    rw [List.mem_cons, not_or] at hline
    have hnext : (c :: before).head?.all (· = '\n') = false := by simpa using Ne.symm hline.1
    simp [Pattern.matchesFrom, h.matchesAt_inside hinside, ih hnext hline.2]

section
variable (hstart : before.head?.all (· = '\n') = true) (hline : '\n' ∉ line)
  (hresume : resume ≤ offset)
include hstart hline hresume

theorem matchesFrom_last : pattern.matchesFrom resume before offset line =
    ((find? line).map (lineMatch offset)).toList := by
  have hhere : pattern.matchesAt ⟨before, line ++ [], offset, []⟩ =
      ((find? line).map (lineMatch offset)).toList :=
    h.matchesAt_start (by simp) hstart hline
  rw [List.append_nil] at hhere
  cases line with
  | nil => rw [Pattern.matchesFrom, if_pos hresume, hhere]
  | cons c line =>
    rw [List.mem_cons, not_or] at hline
    have hinside : (c :: before).head?.all (· = '\n') = false := by simpa using Ne.symm hline.1
    rw [Pattern.matchesFrom, if_pos hresume, hhere, h.matchesFrom_inside_last _ hinside hline.2,
      List.append_nil]

theorem matchesFrom_more (rest : Text) : ∃ resume' ≤ offset + line.length,
    pattern.matchesFrom resume before offset (line ++ '\n' :: rest) =
      ((find? line).map (lineMatch offset)).toList ++
        pattern.matchesFrom resume' ('\n' :: (line.reverse ++ before))
          (offset + line.length + 1) rest := by
  have hhere : pattern.matchesAt ⟨before, line ++ '\n' :: rest, offset, []⟩ =
      ((find? line).map (lineMatch offset)).toList :=
    h.matchesAt_start (by simp) hstart hline
  cases line with
  | nil =>
    refine ⟨resume, hresume, ?_⟩
    rw [List.nil_append, Pattern.matchesFrom, if_pos hresume]
    rw [List.nil_append] at hhere
    rw [hhere]
    cases hfound : find? [] with
    | none => rfl
    | some s =>
      have hbounds := h.bounds hfound
      rw [List.length_nil] at hbounds
      omega
  | cons c line =>
    have hclean := hline
    rw [List.mem_cons, not_or] at hline
    have hinside : (c :: before).head?.all (· = '\n') = false := by simpa using Ne.symm hline.1
    have hrest : ∀ resume', pattern.matchesFrom resume' (c :: before) (offset + 1)
        (line ++ '\n' :: rest) = pattern.matchesFrom resume'
          ('\n' :: ((c :: line).reverse ++ before)) (offset + (c :: line).length + 1) rest := by
      intro resume'
      rw [h.matchesFrom_inside resume' hinside hline.2, List.reverse_cons, List.append_assoc,
        List.singleton_append, List.length_cons, Nat.add_right_comm offset 1, Nat.add_assoc offset]
    rw [List.cons_append] at hhere
    rw [List.cons_append, Pattern.matchesFrom, if_pos hresume, hhere]
    cases hfound : find? (c :: line) with
    | none => exact ⟨resume, by omega, congrArg _ (hrest resume)⟩
    | some s =>
      have hbounds := h.bounds hfound
      exact ⟨offset + s.stop, by omega, congrArg _ (hrest (offset + s.stop))⟩

end

theorem matchesFrom_lines (t before : Text) (offset resume : Nat)
    (hstart : before.head?.all (· = '\n') = true) (hresume : resume ≤ offset) :
    pattern.matchesFrom resume before offset t =
      (placedFrom offset (Text.lines t)).filterMap fun l => (find? l.2).map (lineMatch l.1) := by
  induction t using Text.line_induction generalizing before offset resume with
  | last line hline =>
    rw [h.matchesFrom_last hstart hline hresume, Text.lines_of_not_mem hline, placedFrom,
      placedFrom]
    cases hfound : find? line <;> simp [hfound]
  | more line rest hline ih =>
    obtain ⟨resume', hle, hmore⟩ := h.matchesFrom_more hstart hline hresume rest
    rw [hmore, ih _ _ _ rfl (by omega), Text.lines_append, Text.lines_of_not_mem hline,
      List.singleton_append, placedFrom]
    cases hfound : find? line <;> simp [hfound]

/-- What the expression captures is what is found on each line. -/
theorem spans_expression (name : Text) (code : Text) :
    (Query.expression ⟨pattern, [(name, 1)]⟩).spans code =
      (onEachLine find? code).map fun s => (name, s) := by
  have hmatches : pattern.allMatches code =
      (placed code).filterMap fun l => (find? l.2).map (lineMatch l.1) :=
    h.matchesFrom_lines code [] 0 0 rfl (Nat.le_refl 0)
  have hspan : ∀ offset s, Query.groupSpans [(name, 1)] (lineMatch offset s) =
      [(name, shift offset s)] := fun _ _ => rfl
  rw [Query.spans, hmatches, onEachLine]
  induction placed code with
  | nil => rfl
  | cons l ls ih => cases hfound : find? l.2 <;> simp [hfound, hspan, ih]

end FindsInLines

end Directive

end SourceEdit
