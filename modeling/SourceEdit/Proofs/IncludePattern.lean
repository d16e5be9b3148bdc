import SourceEdit.Proofs.LinePattern

set_option autoImplicit false

namespace SourceEdit

namespace Directive

open Pattern (Steps literal)

def includeSyntax : Text :=
  "^[ \\t]*#[ \\t]*include[ \\t]*(?P<path>\"[^\"\\n]*\"|<[^>\\n]*>)".toList

def closedPattern (opening closing : Char) : Pattern :=
  .seq (.char opening)
    (.seq (.many (.oneOf true [.char closing, .char '\n'])) (.char closing))

def targetPattern : Pattern := .group 1 (.alt (closedPattern '"' '"') (closedPattern '<' '>'))

def includePattern : Pattern := directivePattern includeKeyword (.seq blanksPattern targetPattern)

def includeExpression : Expression := ⟨includePattern, [(['p', 'a', 't', 'h'], 1)]⟩

theorem parse_includeSyntax : Expression.parse includeSyntax = .ok includeExpression := by
  decide +kernel

def insideClosed (closing c : Char) : Bool := c ≠ closing && c ≠ '\n'

def closedStep (opening closing : Char) (p : Point) : Option Point :=
  (p.pastChar? (· = opening)).bind fun q =>
    (q.skip (insideClosed closing)).pastChar? (· = closing)

def targetStep (p : Point) : Option Point :=
  (closedStep '"' '"' p <|> closedStep '<' '>' p).map (·.close 1 p.offset)

theorem steps_insideClosed (closing : Char) :
    Steps (.oneOf true [.char closing, .char '\n']) (·.pastChar? (insideClosed closing)) := by
  have hkind : (fun c => [ClassItem.char closing, .char '\n'].any (·.holds c) != true) =
      insideClosed closing := by
    funext c
    simp [ClassItem.holds, insideClosed]
  exact hkind ▸ Pattern.steps_oneOf true _

theorem steps_closed (opening closing : Char) :
    Steps (closedPattern opening closing) (closedStep opening closing) := by
  refine (Pattern.steps_char opening).seq
    ((steps_insideClosed closing).many (Pattern.steps_char closing) fun p hp => ?_)
  exact pastChar?_eq_none hp fun c hc => by simp_all [insideClosed]

theorem closedStep_eq_none {p : Point} {kind : Char → Bool} (hp : p.ahead.head?.any kind = true)
    {opening : Char} (hne : ∀ c, kind c = true → c ≠ opening) (closing : Char) :
    closedStep opening closing p = none := by
  rw [closedStep, pastChar?_eq_none hp fun c hc => by simpa using hne c hc]
  rfl

theorem steps_target : Steps targetPattern targetStep := by
  refine ((steps_closed '"' '"').alt (steps_closed '<' '>') fun p => ?_).group 1
  by_cases hp : p.ahead.head?.any (· = '"') = true
  · exact .inr (closedStep_eq_none hp (by simp) '>')
  · left
    rw [closedStep, Point.pastChar?_eq, if_neg hp]
    rfl

theorem targetStep_eq_none {p : Point} (hp : p.ahead.head?.any Text.isSpaceOrTab = true) :
    targetStep p = none := by
  rw [targetStep, closedStep_eq_none hp (by rintro c hc rfl; exact absurd hc (by decide)),
    closedStep_eq_none hp (by rintro c hc rfl; exact absurd hc (by decide))]
  rfl

theorem steps_include : Steps includePattern
    (directiveStep includeKeyword fun p => targetStep (p.skip Text.isSpaceOrTab)) :=
  steps_directive (steps_blank.many steps_target fun _ => targetStep_eq_none) (by decide) _

section
variable {p : Point} {line behind : Text} (hahead : p.ahead = line ++ behind)
  (hbehind : ∀ c, behind.head? = some c → c = '\n')

theorem dropWhile_insideClosed (closing : Char) {t : Text} (ht : '\n' ∉ t) :
    t.dropWhile (insideClosed closing) = t.dropWhile (· ≠ closing) := by
  induction t with
  | nil => rfl
  | cons c t ih =>
    rw [List.mem_cons, not_or] at ht
    have hc : insideClosed closing c = decide (c ≠ closing) := by
      simp [insideClosed, Ne.symm ht.1]
    rw [List.dropWhile_cons, List.dropWhile_cons, hc, ih ht.2]

include hahead hbehind in
theorem closedStep_pointAt {opening closing : Char} (hopening : opening ≠ '\n')
    (hclosing : closing ≠ '\n') {c : Char} {body : Text} (hrest : c :: body <:+ line)
    (hline : '\n' ∉ line) : closedStep opening closing (pointAt p line (c :: body)) =
      if c = opening then
        (closedLength? closing body).map fun n => pointAt p line ((c :: body).drop n)
      else none := by
  have hbody : body <:+ line := (List.suffix_cons c body).trans hrest
  have hclean : '\n' ∉ body := fun hmem => hline (hbody.subset hmem)
  rw [closedStep, pastChar?_pointAt hahead hbehind hrest (by simpa using hopening.symm)]
  simp only [List.head?_cons, Option.any_some, decide_eq_true_eq]
  split
  · have hafter : body.dropWhile (insideClosed closing) <:+ line :=
      (List.dropWhile_suffix _).trans hbody
    rw [Option.bind_some, List.drop_one, List.tail_cons,
      skip_pointAt hahead hbehind hbody (by simp [insideClosed]),
      pastChar?_pointAt hahead hbehind hafter (by simpa using hclosing.symm),
      dropWhile_insideClosed closing hclean, closedLength?_eq]
    split
    · rw [Option.map_some, List.drop_succ_cons, ← List.drop_drop, drop_takeWhile]
    · rfl
  · rfl

include hahead hbehind in
theorem targetStep_pointAt {rest : Text} (hrest : rest <:+ line) (hline : '\n' ∉ line) :
    targetStep (pointAt p line rest) = (targetLength? rest).map fun n =>
      (pointAt p line (rest.drop n)).close 1 (pointAt p line rest).offset := by
  cases rest with
  | nil =>
    have hnone : ∀ opening closing, opening ≠ '\n' →
        closedStep opening closing (pointAt p line []) = none := by
      intro opening closing hopening
      rw [closedStep, pastChar?_pointAt hahead hbehind hrest (by simpa using hopening.symm)]
      rfl
    rw [targetStep, hnone _ _ (by decide), hnone _ _ (by decide)]
    rfl
  | cons c body =>
    rw [targetStep, closedStep_pointAt hahead hbehind (by decide) (by decide) hrest hline,
      closedStep_pointAt hahead hbehind (by decide) (by decide) hrest hline]
    by_cases hquote : c = '"'
    · rw [hquote, targetLength?]
      cases closedLength? '"' body <;> rfl
    · by_cases hangle : c = '<'
      · rw [hangle, targetLength?]
        cases closedLength? '>' body <;> rfl
      · rw [if_neg hquote, if_neg hangle]
        unfold targetLength?
        split
        · next heq => exact absurd (List.cons.inj heq).1 hquote
        · next heq => exact absurd (List.cons.inj heq).1 hangle
        · rfl

include hahead hbehind in
/-- At the start of a line the expression takes the include target of this line. -/
theorem includeStep_eq (hstart : p.holds .lineStart = true) (hline : '\n' ∉ line) :
    directiveStep includeKeyword (fun p => targetStep (p.skip Text.isSpaceOrTab)) p =
      (includeTarget? line).map fun s => (p.advance s.stop).close 1 (p.offset + s.start) := by
  rw [directiveStep_eq hahead hbehind hstart (by decide), includeTarget?, Option.map_bind]
  refine Option.bind_congr fun rest hrest => ?_
  have hsuffix := behind?_suffix hrest
  have htarget := (skipSpaces_suffix rest).trans hsuffix
  rw [skip_pointAt hahead hbehind hsuffix (by decide), ← skipSpaces,
    targetStep_pointAt hahead hbehind htarget hline, Function.comp_apply, Option.map_map]
  refine Option.map_congr fun n hn => ?_
  exact close_columns htarget (targetLength?_bounds hn).2 1

end

theorem finds_include : FindsInLines includePattern includeTarget? :=
  .of_steps steps_include includeTarget?_bounds includeStep_eq

theorem run_includeExpression (source : Text) :
    (Query.expression includeExpression).run source = Query.includeTargets.run source := by
  rw [Query.run, Query.run, includeExpression, finds_include.spans_expression]
  rfl

def pragmaSyntax : Text := "^[ \\t]*#[ \\t]*pragma[ \\t]+(?P<value>once)\\b".toList

def pragmaKeyword : Text := ['p', 'r', 'a', 'g', 'm', 'a']

def oncePattern : Pattern :=
  .seq (.group 1 (literal ['o', 'n', 'c'] (.char 'e'))) (.assert .wordBoundary)

def pragmaPattern : Pattern :=
  directivePattern pragmaKeyword
    (.seq (.times true 1 none (.oneOf false [.char ' ', .char '\t'])) oncePattern)

def pragmaExpression : Expression := ⟨pragmaPattern, [(['v', 'a', 'l', 'u', 'e'], 1)]⟩

theorem parse_pragmaSyntax : Expression.parse pragmaSyntax = .ok pragmaExpression := by
  decide +kernel

def onceStep (p : Point) : Option Point :=
  ((p.past? ['o', 'n', 'c', 'e']).map (·.close 1 p.offset)).bind fun q =>
    if q.holds .wordBoundary then some q else none

theorem steps_once : Steps oncePattern onceStep := by
  have hword : Steps (literal ['o', 'n', 'c'] (.char 'e')) (·.past? ['o', 'n', 'c', 'e']) := by
    refine ((Pattern.steps_char 'e').literal ['o', 'n', 'c']).congr fun p => ?_
    simp only [Point.past?_cons, Option.bind_assoc, Point.past?_nil, Option.bind_fun_some]
  exact (hword.group 1).seq (Pattern.steps_assert .wordBoundary)

theorem onceStep_eq_none {p : Point} (hp : p.ahead.head?.any Text.isSpaceOrTab = true) :
    onceStep p = none := by
  rw [onceStep, past?_eq_none hp (by decide)]
  rfl

theorem steps_pragma : Steps pragmaPattern (directiveStep pragmaKeyword fun p =>
    (p.pastChar? Text.isSpaceOrTab).bind fun q => onceStep (q.skip Text.isSpaceOrTab)) :=
  steps_directive (steps_blank.atLeastOne steps_once fun _ => onceStep_eq_none) (by decide) _

section
variable {p : Point} {line behind : Text} (hahead : p.ahead = line ++ behind)
  (hbehind : ∀ c, behind.head? = some c → c = '\n')

include hbehind in
theorem any_isWord_append (rest : Text) :
    (rest ++ behind).head?.any Text.isWord = rest.head?.any Text.isWord := by
  cases rest with
  | cons c rest => rfl
  | nil =>
    cases behind with
    | nil => rfl
    | cons c t =>
      obtain rfl := hbehind c rfl
      exact Text.not_isWord_newline

include hahead hbehind in
theorem onceStep_pointAt {rest : Text} (hrest : rest <:+ line) : onceStep (pointAt p line rest) =
    if ['o', 'n', 'c', 'e'].isPrefixOf rest && !(rest.drop 4).head?.any Text.isWord then
      some ((pointAt p line (rest.drop 4)).close 1 (pointAt p line rest).offset)
    else none := by
  rw [onceStep, past?_pointAt hahead hbehind hrest (by decide)]
  by_cases honce : ['o', 'n', 'c', 'e'] <+: rest
  · have hdrop : rest.drop 4 <:+ line := (List.drop_suffix _ _).trans hrest
    have hbefore : (pointAt p line (rest.drop 4)).before.head? = some 'e' := by
      rw [← pointAt_advance (n := 4) hrest honce.length_le, Point.advance,
        ahead_pointAt hahead hrest]
      obtain ⟨more, rfl⟩ := honce
      rfl
    have hboundary : ∀ start, ((pointAt p line (rest.drop 4)).close 1 start).holds .wordBoundary =
        !(rest.drop 4).head?.any Text.isWord := by
      intro start
      have hafter : (pointAt p line (rest.drop 4)).ahead.head?.any Text.isWord =
          (rest.drop 4).head?.any Text.isWord := by
        rw [ahead_pointAt hahead hdrop, any_isWord_append hbehind]
      simp only [Point.holds, Point.wordBefore, Point.wordAfter, Point.close, hbefore, hafter,
        Option.any_some, show Text.isWord 'e' = true by decide, Bool.true_bne]
    rw [if_pos honce, Option.map_some, Option.bind_some,
      show ['o', 'n', 'c', 'e'].length = 4 from rfl, hboundary,
      List.isPrefixOf_iff_prefix.mpr honce, Bool.true_and]
  · have hnot : ['o', 'n', 'c', 'e'].isPrefixOf rest = false := by
      rw [← Bool.not_eq_true, List.isPrefixOf_iff_prefix]
      exact honce
    rw [if_neg honce, hnot]
    rfl

theorem drop_one_dropWhile {t : Text} {kind : Char → Bool} (h : t.head?.any kind = true) :
    (t.drop 1).dropWhile kind = t.dropWhile kind := by
  cases t with
  | nil => rfl
  | cons c t =>
    have hc : kind c = true := h
    rw [List.dropWhile_cons, if_pos hc]
    rfl

include hahead hbehind in
theorem pragmaStep_eq (hstart : p.holds .lineStart = true) :
    directiveStep pragmaKeyword (fun p =>
        (p.pastChar? Text.isSpaceOrTab).bind fun q => onceStep (q.skip Text.isSpaceOrTab)) p =
      (pragmaOnce? line).map fun s => (p.advance s.stop).close 1 (p.offset + s.start) := by
  rw [directiveStep_eq hahead hbehind hstart (by decide), pragmaOnce?, argument?, Option.bind_assoc,
    Option.map_bind]
  refine Option.bind_congr fun rest hrest => ?_
  have hsuffix := behind?_suffix hrest
  rw [pastChar?_pointAt hahead hbehind hsuffix (by decide), Function.comp_apply]
  split
  · next hblank =>
    have hword := (skipSpaces_suffix rest).trans hsuffix
    rw [Option.bind_some, Option.bind_some,
      skip_pointAt hahead hbehind ((List.drop_suffix _ _).trans hsuffix) (by decide),
      drop_one_dropWhile hblank, ← skipSpaces, onceStep_pointAt hahead hbehind hword]
    split
    · next honce =>
      have hlength := (List.isPrefixOf_iff_prefix.mp (Bool.and_eq_true_iff.mp honce).1).length_le
      rw [close_columns (n := 4) hword hlength]
      rfl
    · rfl
  · rfl

end

theorem finds_pragma : FindsInLines pragmaPattern pragmaOnce? :=
  .of_steps steps_pragma pragmaOnce?_bounds fun hahead hbehind hstart _ =>
    pragmaStep_eq hahead hbehind hstart

theorem run_pragmaExpression (source : Text) :
    (Query.expression pragmaExpression).run source = Query.pragmaOnce.run source := by
  rw [Query.run, Query.run, pragmaExpression, finds_pragma.spans_expression]
  rfl

end Directive

end SourceEdit
