import Mathlib.Tactic.FinCases
import SourceEdit.Document.Search
import SourceEdit.Proofs.PatternSteps

set_option autoImplicit false

namespace SourceEdit

theorem Needle.wordPattern_eq (t : Text) : wordPattern t =
    '(' :: '?' :: '<' :: '!' :: '\\' :: 'w' :: ')' :: '(' :: '?' :: ':' ::
      (t ++ [')', '(', '?', '!', '\\', 'w', ')']) := by
  have hfront : "(?<!\\w)(?:".toList =
      ['(', '?', '<', '!', '\\', 'w', ')', '(', '?', ':'] := by simp
  have hback : ")(?!\\w)".toList = [')', '(', '?', '!', '\\', 'w', ')'] := by simp
  have hparts : wordPattern t = "(?<!\\w)(?:".toList ++ t ++ ")(?!\\w)".toList := rfl
  rw [hparts, hfront, hback]
  simp

namespace Expression

theorem readPart_special {c : Char} (h : c ∈ specialChars) (r : Reader) (rest : Text) :
    readPart r '\\' (c :: rest) = .ok (r.add (.plain (.char c)), rest) := by
  rw [specialChars] at h
  fin_cases h <;> rfl

theorem readBounds?_plain {c : Char} (h : c ∉ specialChars) (rest : Text) :
    readBounds? (c :: rest) = .ok none := by
  unfold readBounds?
  split <;> simp_all [specialChars]

theorem readPart_plain {c : Char} (h : c ∉ specialChars) (r : Reader) (rest : Text) :
    readPart r c rest = .ok (r.add (.plain (.char c)), rest) := by
  unfold readPart
  split
  all_goals try exact absurd (by decide) h
  rw [readBounds?_plain h]
  rfl

/-- The reader with the characters of a text taken in, each as it stands. -/
def Reader.addText (r : Reader) (s : Text) : Reader := s.foldl (fun r c => r.add (.plain (.char c))) r

theorem parts_addText (r : Reader) (s : Text) : r.addText s =
    { r with current :=
      { r.current with parts := (s.map fun c => .plain (.char c)).reverse ++ r.current.parts } } := by
  induction s generalizing r with
  | nil => rfl
  | cons c s ih =>
    rw [Reader.addText, List.foldl_cons, ← Reader.addText, ih]
    simp [Reader.add]

theorem escape_cons (c : Char) (s : Text) : escape (c :: s) =
    (if c ∈ specialChars then ['\\', c] else [c]) ++ escape s := by
  simp [escape]

theorem length_le_escape (s : Text) : s.length ≤ (escape s).length := by
  induction s with
  | nil => exact Nat.le_refl 0
  | cons c s ih =>
    rw [escape_cons, List.length_append, List.length_cons]
    split <;> simp <;> omega

theorem readAll_escape (s tail : Text) {fuel : Nat} (h : s.length ≤ fuel) (r : Reader) :
    readAll fuel r (escape s ++ tail) = readAll (fuel - s.length) (r.addText s) tail := by
  induction s generalizing fuel r with
  | nil => rfl
  | cons c s ih =>
    obtain ⟨fuel, rfl⟩ := Nat.exists_eq_add_of_le' (Nat.lt_of_lt_of_le (Nat.zero_lt_succ _) h)
    have hrest := ih (Nat.le_of_succ_le_succ h) (r.add (.plain (.char c)))
    rw [List.length_cons, Nat.add_sub_add_right, escape_cons]
    by_cases hc : c ∈ specialChars
    · simp [hc, readAll, readPart_special hc, bind, Except.bind, hrest, Reader.addText]
    · simp [hc, readAll, readPart_plain hc, bind, Except.bind, hrest, Reader.addText]

/-- The pattern of the characters of a text. -/
def literalPattern (s : Text) : Pattern := .ofList (s.map .char)

theorem parse_escape (s : Text) : parse (escape s) = .ok ⟨literalPattern s, []⟩ := by
  have hread := readAll_escape s [] (length_le_escape s) ⟨⟨.bare, [], []⟩, [], 0, []⟩
  rw [List.append_nil, parts_addText] at hread
  rw [parse, hread]
  simp [readAll, OpenGroup.pattern, OpenGroup.alternative, literalPattern, Part.pattern,
    Function.comp_def]

theorem readPart_noWordBefore (r : Reader) (rest : Text) :
    readPart r '(' ('?' :: '<' :: '!' :: '\\' :: 'w' :: ')' :: rest) =
      .ok (r.add (.plain (.assert .noWordBefore)), rest) := rfl

theorem readPart_noWordAfter (r : Reader) (rest : Text) :
    readPart r '(' ('?' :: '!' :: '\\' :: 'w' :: ')' :: rest) =
      .ok (r.add (.plain (.assert .noWordAfter)), rest) := rfl

theorem readPart_bare (r : Reader) (rest : Text) :
    readPart r '(' ('?' :: ':' :: rest) = .ok (r.openGroup .bare, rest) := rfl

theorem readPart_close {r : Reader} {g : OpenGroup} {gs : List OpenGroup} (h : r.outer = g :: gs)
    (rest : Text) : readPart r ')' rest =
      .ok (Reader.add { r with current := g, outer := gs } (.plain r.current.pattern), rest) := by
  simp [readPart, h]

theorem readAll_step {r r' : Reader} {c : Char} {rest rest' : Text}
    (h : readPart r c rest = .ok (r', rest')) (fuel : Nat) :
    readAll (fuel + 1) r (c :: rest) = readAll fuel r' rest' := by
  simp [readAll, h, bind, Except.bind]

theorem readAll_wordPattern (s : Text) {fuel : Nat} (h : s.length + 4 ≤ fuel) :
    readAll fuel ⟨⟨.bare, [], []⟩, [], 0, []⟩ (Needle.wordPattern (escape s)) =
      .ok ⟨.ofList [.assert .noWordBefore, literalPattern s, .assert .noWordAfter], []⟩ := by
  obtain ⟨more, rfl⟩ := Nat.exists_eq_add_of_le' h
  have hfuel : more + (s.length + 4) = (more + 2 + s.length) + 1 + 1 := by omega
  have hrest : more + 2 + s.length - s.length = more + 1 + 1 := by omega
  rw [Needle.wordPattern_eq, hfuel, readAll_step (readPart_noWordBefore _ _), readAll_step (readPart_bare _ _),
    readAll_escape s _ (Nat.le_add_left _ _), hrest, parts_addText,
    readAll_step (readPart_close rfl _), readAll_step (readPart_noWordAfter _ _)]
  simp [readAll, Reader.add, Reader.openGroup, OpenGroup.pattern, OpenGroup.alternative,
    literalPattern, Part.pattern, Function.comp_def]

end Expression

namespace Pattern

theorem steps_ofList_char (s : Text) : Steps (Expression.literalPattern s) (·.past? s) := by
  induction s with
  | nil => exact ⟨fun k p => by rw [Point.past?_nil]; rfl⟩
  | cons c s ih =>
    have hcons : Steps (.seq (.char c) (Expression.literalPattern s)) (·.past? (c :: s)) :=
      ((steps_char c).seq ih).congr fun p => (p.past?_cons c s).symm
    cases s with
    | nil =>
      refine (steps_char c).congr fun p => ?_
      rw [Point.past?_cons]
      simp [Point.past?_nil]
    | cons d s => exact hcons

theorem steps_ofText (s : Text) : Steps (.ofText s) (·.past? s) := by
  induction s with
  | nil => exact ⟨fun k p => by rw [Point.past?_nil]; rfl⟩
  | cons c s ih => exact ((steps_char c).seq ih).congr fun p => (p.past?_cons c s).symm

end Pattern

namespace Needle

def step (s : Text) (wholeWord : Bool) (p : Point) : Option Point :=
  if s <+: p.ahead ∧
      (wholeWord = true → p.wordBefore = false ∧ (p.advance s.length).wordAfter = false) then
    some (p.advance s.length)
  else none

theorem steps_wholeWord {p : Pattern} {s : Text} (hp : Pattern.Steps p (·.past? s)) :
    Pattern.Steps p.wholeWord (step s true) := by
  have hsteps := (Pattern.steps_assert .noWordBefore).seq
    (hp.seq (Pattern.steps_assert .noWordAfter))
  refine hsteps.congr fun q => ?_
  by_cases hnext : s <+: q.ahead
  · cases hbefore : q.wordBefore <;> cases hafter : (q.advance s.length).wordAfter <;>
      simp [step, Point.holds, Point.past?_eq, hnext, hbefore, hafter]
  · cases hbefore : q.wordBefore <;> simp [step, Point.holds, Point.past?_eq, hnext, hbefore]

theorem exists_pattern (s : Text) (wholeWord : Bool) :
    ∃ p, Needle.pattern ⟨s, false, wholeWord⟩ = .ok p ∧ Pattern.Steps p (step s wholeWord) := by
  cases wholeWord with
  | false =>
    refine ⟨Expression.literalPattern s, ?_, (Pattern.steps_ofList_char s).congr fun p => ?_⟩
    · simp [Needle.pattern, written, Expression.parse_escape, Except.map]
    · simp [step, Point.past?_eq]
  | true =>
    refine ⟨_, ?_, steps_wholeWord (Pattern.steps_ofList_char s)⟩
    have hlength : s.length + 4 ≤ (wordPattern (Expression.escape s)).length := by
      have := Expression.length_le_escape s
      simp only [wordPattern_eq, List.length_cons, List.length_append]
      omega
    have hwritten : written ⟨s, false, true⟩ = wordPattern (Expression.escape s) := rfl
    rw [Needle.pattern, hwritten, Expression.parse, Expression.readAll_wordPattern s hlength]
    rfl

end Needle

end SourceEdit
