import SourceEdit.Diff.Unified

set_option autoImplicit false

namespace SourceEdit

namespace Text

variable {l rest s t : Text} {c : Char}

def pairReturns : Text → Text
  | [] => []
  | c :: rest =>
    if c = '\r' ∧ rest.head? ≠ some '\n' then '\r' :: '\n' :: pairReturns rest
    else c :: pairReturns rest

def closeLastLine (t : Text) : Text := if t.getLast?.all isLineBreak then t else t ++ ['\n']

def completed (t : Text) : Text := closeLastLine (pairReturns t)

def Unbroken (l : Text) : Prop := ∀ c ∈ l, isLineBreak c = false

theorem Unbroken.not_mem (h : Unbroken l) (hc : isLineBreak c = true) : c ∉ l := by
  intro hmem
  rw [h c hmem] at hc
  contradiction

/-- Induction over the lines of a text, with the kinds of line breaks as cases. -/
theorem break_induction {motive : Text → Prop} (nil : motive [])
    (last : ∀ l, Unbroken l → l ≠ [] → motive l)
    (pair : ∀ l rest, Unbroken l → motive rest → motive (l ++ '\r' :: '\n' :: rest))
    (single : ∀ l rest, Unbroken l → rest.head? ≠ some '\n' → motive rest →
      motive (l ++ '\r' :: rest))
    (other : ∀ l c rest, Unbroken l → isLineBreak c = true → c ≠ '\r' → motive rest →
      motive (l ++ c :: rest)) (t : Text) : motive t := by
  -- The line that has begun in front of the text is carried along.
  suffices h : ∀ l, Unbroken l → motive (l ++ t) from h [] (List.forall_mem_nil _)
  induction t using splitLines.induct with
  | case1 =>
    intro l hl
    rw [List.append_nil]
    by_cases hne : l = []
    · rwa [hne]
    · exact last l hl hne
  | case2 rest ih =>
    intro l hl
    exact pair l rest hl (ih [] (List.forall_mem_nil _))
  | case3 c rest hpair hc ih =>
    intro l hl
    have hrest := ih [] (List.forall_mem_nil _)
    by_cases hreturn : c = '\r'
    · subst hreturn
      refine single l rest hl ?_ hrest
      intro hhead
      obtain ⟨tail, rfl⟩ := List.head?_eq_some_iff.mp hhead
      exact hpair tail rfl rfl
    · exact other l c rest hl hc hreturn hrest
  | case4 c rest hpair hc _ ih | case5 c rest hpair hc _ _ _ ih =>
    intro l hl
    have hline : Unbroken (l ++ [c]) := by
      intro d hd
      rcases List.mem_append.mp hd with hd | hd
      · exact hl d hd
      · rw [List.mem_singleton.mp hd]
        exact Bool.eq_false_iff.mpr hc
    simpa using ih (l ++ [c]) hline

theorem splitLines_singleton (hc : isLineBreak c = false) : splitLines [c] = [[c]] := by
  rw [splitLines, if_neg (Bool.eq_false_iff.mp hc), splitLines]
  exact fun _ _ h => absurd h (List.cons_ne_nil _ _).symm

theorem splitLines_cons (hc : isLineBreak c = false) {line : Text} {ls : List Text}
    (hrest : splitLines rest = line :: ls) : splitLines (c :: rest) = (c :: line) :: ls := by
  rw [splitLines, if_neg (Bool.eq_false_iff.mp hc), hrest]
  rintro _ rfl
  contradiction

theorem splitLines_append (h : Unbroken l) {line : Text} {ls : List Text}
    (hrest : splitLines rest = line :: ls) : splitLines (l ++ rest) = (l ++ line) :: ls := by
  induction l with
  | nil => exact hrest
  | cons c l ih =>
    exact splitLines_cons (h c List.mem_cons_self) (ih fun d hd => h d (.tail c hd))

theorem splitLines_of_unbroken (h : Unbroken l) (hne : l ≠ []) : splitLines l = [l] := by
  induction l with
  | nil => contradiction
  | cons c l ih =>
    have hc := h c List.mem_cons_self
    by_cases hl : l = []
    · rw [hl]
      exact splitLines_singleton hc
    · exact splitLines_cons hc (ih (fun d hd => h d (.tail c hd)) hl)

theorem splitLines_pair (h : Unbroken l) (rest : Text) :
    splitLines (l ++ '\r' :: '\n' :: rest) = (l ++ ['\r', '\n']) :: splitLines rest :=
  splitLines_append h rfl

theorem splitLines_break (h : Unbroken l) (hc : isLineBreak c = true)
    (hpair : c = '\r' → rest.head? ≠ some '\n') :
    splitLines (l ++ c :: rest) = (l ++ [c]) :: splitLines rest := by
  refine splitLines_append h ?_
  rw [splitLines, if_pos hc]
  rintro _ rfl rfl
  exact hpair rfl rfl

theorem pairReturns_append (h : Unbroken l) (t : Text) :
    pairReturns (l ++ t) = l ++ pairReturns t := by
  induction l with
  | nil => rfl
  | cons c l ih =>
    have hreturn : c ≠ '\r' := by
      rintro rfl
      exact h.not_mem (by decide) List.mem_cons_self
    rw [List.cons_append, pairReturns, if_neg fun h => hreturn h.1, ih fun d hd => h d (.tail c hd),
      List.cons_append]

theorem closeLastLine_append (hc : isLineBreak c = true) (s t : Text) :
    closeLastLine (s ++ c :: t) = s ++ c :: closeLastLine t := by
  have hlast : (s ++ c :: t).getLast?.all isLineBreak = t.getLast?.all isLineBreak := by
    rw [List.getLast?_append, List.getLast?_cons]
    cases t.getLast? with
    | none => simpa using hc
    | some d => rfl
  rw [closeLastLine, closeLastLine, hlast]
  split
  · rfl
  · rw [List.append_assoc, List.cons_append]

theorem completed_of_pairReturns (hc : isLineBreak c = true)
    (h : pairReturns t = s ++ c :: pairReturns rest) : completed t = s ++ c :: completed rest := by
  rw [completed, h, closeLastLine_append hc, ← completed]

theorem completed_of_unbroken (h : Unbroken l) (hne : l ≠ []) : completed l = l ++ ['\n'] := by
  have hpairs := pairReturns_append h []
  rw [pairReturns, List.append_nil] at hpairs
  have hopen : l.getLast?.all isLineBreak = false := by
    rw [List.getLast?_eq_some_getLast hne]
    exact h _ (List.getLast_mem hne)
  rw [completed, hpairs, closeLastLine, hopen]
  rfl

theorem completed_return (h : Unbroken l)
    (hpairs : pairReturns ('\r' :: t) = '\r' :: '\n' :: pairReturns rest) :
    completed (l ++ '\r' :: t) = l ++ '\r' :: '\n' :: completed rest := by
  have hline : pairReturns (l ++ '\r' :: t) = l ++ ['\r'] ++ '\n' :: pairReturns rest := by
    rw [pairReturns_append h, hpairs, List.append_assoc]
    rfl
  rw [completed_of_pairReturns (by decide) hline, List.append_assoc]
  rfl

theorem completed_pair (h : Unbroken l) (rest : Text) :
    completed (l ++ '\r' :: '\n' :: rest) = l ++ '\r' :: '\n' :: completed rest :=
  completed_return h rfl

theorem completed_single (h : Unbroken l) (hhead : rest.head? ≠ some '\n') :
    completed (l ++ '\r' :: rest) = l ++ '\r' :: '\n' :: completed rest := by
  refine completed_return h ?_
  rw [pairReturns, if_pos ⟨rfl, hhead⟩]

theorem completed_break (h : Unbroken l) (hc : isLineBreak c = true) (hreturn : c ≠ '\r')
    (rest : Text) : completed (l ++ c :: rest) = l ++ c :: completed rest := by
  refine completed_of_pairReturns hc ?_
  rw [pairReturns_append h, pairReturns, if_neg fun hc => hreturn hc.1]

/-- Each carriage return has a newline behind it, and the last line has a line break. -/
structure Complete (t : Text) : Prop where
  paired : ∀ k, t[k]? = some '\r' → t[k + 1]? = some '\n'
  closed : t.getLast?.all isLineBreak = true

theorem length_le_pairReturns (t : Text) : t.length ≤ (pairReturns t).length := by
  induction t with
  | nil => exact Nat.le_refl 0
  | cons c rest ih =>
    rw [pairReturns]
    split <;> simp only [List.length_cons] <;> omega

theorem pairReturns_eq_self_iff :
    pairReturns t = t ↔ ∀ k, t[k]? = some '\r' → t[k + 1]? = some '\n' := by
  induction t with
  | nil => simp [pairReturns]
  | cons c rest ih =>
    rw [pairReturns]
    split
    · next hsingle =>
      obtain ⟨rfl, hhead⟩ := hsingle
      rw [List.head?_eq_getElem?] at hhead
      refine iff_of_false (fun h => hhead ?_) fun h => hhead (h 0 rfl)
      rw [← (List.cons.inj h).2]
      rfl
    · next hsingle =>
      rw [List.cons.injEq, ih]
      refine ⟨fun h k hk => ?_, fun h => ⟨rfl, fun k hk => h (k + 1) hk⟩⟩
      cases k with
      | zero =>
        rw [List.getElem?_cons_succ, ← List.head?_eq_getElem?]
        exact Decidable.not_not.mp fun hhead => hsingle ⟨Option.some.inj hk, hhead⟩
      | succ k => exact h.2 k hk

theorem completed_eq_self_iff : completed t = t ↔ Complete t := by
  constructor
  · intro h
    rw [completed, closeLastLine] at h
    split at h
    · next hclosed =>
      rw [h] at hclosed
      exact ⟨pairReturns_eq_self_iff.mp h, hclosed⟩
    · have hlength := congrArg List.length h
      have hle := length_le_pairReturns t
      rw [List.length_append, List.length_singleton] at hlength
      omega
  · intro h
    rw [completed, pairReturns_eq_self_iff.mpr h.paired, closeLastLine, if_pos h.closed]

end Text

namespace Diff

open Text

variable {l rest : Text} {c : Char}

def endedLine (l : Text) : Text := if l.getLast? = some '\n' then l else l ++ ['\n']

theorem endedLines_eq (t : Text) : endedLines t = (splitLines t).map endedLine := rfl

theorem endedLine_concat (l : Text) (c : Char) :
    endedLine (l ++ [c]) = l ++ if c = '\n' then ['\n'] else [c, '\n'] := by
  rw [endedLine, List.getLast?_concat]
  by_cases hc : c = '\n'
  · rw [if_pos (congrArg some hc), if_pos hc, hc]
  · rw [if_neg (mt Option.some.inj hc), if_neg hc, List.append_assoc]
    rfl

theorem endedLines_of_unbroken (h : Unbroken l) (hne : l ≠ []) : endedLines l = [l ++ ['\n']] := by
  have hlast : l.getLast? ≠ some '\n' := fun hlast =>
    h.not_mem (by decide) (List.mem_of_getLast? hlast)
  rw [endedLines_eq, splitLines_of_unbroken h hne, List.map_singleton, endedLine, if_neg hlast]

theorem endedLines_pair (h : Unbroken l) (rest : Text) :
    endedLines (l ++ '\r' :: '\n' :: rest) = (l ++ ['\r', '\n']) :: endedLines rest := by
  have hline := endedLine_concat (l ++ ['\r']) '\n'
  rw [if_pos rfl, List.append_assoc] at hline
  rw [endedLines_eq, splitLines_pair h, List.map_cons, ← endedLines_eq]
  exact congrArg (· :: endedLines rest) hline

theorem endedLines_break (h : Unbroken l) (hc : isLineBreak c = true)
    (hpair : c = '\r' → rest.head? ≠ some '\n') : endedLines (l ++ c :: rest) =
      (l ++ if c = '\n' then ['\n'] else [c, '\n']) :: endedLines rest := by
  rw [endedLines_eq, splitLines_break h hc hpair, List.map_cons, endedLine_concat, ← endedLines_eq]

def Ended (line : Text) : Prop := ∃ l, '\n' ∉ l ∧ line = l ++ ['\n']

theorem ended_of_unbroken (h : Unbroken l) : Ended (l ++ ['\n']) := ⟨l, h.not_mem (by decide), rfl⟩

theorem ended_concat (h : Unbroken l) (hc : c ≠ '\n') : Ended (l ++ [c, '\n']) := by
  have hl : '\n' ∉ l := h.not_mem (by decide)
  refine ⟨l ++ [c], ?_, (List.append_assoc l [c] ['\n']).symm⟩
  simp [hl, Ne.symm hc]

theorem ended_of_mem_endedLines {t line : Text} (h : line ∈ endedLines t) : Ended line := by
  induction t using break_induction with
  | nil => contradiction
  | last l hl hne =>
    rw [endedLines_of_unbroken hl hne, List.mem_singleton] at h
    rw [h]
    exact ended_of_unbroken hl
  | pair l rest hl ih =>
    rw [endedLines_pair hl, List.mem_cons] at h
    rcases h with rfl | h
    · exact ended_concat hl (by decide)
    · exact ih h
  | single l rest hl hhead ih =>
    rw [endedLines_break hl (by decide) fun _ => hhead, List.mem_cons] at h
    rcases h with rfl | h
    · exact ended_concat hl (by decide)
    · exact ih h
  | other l c rest hl hc hreturn ih =>
    rw [endedLines_break hl hc fun h => absurd h hreturn, List.mem_cons] at h
    rcases h with rfl | h
    · split
      · exact ended_of_unbroken hl
      · next hnewline => exact ended_concat hl hnewline
    · exact ih h

theorem endedLines_completed (t : Text) : endedLines (completed t) = endedLines t := by
  induction t using break_induction with
  | nil => rfl
  | last l hl hne =>
    rw [completed_of_unbroken hl hne, endedLines_of_unbroken hl hne,
      endedLines_break hl (by decide) fun h => absurd h (by decide)]
    rfl
  | pair l rest hl ih => rw [completed_pair hl, endedLines_pair hl, endedLines_pair hl, ih]
  | single l rest hl hhead ih =>
    rw [completed_single hl hhead, endedLines_pair hl, ih,
      endedLines_break hl (by decide) fun _ => hhead]
    rfl
  | other l c rest hl hc hreturn ih =>
    have hpair {t : Text} (h : c = '\r') : t.head? ≠ some '\n' := absurd h hreturn
    rw [completed_break hl hc hreturn, endedLines_break hl hc hpair,
      endedLines_break hl hc hpair, ih]

/-- The line of the completed text that is compared as this one: a break in front of the newline has
ended the line before, unless it is a carriage return. -/
def reopened (line : Text) : Text :=
  if line.dropLast.getLast?.any fun c => isLineBreak c && c != '\r' then line.dropLast else line

theorem reopened_concat (l : Text) (c : Char) : reopened (l ++ [c, '\n']) =
    if isLineBreak c && c != '\r' then l ++ [c] else l ++ [c, '\n'] := by
  have hdrop : (l ++ [c, '\n']).dropLast = l ++ [c] := by
    rw [List.dropLast_append_cons, List.dropLast_cons_cons, List.dropLast_singleton]
  rw [reopened, hdrop, List.getLast?_concat, Option.any_some]

theorem reopened_of_unbroken (h : Unbroken l) : reopened (l ++ ['\n']) = l ++ ['\n'] := by
  cases hlast : l.getLast? with
  | none =>
    rw [List.getLast?_eq_none_iff.mp hlast]
    rfl
  | some c =>
    rw [reopened, List.dropLast_concat, hlast, Option.any_some,
      h c (List.mem_of_getLast? hlast)]
    rfl

theorem completed_eq_flatMap (t : Text) : completed t = (endedLines t).flatMap reopened := by
  induction t using break_induction with
  | nil => rfl
  | last l hl hne =>
    rw [completed_of_unbroken hl hne, endedLines_of_unbroken hl hne, List.flatMap_singleton,
      reopened_of_unbroken hl]
  | pair l rest hl ih =>
    rw [completed_pair hl, endedLines_pair hl, List.flatMap_cons, reopened_concat, ih,
      if_neg (by decide), List.append_assoc]
    rfl
  | single l rest hl hhead ih =>
    rw [completed_single hl hhead, endedLines_break hl (by decide) fun _ => hhead,
      List.flatMap_cons, if_neg (by decide), reopened_concat, ih, if_neg (by decide),
      List.append_assoc]
    rfl
  | other l c rest hl hc hreturn ih =>
    rw [completed_break hl hc hreturn, endedLines_break hl hc fun h => absurd h hreturn,
      List.flatMap_cons, ih]
    by_cases hnewline : c = '\n'
    · rw [if_pos hnewline, reopened_of_unbroken hl, hnewline, List.append_assoc]
      rfl
    · have hopens : (isLineBreak c && c != '\r') = true := by simp [hc, hreturn]
      rw [if_neg hnewline, reopened_concat, if_pos hopens, List.append_assoc]
      rfl

theorem endedLines_eq_iff {t u : Text} :
    endedLines t = endedLines u ↔ completed t = completed u := by
  constructor
  · intro h
    rw [completed_eq_flatMap, h, ← completed_eq_flatMap]
  · intro h
    rw [← endedLines_completed, h, endedLines_completed]

end Diff

end SourceEdit
