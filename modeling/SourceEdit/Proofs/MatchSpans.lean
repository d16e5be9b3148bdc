import SourceEdit.Proofs.PatternSteps

/-!
Where matches lie. Whatever a pattern tries, it hands on a point that is not in front of the one it was
given, and a group that was closed on the way spans text between the two. So the groups of a match lie
inside the match, and each match begins where the one before has ended or behind it.
-/

set_option autoImplicit false

namespace SourceEdit

structure Span.Between (s : Span) (first last : Nat) : Prop where
  first_le : first ≤ s.start
  start_le : s.start ≤ s.stop
  stop_le : s.stop ≤ last

theorem Span.Between.mono {s : Span} {first last first' last' : Nat} (h : s.Between first last)
    (hfirst : first' ≤ first) (hlast : last ≤ last') : s.Between first' last' :=
  ⟨Nat.le_trans hfirst h.first_le, h.start_le, Nat.le_trans h.stop_le hlast⟩

namespace Point

/-- From one point on in the same text, with groups closed in between. -/
structure Reaches (p q : Point) : Prop where
  le : p.offset ≤ q.offset
  end_eq : q.offset + q.ahead.length = p.offset + p.ahead.length
  groups : ∀ g ∈ q.groups, g ∈ p.groups ∨ g.2.Between p.offset q.offset

namespace Reaches

variable {p q r : Point}

theorem refl (p : Point) : p.Reaches p := ⟨Nat.le_refl _, rfl, fun _ => .inl⟩

theorem trans (h : p.Reaches q) (h' : q.Reaches r) : p.Reaches r where
  le := Nat.le_trans h.le h'.le
  end_eq := h'.end_eq.trans h.end_eq
  groups g hg := by
    rcases h'.groups g hg with hg | hg
    · exact (h.groups g hg).imp_right fun hg => hg.mono (Nat.le_refl _) h'.le
    · exact .inr (hg.mono h.le (Nat.le_refl _))

theorem advance (p : Point) {n : Nat} (hn : n ≤ p.ahead.length) : p.Reaches (p.advance n) where
  le := Nat.le_add_right _ _
  end_eq := by
    simp only [Point.advance, List.length_drop]
    omega
  groups _ := .inl

theorem pastChar? {kind : Char → Bool} (h : p.pastChar? kind = some q) : p.Reaches q := by
  rw [pastChar?_eq] at h
  split at h
  · next hnext =>
    obtain rfl := Option.some.inj h
    refine advance p ?_
    cases hahead : p.ahead with
    | nil => simp [hahead] at hnext
    | cons c rest => simp
  · contradiction

theorem past? {t : Text} (h : p.past? t = some q) : p.Reaches q := by
  rw [past?_eq] at h
  split at h
  · next hstarts =>
    obtain rfl := Option.some.inj h
    exact advance p hstarts.length_le
  · contradiction

theorem close (h : p.Reaches q) (index : Nat) : p.Reaches (q.close index p.offset) where
  le := h.le
  end_eq := h.end_eq
  groups g hg := by
    rcases List.mem_cons.mp hg with rfl | hg
    · exact .inr ⟨Nat.le_refl _, h.le, Nat.le_refl _⟩
    · exact h.groups g hg

end Reaches

end Point

namespace Pattern

theorem eq_some_of_orElse {α : Type} {x y : Option α} {a : α} (h : (x <|> y) = some a) :
    x = some a ∨ y = some a := by
  cases x with
  | none => exact .inr h
  | some b => exact .inl h

/-- What is tried behind the rounds is tried at a point that was reached. -/
theorem rounds_reaches {α : Type} {greedy : Bool} {least : Nat} {most : Option Nat}
    {body : (Point → Option α) → Point → Option α}
    (hbody : ∀ {k : Point → Option α} {p : Point} {a : α}, body k p = some a →
      ∃ q, p.Reaches q ∧ k q = some a)
    {k : Point → Option α} {fuel count : Nat} {last : Option Nat} {p : Point} {a : α}
    (h : rounds greedy least most body k fuel count last p = some a) :
    ∃ q, p.Reaches q ∧ k q = some a := by
  induction fuel generalizing count last p with
  | zero => contradiction
  | succ fuel ih =>
    have hround : ∀ {count last}, body (rounds greedy least most body k fuel count last) p =
        some a → ∃ q, p.Reaches q ∧ k q = some a := by
      intro count last h
      obtain ⟨q, hq, h⟩ := hbody h
      obtain ⟨q', hq', h⟩ := ih h
      exact ⟨q', hq.trans hq', h⟩
    have hmore : (if most.all (count < ·) && last != some p.offset then
        body (rounds greedy least most body k fuel (count + 1) (some p.offset)) p else none) =
          some a → ∃ q, p.Reaches q ∧ k q = some a := by
      intro h
      split at h
      · exact hround h
      · contradiction
    rw [rounds] at h
    split at h
    · exact hround h
    · dsimp only at h
      split at h
      · rcases eq_some_of_orElse h with h | h
        · exact hmore h
        · exact ⟨p, .refl p, h⟩
      · rcases eq_some_of_orElse h with h | h
        · exact ⟨p, .refl p, h⟩
        · exact hmore h

theorem run_reaches (pattern : Pattern) {α : Type} {k : Point → Option α} {p : Point} {a : α}
    (h : pattern.run k p = some a) : ∃ q, p.Reaches q ∧ k q = some a := by
  induction pattern generalizing α k p a with
  | empty => exact ⟨p, .refl p, h⟩
  | char c =>
    obtain ⟨q, hq, h⟩ := Option.bind_eq_some_iff.mp h
    exact ⟨q, .pastChar? hq, h⟩
  | any =>
    obtain ⟨q, hq, h⟩ := Option.bind_eq_some_iff.mp h
    exact ⟨q, .pastChar? hq, h⟩
  | oneOf negated items =>
    obtain ⟨q, hq, h⟩ := Option.bind_eq_some_iff.mp h
    exact ⟨q, .pastChar? hq, h⟩
  | assert assertion =>
    rw [run] at h
    split at h
    · exact ⟨p, .refl p, h⟩
    · contradiction
  | again index =>
    obtain ⟨q, hq, h⟩ := Option.bind_eq_some_iff.mp h
    obtain ⟨t, -, hq⟩ := Option.bind_eq_some_iff.mp hq
    exact ⟨q, .past? hq, h⟩
  | group index body ih =>
    obtain ⟨q, hq, h⟩ := ih h
    exact ⟨q.close index p.offset, hq.close index, h⟩
  | seq first second ihFirst ihSecond =>
    obtain ⟨q, hq, h⟩ := ihFirst h
    obtain ⟨q', hq', h⟩ := ihSecond h
    exact ⟨q', hq.trans hq', h⟩
  | alt first second ihFirst ihSecond =>
    rcases eq_some_of_orElse h with h | h
    · exact ihFirst h
    · exact ihSecond h
  | times greedy least most body ih => exact rounds_reaches ih h
  | atomic body ih =>
    obtain ⟨q, hq, h⟩ := Option.bind_eq_some_iff.mp h
    obtain ⟨q', hq', heq⟩ := ih hq
    obtain rfl := Option.some.inj heq
    exact ⟨q', hq', h⟩

end Pattern

/-- The match begins and ends in this stretch of the text, and its groups lie inside it. -/
structure Match.Within (m : Match) (first last : Nat) : Prop where
  span : m.span.Between first last
  groups : ∀ g ∈ m.groups, g.2.Between m.span.start m.span.stop

theorem Match.Within.mono {m : Match} {first last first' last' : Nat} (h : m.Within first last)
    (hfirst : first' ≤ first) (hlast : last ≤ last') : m.Within first' last' :=
  ⟨h.span.mono hfirst hlast, h.groups⟩

def Match.Before (m n : Match) : Prop := m.span.stop ≤ n.span.start

namespace Pattern

variable {pattern : Pattern} {p : Point} {m : Match}

theorem within_of_reaches {q : Point} (hgroups : p.groups = []) (h : p.Reaches q) :
    Match.Within ⟨⟨p.offset, q.offset⟩, q.groups⟩ p.offset (p.offset + p.ahead.length) where
  span := ⟨Nat.le_refl _, h.le, by have := h.end_eq; dsimp only; omega⟩
  groups g hg := (h.groups g hg).resolve_left (by simp [hgroups])

theorem within_of_matchAt? (hgroups : p.groups = []) (h : pattern.matchAt? p = some m) :
    m.span.start = p.offset ∧ m.Within p.offset (p.offset + p.ahead.length) := by
  obtain ⟨q, hq, hm⟩ := run_reaches pattern h
  obtain rfl := Option.some.inj hm
  exact ⟨rfl, within_of_reaches hgroups hq⟩

theorem within_of_nonemptyMatchAt? (hgroups : p.groups = [])
    (h : pattern.nonemptyMatchAt? p = some m) :
    m.span.start = p.offset ∧ m.Within p.offset (p.offset + p.ahead.length) := by
  obtain ⟨q, hq, hm⟩ := run_reaches pattern h
  split at hm
  · contradiction
  · obtain rfl := Option.some.inj hm
    exact ⟨rfl, within_of_reaches hgroups hq⟩

theorem within_of_mem_matchesAt (hgroups : p.groups = []) (h : m ∈ pattern.matchesAt p) :
    m.Within p.offset (p.offset + p.ahead.length) := by
  rw [matchesAt] at h
  split at h
  · contradiction
  · next n hn =>
    have hfirst := (within_of_matchAt? hgroups hn).2
    split at h
    · rcases List.mem_cons.mp h with rfl | h
      · exact hfirst
      · exact (within_of_nonemptyMatchAt? hgroups (Option.mem_toList.mp h)).2
    · rw [List.mem_singleton.mp h]
      exact hfirst

theorem pairwise_matchesAt (hgroups : p.groups = []) :
    (pattern.matchesAt p).Pairwise Match.Before := by
  rw [matchesAt]
  split
  · exact .nil
  · next n hn =>
    split
    · next hempty =>
      refine List.pairwise_cons.mpr ⟨fun m hm => ?_, ?_⟩
      · have hstart := (within_of_nonemptyMatchAt? hgroups (Option.mem_toList.mp hm)).1
        exact Nat.le_of_eq (hempty.trans hstart.symm)
      · cases pattern.nonemptyMatchAt? p with
        | none => exact .nil
        | some m => exact List.pairwise_singleton _ _
    · exact List.pairwise_singleton _ _

/-- Where the search goes on behind the matches at a point. -/
def resumeBehind (here : List Match) (resume : Nat) : Nat :=
  (here.getLast?.map (·.span.stop)).getD resume

theorem stop_le_resumeBehind {here : List Match} (hbefore : here.Pairwise Match.Before)
    (hspan : ∀ m ∈ here, m.span.start ≤ m.span.stop) (resume : Nat) (hm : m ∈ here) :
    m.span.stop ≤ resumeBehind here resume := by
  rcases List.eq_nil_or_concat here with rfl | ⟨front, n, hhere⟩
  · contradiction
  rw [List.concat_eq_append] at hhere
  subst hhere
  rw [resumeBehind, List.getLast?_concat, Option.map_some, Option.getD_some]
  rcases List.mem_append.mp hm with hfront | hlast
  · have hmn : m.Before n := (List.pairwise_append.mp hbefore).2.2 m hfront n List.mem_cons_self
    exact Nat.le_trans hmn (hspan n (by simp))
  · obtain rfl := List.mem_singleton.mp hlast
    exact Nat.le_refl _

def matchesHere (pattern : Pattern) (resume : Nat) (p : Point) : List Match :=
  if resume ≤ p.offset then pattern.matchesAt p else []

theorem matchesFrom_cons (pattern : Pattern) (resume : Nat) (before : Text) (offset : Nat)
    (c : Char) (rest : Text) :
    pattern.matchesFrom resume before offset (c :: rest) =
      pattern.matchesHere resume ⟨before, c :: rest, offset, []⟩ ++
        pattern.matchesFrom
          (resumeBehind (pattern.matchesHere resume ⟨before, c :: rest, offset, []⟩) resume)
          (c :: before) (offset + 1) rest := rfl

theorem resume_le_of_mem_matchesHere {resume : Nat} (hgroups : p.groups = [])
    (h : m ∈ pattern.matchesHere resume p) :
    resume ≤ m.span.start ∧ m.Within p.offset (p.offset + p.ahead.length) := by
  rw [matchesHere] at h
  split at h
  · next hresume =>
    have hm := within_of_mem_matchesAt hgroups h
    exact ⟨Nat.le_trans hresume hm.span.first_le, hm⟩
  · contradiction

theorem pairwise_matchesHere (resume : Nat) (hgroups : p.groups = []) :
    (pattern.matchesHere resume p).Pairwise Match.Before := by
  rw [matchesHere]
  split
  · exact pairwise_matchesAt hgroups
  · exact .nil

theorem resume_le_resumeBehind {resume : Nat} (hgroups : p.groups = []) :
    resume ≤ resumeBehind (pattern.matchesHere resume p) resume := by
  cases hlast : (pattern.matchesHere resume p).getLast? with
  | none => simp [resumeBehind, hlast]
  | some m =>
    obtain ⟨hresume, hm⟩ := resume_le_of_mem_matchesHere hgroups (List.mem_of_getLast? hlast)
    simp only [resumeBehind, hlast, Option.map_some, Option.getD_some]
    exact Nat.le_trans hresume hm.span.start_le

theorem within_of_mem_matchesFrom {resume offset : Nat} {before t : Text}
    (h : m ∈ pattern.matchesFrom resume before offset t) :
    resume ≤ m.span.start ∧ m.Within offset (offset + t.length) := by
  induction t generalizing resume before offset with
  | nil =>
    exact resume_le_of_mem_matchesHere (p := ⟨before, [], offset, []⟩) rfl h
  | cons c rest ih =>
    rw [matchesFrom_cons, List.mem_append] at h
    rcases h with h | h
    · exact resume_le_of_mem_matchesHere (p := ⟨before, c :: rest, offset, []⟩) rfl h
    · obtain ⟨hresume, hm⟩ := ih h
      refine ⟨Nat.le_trans (resume_le_resumeBehind rfl) hresume, hm.mono (Nat.le_succ _) ?_⟩
      rw [List.length_cons]
      omega

theorem pairwise_matchesFrom (resume : Nat) (before : Text) (offset : Nat) (t : Text) :
    (pattern.matchesFrom resume before offset t).Pairwise Match.Before := by
  induction t generalizing resume before offset with
  | nil => exact pairwise_matchesHere (p := ⟨before, [], offset, []⟩) resume rfl
  | cons c rest ih =>
    have hhere : (pattern.matchesHere resume ⟨before, c :: rest, offset, []⟩).Pairwise
        Match.Before := pairwise_matchesHere resume rfl
    rw [matchesFrom_cons, List.pairwise_append]
    refine ⟨hhere, ih _ _ _, fun m hm n hn => ?_⟩
    -- the search goes on behind the last match, and none of the others ends behind that
    have hstop := stop_le_resumeBehind hhere
      (fun m hm => (resume_le_of_mem_matchesHere rfl hm).2.span.start_le) resume hm
    exact Nat.le_trans hstop (within_of_mem_matchesFrom hn).1

theorem within_of_mem_allMatches {t : Text} (h : m ∈ pattern.allMatches t) :
    m.Within 0 t.length := by
  simpa using (within_of_mem_matchesFrom h).2

theorem pairwise_allMatches (pattern : Pattern) (t : Text) :
    (pattern.allMatches t).Pairwise Match.Before :=
  pairwise_matchesFrom 0 [] 0 t

end Pattern

end SourceEdit
