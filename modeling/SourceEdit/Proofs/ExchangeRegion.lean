import Mathlib.Data.List.Basic
import SourceEdit.Document.DialogExchange
import SourceEdit.Proofs.LiteralSearch
import SourceEdit.Proofs.PatternWords

set_option autoImplicit false

namespace SourceEdit.DialogExchange

open Pattern (Reads)
open Text (point)

def IsBlank (t : Text) : Prop := ∀ c ∈ t, Text.isBlank c = true

instance (t : Text) : Decidable (IsBlank t) := List.decidableBAll _ t

/-- The head of the function, with these blanks between its parts. -/
def headText (className gap₁ gap₂ gap₃ : Text) : Text :=
  "void".toList ++ (gap₁ ++ (className ++ (gap₂ ++ ("::DoDataExchange".toList ++ (gap₃ ++ ['('])))))

def IsHead (className t : Text) : Prop :=
  ∃ gap₁ gap₂ gap₃, IsBlank gap₁ ∧ IsBlank gap₂ ∧ IsBlank gap₃ ∧
    t = headText className gap₁ gap₂ gap₃

theorem steps_blank : Pattern.Steps (.oneOf false [.blank false]) (·.pastChar? Text.isBlank) := by
  have hkind : (fun c => [ClassItem.blank false].any (·.holds c) != false) = Text.isBlank := by
    funext c
    simp [ClassItem.holds]
  exact hkind ▸ Pattern.steps_oneOf false _

theorem reads_blanks : Reads blanks IsBlank := Pattern.reads_many steps_blank

theorem reads_head (className : Text) : Reads (head className) (IsHead className) := by
  have h := (Pattern.reads_ofText "void".toList).seq <| reads_blanks.seq <|
    (Pattern.reads_ofText className).seq <| reads_blanks.seq <|
    (Pattern.reads_ofText "::DoDataExchange".toList).seq <| reads_blanks.seq <|
    Pattern.reads_char '('
  refine h.congr fun t => ⟨?_, ?_⟩
  · rintro ⟨_, _, rfl, ⟨g₁, _, h₁, ⟨_, _, rfl, ⟨g₂, _, h₂, ⟨_, _, rfl, ⟨g₃, _, h₃, rfl, rfl⟩, rfl⟩,
      rfl⟩, rfl⟩, rfl⟩, rfl⟩
    exact ⟨g₁, g₂, g₃, h₁, h₂, h₃, rfl⟩
  · rintro ⟨g₁, g₂, g₃, h₁, h₂, h₃, rfl⟩
    exact ⟨_, _, rfl, ⟨g₁, _, h₁, ⟨_, _, rfl, ⟨g₂, _, h₂, ⟨_, _, rfl, ⟨g₃, _, h₃, rfl, rfl⟩, rfl⟩,
      rfl⟩, rfl⟩, rfl⟩, rfl⟩

variable {className s s' r r' t t' front rest : Text} {m : Match}

theorem dropWhile_blanks {gap : Text} (h : IsBlank gap) (t : Text) :
    (gap ++ t).dropWhile Text.isBlank = t.dropWhile Text.isBlank := List.dropWhile_append_of_pos h

theorem dropWhile_behind (c : Text)
    (h : (c ++ t).dropWhile Text.isBlank = (c ++ t').dropWhile Text.isBlank) :
    t.dropWhile Text.isBlank = t'.dropWhile Text.isBlank := by
  rw [List.dropWhile_append, List.dropWhile_append] at h
  split at h
  · exact h
  · rw [List.append_cancel_left h]

theorem dropWhile_scope {gap : Text} (h : IsBlank gap) (t : Text) :
    (gap ++ ("::DoDataExchange".toList ++ t)).dropWhile Text.isBlank =
      "::DoDataExchange".toList ++ t := by
  rw [dropWhile_blanks h]
  rfl

theorem IsHead.unique (hs : IsHead className s) (hs' : IsHead className s')
    (h : s ++ r = s' ++ r') : s = s' := by
  obtain ⟨g₁, g₂, g₃, hg₁, hg₂, hg₃, rfl⟩ := hs
  obtain ⟨g₁', g₂', g₃', hg₁', hg₂', hg₃', rfl⟩ := hs'
  have hrest : r = r' := by
    simp only [headText, List.append_assoc, List.append_cancel_left_eq] at h
    have hname := congrArg (List.dropWhile Text.isBlank) h
    rw [dropWhile_blanks hg₁, dropWhile_blanks hg₁'] at hname
    have hscope := dropWhile_behind className hname
    rw [dropWhile_scope hg₂, dropWhile_scope hg₂'] at hscope
    have hopen := congrArg (List.dropWhile Text.isBlank) (List.append_cancel_left hscope)
    rw [dropWhile_blanks hg₃, dropWhile_blanks hg₃'] at hopen
    exact (List.cons.inj hopen).2
  exact List.append_cancel_right (hrest ▸ h)

theorem matchAt?_eq_some_iff {p : Point} : (head className).matchAt? p = some m ↔
    ∃ s, IsHead className s ∧ s <+: p.ahead ∧
      m = ⟨⟨p.offset, p.offset + s.length⟩, p.groups⟩ := by
  constructor
  · intro h
    obtain ⟨s, hs, hahead, hm⟩ := (reads_head className).sound h
    exact ⟨s, hs, hahead, (Option.some.inj hm).symm⟩
  · rintro ⟨s, hs, hahead, rfl⟩
    have hsome : (head className).matchAt? p ≠ none :=
      (reads_head className).complete hs hahead (Option.some_ne_none _)
    obtain ⟨m', hm'⟩ := Option.ne_none_iff_exists'.mp hsome
    obtain ⟨s', hs', hahead', hstop⟩ := (reads_head className).sound hm'
    obtain ⟨r, hr⟩ := hahead
    obtain ⟨r', hr'⟩ := hahead'
    obtain rfl := hs.unique hs' (hr.trans hr'.symm)
    rw [hm', ← hstop]
    rfl

/-- No head begins in the text in front. -/
def NoHeadIn (className front rest : Text) : Prop :=
  ∀ u v, front = u ++ v → v ≠ [] → ∀ s, IsHead className s → ¬s <+: v ++ rest

theorem noHeadIn_iff : NoHeadIn className front rest ↔
    ∀ k < front.length, (head className).matchAt? (point (front ++ rest) k) = none := by
  constructor
  · intro h k hk
    refine Option.eq_none_iff_forall_ne_some.mpr fun m hm => ?_
    obtain ⟨s, hs, hahead, -⟩ := matchAt?_eq_some_iff.mp hm
    have hdrop : (point (front ++ rest) k).ahead = front.drop k ++ rest :=
      List.drop_append_of_le_length (Nat.le_of_lt hk)
    rw [hdrop] at hahead
    exact h _ _ (List.take_append_drop k front).symm (by simpa using hk) s hs hahead
  · rintro h u v rfl hv s hs hahead
    have hk : u.length < (u ++ v).length := by simpa using List.length_pos_iff.mpr hv
    have hdrop : (point (u ++ v ++ rest) u.length).ahead = v ++ rest := by
      rw [List.append_assoc, Text.point_append]
    have hmatch := matchAt?_eq_some_iff.mpr ⟨s, hs, hdrop ▸ hahead, rfl⟩
    rw [h _ hk] at hmatch
    contradiction

theorem findSome?_range_eq_some_iff {f : Nat → Option Match} {n : Nat} :
    (List.range n).findSome? f = some m ↔ ∃ k < n, f k = some m ∧ ∀ j < k, f j = none := by
  induction n with
  | zero => simp
  | succ n ih =>
    rw [List.range_succ, List.findSome?_append, List.findSome?_singleton, Option.or_eq_some_iff, ih,
      List.findSome?_eq_none_iff]
    simp only [List.mem_range]
    constructor
    · rintro (⟨k, hk, h⟩ | ⟨hnone, h⟩)
      · exact ⟨k, Nat.lt_succ_of_lt hk, h⟩
      · exact ⟨n, Nat.lt_succ_self n, h, hnone⟩
    · rintro ⟨k, hk, h, hnone⟩
      rcases Nat.lt_succ_iff_lt_or_eq.mp hk with hk | rfl
      · exact .inl ⟨k, hk, h, hnone⟩
      · exact .inr ⟨hnone, h⟩

theorem first?_eq_some_iff : (head className).first? t 0 = some m ↔
    ∃ front s rest, t = front ++ (s ++ rest) ∧ IsHead className s ∧
      NoHeadIn className front (s ++ rest) ∧
      m = ⟨⟨front.length, front.length + s.length⟩, []⟩ := by
  rw [Pattern.first?_eq, findSome?_range_eq_some_iff]
  constructor
  · rintro ⟨k, hk, h, hnone⟩
    obtain ⟨s, hs, ⟨rest, hrest⟩, rfl⟩ := matchAt?_eq_some_iff.mp h
    have hlength : (t.take k).length = k := List.length_take_of_le (Nat.lt_succ_iff.mp hk)
    have hsplit : t.take k ++ (s ++ rest) = t := by
      rw [hrest]
      exact List.take_append_drop k t
    refine ⟨t.take k, s, rest, hsplit.symm, hs, noHeadIn_iff.mpr fun j hj => ?_, ?_⟩
    · rw [hsplit]
      exact hnone j (hlength ▸ hj)
    · rw [hlength]
      rfl
  · rintro ⟨front, s, rest, rfl, hs, hnone, rfl⟩
    refine ⟨front.length, ?_, matchAt?_eq_some_iff.mpr ⟨s, hs, ?_, rfl⟩, noHeadIn_iff.mp hnone⟩
    · rw [List.length_append]
      omega
    · rw [Text.point_append]
      exact List.prefix_append s rest

theorem exists_body {depth : Int} {n : Nat} (h : bodyLength? depth t = some n) :
    ∃ body rest, t = body ++ '}' :: rest ∧ n = body.length + 1 ∧
      ∀ behind, bodyLength? depth (body ++ '}' :: behind) = some (body.length + 1) := by
  induction t generalizing depth n with
  | nil => contradiction
  | cons c t ih =>
    rw [bodyLength?] at h
    by_cases hend : c = '}' ∧ depth = 1
    · obtain ⟨rfl, rfl⟩ := hend
      exact ⟨[], t, rfl, (Option.some.inj h).symm, fun behind => rfl⟩
    have hmore : ∃ depth', ∀ u, bodyLength? depth (c :: u) = (bodyLength? depth' u).map (· + 1) := by
      by_cases hopen : c = '{'
      · exact ⟨depth + 1, fun u => by rw [bodyLength?, if_pos hopen]⟩
      by_cases hclose : c = '}'
      · exact ⟨depth - 1, fun u => by
          rw [bodyLength?, if_neg hopen, if_pos hclose, if_neg fun hd => hend ⟨hclose, hd⟩]⟩
      · exact ⟨depth, fun u => by rw [bodyLength?, if_neg hopen, if_neg hclose]⟩
    obtain ⟨depth', hstep⟩ := hmore
    rw [← bodyLength?, hstep, Option.map_eq_some_iff] at h
    obtain ⟨n', hn', rfl⟩ := h
    obtain ⟨body, rest, rfl, rfl, hbody⟩ := ih hn'
    refine ⟨c :: body, rest, rfl, rfl, fun behind => ?_⟩
    rw [List.cons_append, hstep, hbody]
    rfl

variable {body : Text}

theorem head?_of_isHead (hs : IsHead className s) : ∃ t, s = 'v' :: t := by
  obtain ⟨g₁, g₂, g₃, -, -, -, rfl⟩ := hs
  exact ⟨_, rfl⟩

theorem length_lt_of_isHead (hs : IsHead className s) : className.length < s.length := by
  obtain ⟨g₁, g₂, g₃, -, -, -, rfl⟩ := hs
  simp only [headText, List.length_append, List.length_singleton]
  omega

theorem not_mem_of_isBlank {c : Char} (hc : Text.isBlank c = false) {gap : Text} (h : IsBlank gap) :
    c ∉ gap := by
  intro hin
  rw [h c hin] at hc
  contradiction

/-- A head that begins in front of another one ends in front of every brace behind that: the brace
would be in the class name, and so the other head, which is longer. -/
theorem no_head_over_head {v behind : Text} (hv : v ≠ []) (hs : IsHead className s)
    (h : IsHead className (v ++ (s ++ body) ++ '}' :: behind)) : False := by
  obtain ⟨g₁, g₂, g₃, hg₁, hg₂, hg₃, heq⟩ := h
  have hlength := length_lt_of_isHead hs
  obtain ⟨u, rfl⟩ := head?_of_isHead hs
  have hparts : v ++ ('v' :: u ++ body) ++ '}' :: behind =
      (("void".toList ++ g₁) ++ className) ++
        (g₂ ++ ("::DoDataExchange".toList ++ (g₃ ++ ['(']))) := by
    rw [heq, headText]
    simp only [List.append_assoc]
  rcases List.append_eq_append_iff.mp hparts with ⟨w, hname, -⟩ | ⟨w, -, hend⟩
  · have hsplit : ("void".toList ++ g₁) ++ className = v ++ ('v' :: u ++ body ++ w) := by
      rw [hname, List.append_assoc]
    rcases List.append_eq_append_iff.mp hsplit with ⟨x, -, hother⟩ | ⟨x, hgap, hother⟩
    · have hle := congrArg List.length hother
      simp only [List.length_append] at hle
      omega
    · cases x with
      | nil =>
        have hle := congrArg List.length hother
        simp only [List.length_append, List.length_nil] at hle
        omega
      | cons c x =>
        obtain rfl : 'v' = c := (List.cons.inj hother).1
        obtain ⟨d, v, rfl⟩ := List.exists_cons_of_ne_nil hv
        -- the first character of the outer head is in front of the other head
        have hinside : "oid".toList ++ g₁ = v ++ 'v' :: x := (List.cons.inj hgap).2
        have hin : 'v' ∈ "oid".toList ++ g₁ := by
          rw [hinside]
          exact List.mem_append_right v List.mem_cons_self
        rcases List.mem_append.mp hin with hin | hin
        · exact absurd hin (by decide)
        · exact not_mem_of_isBlank (by decide) hg₁ hin
  · have hin : '}' ∈ g₂ ++ ("::DoDataExchange".toList ++ (g₃ ++ ['('])) := by
      rw [hend]
      exact List.mem_append_right w List.mem_cons_self
    rw [List.mem_append, List.mem_append, List.mem_append] at hin
    rcases hin with hin | hin | hin | hin
    · exact not_mem_of_isBlank (by decide) hg₂ hin
    · exact absurd hin (by decide)
    · exact not_mem_of_isBlank (by decide) hg₃ hin
    · exact absurd hin (by decide)

theorem NoHeadIn.replace_behind (hs : IsHead className s)
    (h : NoHeadIn className front (s ++ (body ++ '}' :: rest))) (rest' : Text) :
    NoHeadIn className front (s ++ (body ++ '}' :: rest')) := by
  intro u v hfront hv other hother hahead
  have hbehind : ∀ behind : Text, v ++ (s ++ (body ++ '}' :: behind)) =
      (v ++ (s ++ body)) ++ '}' :: behind := by simp
  rw [hbehind] at hahead
  have hinside : ¬other <+: v ++ (s ++ body) := fun hprefix =>
    h u v hfront hv other hother (hbehind rest ▸ hprefix.trans (List.prefix_append _ _))
  obtain ⟨r, hr⟩ := hahead
  rcases List.append_eq_append_iff.mp hr with ⟨w, hw, -⟩ | ⟨w, hw, hend⟩
  · exact hinside ⟨w, hw.symm⟩
  · cases w with
    | nil => exact hinside ⟨[], by simp [hw]⟩
    | cons c w =>
      obtain rfl : '}' = c := (List.cons.inj hend).1
      exact no_head_over_head hv hs (hw ▸ hother)

theorem drop_behind_head (front s rest : Text) :
    (front ++ (s ++ rest)).drop (front.length + s.length) = rest := by
  rw [List.drop_length_add_append, List.drop_left]

theorem extract_eq (hs : IsHead className s)
    (hfront : NoHeadIn className front (s ++ (body ++ '}' :: rest)))
    (hbody : bodyLength? 0 (body ++ '}' :: rest) = some (body.length + 1)) :
    extract (front ++ (s ++ (body ++ '}' :: rest))) className = entries (s ++ (body ++ ['}'])) := by
  have hhead := first?_eq_some_iff.mpr ⟨front, s, body ++ '}' :: rest, rfl, hs, hfront, rfl⟩
  have hregion : region? (front ++ (s ++ (body ++ '}' :: rest))) className =
      some (s ++ (body ++ ['}'])) := by
    have hslice := Text.slice_middle front (s ++ (body ++ ['}'])) rest
    simp only [List.length_append, List.length_singleton, List.append_assoc,
      List.singleton_append] at hslice
    rw [region?, hhead, Option.bind_some, drop_behind_head, hbody, Option.map_some, ← hslice]
    simp only [Nat.add_assoc]
  rw [extract, hregion]

/-- Where the braces behind the first head come to be closed, the entries are those of the text from
the head to this brace: whatever is put behind the brace, and whatever is put in front of the head
without a head beginning in it, the same is read. -/
theorem extract_local {source className : Text} {m : Match} {n : Nat}
    (hhead : (head className).first? source 0 = some m)
    (hclosed : bodyLength? 0 (source.drop m.span.stop) = some n) :
    (∀ behind, extract (source.take (m.span.stop + n) ++ behind) className =
        extract source className) ∧
      ∀ front, (∀ k < front.length, (head className).matchAt?
          (point (front ++ source.drop m.span.start) k) = none) →
        extract (front ++ source.drop m.span.start) className = extract source className := by
  obtain ⟨front, s, behind, rfl, hs, hfront, rfl⟩ := first?_eq_some_iff.mp hhead
  dsimp only at hclosed ⊢
  rw [drop_behind_head] at hclosed
  obtain ⟨body, rest, rfl, rfl, hbody⟩ := exists_body hclosed
  rw [extract_eq hs hfront (hbody rest)]
  constructor
  · intro behind
    have hcut : (front ++ (s ++ (body ++ '}' :: rest))).take
        (front.length + s.length + (body.length + 1)) ++ behind =
          front ++ (s ++ (body ++ '}' :: behind)) := by
      have hregion : front ++ (s ++ (body ++ '}' :: rest)) =
          (front ++ (s ++ (body ++ ['}']))) ++ rest := by simp
      rw [hregion, List.take_left' (by simp [Nat.add_assoc])]
      simp
    rw [hcut, extract_eq hs (hfront.replace_behind hs behind) (hbody behind)]
  · intro front' hnone
    rw [List.drop_left] at hnone ⊢
    exact extract_eq hs (noHeadIn_iff.mpr hnone) (hbody rest)

def twoFunctions : Text :=
  "void C::DoDataExchange(p)\n\x7b DDX_T(p, I, m);\n\x7d\n".toList ++
    "void D::F()\n\x7b DDX_T(p, J, k);\n\x7d".toList

theorem extract_local_two_functions : ∃ m n,
    (head ['C']).first? twoFunctions 0 = some m ∧
      bodyLength? 0 (twoFunctions.drop m.span.stop) = some n ∧
      extract (twoFunctions.take (m.span.stop + n) ++ "; DDX_T(p, J, k);".toList) ['C'] =
        [(['I'], ['m'])] ∧
      extract ("DDX_T(p, J, k);\n".toList ++ twoFunctions.drop m.span.start) ['C'] =
        [(['I'], ['m'])] := by
  have hhead : (head ['C']).first? twoFunctions 0 = some ⟨⟨0, 23⟩, []⟩ := by decide +kernel
  have hclosed : bodyLength? 0 (twoFunctions.drop 23) = some 22 := by decide +kernel
  have hextract : extract twoFunctions ['C'] = [(['I'], ['m'])] := by decide +kernel
  obtain ⟨hbehind, hfront⟩ := extract_local hhead hclosed
  exact ⟨_, _, hhead, hclosed, (hbehind _).trans hextract,
    (hfront _ (by decide +kernel)).trans hextract⟩

end SourceEdit.DialogExchange
