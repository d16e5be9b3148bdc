import SourceEdit.Proofs.IncludeForms
import SourceEdit.Proofs.IncludeLines

/-!
The directive of an include under the comment scan. Reached outside of comments and literals it is
shown whole and read back as the include; reached inside a block comment it is not shown. By itself
it is read back as well, with its keyword or without.
-/

set_option autoImplicit false

namespace SourceEdit

namespace Directive

theorem includeTarget?_delimiters {t : Text} {s : Span} (h : includeTarget? t = some s) :
    s.start + 2 ≤ s.stop ∧
      (∃ c, t[s.start]? = some c ∧ Include.isDelimiter c = true) ∧
      ∃ c, t[s.stop - 1]? = some c ∧ Include.isDelimiter c = true := by
  simp only [includeTarget?, Option.bind_eq_some_iff, Option.map_eq_some_iff] at h
  obtain ⟨rest, hrest, n, hn, rfl⟩ := h
  obtain ⟨before, ht⟩ := (skipSpaces_suffix rest).trans (behind?_suffix hrest)
  have hstart : t.length - (skipSpaces rest).length = before.length := by
    rw [← ht, List.length_append]; omega
  have htarget : ∃ first last body, skipSpaces rest = first :: body ∧
      closedLength? last body = some n ∧ Include.isDelimiter first = true ∧
      Include.isDelimiter last = true := by
    unfold targetLength? at hn
    split at hn
    · next body hb => exact ⟨_, '"', body, hb, hn, rfl, rfl⟩
    · next body hb => exact ⟨_, '>', body, hb, hn, rfl, rfl⟩
    · contradiction
  obtain ⟨first, last, body, hbody, hclosed, hfirst, hlast⟩ := htarget
  obtain ⟨htwo, hend⟩ : 2 ≤ n ∧ body[n - 2]? = some last := by
    obtain ⟨inner, behind, -, rfl, rfl⟩ := closedLength?_eq_some_iff.mp hclosed
    exact ⟨Nat.le_add_left 2 _, by simp⟩
  simp only [columns, hstart]
  refine ⟨by omega, ⟨first, ?_, hfirst⟩, last, ?_, hlast⟩
  · rw [← ht, hbody, List.getElem?_append_right (Nat.le_refl _), Nat.sub_self]; rfl
  · rw [← ht, hbody, List.getElem?_append_right (by omega)]
    have : before.length + n - 1 - before.length = (n - 2) + 1 := by omega
    rw [this, List.getElem?_cons_succ, hend]

end Directive

namespace Comment

theorem getElem?_scan {m : Markers} {mode : Mode} {line t : Text} {k : Nat} {c : Char}
    (h : (scan m mode line t)[k]? = some c) : t[k]? = some c ∨ c = ' ' := by
  induction t generalizing mode line k with
  | nil => simp [scan] at h
  | cons d rest ih =>
    rw [scan_cons] at h
    cases k with
    | zero =>
      rw [List.getElem?_cons_zero, Option.some.injEq] at h
      rcases step_shown m mode line d rest with hs | hs
      · left; rw [← h, hs]; rfl
      · right; rw [← h, hs.1]
    | succ k => exact ih h

theorem scan_block {a : Text} (ha : '*' ∉ a) (skip : Nat) (line b : Text) :
    scan {} (.block skip) line (a ++ b) =
      a.map blank ++ scan {} (.block (skip - a.length)) (a.foldl nextLine line) b := by
  induction a generalizing skip line with
  | nil => simp
  | cons c rest ih =>
    rw [List.mem_cons, not_or] at ha
    have hstep : step {} (.block skip) line c (rest ++ b) = (blank c, .block (skip - 1)) := by
      cases skip with
      | zero => simp [step, List.isPrefixOf, ha.1]
      | succ skip => rfl
    rw [List.cons_append, scan_cons, hstep, ih ha.2, List.map_cons, List.foldl_cons,
      List.length_cons, Nat.sub_sub, Nat.add_comm 1, List.cons_append]

theorem scan_literal {quote : Char} {a : Text} (hquote : quote ∉ a) (hnewline : '\n' ∉ a)
    (hbackslash : '\\' ∉ a) (hq : quote ≠ '\\') (line : Text) :
    scan {} (.literal quote false) line (a ++ [quote]) = a ++ [quote] ∧
      modeAfter {} (.literal quote false) line (a ++ [quote]) = .code := by
  induction a generalizing line with
  | nil => simp [scan_cons, modeAfter_cons, step, scan, modeAfter, hq]
  | cons c rest ih =>
    rw [List.mem_cons, not_or] at hquote hnewline hbackslash
    have hstep : step {} (.literal quote false) line c (rest ++ [quote]) =
        (c, .literal quote false) := by
      simp [step, Ne.symm hbackslash.1, Ne.symm hquote.1, Ne.symm hnewline.1]
    have ih := ih hquote.2 hnewline.2 hbackslash.2 (nextLine line c)
    rw [List.cons_append, scan_cons, modeAfter_cons, hstep, ih.1, ih.2]
    exact ⟨rfl, rfl⟩

end Comment

namespace Include

def keyword : Text := ['#', 'i', 'n', 'c', 'l', 'u', 'd', 'e', ' ']

theorem length_keyword : keyword.length = 9 := rfl

def directive (i : Include) : Text := keyword ++ i.target

theorem directive_eq (i : Include) :
    i.directive = keyword ++ opening i.quoting :: (i.name ++ [closing i.quoting]) := by
  rw [directive, target_eq]

theorem Sound.getElem?_directive {i : Include} (h : i.Sound) {k : Nat} {c : Char}
    (hk : i.directive[k]? = some c) (hc : isDelimiter c = true) :
    k = 9 ∨ k = 10 + i.name.length := by
  rw [directive_eq] at hk
  by_cases hword : k < 9
  · rw [List.getElem?_append_left hword] at hk
    have hmem := List.mem_of_getElem? hk
    have hnone : (keyword.all fun c => !isDelimiter c) = true := rfl
    have hc' := List.all_eq_true.mp hnone c hmem
    rw [hc] at hc'
    contradiction
  · by_cases hopen : k = 9
    · exact .inl hopen
    · right
      rw [List.getElem?_append_right (by rw [length_keyword]; omega)] at hk
      obtain ⟨j, hj⟩ : ∃ j, k = j + 10 := ⟨k - 10, by omega⟩
      subst hj
      have : j + 10 - keyword.length = j + 1 := by rw [length_keyword]; omega
      rw [this, List.getElem?_cons_succ] at hk
      by_cases hname : j < i.name.length
      · rw [List.getElem?_append_left hname] at hk
        rw [h.noDelimiter c (List.mem_of_getElem? hk)] at hc
        contradiction
      · rw [List.getElem?_append_right (by omega)] at hk
        have := (List.getElem?_eq_some_iff.mp hk).1
        simp only [List.length_cons, List.length_nil] at this
        omega

/-- Whether a scan from this mode shows the directive as an include line. -/
def ShownFrom (mode : Comment.Mode) (i : Include) : Prop :=
  (Directive.includeTarget? (Comment.scan {} mode [] i.directive)).isSome = true

instance (mode : Comment.Mode) (i : Include) : Decidable (i.ShownFrom mode) :=
  inferInstanceAs (Decidable (_ = true))

theorem Sound.includeTarget?_scan {i : Include} (h : i.Sound) {mode : Comment.Mode} {s : Span}
    (hs : Directive.includeTarget? (Comment.scan {} mode [] i.directive) = some s) :
    s = ⟨9, 11 + i.name.length⟩ ∧
      ∃ c, (Comment.scan {} mode [] i.directive)[9]? = some c ∧ isDelimiter c = true := by
  obtain ⟨hlength, ⟨c, hc, hcd⟩, d, hd, hdd⟩ := Directive.includeTarget?_delimiters hs
  have hplace : ∀ {k : Nat} {c : Char}, (Comment.scan {} mode [] i.directive)[k]? = some c →
      isDelimiter c = true → k = 9 ∨ k = 10 + i.name.length := by
    intro k c hk hc
    rcases Comment.getElem?_scan hk with hraw | rfl
    · exact h.getElem?_directive hraw hc
    · exact absurd hc (by decide)
  have hstart := hplace hc hcd
  have hstop := hplace hd hdd
  have hnine : s.start = 9 := by omega
  have hend : s.stop = 11 + i.name.length := by omega
  rw [hnine] at hc
  obtain ⟨start, stop⟩ := s
  exact ⟨by simp_all, c, hc, hcd⟩

theorem slice_directive (i : Include) :
    i.directive.slice 9 (11 + i.name.length) = i.target := by
  have hlength : i.directive.length = 11 + i.name.length := by
    simp [directive_eq, keyword]; omega
  rw [Text.slice, List.take_of_length_le (Nat.le_of_eq hlength), directive]
  exact List.drop_left' rfl

theorem Sound.includeOn?_scan {i : Include} (h : i.Sound) (mode : Comment.Mode) :
    Inventory.includeOn? i.directive (Comment.scan {} mode [] i.directive) =
      if i.ShownFrom mode then some i else none := by
  cases hs : Directive.includeTarget? (Comment.scan {} mode [] i.directive) with
  | none => simp [Inventory.includeOn?, ShownFrom, hs]
  | some s =>
    have hspan := (h.includeTarget?_scan hs).1
    simp [Inventory.includeOn?, ShownFrom, hs, hspan, slice_directive, h.parse?_target]

theorem scan_keyword (quoting : Quoting) (rest : Text) :
    Comment.scan {} .code [] (keyword ++ opening quoting :: rest) =
        keyword ++ opening quoting :: Comment.scan {} (.literal (closing quoting) false)
          (opening quoting :: keyword.reverse) rest ∧
      Comment.modeAfter {} .code [] (keyword ++ opening quoting :: rest) =
        Comment.modeAfter {} (.literal (closing quoting) false)
          (opening quoting :: keyword.reverse) rest := by
  cases quoting <;> exact ⟨rfl, rfl⟩

theorem Sound.closing_not_mem {i : Include} (h : i.Sound) : closing i.quoting ∉ i.name := by
  intro hmem
  have hdelimiter : isDelimiter (closing i.quoting) = true := by cases i.quoting <;> rfl
  rw [h.noDelimiter _ hmem] at hdelimiter
  contradiction

/-- Outside of comments and literals the scan shows the whole directive and is there again behind
it. -/
theorem Sound.scan_directive {i : Include} (h : i.Sound) :
    Comment.scan {} .code [] i.directive = i.directive ∧
      Comment.modeAfter {} .code [] i.directive = .code := by
  have hq : closing i.quoting ≠ '\\' := by cases i.quoting <;> decide
  have hliteral := Comment.scan_literal h.closing_not_mem h.noNewline h.noBackslash hq
    (opening i.quoting :: keyword.reverse)
  have hkeyword := scan_keyword i.quoting (i.name ++ [closing i.quoting])
  rw [directive_eq, hkeyword.1, hkeyword.2, hliteral.1, hliteral.2]
  exact ⟨rfl, rfl⟩

theorem behind?_keyword (quoting : Quoting) (rest : Text) :
    Directive.behind? Directive.includeKeyword (keyword ++ opening quoting :: rest) =
      some (' ' :: opening quoting :: rest) := by
  cases quoting <;> rfl

theorem skipSpaces_opening (quoting : Quoting) (rest : Text) :
    Directive.skipSpaces (' ' :: opening quoting :: rest) = opening quoting :: rest := by
  cases quoting <;> rfl

theorem targetLength?_opening (quoting : Quoting) (body : Text) :
    Directive.targetLength? (opening quoting :: body) =
      Directive.closedLength? (closing quoting) body := by
  cases quoting <;> rfl

theorem Sound.shownFrom_code {i : Include} (h : i.Sound) : i.ShownFrom .code := by
  have hclosed : Directive.closedLength? (closing i.quoting) (i.name ++ [closing i.quoting]) =
      some (i.name.length + 2) :=
    Directive.closedLength?_eq_some_iff.mpr ⟨i.name, [], h.closing_not_mem, rfl, rfl⟩
  rw [ShownFrom, h.scan_directive.1, directive_eq]
  simp [Directive.includeTarget?, behind?_keyword, skipSpaces_opening, targetLength?_opening,
    hclosed]

theorem Sound.not_shownFrom_block {i : Include} (h : i.Sound) (skip : Nat) :
    ¬i.ShownFrom (.block skip) := by
  intro hshown
  obtain ⟨s, hs⟩ := Option.isSome_iff_exists.mp hshown
  obtain ⟨-, c, hc, hcd⟩ := h.includeTarget?_scan hs
  have hstar : '*' ∉ keyword ++ [opening i.quoting] := by cases i.quoting <;> decide
  have hsplit : i.directive =
      (keyword ++ [opening i.quoting]) ++ (i.name ++ [closing i.quoting]) := by
    simp [directive_eq]
  have hblank : ∀ rest : Text,
      ((keyword ++ [opening i.quoting]).map Comment.blank ++ rest)[9]? = some ' ' := by
    intro rest
    cases i.quoting <;> rfl
  rw [hsplit, Comment.scan_block hstar, hblank] at hc
  obtain rfl := Option.some.inj hc
  exact absurd hcd (by decide)

theorem dropKeyword_directive (i : Include) : dropKeyword i.directive = i.target := by
  rw [directive, target_eq]
  cases i.quoting <;> rfl

theorem strip_directive (i : Include) : Text.strip i.directive = i.directive := by
  refine Text.strip_eq_self (fun c hc => ?_) (fun c hc => ?_)
  · obtain rfl := Option.some.inj hc
    decide
  · rw [directive_eq, ← List.cons_append, ← List.append_assoc, List.getLast?_concat] at hc
    obtain rfl := Option.some.inj hc
    cases i.quoting <;> decide

theorem Sound.parse?_directive {i : Include} (h : i.Sound) : parse? i.directive = some i := by
  rw [← h.parse?_target]
  simp only [parse?, strip_directive, dropKeyword_directive, strip_target, dropKeyword_target]

/-- Whatever an include was read from, it is read back from its target and from its directive. -/
theorem parse?_written_forms {t : Text} {i : Include} (h : parse? t = some i) :
    parse? i.target = some i ∧ parse? i.directive = some i := by
  have hsound := sound_of_parse h
  exact ⟨hsound.parse?_target, hsound.parse?_directive⟩

theorem parse?_written_forms_bare_name :
    let i : Include := ⟨"dir/foo.h".toList, .quoted⟩
    parse? "dir\\foo.h // x".toList = some i ∧ i.target = "\"dir/foo.h\"".toList ∧
      parse? "\"dir/foo.h\"".toList = some i ∧ parse? "#include \"dir/foo.h\"".toList = some i := by
  intro i
  have hread : parse? "dir\\foo.h // x".toList = some i := by decide
  obtain ⟨htarget, hdirective⟩ := parse?_written_forms hread
  exact ⟨hread, rfl, htarget, hdirective⟩

end Include

end SourceEdit
