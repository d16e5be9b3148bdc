import SourceEdit.Proofs.CounterpartKinds

set_option autoImplicit false

namespace SourceEdit

namespace Text

/-- The two small sigmas are one letter. -/
def unfinal (c : Char) : Char := if c = 'ς' then 'σ' else c

/-- A text as it is compared when case does not matter. -/
def caseless (t : Text) : Text := (lower t).map unfinal

theorem caseless_eq_flatMap (t : Text) :
    caseless t = t.flatMap fun c => (lowerChar c).map unfinal := by
  have hfrom : ∀ before, (lowerFrom before t).map unfinal =
      t.flatMap fun c => (lowerChar c).map unfinal := by
    induction t with
    | nil => exact fun _ => rfl
    | cons c rest ih =>
      intro before
      rw [lowerFrom, List.map_append, ih, List.flatMap_cons]
      split
      · next hsigma =>
        subst hsigma
        have hsmall : (lowerChar 'Σ').map unfinal = ['σ'] := by decide +kernel
        rw [hsmall]
        split <;> rfl
      · rfl
  exact hfrom []

theorem caseless_append (s t : Text) : caseless (s ++ t) = caseless s ++ caseless t := by
  simp only [caseless_eq_flatMap, List.flatMap_append]

theorem LowersTo.unfinal {c : Char} {piece : Text} (h : LowersTo c piece) :
    LowersTo c (piece.map unfinal) where
  filled := by simpa using h.filled
  mark k hk hmark := by
    obtain ⟨d, hd, rfl⟩ := List.mem_map.mp hk
    by_cases hfinal : d = 'ς'
    · rw [hfinal] at hmark
      exact absurd hmark (by decide)
    · rw [Text.unfinal, if_neg hfinal] at hmark ⊢
      exact h.mark d hd hmark
  ofMark hmark := by
    rw [h.ofMark hmark, List.map_singleton, Text.unfinal, if_neg]
    rintro rfl
    exact absurd hmark (by decide)
  head := by
    rw [← h.head, List.head?_map]
    cases piece.head? with
    | none => simp
    | some d => by_cases hfinal : d = 'ς' <;> simp [Text.unfinal, hfinal]

theorem lowered_caseless (t : Text) : Lowered t (caseless t) := by
  rw [caseless_eq_flatMap]
  induction t with
  | nil => exact .nil
  | cons c rest ih => exact .cons (lowersTo_lowerChar c).unfinal ih

theorem caseless_append_mark {k : Char} (hk : IsMark k) (a b : Text) :
    caseless (a ++ k :: b) = caseless a ++ k :: caseless b := by
  rw [caseless_append, caseless_eq_flatMap (k :: b), List.flatMap_cons, ← caseless_eq_flatMap,
    (lowersTo_lowerChar k).unfinal.ofMark hk]
  rfl

theorem mark_mem_caseless_iff {k : Char} (hk : IsMark k) {t : Text} : k ∈ caseless t ↔ k ∈ t :=
  (lowered_caseless t).mem_mark_iff hk

theorem exists_cut_of_suffix {base s t : Text} (hdot : '.' ∉ s)
    (h : caseless (base ++ '.' :: s) <:+ caseless t) : ∃ a b u, t = a ++ '.' :: b ∧ '.' ∉ b ∧
      caseless b = caseless s ∧ caseless a = u ++ caseless base := by
  obtain ⟨u, hu⟩ := h
  rw [caseless_append_mark (.inl rfl), ← List.append_assoc] at hu
  have hmem : '.' ∈ t := by
    rw [← mark_mem_caseless_iff (.inl rfl), ← hu]
    simp
  obtain ⟨a, b, rfl, hb⟩ := exists_last_of_mem hmem
  rw [caseless_append_mark (.inl rfl)] at hu
  obtain ⟨ha, hbs⟩ := last_split_unique ((mark_mem_caseless_iff (.inl rfl)).not.mpr hdot)
    ((mark_mem_caseless_iff (.inl rfl)).not.mpr hb) hu
  exact ⟨a, b, u, rfl, hb, hbs.symm, ha.symm⟩

theorem exists_ne_dot_caseless_iff {s t : Text} (h : caseless s = caseless t) :
    (∃ c ∈ s, c ≠ '.') ↔ ∃ c ∈ t, c ≠ '.' := by
  rw [← (lowered_caseless s).exists_ne_dot_iff, h, (lowered_caseless t).exists_ne_dot_iff]

end Text

open Text (caseless caseless_append_mark mark_mem_caseless_iff)

namespace Path

theorem caseless_baseName (p : Path) : caseless (baseName p) = baseName (caseless p) := by
  have hslash {t : Text} : '/' ∈ caseless t ↔ '/' ∈ t := mark_mem_caseless_iff (.inr rfl)
  by_cases hmem : '/' ∈ p
  · obtain ⟨a, b, rfl, hb⟩ := Text.exists_last_of_mem hmem
    rw [caseless_append_mark (.inr rfl), baseName_append_slash a hb,
      baseName_append_slash _ (hslash.not.mpr hb)]
  · rw [baseName_eq_self hmem, baseName_eq_self (hslash.not.mpr hmem)]

theorem baseName_join (dir : Path) {name : Text} (h : '/' ∉ name) :
    baseName (join dir name) = name := by
  unfold join
  split
  · exact baseName_eq_self h
  · split
    · next hdir =>
      rw [baseName_append dir h]
      rcases Bool.or_eq_true_iff.mp hdir with hempty | hlast
      · rw [List.isEmpty_iff.mp hempty]
        rfl
      · obtain ⟨front, rfl⟩ := List.getLast?_eq_some_iff.mp (of_decide_eq_true hlast)
        rw [baseName_append_slash front (b := []) (by simp), List.nil_append]
    · exact baseName_append_slash dir h

theorem stem_append_dot {a : Path} {s : Text} (hdot : '.' ∉ s) (hslash : '/' ∉ s)
    (hname : ∃ c ∈ baseName a, c ≠ '.') : stem (a ++ '.' :: s) = baseName a := by
  rw [stem, splitBase?_append_dot hdot hslash hname]
  rfl

theorem stem_append_dot_of_dots {a : Path} {s : Text} (hdot : '.' ∉ s) (hslash : '/' ∉ s)
    (hname : ¬∃ c ∈ baseName a, c ≠ '.') : stem (a ++ '.' :: s) = baseName a ++ '.' :: s := by
  have hbase : baseName (a ++ '.' :: s) = baseName a ++ '.' :: s :=
    baseName_append a (by simpa using hslash)
  have hall : (baseName a ++ ['.']).all (· = '.') = true := by
    push Not at hname
    simpa using hname
  rw [stem, splitBase?, hbase,
    Text.dropEndWhile_append_cons _ (by decide) (Text.forall_ne_of_not_mem hdot), if_pos hall]
  rfl

end Path

namespace Counterpart

variable {settings : Settings} {p q : Path}

/-- A base name that is a candidate, up to case. -/
def IsCandidate (settings : Settings) (p : Path) (name : Text) : Prop :=
  ∃ n ∈ candidates settings p, caseless name = caseless n

theorem caseless_suffix_baseName (hplain : PlainSuffixes settings) {n : Text}
    (hn : n ∈ candidates settings p) (hends : caseless n <:+ caseless q) :
    caseless n <:+ caseless (Path.baseName q) := by
  obtain ⟨u, hu⟩ := hends
  have hslash : '/' ∉ caseless n :=
    (mark_mem_caseless_iff (.inr rfl)).not.mpr (slash_not_mem_of_mem_candidates hplain hn)
  rw [Path.caseless_baseName, ← hu, Path.baseName_append u hslash]
  exact List.suffix_append ..

theorem isCandidate_append_dot_iff (hplain : PlainSuffixes settings) {a s t : Text}
    (hs : Path.stem p ++ '.' :: s ∈ candidates settings p) (hdot : '.' ∉ t)
    (hts : caseless t = caseless s) :
    IsCandidate settings p (a ++ '.' :: t) ↔ caseless a = caseless (Path.stem p) := by
  have hnodot {t : Text} (h : '.' ∉ t) : '.' ∉ caseless t :=
    (mark_mem_caseless_iff (.inl rfl)).not.mpr h
  constructor
  · rintro ⟨n, hn, heq⟩
    obtain ⟨s', rfl, hdot', -, -⟩ := exists_of_mem_candidates hplain hn
    rw [caseless_append_mark (.inl rfl), caseless_append_mark (.inl rfl)] at heq
    exact (Text.last_split_unique (hnodot hdot) (hnodot hdot') heq).1
  · intro heq
    refine ⟨_, hs, ?_⟩
    rw [caseless_append_mark (.inl rfl), caseless_append_mark (.inl rfl), heq, hts]

/-- A path that ends in a candidate, up to case, has the stem of the file exactly if its base name
is no longer than a candidate and the stem is more than dots. -/
theorem caseless_stem_eq_iff (hplain : PlainSuffixes settings) {n : Text}
    (hn : n ∈ candidates settings p) (hends : caseless n <:+ caseless q) :
    caseless (Path.stem q) = caseless (Path.stem p) ↔
      IsNamed p ∧ IsCandidate settings p (Path.baseName q) := by
  have hslash {t : Text} : '/' ∈ caseless t ↔ '/' ∈ t := mark_mem_caseless_iff (.inr rfl)
  obtain ⟨s, rfl, hsdot, hsslash, -⟩ := exists_of_mem_candidates hplain hn
  obtain ⟨a, t, u, rfl, htdot, hts, ha⟩ := Text.exists_cut_of_suffix hsdot hends
  have htslash : '/' ∉ t := by rwa [← hslash, hts, hslash]
  have hbase : Path.baseName (a ++ '.' :: t) = Path.baseName a ++ '.' :: t :=
    Path.baseName_append a (by simpa using htslash)
  rw [hbase, isCandidate_append_dot_iff hplain hn htdot hts]
  by_cases hname : ∃ c ∈ Path.baseName a, c ≠ '.'
  · rw [Path.stem_append_dot htdot htslash hname]
    exact ⟨fun heq => ⟨(Text.exists_ne_dot_caseless_iff heq).mp hname, heq⟩, And.right⟩
  · rw [Path.stem_append_dot_of_dots htdot htslash hname]
    refine iff_of_false (fun heq => ?_) fun ⟨hnamed, heq⟩ =>
      hname ((Text.exists_ne_dot_caseless_iff heq).mpr hnamed)
    have hlonger : caseless (Path.baseName a) =
        Path.baseName u ++ caseless (Path.stem p) := by
      rw [Path.caseless_baseName, ha,
        Path.baseName_append u (hslash.not.mpr (Path.slash_not_mem_stem p))]
    have hlength := congrArg List.length heq
    rw [caseless_append_mark (.inl rfl), hlonger] at hlength
    simp only [List.length_append, List.length_cons] at hlength
    omega

theorem caseless_suffix_of_search? {fs : FileSystem} {index : List Text → List Path}
    (h : search? fs settings index p = some q) :
    ∃ n ∈ candidates settings p, caseless n <:+ caseless q := by
  unfold search? at h
  dsimp only at h
  split at h
  · next r hsibling =>
    obtain rfl := Option.some.inj h
    obtain ⟨n, hn, rfl⟩ := List.mem_map.mp (List.mem_of_find?_eq_some hsibling)
    obtain ⟨front, hjoin⟩ := Path.exists_join_eq (Path.dirName p) n
    rw [hjoin, Text.caseless_append]
    exact ⟨n, hn, List.suffix_append ..⟩
  · rcases closest_mem h with hnone | hmem
    · contradiction
    · obtain ⟨n, hn, hends⟩ := List.any_eq_true.mp (List.mem_filter.mp hmem).2
      exact ⟨n, hn, (List.isSuffixOf_iff_suffix.mp hends).map Text.unfinal⟩

theorem baseName_of_sibling? (hplain : PlainSuffixes settings) {fs : FileSystem}
    (h : sibling? fs p (candidates settings p) = some q) :
    Path.baseName q ∈ candidates settings p := by
  obtain ⟨n, hn, rfl⟩ := List.mem_map.mp (List.mem_of_find?_eq_some h)
  rwa [Path.baseName_join _ (slash_not_mem_of_mem_candidates hplain hn)]

/-- For all trees, indexes and settings with suffixes that have neither dots nor slashes: what is
found for a file that is not in the cache ends, up to case, in a candidate, and beside the file it
is one. It has the stem of the file, up to case, exactly if nothing stands in front of the candidate
in its base name and the file's own stem is more than dots. -/
theorem resolve_same_stem_iff (hplain : PlainSuffixes settings) {fs : FileSystem}
    {index : List Text → List Path} {c : CounterpartCache}
    (huncached : Uncached c (Path.absolute fs.workDir p))
    (hanswer : (resolve fs settings index c p).2 = some q) :
    let file := Path.absolute fs.workDir p
    (∃ n ∈ candidates settings file, caseless n <:+ caseless (Path.baseName q)) ∧
      (sibling? fs file (candidates settings file) = some q →
        Path.baseName q ∈ candidates settings file) ∧
      (caseless (Path.stem q) = caseless (Path.stem file) ↔
        IsNamed file ∧ IsCandidate settings file (Path.baseName q)) := by
  intro file
  rw [resolve_of_uncached huncached] at hanswer
  obtain ⟨n, hn, hends⟩ := caseless_suffix_of_search? hanswer
  exact ⟨⟨n, hn, caseless_suffix_baseName hplain hn hends⟩, baseName_of_sibling? hplain,
    caseless_stem_eq_iff hplain hn hends⟩

theorem resolve_same_stem_shouted :
    let fs : FileSystem := ⟨[], ['/'], ['/']⟩
    let source := ['/', 'a', '/', 'm', '.', 'x', '.', 'c']
    let header := ['/', 'b', '/', 'M', '.', 'X', '.', 'H']
    PlainSuffixes .standard ∧ Uncached .empty (Path.absolute fs.workDir source) ∧
      (resolve fs .standard (fun _ => [header]) .empty source).2 = some header ∧
      caseless (Path.stem header) = caseless (Path.stem source) := by
  intro fs source header
  have huncached : Uncached .empty (Path.absolute fs.workDir source) := rfl
  have hanswer : (resolve fs .standard (fun _ => [header]) .empty source).2 = some header := by
    simp only [resolve, search?, candidates, Settings.oppositeSuffixes_standard]
    decide +kernel
  have hfile : Path.absolute fs.workDir source = source := by decide +kernel
  have hfirst : (candidates .standard source).head? = some ['m', '.', 'x', '.', 'h'] := by
    rw [candidates, Settings.oppositeSuffixes_standard]
    decide +kernel
  obtain ⟨-, -, hsame⟩ := resolve_same_stem_iff plainSuffixes_standard huncached hanswer
  rw [hfile] at hsame
  exact ⟨plainSuffixes_standard, huncached, hanswer,
    hsame.mpr ⟨⟨'m', by decide, by decide⟩, _, List.mem_of_head? hfirst, by decide +kernel⟩⟩

theorem resolve_longer_name :
    let fs : FileSystem := ⟨[], ['/'], ['/']⟩
    let source := "/a/foo.cpp".toList
    let header := "/b/myfoo.h".toList
    PlainSuffixes .standard ∧ CounterpartCache.empty.get? source = none ∧
      Path.absolute fs.workDir source = source ∧
      (resolve fs .standard (fun _ => [header]) .empty source).2 = some header ∧
      caseless (Path.stem header) ≠ caseless (Path.stem source) := by
  intro fs source header
  refine ⟨plainSuffixes_standard, rfl, by decide +kernel, ?_, by decide +kernel⟩
  simp only [resolve, search?, candidates, Settings.oppositeSuffixes_standard]
  decide +kernel

end Counterpart

end SourceEdit
