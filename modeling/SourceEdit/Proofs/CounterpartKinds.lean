import SourceEdit.Counterpart.Resolver
import SourceEdit.Proofs.LowerCase
import SourceEdit.Proofs.PathNames

set_option autoImplicit false

namespace SourceEdit

open Text (Lowered IsMark lowered_lower)

namespace Path

theorem splitBase?_append_dot {a s : Path} (hdot : '.' ∉ s) (hslash : '/' ∉ s)
    (hname : ∃ c ∈ baseName a, c ≠ '.') : splitBase? (a ++ '.' :: s) = some (baseName a, s) := by
  have hs := Text.forall_ne_of_not_mem hdot
  have hbase : baseName (a ++ '.' :: s) = baseName a ++ '.' :: s :=
    baseName_append a (by simpa using hslash)
  have hall : ¬(baseName a ++ ['.']).all (· = '.') = true := by
    obtain ⟨c, hc, hne⟩ := hname
    intro hall
    exact hne (of_decide_eq_true (List.all_eq_true.mp hall c (by simp [hc])))
  rw [splitBase?, hbase, Text.dropEndWhile_append_cons _ (by decide) hs, if_neg hall,
    Text.takeEndWhile_append_cons _ (by decide) hs, List.dropLast_concat]

theorem suffix_append_dot {a s : Path} (hdot : '.' ∉ s) (hslash : '/' ∉ s)
    (hname : ∃ c ∈ baseName a, c ≠ '.') : suffix (a ++ '.' :: s) = s := by
  rw [suffix, splitBase?_append_dot hdot hslash hname]
  rfl

theorem slash_not_mem_baseName (p : Path) : '/' ∉ baseName p :=
  fun h => absurd (Text.mem_takeEndWhile_imp h) (by decide)

theorem slash_not_mem_stem (p : Path) : '/' ∉ stem p := by
  have hstem : stem p <+: baseName p := by
    unfold stem splitBase?
    dsimp only
    split
    · exact List.prefix_rfl
    · exact (List.dropLast_prefix _).trans
        ⟨_, Text.dropEndWhile_append_takeEndWhile (baseName p) (· ≠ '.')⟩
  exact fun h => slash_not_mem_baseName p (hstem.subset h)

theorem exists_join_eq (p name : Path) : ∃ front, join p name = front ++ name := by
  unfold join
  split
  · exact ⟨[], rfl⟩
  · split
    · exact ⟨p, rfl⟩
    · exact ⟨p ++ ['/'], List.append_cons p '/' name⟩

theorem baseName_eq_self {p : Path} (h : '/' ∉ p) : baseName p = p := by
  rw [← List.nil_append p, baseName_append [] h]
  rfl

theorem lowered_baseName {t u : Text} (h : Lowered t u) : Lowered (baseName t) (baseName u) := by
  have hmem : ∀ {t u : Text}, Lowered t u → '/' ∉ t → '/' ∉ u := fun h ht hu =>
    ht ((h.mem_mark_iff (.inr rfl)).mp hu)
  by_cases hslash : '/' ∈ t
  · obtain ⟨front, back, rfl, hback⟩ := Text.exists_last_of_mem hslash
    obtain ⟨v, w, rfl, -, hw⟩ := h.mark_split (.inr rfl)
    rwa [baseName_append_slash _ hback, baseName_append_slash _ (hmem hw hback)]
  · rwa [baseName_eq_self hslash, baseName_eq_self (hmem h hslash)]

end Path

namespace KindTable

theorem mem_oppositeSuffixes_iff {table : KindTable} {header : Bool} {s : Text} :
    s ∈ table.oppositeSuffixes header ↔ (s, .source) ∈ table ∧ isHeaderSuffix s = !header := by
  rw [oppositeSuffixes, List.mem_mergeSort, List.mem_map]
  simp only [List.mem_filter, Bool.and_eq_true, decide_eq_true_eq, bne_iff_ne]
  constructor
  · rintro ⟨⟨t, k⟩, ⟨hmem, rfl, hne⟩, rfl⟩
    exact ⟨hmem, Bool.eq_not.mpr hne⟩
  · rintro ⟨hmem, heq⟩
    exact ⟨(s, .source), ⟨hmem, rfl, Bool.eq_not.mp heq⟩, rfl⟩

end KindTable

theorem isHeaderSuffix_eq {s u : Text} (h : Lowered s u) :
    isHeaderSuffix s = decide (u.head? = some 'h') := by
  rw [isHeaderSuffix, decide_eq_decide, (lowered_lower s).head?, h.head?]

namespace Counterpart

/-- The source suffixes have neither dots nor slashes. -/
def PlainSuffixes (settings : Settings) : Prop :=
  ∀ s, (s, .source) ∈ settings.kinds → '.' ∉ s ∧ '/' ∉ s

theorem plainSuffixes_standard : PlainSuffixes .standard := by
  have hall : ∀ e ∈ Settings.standard.kinds, '.' ∉ e.1 ∧ '/' ∉ e.1 := by decide
  exact fun s hs => hall _ hs

/-- The base name in front of the last suffix is more than dots. -/
def IsNamed (p : Path) : Prop := ∃ c ∈ Path.stem p, c ≠ '.'

theorem isHeader_of_lowered {base s q u v w : Text} (hdot : '.' ∉ s) (hslash : '/' ∉ s)
    (hbase : '/' ∉ base) (hnamed : ∃ c ∈ base, c ≠ '.') (hv : Lowered base v) (hw : Lowered s w)
    (hq : Lowered q (u ++ v ++ '.' :: w)) : isHeader q = isHeaderSuffix s := by
  obtain ⟨a, t, rfl, ha, ht⟩ := hq.split_mark (.inl rfl)
  have hmark : ∀ {k}, IsMark k → k ∉ s → k ∉ t := fun hk hs hmem =>
    hs ((hw.mem_mark_iff hk).mp ((ht.mem_mark_iff hk).mpr hmem))
  have hslash' : '/' ∉ v := fun hmem => hbase ((hv.mem_mark_iff (.inr rfl)).mp hmem)
  have hlowered := Path.lowered_baseName ha
  rw [Path.baseName_append u hslash'] at hlowered
  obtain ⟨c, hc, hne⟩ := hv.exists_ne_dot_iff.mpr hnamed
  have hname : ∃ c ∈ Path.baseName a, c ≠ '.' :=
    hlowered.exists_ne_dot_iff.mp ⟨c, List.mem_append_right _ hc, hne⟩
  rw [isHeader, Path.suffix_append_dot (hmark (.inl rfl) hdot) (hmark (.inr rfl) hslash) hname,
    isHeaderSuffix_eq ht, isHeaderSuffix_eq hw]

variable {settings : Settings} {p q : Path}

theorem exists_of_mem_candidates (hplain : PlainSuffixes settings) {n : Text}
    (hn : n ∈ candidates settings p) : ∃ s, n = Path.stem p ++ '.' :: s ∧ '.' ∉ s ∧ '/' ∉ s ∧
      isHeaderSuffix s = !isHeader p := by
  obtain ⟨s, hs, rfl⟩ := List.mem_map.mp hn
  obtain ⟨hmem, hopposite⟩ := KindTable.mem_oppositeSuffixes_iff.mp hs
  obtain ⟨hdot, hslash⟩ := hplain s hmem
  exact ⟨s, rfl, hdot, hslash, hopposite⟩

theorem slash_not_mem_of_mem_candidates (hplain : PlainSuffixes settings) {n : Text}
    (hn : n ∈ candidates settings p) : '/' ∉ n := by
  obtain ⟨s, rfl, -, hslash, -⟩ := exists_of_mem_candidates hplain hn
  simpa using ⟨Path.slash_not_mem_stem p, hslash⟩

theorem isHeader_of_sibling (hplain : PlainSuffixes settings) (hp : IsNamed p) {n : Text}
    (hn : n ∈ candidates settings p) (front : Path) : isHeader (front ++ n) = !isHeader p := by
  obtain ⟨s, rfl, hdot, hslash, hopposite⟩ := exists_of_mem_candidates hplain hn
  obtain ⟨c, hc, hne⟩ := hp
  have hname : ∃ c ∈ Path.baseName (front ++ Path.stem p), c ≠ '.' := by
    rw [Path.baseName_append front (Path.slash_not_mem_stem p)]
    exact ⟨c, List.mem_append_right _ hc, hne⟩
  rw [← List.append_assoc, isHeader, Path.suffix_append_dot hdot hslash hname, hopposite]

theorem isHeader_of_indexed (hplain : PlainSuffixes settings) (hp : IsNamed p) {n u : Text}
    (hn : n ∈ candidates settings p) (hq : Text.lower q = u ++ Text.lower n) :
    isHeader q = !isHeader p := by
  obtain ⟨s, rfl, hdot, hslash, hopposite⟩ := exists_of_mem_candidates hplain hn
  obtain ⟨v, w, hlower, hv, hw⟩ :=
    (lowered_lower (Path.stem p ++ '.' :: s)).mark_split (.inl rfl)
  have hlowered := lowered_lower q
  rw [hq, hlower, ← List.append_assoc] at hlowered
  rw [← hopposite]
  exact isHeader_of_lowered hdot hslash (Path.slash_not_mem_stem p) hp hv hw hlowered

theorem closest_mem {best : Option Path × Nat} {index : List Path}
    (h : closest p best index = some q) : best.1 = some q ∨ q ∈ index := by
  induction index generalizing best with
  | nil => exact .inl h
  | cons r rest ih =>
    rcases ih h with hbest | hrest
    · split at hbest
      · exact .inr (List.mem_cons.mpr (.inl (Option.some.inj hbest).symm))
      · exact .inl hbest
    · exact .inr (.tail _ hrest)

theorem isHeader_of_search? (hplain : PlainSuffixes settings) (hp : IsNamed p) {fs : FileSystem}
    {index : List Text → List Path} (h : search? fs settings index p = some q) :
    isHeader q = !isHeader p := by
  unfold search? at h
  dsimp only at h
  split at h
  · next r hsibling =>
    obtain rfl := Option.some.inj h
    obtain ⟨n, hn, rfl⟩ := List.mem_map.mp (List.mem_of_find?_eq_some hsibling)
    obtain ⟨front, hjoin⟩ := Path.exists_join_eq (Path.dirName p) n
    rw [hjoin]
    exact isHeader_of_sibling hplain hp hn front
  · rcases closest_mem h with hnone | hmem
    · contradiction
    · obtain ⟨n, hn, hends⟩ := List.any_eq_true.mp (List.mem_filter.mp hmem).2
      obtain ⟨u, hu⟩ := List.isSuffixOf_iff_suffix.mp hends
      exact isHeader_of_indexed hplain hp hn hu.symm

/-- An answer comes from the cache, or from a search, which puts it there; or there is none. -/
theorem resolve_cases (fs : FileSystem) (settings : Settings) (index : List Text → List Path)
    (c : CounterpartCache) (p : Path) :
    (∃ q, c.get? (Path.absolute fs.workDir p) = some q ∧ q ≠ [] ∧
      resolve fs settings index c p = (c, some q)) ∨
    (∃ q, (c.get? (Path.absolute fs.workDir p)).filter (!·.isEmpty) = none ∧
      search? fs settings index (Path.absolute fs.workDir p) = some q ∧
      resolve fs settings index c p = (c.insert (Path.absolute fs.workDir p) q, some q)) ∨
    ((c.get? (Path.absolute fs.workDir p)).filter (!·.isEmpty) = none ∧
      search? fs settings index (Path.absolute fs.workDir p) = none ∧
      resolve fs settings index c p = (c, none)) := by
  cases hcached : (c.get? (Path.absolute fs.workDir p)).filter (!·.isEmpty) with
  | some q =>
    obtain ⟨hget, hne⟩ := Option.filter_eq_some_iff.mp hcached
    exact .inl ⟨q, hget, by simpa using hne, by simp only [resolve, hcached]⟩
  | none =>
    cases hfound : search? fs settings index (Path.absolute fs.workDir p) with
    | some q => exact .inr (.inl ⟨q, rfl, rfl, by simp only [resolve, hcached, hfound]⟩)
    | none => exact .inr (.inr ⟨rfl, rfl, by simp only [resolve, hcached, hfound]⟩)

/-- No counterpart is kept for a path, or an empty one. -/
def Uncached (c : CounterpartCache) (p : Path) : Prop := (c.get? p).filter (!·.isEmpty) = none

theorem resolve_of_uncached {fs : FileSystem} {index : List Text → List Path}
    {c : CounterpartCache} (h : Uncached c (Path.absolute fs.workDir p)) :
    resolve fs settings index c p =
      ((search? fs settings index (Path.absolute fs.workDir p)).elim c
        (c.insert (Path.absolute fs.workDir p)),
      search? fs settings index (Path.absolute fs.workDir p)) := by
  unfold Uncached at h
  cases hfound : search? fs settings index (Path.absolute fs.workDir p) <;>
    simp only [resolve, h, hfound, Option.elim]

/-- A file for which the counterpart is asked, with the files and the index as they are then. -/
structure Request where
  fs : FileSystem
  index : List Text → List Path
  path : Path

namespace Request

def file (r : Request) : Path := Path.absolute r.fs.workDir r.path

def answer (r : Request) (settings : Settings) (c : CounterpartCache) :
    CounterpartCache × Option Path :=
  resolve r.fs settings r.index c r.path

end Request

def answerAll (settings : Settings) (requests : List Request) (c : CounterpartCache) :
    CounterpartCache :=
  requests.foldl (fun c r => (r.answer settings c).1) c

/-- The two files of every entry are of different categories. -/
def Mixed (c : CounterpartCache) : Prop := ∀ e ∈ c.entries, isHeader e.2 = !isHeader e.1

theorem mem_insert_table {κ ν : Type} [DecidableEq κ] {t : Table κ ν} {l : κ} {w : ν}
    {e : κ × ν} (h : e ∈ t.insert l w) : e = (l, w) ∨ e ∈ t := by
  induction t with
  | nil => exact .inl (List.mem_singleton.mp h)
  | cons x rest ih =>
    obtain ⟨k, v⟩ := x
    rw [Table.insert] at h
    split at h
    · next hk =>
      subst hk
      exact (List.mem_cons.mp h).imp_right (.tail _)
    · rcases List.mem_cons.mp h with rfl | h
      · exact .inr List.mem_cons_self
      · exact (ih h).imp_right (.tail _)

theorem Mixed.insert {c : CounterpartCache} (h : Mixed c) (hpq : isHeader q = !isHeader p) :
    Mixed (c.insert p q) := by
  intro e he
  rcases mem_insert_table he with rfl | he
  · rw [hpq, Bool.not_not]
  · rcases mem_insert_table he with rfl | he
    · exact hpq
    · exact h e he

theorem Mixed.answer {c : CounterpartCache} (h : Mixed c) (hplain : PlainSuffixes settings)
    {r : Request} (hr : IsNamed r.file) : Mixed (r.answer settings c).1 ∧
      ∀ q, (r.answer settings c).2 = some q → isHeader q = !isHeader r.file := by
  rcases resolve_cases r.fs settings r.index c r.path with
    ⟨q, hget, -, heq⟩ | ⟨q, -, hfound, heq⟩ | ⟨-, -, heq⟩
  · rw [Request.answer, heq]
    refine ⟨h, fun q' hq' => ?_⟩
    obtain rfl := Option.some.inj hq'
    exact h (r.file, q) (Table.mem_of_get? hget)
  · have hkinds := isHeader_of_search? hplain hr hfound
    rw [Request.answer, heq]
    refine ⟨h.insert hkinds, fun q' hq' => ?_⟩
    obtain rfl := Option.some.inj hq'
    exact hkinds
  · rw [Request.answer, heq]
    exact ⟨h, fun q' hq' => nomatch hq'⟩

/-- For all settings with suffixes that have neither dots nor slashes and every run of requests for
files whose names are more than dots, whatever the trees and the indexes: each pair in the cache has a
header and a file that is none, and no answer is the file itself or of the same category. -/
theorem cache_pairs_header_with_source (hplain : PlainSuffixes settings) (requests : List Request)
    (hnamed : ∀ r ∈ requests, IsNamed r.file) :
    Mixed (answerAll settings requests .empty) ∧
      ∀ (r : Request) (q : Path), IsNamed r.file →
        (r.answer settings (answerAll settings requests .empty)).2 = some q →
        q ≠ r.file ∧ isHeader q = !isHeader r.file := by
  have hmixed : ∀ c, Mixed c → Mixed (answerAll settings requests c) := by
    induction requests with
    | nil => exact fun c h => h
    | cons r rest ih =>
      obtain ⟨hr, hrest⟩ := List.forall_mem_cons.mp hnamed
      exact fun c h => ih hrest _ (h.answer hplain hr).1
  have hall := hmixed .empty fun e he => absurd he List.not_mem_nil
  refine ⟨hall, fun r q hr hanswer => ?_⟩
  have hkinds := (hall.answer hplain hr).2 q hanswer
  refine ⟨?_, hkinds⟩
  rintro rfl
  cases hfile : isHeader r.file <;> simp [hfile] at hkinds

theorem shouted_header_paired :
    let fs : FileSystem := ⟨[], ['/'], ['/']⟩
    let source := ['/', 'm', 'y', '.', 'x', '.', 'c']
    let header := ['/', 'M', 'y', '.', 'X', '.', 'H']
    let requests := [Request.mk fs (fun _ => [header]) source]
    PlainSuffixes .standard ∧ (∀ r ∈ requests, IsNamed r.file) ∧
      Mixed (answerAll .standard requests .empty) ∧
      (answerAll .standard requests .empty).entries = [(source, header), (header, source)] ∧
      source ≠ header ∧ isHeader source = !isHeader header := by
  intro fs source header requests
  have hnamed : ∀ r ∈ requests, IsNamed r.file := by
    intro r hr
    obtain rfl := List.mem_singleton.mp hr
    exact ⟨'m', by decide +kernel, by decide⟩
  have hheader : IsNamed (Request.mk fs (fun _ => []) header).file :=
    ⟨'M', by decide +kernel, by decide⟩
  obtain ⟨hmixed, hanswer⟩ := cache_pairs_header_with_source plainSuffixes_standard requests hnamed
  have hcache : answerAll .standard requests .empty = ⟨[(source, header), (header, source)]⟩ := by
    simp only [requests, answerAll, List.foldl_cons, List.foldl_nil, Request.answer, resolve, search?,
      candidates, Settings.oppositeSuffixes_standard]
    decide +kernel
  refine ⟨plainSuffixes_standard, hnamed, hmixed, by rw [hcache], hanswer _ source hheader ?_⟩
  rw [hcache]
  decide +kernel

end Counterpart

end SourceEdit
