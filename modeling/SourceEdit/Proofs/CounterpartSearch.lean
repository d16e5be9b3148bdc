import SourceEdit.Proofs.CacheSymmetry
import SourceEdit.Proofs.CounterpartKinds
import SourceEdit.Proofs.GroupChoice

set_option autoImplicit false

namespace SourceEdit

namespace KindTable

theorem pairwise_oppositeSuffixes (table : KindTable) (header : Bool) :
    (table.oppositeSuffixes header).Pairwise (· ≤ ·) := by
  rw [oppositeSuffixes]
  exact Text.pairwise_mergeSort _

end KindTable

namespace Counterpart

/-- The first `k` characters of two texts are there and equal in lower case, each by itself. -/
def SameLeading (k : Nat) (s t : Text) : Prop :=
  k ≤ s.length ∧ k ≤ t.length ∧
    (s.take k).map (fun c => Text.lower [c]) = (t.take k).map fun c => Text.lower [c]

theorem le_commonLength_iff {k : Nat} {s t : Text} : k ≤ commonLength s t ↔ SameLeading k s t := by
  induction s generalizing k t with
  | nil => cases k <;> simp [SameLeading, commonLength]
  | cons a s ih =>
    cases t with
    | nil => cases k <;> simp [SameLeading, commonLength]
    | cons b t =>
      cases k with
      | zero => simp [SameLeading]
      | succ k =>
        rw [commonLength]
        split
        · next heq =>
          rw [Nat.add_le_add_iff_right, ih]
          simp [SameLeading, heq]
        · next hne => simp [SameLeading, hne]

/-- The first of the paths that have the most in common with `p`. -/
def IsFirstBest (p : Path) (qs : List Path) (q : Path) : Prop :=
  ∃ front back, qs = front ++ q :: back ∧
    (∀ r ∈ front, commonLength r p < commonLength q p) ∧
    ∀ r ∈ back, commonLength r p ≤ commonLength q p

theorem split_cases {α : Type} {x y : α} {f b g d : List α} (h : f ++ x :: b = g ++ y :: d) :
    x = y ∨ (x ∈ g ∧ y ∈ b) ∨ (y ∈ f ∧ x ∈ d) := by
  rcases List.append_eq_append_iff.mp h with ⟨u, rfl, hu⟩ | ⟨u, rfl, hu⟩
  · cases u with
    | nil => exact .inl (List.cons.inj hu).1
    | cons z u =>
      obtain ⟨rfl, rfl⟩ := List.cons.inj hu
      exact .inr (.inl (by simp))
  · cases u with
    | nil => exact .inl (List.cons.inj hu).1.symm
    | cons z u =>
      obtain ⟨rfl, rfl⟩ := List.cons.inj hu
      exact .inr (.inr (by simp))

theorem IsFirstBest.unique {p q r : Path} {qs : List Path} (hq : IsFirstBest p qs q)
    (hr : IsFirstBest p qs r) : q = r := by
  obtain ⟨front, back, rfl, hfront, hback⟩ := hq
  obtain ⟨front', back', hsplit, hfront', hback'⟩ := hr
  rcases split_cases hsplit with h | ⟨hq, hr⟩ | ⟨hr, hq⟩
  · exact h
  · exact absurd (hfront' q hq) (Nat.not_lt.mpr (hback r hr))
  · exact absurd (hfront r hr) (Nat.not_lt.mpr (hback' q hq))

/-- The fold leaves the best path so far, or finds the first of the best. -/
theorem closest_cases (p : Path) (best : Option Path × Nat) (qs : List Path) :
    (closest p best qs = best.1 ∧ ∀ r ∈ qs, commonLength r p ≤ best.2) ∨
      ∃ front q back, closest p best qs = some q ∧ best.2 < commonLength q p ∧
        qs = front ++ q :: back ∧ (∀ r ∈ front, commonLength r p < commonLength q p) ∧
        ∀ r ∈ back, commonLength r p ≤ commonLength q p := by
  induction qs generalizing best with
  | nil => exact .inl ⟨rfl, by simp⟩
  | cons r qs ih =>
    rw [closest]
    split
    · next hbetter =>
      right
      rcases ih (some r, commonLength r p) with ⟨heq, hall⟩ |
        ⟨front, q, back, heq, hbest, rfl, hfront, hback⟩
      · exact ⟨[], r, qs, heq, hbetter, rfl, by simp, hall⟩
      · exact ⟨r :: front, q, back, heq, hbetter.trans hbest, rfl,
          List.forall_mem_cons.mpr ⟨hbest, hfront⟩, hback⟩
    · next hworse =>
      rw [Nat.not_lt] at hworse
      rcases ih best with ⟨heq, hall⟩ | ⟨front, q, back, heq, hbest, rfl, hfront, hback⟩
      · exact .inl ⟨heq, List.forall_mem_cons.mpr ⟨hworse, hall⟩⟩
      · exact .inr ⟨r :: front, q, back, heq, hbest, rfl,
          List.forall_mem_cons.mpr ⟨hworse.trans_lt hbest, hfront⟩, hback⟩

/-- A path ends in one of the names, up to case, and has its first characters in common with `p`. -/
def Suits (p : Path) (names : List Text) (q : Path) : Prop :=
  (∃ n ∈ names, Text.lower n <:+ Text.lower q) ∧ 0 < commonLength q p

instance (p : Path) (names : List Text) (q : Path) : Decidable (Suits p names q) :=
  inferInstanceAs (Decidable (_ ∧ _))

def suiting (p : Path) (names : List Text) (index : List Path) : List Path :=
  index.filter fun q => Suits p names q

variable {fs : FileSystem} {p : Path} {names : List Text} {index : List Path}

def NoneBeside (fs : FileSystem) (p : Path) (names : List Text) : Prop :=
  ∀ n ∈ names, fs.hasPath (Path.join (Path.dirName p) n) = false

/-- What is to be found for a file: the first of the names beside it, or the best of the index. -/
inductive Finds (fs : FileSystem) (p : Path) (names : List Text) (index : List Path) :
    Option Path → Prop where
  | beside {front back : List Text} {n : Text} (hnames : names = front ++ n :: back)
      (hexists : fs.hasPath (Path.join (Path.dirName p) n) = true)
      (hfront : NoneBeside fs p front) :
      Finds fs p names index (some (Path.join (Path.dirName p) n))
  | indexed {q : Path} (hbeside : NoneBeside fs p names)
      (hbest : IsFirstBest p (suiting p names index) q) : Finds fs p names index (some q)
  | nowhere (hbeside : NoneBeside fs p names) (hindex : suiting p names index = []) :
      Finds fs p names index none

theorem suiting_eq_filter (p : Path) (names : List Text) (index : List Path) :
    suiting p names index =
      (index.filter (endsWithAny names)).filter fun q => 0 < commonLength q p := by
  rw [suiting, List.filter_filter]
  refine List.filter_congr fun q _ => ?_
  rw [Bool.eq_iff_iff]
  simp [Suits, endsWithAny, and_comm]

theorem inIndex?_cases (p : Path) (names : List Text) (index : List Path) :
    (inIndex? p names index = none ∧ suiting p names index = []) ∨
      ∃ q, inIndex? p names index = some q ∧ IsFirstBest p (suiting p names index) q := by
  rw [suiting_eq_filter, inIndex?]
  rcases closest_cases p (none, 0) (index.filter (endsWithAny names)) with ⟨heq, hall⟩ |
    ⟨front, q, back, heq, hbest, hsplit, hfront, hback⟩
  · refine .inl ⟨heq, List.filter_eq_nil_iff.mpr fun r hr => ?_⟩
    simpa using hall r hr
  · refine .inr ⟨q, heq, ?_⟩
    rw [hsplit, List.filter_append, List.filter_cons_of_pos (by simpa using hbest)]
    exact ⟨_, _, rfl, fun r hr => hfront r (List.mem_of_mem_filter hr),
      fun r hr => hback r (List.mem_of_mem_filter hr)⟩

theorem sibling?_eq_none_iff : sibling? fs p names = none ↔ NoneBeside fs p names := by
  simp [sibling?, NoneBeside]

theorem exists_of_sibling? {q : Path} (h : sibling? fs p names = some q) :
    ∃ front n back, names = front ++ n :: back ∧ q = Path.join (Path.dirName p) n ∧
      fs.hasPath q = true ∧ NoneBeside fs p front := by
  rw [sibling?, List.find?_map, Option.map_eq_some_iff] at h
  obtain ⟨n, hfind, rfl⟩ := h
  obtain ⟨hexists, front, back, rfl, hfront⟩ := List.find?_eq_some_iff_append.mp hfind
  exact ⟨front, n, back, rfl, rfl, hexists, fun m hm => by simpa using hfront m hm⟩

theorem finds_search? (fs : FileSystem) (settings : Settings) (index : List Text → List Path)
    (p : Path) : Finds fs p (candidates settings p)
      (index (settings.kinds.oppositeSuffixes (isHeader p))) (search? fs settings index p) := by
  rw [search?]
  cases hsibling : sibling? fs p (candidates settings p) with
  | some q =>
    obtain ⟨front, n, back, hnames, rfl, hexists, hfront⟩ := exists_of_sibling? hsibling
    exact .beside hnames hexists hfront
  | none =>
    have hbeside := sibling?_eq_none_iff.mp hsibling
    rcases inIndex?_cases p (candidates settings p)
      (index (settings.kinds.oppositeSuffixes (isHeader p))) with ⟨heq, hindex⟩ | ⟨q, heq, hbest⟩
    · simp only [heq]
      exact .nowhere hbeside hindex
    · simp only [heq]
      exact .indexed hbeside hbest

theorem NoneBeside.not_exists {front back : List Text} {n : Text}
    (h : NoneBeside fs p (front ++ n :: back)) :
    ¬fs.hasPath (Path.join (Path.dirName p) n) = true := by
  rw [h n (by simp)]
  decide

theorem Finds.unique {a b : Option Path} (ha : Finds fs p names index a)
    (hb : Finds fs p names index b) : a = b := by
  cases ha with
  | @beside front back n hnames hexists hfront =>
    subst hnames
    cases hb with
    | @beside front' back' n' hnames' hexists' hfront' =>
      rcases split_cases hnames' with rfl | ⟨hn, -⟩ | ⟨hn', -⟩
      · rfl
      · exact absurd hexists (by simp [hfront' n hn])
      · exact absurd hexists' (by simp [hfront n' hn'])
    | indexed hbeside => exact absurd hexists hbeside.not_exists
    | nowhere hbeside => exact absurd hexists hbeside.not_exists
  | indexed hbeside hbest =>
    cases hb with
    | beside hnames hexists =>
      subst hnames
      exact absurd hexists hbeside.not_exists
    | indexed _ hbest' => rw [hbest.unique hbest']
    | nowhere _ hindex =>
      obtain ⟨front, back, hsplit, -⟩ := hbest
      simp [hindex] at hsplit
  | nowhere hbeside hindex =>
    cases hb with
    | beside hnames hexists =>
      subst hnames
      exact absurd hexists hbeside.not_exists
    | indexed _ hbest =>
      obtain ⟨front, back, hsplit, -⟩ := hbest
      simp [hindex] at hsplit
    | nowhere => rfl

theorem Finds.ne_nil {q : Path} (h : Finds fs p names index (some q)) (hnames : [] ∉ names) :
    q ≠ [] := by
  cases h with
  | @beside front back n hsplit =>
    subst hsplit
    obtain ⟨above, hjoin⟩ := Path.exists_join_eq (Path.dirName p) n
    rw [hjoin]
    refine List.append_ne_nil_of_right_ne_nil above ?_
    rintro rfl
    simp at hnames
  | indexed _ hbest =>
    obtain ⟨front, back, hsplit, -⟩ := hbest
    have hsuits : q ∈ suiting p names index := by simp [hsplit]
    have hcommon : Suits p names q := of_decide_eq_true (List.mem_filter.mp hsuits).2
    rintro rfl
    exact absurd hcommon.2 (by simp [commonLength])

/-- For every tree, index and settings and every file that is not in the cache: the candidates are
its stem with the suffixes of the other category in order, and the answer is the first of them
beside the file, else the first of those paths of the index that end in one of them, up to case, and
have the most first characters in common with the file, at least one, else nothing. An answer is
kept both ways, with the rest of the cache; without an answer the cache stays as it is. -/
theorem resolve_finds_iff {settings : Settings} {index : List Text → List Path}
    {c : CounterpartCache} (huncached : Uncached c (Path.absolute fs.workDir p)) :
    let file := Path.absolute fs.workDir p
    let suffixes := settings.kinds.oppositeSuffixes (isHeader file)
    let names := suffixes.map fun s => Path.stem file ++ '.' :: s
    let answer := resolve fs settings index c p
    suffixes.Pairwise (· ≤ ·) ∧
      (∀ s, s ∈ suffixes ↔ (s, .source) ∈ settings.kinds ∧ isHeaderSuffix s = !isHeader file) ∧
      (∀ q k, k ≤ commonLength q file ↔ SameLeading k q file) ∧
      (∀ a, answer.2 = a ↔ Finds fs file names (index suffixes) a) ∧
      (answer.2 = none → answer.1 = c) ∧
      ∀ q, answer.2 = some q → q ≠ [] ∧ ∀ r, answer.1.get? r =
        if r = file then some q else if r = q then some file else c.get? r := by
  intro file suffixes names answer
  have hfinds : Finds fs file names (index suffixes) (search? fs settings index file) :=
    finds_search? fs settings index file
  have hanswer : answer = ((search? fs settings index file).elim c (c.insert file),
      search? fs settings index file) := resolve_of_uncached huncached
  have hsecond : answer.2 = search? fs settings index file := by rw [hanswer]
  refine ⟨KindTable.pairwise_oppositeSuffixes .., fun s => KindTable.mem_oppositeSuffixes_iff,
    fun q k => le_commonLength_iff, fun a => ?_, fun hnone => ?_, fun q hq => ?_⟩
  · rw [hsecond]
    exact ⟨fun h => h ▸ hfinds, hfinds.unique⟩
  · rw [hsecond] at hnone
    rw [hanswer, hnone]
    rfl
  · rw [hsecond] at hq
    rw [hq] at hfinds
    refine ⟨hfinds.ne_nil (by simp [names]), fun r => ?_⟩
    rw [hanswer, hq, Option.elim_some, CounterpartCache.get?_insert_pair]
    by_cases hfile : r = file
    · by_cases hsame : q = r <;> simp_all
    · simp [hfile, Ne.symm hfile, eq_comm]

theorem resolve_finds_first_of_equals :
    let fs : FileSystem := ⟨[], ['/'], ['/']⟩
    let source := ['/', 'a', '/', 'm', '.', 'c']
    let header := ['/', 'A', '/', '1', '/', 'M', '.', 'H']
    let index := [['/', 'b', '/', 'm', '.', 'h'], header, ['/', 'a', '/', '2', '/', 'm', '.', 'h']]
    let answer := resolve fs .standard (fun _ => index) .empty source
    Uncached .empty (Path.absolute fs.workDir source) ∧
      Finds fs (Path.absolute fs.workDir source)
        (candidates .standard (Path.absolute fs.workDir source)) index (some header) ∧
      answer.1.get? header = some source ∧ answer.1.get? source = some header := by
  intro fs source header index answer
  have huncached : Uncached .empty (Path.absolute fs.workDir source) := rfl
  have hfile : Path.absolute fs.workDir source = source := by decide +kernel
  have hheader : (resolve fs .standard (fun _ => index) .empty source).2 = some header := by
    simp only [resolve, search?, candidates, Settings.oppositeSuffixes_standard]
    decide +kernel
  obtain ⟨-, -, -, hfinds, -, hkept⟩ :=
    @resolve_finds_iff fs source .standard (fun _ => index) .empty huncached
  have hget := (hkept header hheader).2
  rw [hfile] at hget
  refine ⟨huncached, (hfinds (some header)).mp hheader, ?_, ?_⟩
  · rw [hget, if_neg (by decide), if_pos rfl]
  · rw [hget, if_pos rfl]

end Counterpart

end SourceEdit
