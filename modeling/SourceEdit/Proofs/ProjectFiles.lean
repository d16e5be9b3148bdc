import Mathlib.Data.List.Nodup
import SourceEdit.Proofs.Confinement
import SourceEdit.Proofs.GroupChoice
import SourceEdit.Proofs.PathsBelow
import SourceEdit.Project.Files

/-!
The files of a project as a walk through the tree. What is pruned on the way down and what is left
out at the end come to one condition on all names of a path, and the order of the walk is one order
on such paths, in which no path is before itself.
-/

set_option autoImplicit false

namespace SourceEdit

namespace FileSystem

structure FileName (n : Text) : Prop extends Path.Name n where
  short : (Utf8.encode n).length ≤ longestName
  noNul : '\x00' ∉ n

instance (n : Text) : Decidable (FileName n) :=
  decidable_of_iff (n ≠ [] ∧ '/' ∉ n ∧ n ≠ ['.'] ∧ Path.isParent n = false ∧
      (Utf8.encode n).length ≤ longestName ∧ '\x00' ∉ n)
    ⟨fun ⟨hfilled, hclean, hhere, hparent, hshort, hnul⟩ =>
      ⟨⟨hfilled, hclean, hhere, hparent⟩, hshort, hnul⟩,
    fun h => ⟨h.filled, h.clean, h.plain.notHere, h.plain.notParent, h.short, h.noNul⟩⟩

/-- What a disk can hold: every entry is in a directory, has its place for itself, and is reached by
names that can be given to files. -/
structure IsKept (fs : FileSystem) : Prop where
  tree : fs.IsTree
  unique : (Table.keys fs.entries).Nodup
  named : ∀ x ∈ fs.entries, ∀ n ∈ x.1, FileName n

instance (fs : FileSystem) : Decidable fs.IsKept :=
  decidable_of_iff (fs.IsTree ∧ (Table.keys fs.entries).Nodup ∧
      ∀ x ∈ fs.entries, ∀ n ∈ x.1, FileName n)
    ⟨fun ⟨htree, hunique, hnamed⟩ => ⟨htree, hunique, hnamed⟩,
    fun h => ⟨h.tree, h.unique, h.named⟩⟩

variable {fs : FileSystem} {l : Location} {n : Text} {ns : List Text}

theorem IsKept.fileName (h : fs.IsKept) (hthere : fs.entryAt? (l ++ ns) ≠ none) (hn : n ∈ ns) :
    FileName n := by
  obtain ⟨e, he⟩ := Option.ne_none_iff_exists'.mp hthere
  have hne : l ++ ns ≠ [] := List.append_ne_nil_of_right_ne_nil l (List.ne_nil_of_mem hn)
  rw [entryAt?_of_ne_nil hne] at he
  exact h.named _ (Table.mem_of_get? he) n (List.mem_append_right l hn)

def childName? (l m : Location) : Option Text :=
  match m.getLast? with
  | some name => if m.dropLast = l then some name else none
  | none => none

theorem childName?_eq_some_iff {m : Location} : childName? l m = some n ↔ m = l ++ [n] := by
  unfold childName?
  rcases List.eq_nil_or_concat m with rfl | ⟨dir, name, rfl⟩
  · simp
  · rw [List.concat_eq_append, List.getLast?_concat, List.dropLast_concat]
    dsimp only
    constructor
    · intro h
      split at h
      · next hdir => rw [hdir, Option.some.inj h]
      · contradiction
    · intro h
      obtain ⟨rfl, hname⟩ := List.append_inj' h rfl
      rw [if_pos rfl, List.singleton_inj.mp hname]

theorem children_eq (fs : FileSystem) (l : Location) :
    fs.children l = fs.entries.filterMap fun x => childName? l x.1 := rfl

theorem mem_children_iff : n ∈ fs.children l ↔ fs.entryAt? (l ++ [n]) ≠ none := by
  rw [children_eq, List.mem_filterMap, entryAt?_of_ne_nil (by simp)]
  simp only [childName?_eq_some_iff]
  constructor
  · rintro ⟨x, hx, heq⟩
    exact heq ▸ Table.get?_ne_none_of_mem hx
  · intro h
    obtain ⟨e, he⟩ := Option.ne_none_iff_exists'.mp h
    exact ⟨_, Table.mem_of_get? he, rfl⟩

theorem nodup_children (h : fs.IsKept) (l : Location) : (fs.children l).Nodup := by
  have hunique := h.unique
  rw [Table.keys, List.Nodup, List.pairwise_map] at hunique
  rw [children_eq, List.Nodup, List.pairwise_filterMap]
  refine hunique.imp fun hne n hn m hm heq => hne ?_
  rw [childName?_eq_some_iff.mp hn, childName?_eq_some_iff.mp hm, heq]

theorem length_le_of_entryAt? (h : fs.IsKept) (hthere : fs.entryAt? (l ++ ns) ≠ none) :
    ns.length ≤ fs.entries.length := by
  have hplaces : ((List.range ns.length).map fun k => l ++ ns.take (k + 1)).Nodup := by
    refine (List.nodup_range).map_on fun j hj k hk heq => ?_
    have hlength := congrArg List.length heq
    simp only [List.length_append, List.length_take, List.mem_range] at hlength hj hk
    omega
  have hsub : ((List.range ns.length).map fun k => l ++ ns.take (k + 1)) ⊆
      Table.keys fs.entries := by
    intro m hm
    obtain ⟨k, hk, rfl⟩ := List.mem_map.mp hm
    have hne : l ++ ns.take (k + 1) ≠ [] := by
      rw [List.mem_range] at hk
      simp [List.ne_nil_of_length_pos (Nat.zero_lt_of_lt hk)]
    have hat : fs.entryAt? (l ++ ns.take (k + 1)) ≠ none := by
      intro hnone
      have hprefix : l ++ ns.take (k + 1) <+: l ++ ns :=
        (List.prefix_append_right_inj l).mpr (List.take_prefix _ _)
      by_cases heq : l ++ ns.take (k + 1) = l ++ ns
      · exact hthere (heq ▸ hnone)
      · exact absurd (h.tree _ hthere _ hprefix heq) (isEnd_of_none hnone).not_isDirAt
    rw [entryAt?_of_ne_nil hne] at hat
    obtain ⟨e, he⟩ := Option.ne_none_iff_exists'.mp hat
    exact List.mem_map.mpr ⟨_, Table.mem_of_get? he, rfl⟩
  have hle := (hplaces.subperm hsub).length_le
  simpa [Table.keys] using hle

end FileSystem

namespace Project

open FileSystem (IsKept FileName)
open SourceEdit.Path (descend)

/-- The names in a directory that are not excluded, in order. -/
def namesIn (fs : FileSystem) (excludes : List Text) (l : Location) : List Text :=
  ((fs.children l).filter fun n => !isExcluded excludes n).mergeSort Text.le

/-- The files below a directory by their names from there on. -/
def namesBelow (fs : FileSystem) (excludes : List Text) :
    (depth : Nat) → Path → Location → List (List Text)
  | 0, _, _ => []
  | depth + 1, p, l =>
    let isDirectory (n : Text) : Bool := fs.isDirectory (Path.join p n)
    let isOwn (n : Text) : Bool := fs.isDirAt (l ++ [n])
    if !fs.canList p then []
    else
      ((namesIn fs excludes l).filter fun n => !isDirectory n && !isOwn n).map (fun n => [n]) ++
        ((namesIn fs excludes l).filter fun n => isDirectory n && isOwn n).flatMap fun n =>
          (namesBelow fs excludes depth (Path.join p n) (l ++ [n])).map (n :: ·)

variable {fs : FileSystem} {excludes : List Text} {depth : Nat} {p : Path} {l : Location} {n : Text}
  {ms ns : List Text}

theorem filesBelow_eq_map (fs : FileSystem) (excludes : List Text) (depth : Nat) (p : Path)
    (l : Location) :
    filesBelow fs excludes depth p l = (namesBelow fs excludes depth p l).map (descend p) := by
  induction depth generalizing p l with
  | zero => rfl
  | succ depth ih =>
    rw [filesBelow, namesBelow]
    dsimp only
    split
    · rfl
    rw [List.map_append, List.map_map, List.map_flatMap]
    refine congrArg₂ (· ++ ·) rfl (List.flatMap_congr fun n _ => ?_)
    rw [ih, List.map_map]
    rfl

theorem mem_namesBelow_succ_iff : ns ∈ namesBelow fs excludes (depth + 1) p l ↔
    fs.canList p = true ∧ ∃ n ∈ namesIn fs excludes l,
      (fs.isDirectory (Path.join p n) = false ∧ fs.isDirAt (l ++ [n]) = false ∧ ns = [n] ∨
        fs.isDirectory (Path.join p n) = true ∧ fs.isDirAt (l ++ [n]) = true ∧
          ∃ ms ∈ namesBelow fs excludes depth (Path.join p n) (l ++ [n]), ns = n :: ms) := by
  rw [namesBelow]
  dsimp only
  cases fs.canList p with
  | false => simp
  | true =>
    simp only [Bool.not_true, Bool.false_eq_true, if_false, true_and, List.mem_append, List.mem_map,
      List.mem_flatMap, List.mem_filter, Bool.and_eq_true, Bool.not_eq_true']
    constructor
    · rintro (⟨n, ⟨hn, hdir, hown⟩, rfl⟩ | ⟨n, ⟨hn, hdir, hown⟩, ms, hms, rfl⟩)
      · exact ⟨n, hn, .inl ⟨hdir, hown, rfl⟩⟩
      · exact ⟨n, hn, .inr ⟨hdir, hown, ms, hms, rfl⟩⟩
    · rintro ⟨n, hn, ⟨hdir, hown, rfl⟩ | ⟨hdir, hown, ms, hms, rfl⟩⟩
      · exact .inl ⟨n, ⟨hn, hdir, hown⟩, rfl⟩
      · exact .inr ⟨n, ⟨hn, hdir, hown⟩, ms, hms, rfl⟩

theorem mem_namesIn_iff : n ∈ namesIn fs excludes l ↔
    fs.entryAt? (l ++ [n]) ≠ none ∧ isExcluded excludes n = false := by
  rw [namesIn, List.mem_mergeSort, List.mem_filter, FileSystem.mem_children_iff, Bool.not_eq_true']

theorem ne_nil_of_mem_namesBelow (h : ns ∈ namesBelow fs excludes depth p l) : ns ≠ [] := by
  cases depth with
  | zero => exact absurd h List.not_mem_nil
  | succ depth =>
    obtain ⟨-, n, -, ⟨-, -, rfl⟩ | ⟨-, -, ms, -, rfl⟩⟩ := mem_namesBelow_succ_iff.mp h
    · exact List.cons_ne_nil n []
    · exact List.cons_ne_nil n ms

theorem length_le_of_mem_namesBelow (h : ns ∈ namesBelow fs excludes depth p l) :
    ns.length ≤ depth := by
  induction depth generalizing p l ns with
  | zero => exact absurd h List.not_mem_nil
  | succ depth ih =>
    obtain ⟨-, n, -, ⟨-, -, rfl⟩ | ⟨-, -, ms, hms, rfl⟩⟩ := mem_namesBelow_succ_iff.mp h
    · exact Nat.succ_le_succ (Nat.zero_le depth)
    · exact Nat.succ_le_succ (ih hms)

theorem singleton_mem_namesBelow_iff : [n] ∈ namesBelow fs excludes (depth + 1) p l ↔
    fs.canList p = true ∧ fs.entryAt? (l ++ [n]) ≠ none ∧ isExcluded excludes n = false ∧
      fs.isDirAt (l ++ [n]) = false ∧ fs.isDirectory (Path.join p n) = false := by
  rw [mem_namesBelow_succ_iff]
  refine and_congr_right fun _ => ?_
  constructor
  · rintro ⟨m, hm, ⟨hdir, hown, heq⟩ | ⟨-, -, ms, hms, heq⟩⟩
    · obtain rfl := List.singleton_inj.mp heq
      obtain ⟨hthere, hkept⟩ := mem_namesIn_iff.mp hm
      exact ⟨hthere, hkept, hown, hdir⟩
    · exact absurd (List.cons.inj heq).2.symm (ne_nil_of_mem_namesBelow hms)
  · rintro ⟨hthere, hkept, hown, hdir⟩
    exact ⟨n, mem_namesIn_iff.mpr ⟨hthere, hkept⟩, .inl ⟨hdir, hown, rfl⟩⟩

theorem cons_mem_namesBelow_iff (hne : ns ≠ []) :
    n :: ns ∈ namesBelow fs excludes (depth + 1) p l ↔
      fs.canList p = true ∧ isExcluded excludes n = false ∧ fs.isDirAt (l ++ [n]) = true ∧
        fs.isDirectory (Path.join p n) = true ∧
        ns ∈ namesBelow fs excludes depth (Path.join p n) (l ++ [n]) := by
  rw [mem_namesBelow_succ_iff]
  refine and_congr_right fun _ => ?_
  constructor
  · rintro ⟨m, hm, ⟨-, -, heq⟩ | ⟨hdir, hown, ms, hms, heq⟩⟩
    · exact absurd (List.cons.inj heq).2 hne
    · obtain ⟨rfl, rfl⟩ := List.cons.inj heq
      exact ⟨(mem_namesIn_iff.mp hm).2, hown, hdir, hms⟩
  · rintro ⟨hkept, hown, hdir, h⟩
    have hthere : fs.entryAt? (l ++ [n]) ≠ none := fun hnone =>
      (FileSystem.isEnd_of_none hnone).not_isDirAt hown
    exact ⟨n, mem_namesIn_iff.mpr ⟨hthere, hkept⟩, .inr ⟨hdir, hown, ns, h, rfl⟩⟩

theorem isExcluded_eq_false_iff : isExcluded excludes n = false ↔
    ∀ pattern ∈ excludes, Glob.isMatch pattern n = false := by
  simp [isExcluded]

/-- What stands at these names below a directory is to be listed: none of the names is excluded, it
is neither a directory nor leads to one, and each directory on the way to it, the first one included,
can be opened and its names be read. -/
structure IsListed (fs : FileSystem) (excludes : List Text) (p : Path) (l : Location)
    (ns : List Text) : Prop where
  filled : ns ≠ []
  kept : ∀ n ∈ ns, ∀ pattern ∈ excludes, Glob.isMatch pattern n = false
  there : fs.entryAt? (l ++ ns) ≠ none
  noDirectory : fs.isDirAt (l ++ ns) = false
  noLink : fs.isDirectory (descend p ns) = false
  opened : ∀ ms, ms <+: ns.dropLast → fs.canList (descend p ms) = true

theorem isDirectory_of_canList (h : fs.canList p = true) : fs.isDirectory p = true := by
  unfold FileSystem.canList at h
  split at h
  · next hfind => simp only [FileSystem.isDirectory, hfind]
  · contradiction

theorem isListed_singleton_iff : IsListed fs excludes p l [n] ↔
    fs.canList p = true ∧ fs.entryAt? (l ++ [n]) ≠ none ∧ isExcluded excludes n = false ∧
      fs.isDirAt (l ++ [n]) = false ∧ fs.isDirectory (Path.join p n) = false := by
  rw [isExcluded_eq_false_iff]
  constructor
  · intro h
    exact ⟨h.opened [] List.nil_prefix, h.there, h.kept n List.mem_cons_self, h.noDirectory, h.noLink⟩
  · rintro ⟨hopened, hthere, hkept, hown, hdir⟩
    refine ⟨List.cons_ne_nil n [], by simpa using hkept, hthere, hown, hdir, fun ms hms => ?_⟩
    rwa [List.prefix_nil.mp hms]

theorem isListed_cons_iff (hfs : fs.IsKept) (hne : ns ≠ []) :
    IsListed fs excludes p l (n :: ns) ↔
      fs.canList p = true ∧ isExcluded excludes n = false ∧ fs.isDirAt (l ++ [n]) = true ∧
        fs.isDirectory (Path.join p n) = true ∧
        IsListed fs excludes (Path.join p n) (l ++ [n]) ns := by
  have hplace : l ++ n :: ns = l ++ [n] ++ ns := List.append_cons l n ns
  have hlast : (n :: ns).dropLast = n :: ns.dropLast := List.dropLast_cons_of_ne_nil hne
  rw [isExcluded_eq_false_iff]
  constructor
  · intro h
    have hown : fs.isDirAt (l ++ [n]) = true := by
      refine hfs.tree _ h.there _ ?_ fun heq => ?_
      · rw [hplace]
        exact List.prefix_append _ ns
      · rw [hplace] at heq
        exact hne (List.append_right_eq_self.mp heq.symm)
    have hopened : ∀ ms, ms <+: ns.dropLast → fs.canList (descend (Path.join p n) ms) = true :=
      fun ms hms => h.opened (n :: ms) (by rwa [hlast, List.prefix_cons_inj])
    obtain ⟨hkept, hkeptBelow⟩ := List.forall_mem_cons.mp h.kept
    exact ⟨h.opened [] List.nil_prefix, hkept, hown,
      isDirectory_of_canList (hopened [] List.nil_prefix), hne, hkeptBelow, hplace ▸ h.there,
      hplace ▸ h.noDirectory, h.noLink, hopened⟩
  · rintro ⟨hopened, hkept, -, -, h⟩
    refine ⟨List.cons_ne_nil n ns, List.forall_mem_cons.mpr ⟨hkept, h.kept⟩, hplace ▸ h.there,
      hplace ▸ h.noDirectory, h.noLink, fun ms hms => ?_⟩
    rw [hlast] at hms
    cases ms with
    | nil => exact hopened
    | cons m ms =>
      obtain ⟨rfl, hbelow⟩ := List.cons_prefix_cons.mp hms
      exact h.opened ms hbelow

/-- The walk finds what is to be listed, as far as it goes down. -/
theorem mem_namesBelow_iff (hfs : fs.IsKept) (hdepth : ns.length ≤ depth) :
    ns ∈ namesBelow fs excludes depth p l ↔ IsListed fs excludes p l ns := by
  induction ns generalizing depth p l with
  | nil =>
    exact iff_of_false (fun h => ne_nil_of_mem_namesBelow h rfl) fun h => h.filled rfl
  | cons n ns ih =>
    obtain ⟨depth, rfl⟩ := Nat.exists_eq_add_of_le' (Nat.lt_of_lt_of_le (Nat.zero_lt_succ _) hdepth)
    by_cases hne : ns = []
    · rw [hne, singleton_mem_namesBelow_iff, isListed_singleton_iff]
    · rw [cons_mem_namesBelow_iff hne, isListed_cons_iff hfs hne, ih (Nat.le_of_succ_le_succ hdepth)]

/-- The order of files by their names from a directory on: the files in it come first, then those in
its directories, each by code points. -/
inductive Before : List Text → List Text → Prop where
  | file {a b : Text} : a < b → Before [a] [b]
  | fileFirst {a d m : Text} {ms : List Text} : Before [a] (d :: m :: ms)
  | directory {c d m n : Text} {ms ns : List Text} : c < d → Before (c :: m :: ms) (d :: n :: ns)
  | inside {d : Text} {ms ns : List Text} : Before ms ns → Before (d :: ms) (d :: ns)

theorem not_before_self (ns : List Text) : ¬Before ns ns := by
  intro h
  induction ns with
  | nil => cases h
  | cons n ns ih =>
    cases h with
    | file h | directory h => exact lt_irrefl _ h
    | inside h => exact ih h

theorem Before.directories {c d : Text} (h : c < d) (hms : ms ≠ []) (hns : ns ≠ []) :
    Before (c :: ms) (d :: ns) := by
  obtain ⟨m, ms, rfl⟩ := List.exists_cons_of_ne_nil hms
  obtain ⟨n, ns, rfl⟩ := List.exists_cons_of_ne_nil hns
  exact .directory h

theorem pairwise_namesIn (hfs : fs.IsKept) (excludes : List Text) (l : Location) :
    (namesIn fs excludes l).Pairwise (· < ·) := by
  have hle : (namesIn fs excludes l).Pairwise (· ≤ ·) := Text.pairwise_mergeSort _
  have hnodup : (namesIn fs excludes l).Nodup :=
    (List.mergeSort_perm _ _).nodup_iff.mpr ((FileSystem.nodup_children hfs l).filter _)
  exact (hle.and hnodup).imp fun h => lt_of_le_of_ne h.1 h.2

theorem pairwise_namesBelow (hfs : fs.IsKept) (excludes : List Text) (depth : Nat) (p : Path)
    (l : Location) : (namesBelow fs excludes depth p l).Pairwise Before := by
  induction depth generalizing p l with
  | zero => exact .nil
  | succ depth ih =>
    have hsorted := pairwise_namesIn hfs excludes l
    rw [namesBelow]
    dsimp only
    split
    · exact .nil
    rw [List.pairwise_append, List.pairwise_map, List.pairwise_flatMap]
    refine ⟨(hsorted.filter _).imp .file, ⟨fun d _ => ?_, ?_⟩, ?_⟩
    · rw [List.pairwise_map]
      exact (ih _ _).imp .inside
    · refine (hsorted.filter _).imp fun h ms hms ns hns => ?_
      obtain ⟨ms, hin, rfl⟩ := List.mem_map.mp hms
      obtain ⟨ns, hin', rfl⟩ := List.mem_map.mp hns
      exact .directories h (ne_nil_of_mem_namesBelow hin) (ne_nil_of_mem_namesBelow hin')
    · intro ms hms ns hns
      obtain ⟨a, -, rfl⟩ := List.mem_map.mp hms
      obtain ⟨d, -, hns⟩ := List.mem_flatMap.mp hns
      obtain ⟨ns, hin, rfl⟩ := List.mem_map.mp hns
      obtain ⟨n, ns, rfl⟩ := List.exists_cons_of_ne_nil (ne_nil_of_mem_namesBelow hin)
      exact .fileFirst

/-- What stands at these names below the root is to be listed. -/
def Lists (project : Project) (fs : FileSystem) (ns : List Text) : Prop :=
  ∃ l, fs.locate project.root true = .ok l ∧
    IsListed fs project.settings.excludes project.root l ns

/-- The names of the files of a project, in the order of the walk. -/
def walk (project : Project) (fs : FileSystem) : List (List Text) :=
  match fs.locate project.root true with
  | .ok l => namesBelow fs project.settings.excludes (fs.entries.length + 1) project.root l
  | .error _ => []

variable {project : Project}

theorem allFiles_eq_map (project : Project) (fs : FileSystem) :
    project.allFiles fs = (project.walk fs).map (descend project.root) := by
  unfold allFiles walk
  cases fs.locate project.root true with
  | ok l => exact filesBelow_eq_map fs _ _ _ _
  | error => rfl

theorem pairwise_walk (hfs : fs.IsKept) (project : Project) :
    (project.walk fs).Pairwise Before := by
  unfold walk
  split
  · exact pairwise_namesBelow hfs _ _ _ _
  · exact .nil

theorem mem_walk_iff (hfs : fs.IsKept) : ns ∈ project.walk fs ↔ project.Lists fs ns := by
  unfold walk Lists
  cases fs.locate project.root true with
  | error => simp
  | ok l =>
    simp only [Except.ok.injEq, exists_eq_left']
    by_cases hdepth : ns.length ≤ fs.entries.length + 1
    · exact mem_namesBelow_iff hfs hdepth
    · refine iff_of_false (mt length_le_of_mem_namesBelow hdepth) fun h => hdepth ?_
      exact Nat.le_succ_of_le (FileSystem.length_le_of_entryAt? hfs h.there)

theorem Lists.forall_name (h : project.Lists fs ns) (hfs : fs.IsKept) : ∀ n ∈ ns, Path.Name n := by
  obtain ⟨l, -, hlisted⟩ := h
  exact fun n hn => (hfs.fileName hlisted.there hn).toName

theorem Lists.ne_nil (h : project.Lists fs ns) : ns ≠ [] := by
  obtain ⟨l, -, hlisted⟩ := h
  exact hlisted.filled

/-- The suffix is one of these, which may be written with dots in front and in any case. -/
def HasSuffix (suffixes : List Text) (ns : List Text) : Prop :=
  ∃ s ∈ suffixes, Text.lower (Path.suffix (Text.joinWith ['/'] ns)) =
    Text.lower (s.dropWhile (· = '.'))

instance (suffixes ns : List Text) : Decidable (HasSuffix suffixes ns) :=
  inferInstanceAs (Decidable (∃ s ∈ suffixes, _))

theorem hasSuffixOf_eq (suffixes : List Text) (p : Path) : hasSuffixOf suffixes p =
    decide (∃ s ∈ suffixes, Text.lower (Path.suffix p) = Text.lower (s.dropWhile (· = '.'))) := by
  rw [hasSuffixOf, Bool.eq_iff_iff, List.contains_iff_mem, List.mem_map, decide_eq_true_eq]
  exact exists_congr fun s => and_congr_right fun _ => eq_comm

/-- For every tree and every project: its files are listed by a walk that goes through the files of
a directory before those of its directories, each in order, and that comes to the files to be listed
and to no others. The relative paths are the names alone, the full ones have the root in front, and
the files of some suffixes are a part of the walk. -/
theorem allFiles_lists {fs₀ : FileSystem} {root : Path} {settings : Settings}
    (hworkDir : Path.isAbsolute fs₀.workDir = true)
    (hnew : Project.new fs₀ root settings = .ok project) (hfs : fs.IsKept) :
    ∃ walk : List (List Text), walk.Pairwise Before ∧ (∀ ns, ns ∈ walk ↔ project.Lists fs ns) ∧
      project.allFiles fs = walk.map (descend project.root) ∧ (project.allFiles fs).Nodup ∧
      project.relativeFiles fs = walk.map (Text.joinWith ['/']) ∧
      project.allFiles fs = (project.relativeFiles fs).map (Path.join project.root) ∧
      ∀ suffixes : List Text,
        project.filesWithSuffixes fs suffixes =
          (walk.filter (HasSuffix suffixes ·)).map (descend project.root) ∧
        project.relativeFilesWithSuffixes fs suffixes =
          (walk.filter (HasSuffix suffixes ·)).map (Text.joinWith ['/']) := by
  have hroot : Path.isAbsolute project.root = true := by
    rw [eq_of_new hnew]
    exact Path.isAbsolute_absolute hworkDir root
  have hmem : ∀ ns, ns ∈ project.walk fs ↔ project.Lists fs ns := fun _ => mem_walk_iff hfs
  have hordered := pairwise_walk hfs project
  have hname : ∀ ns ∈ project.walk fs, ∀ n ∈ ns, Path.Name n := fun ns hns =>
    ((hmem ns).mp hns).forall_name hfs
  have hfilled : ∀ ns ∈ project.walk fs, ns ≠ [] := fun ns hns => ((hmem ns).mp hns).ne_nil
  have hall := allFiles_eq_map project fs
  have hrelative : project.relativeFiles fs = (project.walk fs).map (Text.joinWith ['/']) := by
    rw [relativeFiles, hall, List.map_map]
    exact List.map_congr_left fun ns hns =>
      Path.relativeTo_descend hroot (hname ns hns) (hfilled ns hns)
  have hnodup : (project.walk fs).Nodup := by
    rw [List.Nodup]
    refine hordered.imp fun {ms ns} h heq => ?_
    exact not_before_self ns (heq ▸ h)
  refine ⟨project.walk fs, hordered, hmem, hall, ?_, hrelative, ?_, fun suffixes => ⟨?_, ?_⟩⟩
  · rw [hall]
    exact hnodup.map_on fun ms hms ns hns heq =>
      (Path.descend_inj hroot (hname ms hms) (hname ns hns)).mp heq
  · rw [hall, hrelative, List.map_map]
    exact List.map_congr_left fun ns hns =>
      Path.descend_eq_join hroot (hname ns hns) (hfilled ns hns)
  · rw [filesWithSuffixes, hall, List.filter_map]
    refine congrArg _ (List.filter_congr fun ns hns => ?_)
    rw [Function.comp_apply, hasSuffixOf_eq, Path.suffix_descend (hname ns hns) (hfilled ns hns)]
    rfl
  · rw [relativeFilesWithSuffixes, hrelative, List.filter_map]
    refine congrArg _ (List.filter_congr fun ns _ => ?_)
    rw [Function.comp_apply, hasSuffixOf_eq]
    rfl

def linkedTree : FileSystem where
  entries := [(["c.c".toList], .file [] {}), ([['d']], .directory), ([['l']], .link ['d']),
    (["x.tmp".toList], .file [] {}), ([['d'], "b.H".toList], .file [] {})]
  workDir := ['/']
  home := ['/']

def linkedProject : Project := ⟨['/'], .standard, [], none⟩

theorem allFiles_lists_linked :
    Path.isAbsolute linkedTree.workDir = true ∧
      Project.new linkedTree ['/'] .standard = .ok linkedProject ∧ linkedTree.IsKept ∧
      ∃ walk : List (List Text), walk.Pairwise Before ∧
        (∀ ns, ns ∈ walk ↔ linkedProject.Lists linkedTree ns) ∧
        walk.map (descend ['/']) = ["/c.c".toList, "/d/b.H".toList] := by
  have hnew : Project.new linkedTree ['/'] .standard = .ok linkedProject := by rfl
  have hkept : linkedTree.IsKept := by decide +kernel
  have hnames : namesIn linkedTree Settings.standard.excludes [] = ["c.c".toList, ['d'], ['l']] :=
    List.mergeSort_of_pairwise (by decide +kernel)
  have hfiles : linkedProject.allFiles linkedTree = ["/c.c".toList, "/d/b.H".toList] := by
    change filesBelow linkedTree Settings.standard.excludes 6 ['/'] [] = _
    rw [filesBelow, ← namesIn, hnames]
    decide +kernel
  obtain ⟨walk, hordered, hmem, hall, -⟩ := allFiles_lists rfl hnew hkept
  exact ⟨rfl, hnew, hkept, walk, hordered, hmem, hall.symm.trans hfiles⟩

def deepTree : FileSystem where
  entries := (List.range 16).map (fun k => (List.replicate (k + 1) longName, .directory)) ++
    [(deepFile, .file [] {})]
  workDir := ['/']
  home := ['/']
where
  longName : Text := List.replicate 255 'd'
  deepFile : Location := List.replicate 16 longName ++ [['f']]

def deepProject : Project := ⟨['/'], ⟨[], []⟩, [], none⟩

/-- The path of the last directory is longer than a path may be, so the file in it is not found. -/
theorem allFiles_misses_deep_file :
    Project.new deepTree ['/'] ⟨[], []⟩ = .ok deepProject ∧ deepTree.IsKept ∧
      deepTree.entryAt? deepTree.deepFile = some (.file [] {}) ∧
      deepProject.settings.excludes = [] ∧
      descend ['/'] deepTree.deepFile ∉ deepProject.allFiles deepTree := by
  have hkept : deepTree.IsKept := by decide +kernel
  refine ⟨rfl, hkept, by decide +kernel, rfl, fun hin => ?_⟩
  rw [allFiles_eq_map] at hin
  obtain ⟨ns, hns, -⟩ := List.mem_map.mp hin
  obtain ⟨l, hl, hlisted⟩ := (mem_walk_iff hkept).mp hns
  obtain rfl : [] = l := Except.ok.inj hl
  obtain ⟨e, he⟩ := Option.ne_none_iff_exists'.mp hlisted.there
  have htooLong : ∀ x ∈ deepTree.entries, x.2 = .directory ∨
      FileSystem.longestPath < (Utf8.encode (descend ['/'] x.1.dropLast)).length := by
    decide +kernel
  have hentry := he
  rw [List.nil_append, FileSystem.entryAt?_of_ne_nil hlisted.filled] at hentry
  rcases htooLong _ (Table.mem_of_get? hentry) with rfl | hlong
  · exact FileSystem.isDirAt_eq_false_iff.mp hlisted.noDirectory _ he
  · obtain ⟨m, hm, -⟩ := FileSystem.isDirectory_iff.mp
      (isDirectory_of_canList (hlisted.opened _ List.prefix_rfl))
    exact Nat.not_le_of_gt hlong (FileSystem.locate_eq_ok_iff.mp hm).1.short

end Project

end SourceEdit
