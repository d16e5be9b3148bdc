import Mathlib.Data.List.Infix
import SourceEdit.Proofs.CacheSymmetry
import SourceEdit.Proofs.CounterpartKinds
import SourceEdit.Proofs.OpenDocuments
import SourceEdit.Proofs.Runs
import SourceEdit.Proofs.SparedFiles

/-!
Whether the counterparts in the cache are still there. A search finds files, a new file takes none
away, and what is dropped for a removed or renamed file is its own pair. So a counterpart is out of
date exactly when a path that leads to a file no more stays in the cache, and that happens as soon as
it is the counterpart of two files and leads back to one.
-/

set_option autoImplicit false

namespace SourceEdit

namespace Path

variable {p q : Path}

theorem isAbsolute_of_prefix (h : isAbsolute q = true) (hp : p <+: q) (hne : p ≠ []) :
    isAbsolute p = true := by
  obtain ⟨rest, rfl⟩ := hp
  obtain ⟨c, p, rfl⟩ := List.exists_cons_of_ne_nil hne
  simpa [isAbsolute] using h

theorem isAbsolute_dirName (h : isAbsolute p = true) : isAbsolute (dirName p) = true := by
  have hslash : '/' ∈ p.dropEndWhile (· ≠ '/') := by
    have hmem : '/' ∈ p := by
      rw [isAbsolute, decide_eq_true_eq] at h
      exact List.mem_of_mem_head? h
    rw [← Text.dropEndWhile_append_takeEndWhile p (· ≠ '/')] at hmem
    exact (List.mem_append.mp hmem).resolve_right fun hin =>
      absurd (Text.mem_takeEndWhile_imp hin) (by decide)
  have hhead : isAbsolute (p.dropEndWhile (· ≠ '/')) = true :=
    isAbsolute_of_prefix h ⟨_, Text.dropEndWhile_append_takeEndWhile p (· ≠ '/')⟩
      (List.ne_nil_of_mem hslash)
  unfold dirName
  dsimp only
  split
  · exact hhead
  · next hall =>
    refine isAbsolute_of_prefix hhead
      ⟨_, Text.dropEndWhile_append_takeEndWhile _ (· = '/')⟩ fun hnil => hall ?_
    have hwhole := Text.dropEndWhile_append_takeEndWhile (p.dropEndWhile (· ≠ '/')) (· = '/')
    rw [hnil, List.nil_append] at hwhole
    rw [← hwhole, List.all_eq_true]
    exact fun c hc => Text.mem_takeEndWhile_imp hc

end Path

namespace Counterpart

variable {fs : FileSystem} {settings : Settings} {index : List Text → List Path} {p q : Path}

theorem isAbsolute_of_search? (hp : Path.isAbsolute p = true)
    (hindex : ∀ suffixes, ∀ r ∈ index suffixes, Path.isAbsolute r = true)
    (h : search? fs settings index p = some q) : Path.isAbsolute q = true := by
  unfold search? at h
  dsimp only at h
  split at h
  · next r hsibling =>
    obtain rfl := Option.some.inj h
    obtain ⟨n, -, rfl⟩ := List.mem_map.mp (List.mem_of_find?_eq_some hsibling)
    exact Path.isAbsolute_join (Path.isAbsolute_dirName hp) n
  · rcases closest_mem h with hnone | hmem
    · contradiction
    · exact hindex _ q (List.mem_filter.mp hmem).1

end Counterpart

theorem Project.isAbsolute_of_filesBelow {fs : FileSystem} {excludes : List Text} {depth : Nat}
    {p q : Path} {l : Location} (hp : Path.isAbsolute p = true)
    (h : q ∈ filesBelow fs excludes depth p l) : Path.isAbsolute q = true := by
  induction depth generalizing p l with
  | zero => exact absurd h List.not_mem_nil
  | succ depth ih =>
    rw [filesBelow] at h
    dsimp only at h
    split at h
    · exact absurd h List.not_mem_nil
    rcases List.mem_append.mp h with hfile | hbelow
    · obtain ⟨n, -, rfl⟩ := List.mem_map.mp hfile
      exact Path.isAbsolute_join hp n
    · obtain ⟨n, -, hin⟩ := List.mem_flatMap.mp hbelow
      exact ih (Path.isAbsolute_join hp n) hin

theorem Project.isAbsolute_of_filesWithSuffixes {project : Project} {fs : FileSystem}
    {suffixes : List Text} {q : Path} (hroot : Path.isAbsolute project.root = true)
    (h : q ∈ project.filesWithSuffixes fs suffixes) : Path.isAbsolute q = true := by
  have hall := (List.mem_filter.mp h).1
  unfold allFiles at hall
  split at hall
  · exact isAbsolute_of_filesBelow hroot hall
  · contradiction

namespace CounterpartCache

/-- What is left when a pair is dropped, whether or not the two lead back to each other. -/
theorem get?_invalidate_eq (c : CounterpartCache) (p r : Path) :
    (c.invalidate p).get? r =
      if p = r ∨ c.get? p = some r ∧ c.get? r = some p then none else c.get? r := by
  unfold invalidate
  cases hp : c.get? p with
  | none =>
    by_cases hpr : p = r
    · rw [if_pos (.inl hpr), ← hpr, hp]
    · rw [if_neg (by simp [hpr])]
  | some q =>
    have hdropped : (c.drop p).get? q = some p ↔ p ≠ q ∧ c.get? q = some p := by
      rw [get?_drop]
      split <;> simp_all
    dsimp only
    by_cases hback : p ≠ q ∧ c.get? q = some p
    · rw [if_pos (hdropped.mpr hback), get?_drop, get?_drop]
      grind
    · rw [if_neg (mt hdropped.mp hback), get?_drop]
      grind

end CounterpartCache

namespace Editor

/-- What happens to the files of a project: a counterpart is asked for, or a file is created, removed
or renamed, which is then reported. -/
inductive Turn where
  | asked (p : Path)
  | created (p : Path) (content : Octets)
  | removed (p : Path)
  | renamed (old new : Path)

def turn (e : Editor) : Turn → Editor
  | .asked p => (e.resolve p).1
  | .created p content =>
    match (e.fs.makeParents p).1.write p content with
    | .ok fs => fileCreated { e with fs := fs } p
    | .error _ => e
  | .removed p =>
    match e.fs.remove p with
    | .ok fs => fileRemoved { e with fs := fs } p
    | .error _ => e
  | .renamed old new =>
    match e.fs.move old new with
    | .ok fs => fileRenamed { e with fs := fs } old new
    | .error _ => e

def turns (e : Editor) (ts : List Turn) : Editor := ts.foldl turn e

/-- The counterparts in the cache are files that are there. -/
def Current (e : Editor) : Prop := ∀ p q, e.cache.get? p = some q → e.fs.isFile q = true

/-- A search is for a file and finds one. A path that leads to a file no more after a removal or a
renaming is not the counterpart of any file but those whose entries are dropped or replaced. -/
def Keeps (e : Editor) : Turn → Prop
  | .asked p => ∀ q, (e.cache.get? (e.absolute p)).filter (!·.isEmpty) = none →
      Counterpart.search? e.fs e.settings e.index (e.absolute p) = some q →
      e.fs.isFile (e.absolute p) = true ∧ e.fs.isFile q = true
  | .created _ _ => True
  | .removed p => ∀ fs, e.fs.remove p = .ok fs →
      ∀ r s, e.cache.get? r = some s → fs.isFile s = false →
        r = e.absolute p ∨ s = e.absolute p ∧ e.cache.get? s = some r
  | .renamed old new => ∀ fs, e.fs.move old new = .ok fs →
      (∀ q, e.cache.get? (e.absolute old) = some q →
        fs.isFile (e.absolute new) = true ∧ fs.isFile q = true) ∧
      ∀ r s, e.cache.get? r = some s → fs.isFile s = false → r = e.absolute old ∨
        ∃ q, e.cache.get? (e.absolute old) = some q ∧ (r = q ∨ r = e.absolute new)

def KeepsAll (e : Editor) : List Turn → Prop
  | [] => True
  | t :: ts => e.Keeps t ∧ (e.turn t).KeepsAll ts

/-- The working directory, the project and all counterparts in the cache are absolute paths. -/
structure Anchored (e : Editor) : Prop where
  workDir : Path.isAbsolute e.fs.workDir = true
  root : ∀ project, e.project = some project → Path.isAbsolute project.root = true
  cached : ∀ p q, e.cache.get? p = some q → Path.isAbsolute q = true

variable {e : Editor} {fs : FileSystem} {p q : Path}

theorem Anchored.index (h : e.Anchored) (suffixes : List Text) :
    ∀ r ∈ e.index suffixes, Path.isAbsolute r = true := by
  intro r hr
  unfold Editor.index at hr
  split at hr
  · contradiction
  · next project hproject => exact Project.isAbsolute_of_filesWithSuffixes (h.root project hproject) hr

theorem Anchored.search? (h : e.Anchored)
    (hq : Counterpart.search? e.fs e.settings e.index (e.absolute p) = some q) :
    Path.isAbsolute q = true :=
  Counterpart.isAbsolute_of_search? (Path.isAbsolute_absolute h.workDir p) h.index hq

theorem absolute_withFiles (hfs : fs.workDir = e.fs.workDir) (p : Path) :
    Editor.absolute { e with fs := fs } p = e.absolute p := by
  rw [absolute, absolute, ← hfs]

theorem resolve_cases (e : Editor) (p : Path) :
    ((e.resolve p).1 = e ∧
      (∀ q, (e.resolve p).2 = some q → e.cache.get? (e.absolute p) = some q) ∧
      ∀ q, (e.cache.get? (e.absolute p)).filter (!·.isEmpty) = none →
        Counterpart.search? e.fs e.settings e.index (e.absolute p) ≠ some q) ∨
    ∃ q, (e.cache.get? (e.absolute p)).filter (!·.isEmpty) = none ∧
      Counterpart.search? e.fs e.settings e.index (e.absolute p) = some q ∧
      (e.resolve p).2 = some q ∧
      (e.resolve p).1 = { e with cache := e.cache.insert (e.absolute p) q } := by
  unfold resolve
  rcases Counterpart.resolve_cases e.fs e.settings e.index e.cache p with
    ⟨q, hget, hfilled, heq⟩ | ⟨q, hcached, hfound, heq⟩ | ⟨-, hnone, heq⟩
  · rw [heq]
    refine .inl ⟨rfl, fun q' hq' => hget.trans hq', fun q' hnone => ?_⟩
    rw [absolute, hget] at hnone
    simp [hfilled] at hnone
  · rw [heq]
    exact .inr ⟨q, hcached, hfound, rfl, rfl⟩
  · rw [heq]
    refine .inl ⟨rfl, fun q' hq' => by contradiction, fun q' _ hq' => ?_⟩
    rw [absolute, hnone] at hq'
    contradiction

theorem current_insert_iff (h : e.Current) (p q : Path) :
    Current { e with cache := e.cache.insert p q } ↔
      e.fs.isFile p = true ∧ e.fs.isFile q = true := by
  have hget := CounterpartCache.get?_insert_pair e.cache p q
  constructor
  · intro hnew
    have hp : e.fs.isFile p = true := hnew q p (by rw [hget, if_pos rfl])
    refine ⟨hp, ?_⟩
    by_cases hqp : q = p
    · rwa [hqp]
    · exact hnew p q (by rw [hget, if_neg hqp, if_pos rfl])
  · rintro ⟨hp, hq⟩ r s hr
    replace hr : (e.cache.insert p q).get? r = some s := hr
    rw [hget] at hr
    split at hr
    · obtain rfl := Option.some.inj hr
      exact hp
    · split at hr
      · obtain rfl := Option.some.inj hr
        exact hq
      · exact h r s hr

theorem current_asked_iff (h : e.Current) (p : Path) :
    (e.turn (.asked p)).Current ↔ e.Keeps (.asked p) := by
  rw [turn, Keeps]
  rcases e.resolve_cases p with ⟨heq, -, hnone⟩ | ⟨q, hcached, hfound, -, heq⟩
  · rw [heq]
    exact iff_of_true h fun q hcached hfound => absurd hfound (hnone q hcached)
  · rw [heq, current_insert_iff h]
    constructor
    · intro hfiles q' _ hfound'
      rw [hfound] at hfound'
      obtain rfl := Option.some.inj hfound'
      exact hfiles
    · exact fun hkeeps => hkeeps q hcached hfound

theorem Current.created (h : e.Current) (hanchored : e.Anchored) (p : Path) (content : Octets) :
    (e.turn (.created p content)).Current := by
  rw [turn]
  split
  · next fs hwrite =>
    intro r s hr
    replace hr : (e.cache.fileCreated (Path.absolute fs.workDir p)).get? r = some s := hr
    rw [CounterpartCache.get?_fileCreated] at hr
    split at hr
    · contradiction
    · have hspares : FileSystem.Spares e.fs fs :=
        (FileSystem.Spares.of_makeDirectories _ e.fs _).trans (.of_write hwrite)
      exact hspares.isFile (hanchored.cached r s hr) (h r s hr)
  · exact h

theorem current_removed_iff (h : e.Current) (p : Path) :
    (e.turn (.removed p)).Current ↔ e.Keeps (.removed p) := by
  rw [turn, Keeps]
  cases hremove : e.fs.remove p with
  | error => exact iff_of_true h fun _ hfs => by contradiction
  | ok fs =>
    have hcache : (fileRemoved { e with fs := fs } p).cache = e.cache.invalidate (e.absolute p) := by
      rw [← absolute_withFiles (FileSystem.workDir_remove hremove) p]
      rfl
    have hget := e.cache.get?_invalidate_eq (e.absolute p)
    constructor
    · intro hnew fs' hfs' r s hr hgone
      obtain rfl := Except.ok.inj hfs'
      by_contra hout
      refine Bool.eq_false_iff.mp hgone (hnew r s ?_)
      rw [hcache, hget, if_neg, hr]
      rintro (rfl | ⟨hback, hlead⟩)
      · exact hout (.inl rfl)
      · obtain rfl : s = e.absolute p := Option.some.inj (hr.symm.trans hlead)
        exact hout (.inr ⟨rfl, hback⟩)
    · intro hkeeps r s hr
      rw [hcache, hget] at hr
      split at hr
      · contradiction
      · next hout =>
        by_contra hgone
        rcases hkeeps fs rfl r s hr (Bool.eq_false_iff.mpr hgone) with rfl | ⟨rfl, hback⟩
        · exact hout (.inl rfl)
        · exact hout (.inr ⟨hback, hr⟩)

theorem fileRenamed_cache (e : Editor) (old new : Path) : (e.fileRenamed old new).cache =
    e.cache.rename (e.absolute old) (e.absolute new) := by
  unfold fileRenamed
  dsimp only
  split
  · rfl
  · split <;> rfl

theorem fileRenamed_fs (e : Editor) (old new : Path) : (e.fileRenamed old new).fs = e.fs := by
  unfold fileRenamed
  dsimp only
  split
  · rfl
  · split <;> rfl

theorem current_renamed_iff (h : e.Current) (old new : Path) :
    (e.turn (.renamed old new)).Current ↔ e.Keeps (.renamed old new) := by
  rw [turn, Keeps]
  cases hmove : e.fs.move old new with
  | error => exact iff_of_true h fun _ hfs => by contradiction
  | ok fs =>
    have hcache : (fileRenamed { e with fs := fs } old new).cache =
        e.cache.rename (e.absolute old) (e.absolute new) := by
      have hdir := FileSystem.workDir_move hmove
      rw [fileRenamed_cache, absolute_withFiles hdir, absolute_withFiles hdir]
    simp only [Current, hcache, fileRenamed_fs, Except.ok.injEq, forall_eq']
    cases hold : e.cache.get? (e.absolute old) with
    | none =>
      have hsame : e.cache.rename (e.absolute old) (e.absolute new) = e.cache := by
        rw [CounterpartCache.rename, hold]
      rw [hsame]
      constructor
      · refine fun hnew => ⟨fun q hq => by contradiction, fun r s hr hgone => ?_⟩
        exact absurd (hnew r s hr) (Bool.eq_false_iff.mp hgone)
      · rintro ⟨-, hkeeps⟩ r s hr
        by_contra hgone
        rcases hkeeps r s hr (Bool.eq_false_iff.mpr hgone) with rfl | ⟨q, hq, -⟩
        · rw [hold] at hr
          contradiction
        · contradiction
    | some q =>
      have hget := CounterpartCache.get?_rename hold (e.absolute new)
      constructor
      · intro hnew
        have hfile : fs.isFile (e.absolute new) = true := hnew q _ (by rw [hget, if_pos rfl])
        refine ⟨?_, fun r s hr hgone => ?_⟩
        · rintro _ ⟨⟩
          refine ⟨hfile, ?_⟩
          by_cases hq : q = e.absolute new
          · rwa [hq]
          · exact hnew (e.absolute new) q (by rw [hget, if_neg hq, if_pos rfl])
        · by_contra hout
          simp only [Option.some.injEq, exists_eq_left', not_or] at hout
          refine Bool.eq_false_iff.mp hgone (hnew r s ?_)
          rw [hget, if_neg (Ne.symm hout.2.1), if_neg (Ne.symm hout.2.2),
            if_neg (Ne.symm hout.1), hr]
      · rintro ⟨hfiles, hkeeps⟩ r s hr
        obtain ⟨hfile, hq⟩ := hfiles q rfl
        rw [hget] at hr
        split at hr
        · obtain rfl := Option.some.inj hr
          exact hfile
        · split at hr
          · obtain rfl := Option.some.inj hr
            exact hq
          · split at hr
            · contradiction
            · next hqr hnew hold =>
              by_contra hgone
              rcases hkeeps r s hr (Bool.eq_false_iff.mpr hgone) with rfl | ⟨q', hq', rfl | rfl⟩
              · exact hold rfl
              · exact hqr (Option.some.inj hq')
              · exact hnew rfl

theorem root_of_closeFile (h : ∀ project, e.project = some project →
    Path.isAbsolute project.root = true) (p : Path) :
    ∀ project, (e.closeFile p).project = some project → Path.isAbsolute project.root = true := by
  intro closed hclosed
  obtain ⟨project, hproject, rfl⟩ := Option.map_eq_some_iff.mp hclosed
  rw [Project.root_close]
  exact h project hproject

theorem root_of_fileRenamed (h : ∀ project, e.project = some project →
    Path.isAbsolute project.root = true) (old new : Path) :
    ∀ project, (e.fileRenamed old new).project = some project →
      Path.isAbsolute project.root = true := by
  intro renamed hrenamed
  have hroot := root_fileRenamed e old new
  rw [hrenamed] at hroot
  obtain ⟨project, hproject, (hsame : project.root = renamed.root)⟩ :=
    Option.map_eq_some_iff.mp hroot.symm
  rw [← hsame]
  exact h project hproject

theorem Anchored.turn (h : e.Anchored) (t : Turn) : (e.turn t).Anchored := by
  cases t with
  | asked p =>
    rw [Editor.turn]
    rcases e.resolve_cases p with ⟨heq, -, -⟩ | ⟨q, -, hfound, -, heq⟩
    · rwa [heq]
    · rw [heq]
      refine ⟨h.workDir, h.root, fun r s hr => ?_⟩
      replace hr : (e.cache.insert (e.absolute p) q).get? r = some s := hr
      rw [CounterpartCache.get?_insert_pair] at hr
      split at hr
      · obtain rfl := Option.some.inj hr
        exact Path.isAbsolute_absolute h.workDir p
      · split at hr
        · obtain rfl := Option.some.inj hr
          exact h.search? hfound
        · exact h.cached r s hr
  | created p content =>
    rw [Editor.turn]
    split
    · next fs hwrite =>
      have hdir := (FileSystem.workDir_write hwrite).trans (FileSystem.workDir_makeDirectories _ _ _)
      refine ⟨hdir ▸ h.workDir, h.root, fun r s hr => ?_⟩
      replace hr : (e.cache.fileCreated (Path.absolute fs.workDir p)).get? r = some s := hr
      rw [CounterpartCache.get?_fileCreated] at hr
      split at hr
      · contradiction
      · exact h.cached r s hr
    · exact h
  | removed p =>
    rw [Editor.turn]
    split
    · next fs hremove =>
      refine ⟨FileSystem.workDir_remove hremove ▸ h.workDir,
        root_of_closeFile (e := { e with fs := fs, cache := _ }) h.root p, fun r s hr => ?_⟩
      replace hr : (e.cache.invalidate (Path.absolute fs.workDir p)).get? r = some s := hr
      rw [CounterpartCache.get?_invalidate_eq] at hr
      split at hr
      · contradiction
      · exact h.cached r s hr
    · exact h
  | renamed old new =>
    rw [Editor.turn]
    split
    · next fs hmove =>
      have hdir := FileSystem.workDir_move hmove
      refine ⟨?_, root_of_fileRenamed (e := { e with fs := fs }) h.root old new, fun r s hr => ?_⟩
      · rw [fileRenamed_fs]
        exact hdir ▸ h.workDir
      · rw [fileRenamed_cache, absolute_withFiles hdir, absolute_withFiles hdir] at hr
        cases hold : e.cache.get? (e.absolute old) with
        | none =>
          rw [CounterpartCache.rename, hold] at hr
          exact h.cached r s hr
        | some q =>
          rw [CounterpartCache.get?_rename hold] at hr
          split at hr
          · obtain rfl := Option.some.inj hr
            exact Path.isAbsolute_absolute h.workDir new
          · split at hr
            · obtain rfl := Option.some.inj hr
              exact h.cached _ _ hold
            · split at hr
              · contradiction
              · exact h.cached r s hr
    · exact h

theorem current_turn_iff (hanchored : e.Anchored) (h : e.Current) (t : Turn) :
    (e.turn t).Current ↔ e.Keeps t := by
  cases t with
  | asked p => exact current_asked_iff h p
  | created p content => exact iff_of_true (h.created hanchored p content) trivial
  | removed p => exact current_removed_iff h p
  | renamed old new => exact current_renamed_iff h old new

theorem isFile_of_resolve (h : (e.turn (.asked p)).Current) (hq : (e.resolve p).2 = some q) :
    e.fs.isFile q = true := by
  rw [turn] at h
  rcases e.resolve_cases p with ⟨heq, hcached, -⟩ | ⟨r, -, -, hanswer, heq⟩
  · rw [heq] at h
    exact h _ q (hcached q hq)
  · obtain rfl : r = q := Option.some.inj (hanswer.symm.trans hq)
    rw [heq] at h
    have hget := CounterpartCache.get?_insert_pair e.cache (e.absolute p) r (e.absolute p)
    rw [if_pos rfl] at hget
    split at hget
    · next heq =>
      have hfile : e.fs.isFile (e.absolute p) = true := h _ _ hget
      rwa [heq]
    · exact h _ r hget

/-- For every new project and every run of questions and reported changes of files: the counterparts in
the cache are files that are there in each state exactly as long as every turn keeps them so, and then
every answer is a file that is there. -/
theorem states_current_iff_keeps {fs : FileSystem} {root : Path} {settings : Settings}
    {project : Project} (hworkDir : Path.isAbsolute fs.workDir = true)
    (hnew : Project.new fs root settings = .ok project) (documents : List Document)
    (ts : List Turn) :
    let e : Editor := ⟨fs, documents, .empty, some project⟩
    ((∀ done, done <+: ts → (e.turns done).Current) ↔ e.KeepsAll ts) ∧
      (e.KeepsAll ts → ∀ done p q, done ++ [.asked p] <+: ts →
        ((e.turns done).resolve p).2 = some q → (e.turns done).fs.isFile q = true) := by
  intro e
  have hroot : Path.isAbsolute project.root = true := by
    unfold Project.new at hnew
    split at hnew
    · obtain rfl := Except.ok.inj hnew
      exact Path.isAbsolute_absolute hworkDir root
    · contradiction
  have hanchored : e.Anchored :=
    ⟨hworkDir, fun _ h => Option.some.inj h ▸ hroot, fun p q h => by contradiction⟩
  have hcurrent : e.Current := fun p q h => by contradiction
  have hstates : (∀ done, done <+: ts → (e.turns done).Current) ↔ e.KeepsAll ts :=
    forall_states_iff Editor.turn Anchored Current Keeps KeepsAll (fun _ => trivial)
      (fun _ _ _ => Iff.rfl) (fun s t _ hs => hs.turn t)
      (fun s t _ hs h => current_turn_iff hs h t) hanchored hcurrent
  refine ⟨hstates, fun hkeeps done p q hdone hq => ?_⟩
  have hlast := hstates.mpr hkeeps _ hdone
  rw [turns, List.foldl_append] at hlast
  exact isFile_of_resolve hlast hq

def sharedTree : FileSystem :=
  ⟨[([['a', '.', 'c']], .file [] {}), ([['a', '.', 'c', 'c']], .file [] {}),
    ([['a', '.', 'h']], .file [] {})], ['/'], ['/']⟩

def sharedEditor : Editor := ⟨sharedTree, [], .empty, some sampleProject⟩

def renamedHeader : List Turn :=
  [.asked ['/', 'a', '.', 'c'], .renamed ['/', 'a', '.', 'h'] ['/', 'b', '.', 'h'],
    .asked ['/', 'b', '.', 'h'], .created ['/', 'b', '.', 'c'] [], .removed ['/', 'a', '.', 'c']]

/-- The header is found for both sources. -/
theorem turn_asked_shared {p : Path} (hp : p = ['/', 'a', '.', 'c'] ∨ p = ['/', 'a', '.', 'c', 'c'])
    {c : CounterpartCache} (hnone : (c.get? p).filter (!·.isEmpty) = none) :
    ({ sharedEditor with cache := c } : Editor).turn (.asked p) =
      { sharedEditor with cache := c.insert p ['/', 'a', '.', 'h'] } := by
  have hplace : Path.absolute sharedTree.workDir p = p := by
    rcases hp with rfl | rfl <;> decide +kernel
  have hsibling : Counterpart.sibling? sharedTree p (Counterpart.candidates .standard p) =
      some ['/', 'a', '.', 'h'] := by
    rw [Counterpart.candidates, Settings.oppositeSuffixes_standard]
    rcases hp with rfl | rfl <;> decide +kernel
  have hresolve : ∀ index, Counterpart.resolve sharedTree .standard index c p =
      (c.insert p ['/', 'a', '.', 'h'], some ['/', 'a', '.', 'h']) := fun index => by
    simp only [Counterpart.resolve, hplace, hnone, Counterpart.search?, hsibling]
  exact congrArg (fun r : CounterpartCache × Option Path =>
    ({ sharedEditor with cache := r.1 } : Editor)) (hresolve _)

/-- The editor with the header of the first source found. -/
def pairedEditor : Editor :=
  { sharedEditor with
    cache := ⟨[(['/', 'a', '.', 'c'], ['/', 'a', '.', 'h']), (['/', 'a', '.', 'h'], ['/', 'a', '.', 'c'])]⟩ }

theorem turns_asked_shared (ts : List Turn) :
    sharedEditor.turns (.asked ['/', 'a', '.', 'c'] :: ts) = pairedEditor.turns ts :=
  congrArg (·.turns ts) (turn_asked_shared (.inl rfl) (by decide +kernel))

theorem renamed_header_current :
    Path.isAbsolute sharedTree.workDir = true ∧
      Project.new sharedTree ['/'] .standard = .ok sampleProject ∧
      sharedEditor.KeepsAll renamedHeader ∧
      ((sharedEditor.turns (renamedHeader.take 2)).resolve ['/', 'b', '.', 'h']).2 =
        some ['/', 'a', '.', 'c'] ∧
      (sharedEditor.turns (renamedHeader.take 2)).fs.isFile ['/', 'a', '.', 'c'] = true := by
  have hnew : Project.new sharedTree ['/'] .standard = .ok sampleProject := by rfl
  obtain ⟨hstates, hanswers⟩ := states_current_iff_keeps rfl hnew [] renamedHeader
  have hfiles : (renamedHeader.tail.inits.all fun done => (pairedEditor.turns done).cache.entries.all
      fun x => (pairedEditor.turns done).fs.isFile x.2) = true := by decide +kernel
  have hcurrent : ∀ done, done <+: renamedHeader → (sharedEditor.turns done).Current := by
    intro done hdone p q hq
    rcases List.prefix_cons_iff.mp hdone with rfl | ⟨rest, rfl, hrest⟩
    · contradiction
    · rw [turns_asked_shared] at hq ⊢
      have hdone := List.all_eq_true.mp hfiles rest ((List.mem_inits _ _).mpr hrest)
      exact List.all_eq_true.mp hdone _ (Table.mem_of_get? hq)
  have hkeeps : sharedEditor.KeepsAll renamedHeader := hstates.mp hcurrent
  have hturns : sharedEditor.turns (renamedHeader.take 2) =
      pairedEditor.turns (renamedHeader.tail.take 1) := turns_asked_shared _
  have hanswer : ((sharedEditor.turns (renamedHeader.take 2)).resolve ['/', 'b', '.', 'h']).2 =
      some ['/', 'a', '.', 'c'] := by
    rw [hturns]
    decide +kernel
  exact ⟨rfl, hnew, hkeeps, hanswer,
    hanswers hkeeps _ _ _ (List.take_prefix 3 renamedHeader) hanswer⟩

/-- The header of two sources goes away, and the first one still has it as its counterpart. A renamed
header still has its source when that goes away, if a new file took the source out of the cache. -/
theorem not_current_shared_header :
    (let e := sharedEditor.turns [.asked ['/', 'a', '.', 'c'], .asked ['/', 'a', '.', 'c', 'c'],
      .removed ['/', 'a', '.', 'h']]
    e.fs.isFile ['/', 'a', '.', 'c'] = true ∧
      (e.resolve ['/', 'a', '.', 'c']).2 = some ['/', 'a', '.', 'h'] ∧
      e.fs.hasPath ['/', 'a', '.', 'h'] = false) ∧
    let e := sharedEditor.turns [.asked ['/', 'a', '.', 'c'],
      .renamed ['/', 'a', '.', 'h'] ['/', 'b', '.', 'h'], .created ['/', 'a', '.', 'h'] [],
      .removed ['/', 'a', '.', 'c']]
    e.fs.isFile ['/', 'b', '.', 'h'] = true ∧
      (e.resolve ['/', 'b', '.', 'h']).2 = some ['/', 'a', '.', 'c'] ∧
      e.fs.hasPath ['/', 'a', '.', 'c'] = false := by
  have hasked : pairedEditor.turn (.asked ['/', 'a', '.', 'c', 'c']) = _ :=
    turn_asked_shared (.inr rfl) (by decide +kernel)
  have hboth : sharedEditor.turns [.asked ['/', 'a', '.', 'c'], .asked ['/', 'a', '.', 'c', 'c'],
      .removed ['/', 'a', '.', 'h']] = _ :=
    (turns_asked_shared _).trans (congrArg (·.turn (.removed ['/', 'a', '.', 'h'])) hasked)
  rw [hboth, turns_asked_shared]
  decide +kernel

end Editor

end SourceEdit
