import SourceEdit.Project.Editor
import SourceEdit.Proofs.CursorBounds
import SourceEdit.Proofs.SaveFrame
import SourceEdit.Proofs.SaveSteps

/-!
All or nothing. A load or an opening that fails leaves everything as it was. So does a save that
fails, up to new directories on the way; and one that succeeds leaves the file and nothing beside it,
unless the file has taken the place of a link on its own way.
-/

set_option autoImplicit false

namespace SourceEdit

open FileSystem (lockPath)
open SourceEdit.Path (Splits Straight)

namespace FileSystem

open Document (temporaryPath WayApart RolledBack Stored)

variable {fs fs' : FileSystem} {target : Path}

/-- Nothing stands at the path of the temporary file, and nothing but a lock that is held at the path
of the lock. -/
structure Undisturbed (fs : FileSystem) (target : Path) : Prop where
  temporary : fs.Vacant (temporaryPath target)
  lock : fs.Vacant (lockPath target) ∨
    ∃ l q, fs.locate (lockPath target) false = .ok l ∧ fs.lockAt? l = some q

/-- What is there stays and shows the same, but perhaps at the place of this path. -/
def KeepsBut (fs fs' : FileSystem) (p : Path) : Prop :=
  ∀ l, fs.entryAt? l ≠ none → fs.locate p false ≠ .ok l → fs'.shownAt? l = fs.shownAt? l

/-- After a failed save: what was there is there, and at most directories are new. A lock that is
held stays held. -/
structure Unsaved (fs fs' : FileSystem) (target : Path) : Prop where
  kept : ∀ l, fs.entryAt? l ≠ none → fs'.shownAt? l = fs.shownAt? l
  fresh : ∀ l, fs.entryAt? l = none → fs'.entryAt? l = none ∨ fs'.entryAt? l = some .directory
  noTemporary : fs'.Vacant (temporaryPath target)
  noLock : fs.Vacant (lockPath target) → fs'.Vacant (lockPath target)
  held : ∀ l q, fs.locate (lockPath target) false = .ok l → fs.lockAt? l = some q →
    fs'.lockAt? l = some q

structure Saved (fs fs' : FileSystem) (target : Path) (content : Octets) : Prop where
  content : fs'.content? target = some content
  kept : KeepsBut fs fs' target
  noTemporary : fs'.Vacant (temporaryPath target)
  noLock : fs'.Vacant (lockPath target)

variable {fs₁ : FileSystem} {above : Path} {name : Text} {dir : Location}

theorem Beside.makeParents_eq (h : Beside target above name) {l : Location}
    (hl : fs.locate (lockPath target) false = .ok l) :
    fs.makeParents (lockPath target) = (fs, none) := by
  obtain ⟨hp, -, dir, hdir⟩ := leads_of_locate h.lock hl
  exact makeParents_of_leads h.lock (usable_dirName h.lock hp) hdir

theorem Vacant.entryAt?_eq_none {p : Path} (h : fs.Vacant p) (hsplits : Splits p above name)
    {l : Location} (hl : fs.locate p true = .ok l) : fs.entryAt? l = none := by
  obtain ⟨dir, -, -, hthere⟩ := exists_directory_of_locate hsplits hl
  have hnone := h _ hthere
  obtain rfl := Except.ok.inj (hl.symm.trans (locate_true_of_false hthere (by simp [hnone])))
  exact hnone

theorem Beside.held_eq (h : Beside target above name) {failure : Option FileCause}
    (hmake : fs.makeParents (lockPath target) = (fs₁, failure))
    {l m : Location} {q : Path} (hl : fs.locate (lockPath target) false = .ok l)
    (hheld : fs.lockAt? l = some q) (hm : fs₁.locate (lockPath target) true = .ok m) :
    fs₁ = fs ∧ m = l := by
  obtain ⟨rfl, -⟩ := Prod.mk.inj (hmake.symm.trans (h.makeParents_eq hl))
  obtain ⟨c, state, hentry, -⟩ := lockAt?_eq_some_iff.mp hheld
  have hthere := locate_true_of_false hl (isEnd_of_file hentry).2
  exact ⟨rfl, Except.ok.inj (hm.symm.trans hthere)⟩

theorem Undisturbed.exists_site [FileLock] [LawfulFileLock] (h : Undisturbed fs target)
    (hbeside : Beside target above name) (htree : fs.IsTree)
    (htaken : (fs.acquire target).2 = none) :
    ∃ fs₁ dir, fs.makeParents (lockPath target) = (fs₁, none) ∧ Site fs₁ target above name dir ∧
      fs₁.entryAt? (lockPlace dir name) = none ∧
      fs₁.entryAt? (temporaryPlace dir name) = none := by
  obtain ⟨fs₁, l, content, hmake, hl, hmay, -⟩ := exists_of_acquire htaken
  have hmade := hbeside.made htree
  have hvacant : fs.Vacant (lockPath target) := by
    refine h.lock.resolve_right ?_
    rintro ⟨m, q, hm, hheld⟩
    obtain ⟨rfl, rfl⟩ := hbeside.held_eq hmake hm hheld hl
    exact not_mayLockAt hheld hmay
  have hlock := hvacant.makeParents htree hbeside.lock hbeside.straight hbeside.lock
  have htemporary := h.temporary.makeParents htree hbeside.lock hbeside.straight hbeside.temporary
  rw [hmake] at hlock htemporary hmade
  have hnone := hlock.entryAt?_eq_none hbeside.lock hl
  have hsole : Sole fs₁ (lockPath target) := by
    refine ⟨isLink_eq_false_iff.mpr fun m hm => by simp [hlock m hm], fun m hm => ?_⟩
    exact isSole_of_none (hlock.entryAt?_eq_none hbeside.lock hm)
  have hchange : ∀ m, fs₁.locate (lockPath target) false = .ok m → fs₁.mayChangeAt m = true := by
    intro m hm
    have hplace := locate_true_of_false hm (isEnd_of_none (hlock m hm)).2
    obtain rfl := Except.ok.inj (hl.symm.trans hplace)
    rwa [mayLockAt, hnone] at hmay
  obtain ⟨dir, hsite, rfl⟩ := hbeside.exists_site hmade.extended.tree hl hmay hsole hchange
    fun m hm => .inl (htemporary m hm)
  exact ⟨fs₁, dir, hmake, hsite, hnone, htemporary _ hsite.locate_temporary⟩

theorem shown_unlock (p : Path) (e : Option Entry) :
    (e.map (Entry.unlock p)).map Entry.shown = e.map Entry.shown := by
  cases e with
  | none => rfl
  | some e => cases e <;> rfl

theorem unsaved_makeParents (hbeside : Beside target above name) (htree : fs.IsTree)
    (h : Undisturbed fs target) : Unsaved fs (fs.makeParents (lockPath target)).1 target where
  kept := fun l hl => by
    rw [shownAt?, shownAt?, (hbeside.made htree).extended.kept l hl]
  fresh := (hbeside.made htree).extended.fresh
  noTemporary :=
    h.temporary.makeParents htree hbeside.lock hbeside.straight hbeside.temporary
  noLock := fun hvacant => hvacant.makeParents htree hbeside.lock hbeside.straight hbeside.lock
  held := fun l q hl hheld => by rwa [hbeside.makeParents_eq hl]

theorem Undisturbed.unsaved_of_refused [FileLock] [LawfulFileLock] (h : Undisturbed fs target)
    (hbeside : Beside target above name) (htree : fs.IsTree)
    (hrefused : (fs.acquire target).2 ≠ none) : Unsaved fs (fs.acquire target).1 target := by
  have hacquired := acquired fs target
  cases hacquire : fs.acquire target with
  | mk fs₁ failure =>
    rw [hacquire] at hacquired hrefused
    cases hacquired with
    | refused e => exact unsaved_makeParents hbeside htree h
    | taken => contradiction

theorem unsaved_rolledBack (htree : fs.IsTree)
    (hmake : fs.makeParents (lockPath target) = (fs₁, none))
    (hsite : Site fs₁ target above name dir) (hlock : fs₁.entryAt? (lockPlace dir name) = none)
    (htemporary : fs₁.entryAt? (temporaryPlace dir name) = none)
    (hback : RolledBack fs₁ fs' target name dir) (hfinal : Site fs' target above name dir) :
    Unsaved fs fs' target := by
  have hmade := hsite.made htree
  rw [hmake] at hmade
  have hfree : ∀ l q, fs.locate (lockPath target) false = .ok l → fs.lockAt? l ≠ some q := by
    intro l q hl hheld
    obtain ⟨rfl, rfl⟩ := hsite.held_eq hmake hl hheld hsite.locate_lock
    rw [lockAt?_eq_none hlock] at hheld
    contradiction
  have hgone : fs'.entryAt? (temporaryPlace dir name) = none := by
    rcases hback.temporary with hgone | hsame
    · exact hgone
    · rw [hsame, htemporary]
      rfl
  have hsame : ∀ m, fs'.entryAt? m =
      (fs₁.entryAt? m).map (Entry.unlock (lockPath target)) := by
    intro m
    by_cases hm : m = lockPlace dir name
    · rw [hm, hback.lock, hlock]
      rfl
    · by_cases hm' : m = temporaryPlace dir name
      · rw [hm', hgone, htemporary]
        rfl
      · exact hback.other m hm hm'
  refine ⟨fun m hm => ?_, fun m hm => ?_, fun m hm => ?_, fun _ m hm => ?_, fun m q hm hq => ?_⟩
  · rw [shownAt?, shownAt?, hsame, shown_unlock, hmade.extended.kept m hm]
  · rw [hsame]
    rcases hmade.extended.fresh m hm with hnone | hdir
    · exact .inl (by rw [hnone]; rfl)
    · exact .inr (by rw [hdir]; rfl)
  · obtain rfl := Except.ok.inj (hm.symm.trans hfinal.locate_temporary)
    exact hgone
  · obtain rfl := Except.ok.inj (hm.symm.trans hfinal.locate_lock)
    exact hback.lock
  · exact absurd hq (hfree m q hm)

theorem made_at_site (htree : fs.IsTree) (hmake : fs.makeParents (lockPath target) = (fs₁, none))
    (hsite : Site fs₁ target above name dir) :
    fs₁ = fs ∨ ∀ x, fs₁.entryAt? (dir ++ [x]) = none := by
  have hmade := hsite.made htree
  rw [hmake] at hmade
  refine (hmade.made rfl).imp_right ?_
  rintro ⟨dir', hdir', hnone⟩
  have hdir := locate_dirName hsite.lock (usable_dirName hsite.lock hsite.usable) hsite.leads
  obtain rfl := Except.ok.inj (hdir.symm.trans hdir')
  exact hnone

/-- The way stays with the file at its place if and only if it did so before directories were made:
no link leads through a place that was not there. -/
theorem wayApart_iff (hsplits : Splits target above name) (htree : fs.IsTree)
    (hmake : fs.makeParents (lockPath target) = (fs₁, none))
    (hsite : Site fs₁ target above name dir) :
    WayApart fs target ↔ (fs₁.put (dir ++ [name]) (.file [] {})).Leads above dir := by
  constructor
  · intro hway
    rcases made_at_site htree hmake hsite with rfl | hnone
    · obtain ⟨-, -, dir', hleads, heq⟩ :=
        (locate_false_iff hsplits).mp (hway _ (hsite.locate_target hsplits))
      obtain rfl : dir = dir' := by simpa using heq
      exact hleads
    · have hend := isEnd_of_none (hnone name)
      exact (touched_put hend [] {}).alike.leads_iff.mp hsite.leads
  · intro hleads l hl
    obtain ⟨hp, hname, dir', hdir', rfl⟩ := (locate_false_iff hsplits).mp hl
    have hparents := makeParents_of_leads hsite.lock (usable_dirName hsite.lock hsite.usable) hdir'
    obtain ⟨rfl, -⟩ := Prod.mk.inj (hmake.symm.trans hparents)
    obtain rfl := hsite.leads.unique hdir'
    exact (locate_false_iff hsplits).mpr ⟨hp, hname, dir, hleads, rfl⟩

theorem saved_stored {content : Octets} (hsplits : Splits target above name) (htree : fs.IsTree)
    (hmake : fs.makeParents (lockPath target) = (fs₁, none))
    (hsite : Site fs₁ target above name dir) (hlock : fs₁.entryAt? (lockPlace dir name) = none)
    (htemporary : fs₁.entryAt? (temporaryPlace dir name) = none)
    (hstored : Stored fs₁ fs' target name dir content) (hfinal : Site fs' target above name dir) :
    Saved fs fs' target content := by
  have hmade := hsite.made htree
  rw [hmake] at hmade
  have hread : (fs₁.stateAt (temporaryPlace dir name)).mayRead = true := by
    rw [stateAt_of_none htemporary]
  refine ⟨hstored.content?_eq hsplits hfinal hread, fun m hm hgoal => ?_, fun m hm => ?_,
    fun m hm => ?_⟩
  · have hkept := hmade.extended.kept m hm
    have hne : m ≠ dir ++ [name] := by
      rintro rfl
      rcases made_at_site htree hmake hsite with rfl | hnone
      · exact hgoal (hsite.locate_target hsplits)
      · rw [hnone name] at hkept
        exact hm hkept.symm
    have hother := hstored.other m hne (fun heq => hm (by rw [← hkept, heq, hlock]))
      fun heq => hm (by rw [← hkept, heq, htemporary])
    rw [shownAt?, shownAt?, hother, shown_unlock, hkept]
  · obtain rfl := Except.ok.inj (hm.symm.trans hfinal.locate_temporary)
    exact hstored.temporary
  · obtain rfl := Except.ok.inj (hm.symm.trans hfinal.locate_lock)
    exact hstored.lock

end FileSystem

namespace Document

open FileSystem

variable [FileLock] {fs : FileSystem} {target : Path} {d : Document}

theorem saveTo_of_refused {e : LockError} (h : (fs.acquire target).2 = some e) :
    d.saveTo fs target = ((fs.acquire target).1, d, some (.lock e)) := by
  have hacquire : fs.acquire target = ((fs.acquire target).1, some e) := by rw [← h]
  rw [saveTo, hacquire]

variable [LawfulFileLock]

theorem unsaved_of_saveTo (hstraight : Straight target) (htree : fs.IsTree)
    (h : fs.Undisturbed target) (hfailed : (d.saveTo fs target).2.2 ≠ none) :
    Unsaved fs (d.saveTo fs target).1 target := by
  obtain ⟨above, name, hbeside⟩ := exists_beside hstraight
  cases hacquire : (fs.acquire target).2 with
  | some e =>
    rw [saveTo_of_refused hacquire]
    exact h.unsaved_of_refused hbeside htree (by simp [hacquire])
  | none =>
    obtain ⟨fs₁, dir, hmake, hsite, hlock, htemporary⟩ := h.exists_site hbeside htree hacquire
    obtain ⟨hacquire', hsave⟩ := saveTo_of_made (d := d) hmake hsite
    rw [← hsave] at hfailed ⊢
    obtain ⟨hback, hfinal⟩ := failed_at_site hsite (hacquire' ▸ hacquire) hfailed
    exact unsaved_rolledBack htree hmake hsite hlock htemporary hback hfinal

theorem saved_of_saveTo (hstraight : Straight target) (htree : fs.IsTree)
    (h : fs.Undisturbed target) (hsaved : (d.saveTo fs target).2.2 = none) :
    Saved fs (d.saveTo fs target).1 target (Utf8.encode d.text) ↔ WayApart fs target := by
  obtain ⟨above, name, hbeside⟩ := exists_beside hstraight
  obtain ⟨fs₁, dir, hmake, hsite, hlock, htemporary⟩ :=
    h.exists_site hbeside htree (acquire_of_saved hsaved)
  obtain ⟨-, hsave⟩ := saveTo_of_made (d := d) hmake hsite
  rw [← hsave] at hsaved ⊢
  obtain ⟨hsplits, hstored, hlost⟩ := saved_at_site hsite hsaved
  rw [wayApart_iff hsplits htree hmake hsite]
  constructor
  · intro hcomplete
    by_contra hway
    have hthere := octets?_of_content? hcomplete.content
    rw [hlost hway] at hthere
    contradiction
  · intro hway
    obtain ⟨hstored, hfinal⟩ := hstored hway
    exact saved_stored hsplits htree hmake hsite hlock htemporary hstored hfinal

end Document

theorem Editor.openFile_failed {e : Editor} {project : Project} {p : Path} {failure : Failure}
    (h : (e.openFile project p).2 = .error failure) : (e.openFile project p).1 = e := by
  unfold openFile at h ⊢
  dsimp only at h ⊢
  split at h
  · contradiction
  · split at h
    · rfl
    · contradiction

namespace Workspace

open FileSystem
open Document (WayApart)

theorem straight_of_target? {s : Workspace} (hworkDir : Path.isAbsolute s.fs.workDir = true)
    (hname : ∀ f, s.document.fileName = some f → Path.isAbsolute f = true ∧ Path.normalize f = f)
    {p : Option Path} {target : Path} (h : s.document.target? s.fs p = some target) :
    Straight target := by
  unfold Document.target? at h
  split at h
  · obtain ⟨q, hq, heq⟩ := Path.absolute_eq_normalize hworkDir ‹Path›
    rw [← Option.some.inj h, heq]
    exact Path.straight_normalize hq
  · obtain ⟨habsolute, hnormal⟩ := hname target h
    rw [← hnormal]
    exact Path.straight_normalize habsolute

/-- For every document and every tree: a load or an opening that fails changes nothing. A save that
fails changes neither the document nor what is there, and one that succeeds leaves the file with the
text, and neither lock nor temporary file, if and only if the path of the file still leads there once
a file is at its end. -/
theorem load_save_all_or_nothing [FileLock] [LawfulFileLock] {s : Workspace}
    (hworkDir : Path.isAbsolute s.fs.workDir = true)
    (hname : ∀ f, s.document.fileName = some f → Path.isAbsolute f = true ∧ Path.normalize f = f)
    (htree : s.fs.IsTree) :
    (∀ p e, s.document.load s.fs p = .error e → s.step (.load p) = s) ∧
    (∀ (e : Editor) (project : Project) (p : Path) (failure : Failure),
      (e.openFile project p).2 = .error failure → (e.openFile project p).1 = e) ∧
    ∀ p, let r := s.document.save s.fs p
      (r.2.2 ≠ none → r.2.1 = s.document) ∧
      (s.document.target? s.fs p = none → r = (s.fs, s.document, some (.edit .unnamed))) ∧
      ∀ target, s.document.target? s.fs p = some target → s.fs.Undisturbed target →
        (r.2.2 ≠ none → s.fs.Unsaved r.1 target) ∧
        (r.2.2 = none →
          (s.fs.Saved r.1 target (Utf8.encode s.document.text) ↔ WayApart s.fs target)) := by
  refine ⟨fun p e hload => ?_, fun e project p failure => Editor.openFile_failed, fun p => ?_⟩
  · rw [step, hload]
  · intro r
    refine ⟨fun hfailed => ?_, Document.save_unnamed, fun target h hundisturbed => ?_⟩
    · cases h : s.document.target? s.fs p with
      | none =>
        have hsave : r = _ := Document.save_unnamed h
        rw [hsave]
      | some target =>
        have hsave : r = s.document.saveTo s.fs target := Document.save_eq_saveTo h
        rw [hsave] at hfailed ⊢
        exact Document.saveTo_failed hfailed
    · have hsave : r = s.document.saveTo s.fs target := Document.save_eq_saveTo h
      have hstraight := straight_of_target? hworkDir hname h
      rw [hsave]
      exact ⟨Document.unsaved_of_saveTo hstraight htree hundisturbed,
        Document.saved_of_saveTo hstraight htree hundisturbed⟩

def beforeSave : Workspace where
  fs := ⟨[([['d']], .directory), ([['d'], ['a']], .file [0x61] {})], ['/'], ['/']⟩
  document := .new .text ['x'] none

theorem load_save_all_or_nothing_new_directory :
    let target := "/d/e/f".toList
    let r := beforeSave.document.save beforeSave.fs (some "d/e/f".toList)
    beforeSave.fs.IsTree ∧ beforeSave.fs.Undisturbed target ∧ r.2.2 = none ∧
      beforeSave.fs.Saved r.1 target (Utf8.encode ['x']) := by
  have htree : beforeSave.fs.IsTree := by decide +kernel
  have hundisturbed : beforeSave.fs.Undisturbed "/d/e/f".toList :=
    ⟨by decide +kernel, .inl (by decide +kernel)⟩
  have htarget : beforeSave.document.target? beforeSave.fs (some "d/e/f".toList) =
      some "/d/e/f".toList := by decide +kernel
  have hsaved : (beforeSave.document.save beforeSave.fs (some "d/e/f".toList)).2.2 = none := by
    decide +kernel
  have hway : WayApart beforeSave.fs "/d/e/f".toList := by decide +kernel
  have htext : beforeSave.document.text = ['x'] := rfl
  obtain ⟨-, -, hsave⟩ :=
    load_save_all_or_nothing (s := beforeSave) (by decide) (by simp [beforeSave, Document.new]) htree
  have houtcome := hsave (some "d/e/f".toList)
  dsimp only at houtcome ⊢
  obtain ⟨-, -, houtcome⟩ := houtcome
  obtain ⟨-, hcomplete⟩ := houtcome _ htarget hundisturbed
  rw [htext] at hcomplete
  exact ⟨htree, hundisturbed, hsaved, (hcomplete hsaved).mpr hway⟩

/-- The way to `/b/b` goes through the link at `/b`, and the file takes its place: the save succeeds,
but there is no such path any more, neither for the file nor for its lock, which stays. -/
theorem saved_over_its_own_way :
    let fs : FileSystem := ⟨[([['b']], .link ['.'])], ['/'], ['/']⟩
    let target := "/b/b".toList
    let r := (Document.new .text ['x'] none).save fs (some target)
    fs.IsTree ∧ fs.Vacant (Document.temporaryPath target) ∧ fs.Vacant (lockPath target) ∧
      r.2.2 = none ∧ r.1.content? target = none ∧
      r.1.entryAt? ["b.lock".toList] = some (.file [] {}) := by
  decide +kernel

end Workspace

end SourceEdit
