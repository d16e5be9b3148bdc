import SourceEdit.Proofs.Confinement
import SourceEdit.Proofs.SaveOutcome
import SourceEdit.Proofs.SaveRoundTrip

set_option autoImplicit false

namespace SourceEdit

open FileSystem (lockPath)
open SourceEdit.Path (Splits Straight)

namespace FileSystem

open Document (temporaryPath)

variable {fs fs' : FileSystem} {file : Path} {dir : Location} {name : Text} {l : Location}

/-- No file stands beside this one under the name of its temporary file or of its lock, except for a
lock that is held. -/
structure FreeBeside (fs : FileSystem) (file : Path) : Prop where
  temporary : ∀ l e, fs.locate (temporaryPath file) false = .ok l → fs.entryAt? l = some e →
    fs.isDirAt l = true
  lock : ∀ l e, fs.locate (lockPath file) false = .ok l → fs.entryAt? l = some e →
    fs.isDirAt l = true ∨ ∃ q, fs.lockAt? l = some q

theorem Undisturbed.freeBeside (h : fs.Undisturbed file) : fs.FreeBeside file where
  temporary := fun l e hl he => by
    rw [h.temporary l hl] at he
    contradiction
  lock := fun l e hl he => by
    rcases h.lock with hvacant | ⟨m, q, hm, hheld⟩
    · rw [hvacant l hl] at he
      contradiction
    · obtain rfl := Except.ok.inj (hl.symm.trans hm)
      exact .inr ⟨q, hheld⟩

/-- All shows the same as before. -/
def LeftAlone (fs fs' : FileSystem) : Prop := ∀ l, fs'.shownAt? l = fs.shownAt? l

/-- The file has this content, and all else shows the same as before. -/
structure Rewritten (fs fs' : FileSystem) (file : Path) (content : Octets) : Prop where
  content : fs'.content? file = some content
  others : ∀ l, fs.locate file false ≠ .ok l → fs'.shownAt? l = fs.shownAt? l

theorem LeftAlone.refl (fs : FileSystem) : LeftAlone fs fs := fun _ => rfl

namespace Placed

theorem beside (h : fs.Placed file dir name) : Beside file dir.front name where
  target := .inr (.inr h.splits)
  lock := lockPath_splits h.splits
  temporary := Document.temporaryPath_splits h.splits
  straight := by
    have hstraight := Path.straight_normalize h.splits.absolute
    rw [h.eq, Location.normalize_toPath h.named, ← h.eq] at hstraight
    obtain ⟨above, name', hbeside⟩ := exists_beside hstraight
    exact hbeside.straight

theorem makeParents_eq (h : fs.Placed file dir name) : fs.makeParents (lockPath file) = (fs, none) := by
  have hlock := lockPath_splits h.splits
  refine makeParents_of_leads hlock ?_ h.grounded.leads
  rw [h.splits.dirName_eq_of hlock]
  exact usable_dirName h.splits h.usable

end Placed

theorem FreeBeside.locate_lock (h : fs.FreeBeside file) (hfile : fs.Placed file dir name)
    (hl : fs.locate (lockPath file) true = .ok l) : fs.locate (lockPath file) false = .ok l := by
  have hlock := lockPath_splits hfile.splits
  have hthere := locate_false_of_leads hlock hl hfile.grounded.leads
  refine hthere.trans (congrArg Except.ok ?_)
  refine Except.ok.inj ((locate_true_of_false hthere fun target hlink => ?_).symm.trans hl)
  rcases h.lock _ _ hthere hlink with hdir | ⟨q, hheld⟩
  · exact not_link_of_isDirAt hdir target hlink
  · obtain ⟨c, state, hentry, -⟩ := lockAt?_eq_some_iff.mp hheld
    exact (isEnd_of_file hentry).2 target hlink

end FileSystem

namespace Document

open FileSystem

variable {fs : FileSystem} {file : Path} {dir : Location} {name : Text} {d : Document}

theorem replaceFile_failed {l : Location} (hl : fs.locate (temporaryPath file) true = .ok l)
    (hthere : fs.locate (temporaryPath file) false = .ok l) (hdir : fs.isDirAt l = true)
    (content : Octets) : ∃ e, replaceFile fs file content = (fs, some e) := by
  obtain ⟨rights, hentry⟩ := isDirAt_iff.mp hdir
  obtain ⟨e, hwrite⟩ : ∃ e, fs.write (temporaryPath file) content = .error e := by
    refine ⟨⟨.isDirectory, temporaryPath file, none⟩, ?_⟩
    simp [FileSystem.write, hl, hentry, failed, Except.mapError, bind, Except.bind]
  obtain ⟨e', hremove⟩ : ∃ e, fs.remove (temporaryPath file) = .error e := by
    cases hremove : fs.remove (temporaryPath file) with
    | error e => exact ⟨e, rfl⟩
    | ok fs' =>
      obtain ⟨m, -, hm, -, hnot, -⟩ := exists_of_remove hremove
      obtain rfl := Except.ok.inj (hthere.symm.trans hm)
      rw [hdir] at hnot
      contradiction
  have hpath : fs.hasPath (temporaryPath file) = true := hasPath_iff.mpr ⟨l, _, hl, hentry⟩
  refine ⟨e', ?_⟩
  simp only [replaceFile, hwrite, hpath, hremove, if_true]

theorem saveLocked_failed_of_replaceFile {e : FileError}
    (h : replaceFile fs file (Utf8.encode d.text) = (fs, some e)) :
    ∃ failure, d.saveLocked fs file = (fs, d, some failure) := by
  unfold saveLocked
  split
  · exact ⟨_, rfl⟩
  · rw [h]
    exact ⟨_, rfl⟩

theorem not_savable_of_directory [FileLock] (hp : Path.isAbsolute (temporaryPath file) = true)
    {locked : FileSystem} (hacquire : fs.acquire file = (locked, none)) (halike : Alike fs locked)
    {l : Location} (hl : fs.locate (temporaryPath file) false = .ok l)
    (hdir : fs.isDirAt l = true) : ¬fs.Savable file := by
  intro hsavable
  obtain ⟨m, hm, hmay⟩ := exists_of_isOk hsavable.temporary
  rw [hacquire] at hm hmay
  have hthere := locate_true_of_false hl (not_link_of_isDirAt hdir)
  obtain rfl := Except.ok.inj (hm.symm.trans ((halike.locate_iff hp).mp hthere))
  exact (isEnd_of_mayWriteAt hmay).not_isDirAt ((halike.isDirAt_eq m).trans hdir)

section
variable [FileLock] [LawfulFileLock]

theorem savable_of_site {above : Path} (hsite : Site fs file above name dir)
    (htaken : (fs.acquire file).2 = none) (hsplits : Splits file above name) : fs.Savable file := by
  obtain ⟨locked, hacquire, hlocked⟩ := hsite.exists_locked htaken
  have hsite' := hlocked.site hsite
  refine ⟨htaken, ?_, fun l hl => ?_⟩
  · rw [hacquire, hsite'.write_temporary]
    rfl
  · rw [hacquire] at hl ⊢
    obtain rfl := Except.ok.inj ((hsite'.locate_target hsplits).symm.trans hl)
    exact hsite'.mayChangeAt name

theorem leftAlone_of_directory (hfile : fs.Placed file dir name) {locked : FileSystem}
    {lockAt : Location} (hlockAt : fs.locate (lockPath file) false = .ok lockAt)
    (hnone : fs.entryAt? lockAt = none) (hmay : fs.mayChangeAt lockAt = true)
    (hacquire : fs.acquire file = (locked, none)) (hlocked : Locked fs locked lockAt)
    {l : Location} (hl : fs.locate (temporaryPath file) false = .ok l)
    (hdir : fs.isDirAt l = true) :
    (d.saveTo fs file).2.2 ≠ none ∧ LeftAlone fs (d.saveTo fs file).1 := by
  have hlock := lockPath_splits hfile.splits
  have htemporary := (temporaryPath_splits hfile.splits).absolute
  have halike := hlocked.touched.alike
  have hfollowed := locate_true_of_false hl (not_link_of_isDirAt hdir)
  obtain ⟨e, hreplace⟩ := replaceFile_failed ((halike.locate_iff htemporary).mp hfollowed)
    ((halike.locate_iff htemporary).mp hl) ((halike.isDirAt_eq l).trans hdir) (Utf8.encode d.text)
  obtain ⟨failure, hfailed⟩ := saveLocked_failed_of_replaceFile hreplace
  obtain ⟨content, state, hentry⟩ := hlocked.entry
  have hrelease := release_eq hlock.absolute ((halike.locate_iff hlock.absolute).mp hlockAt)
    ((halike.mayChangeAt_eq _).trans hmay) hentry
  have hunlocked := (alike_unlocked locked (lockPath file)).isEnd (isEnd_of_file hentry)
  rw [saveTo_of_acquire hacquire, hfailed]
  refine ⟨Option.some_ne_none failure, fun m => ?_⟩
  show (locked.release file).shownAt? m = _
  rw [hrelease, shownAt?, shownAt?, entryAt?_erase _ _ hunlocked.ne_top]
  split
  · next heq => rw [← heq, hnone]
  · next hne => rw [entryAt?_unlocked, shown_unlock, hlocked.touched.same (Ne.symm hne)]

theorem rewritten_at_site (hfile : fs.Placed file dir name) (hplain : fs.isLink file = false)
    {c : Octets} (hcontent : fs.content? file = some c) (hdisk : d.disk = some c)
    (hsite : Site fs file dir.front name dir) (hlock : fs.entryAt? (lockPlace dir name) = none)
    (htemporary : fs.entryAt? (temporaryPlace dir name) = none) :
    (d.saveTo fs file).2.2 = none ∧
      Rewritten fs (d.saveTo fs file).1 file (Utf8.encode d.text) := by
  have hplace := hsite.locate_target hfile.splits
  have hthere := locate_true_of_false hplace (isLink_eq_false_iff.mp hplain _ hplace)
  obtain ⟨l, state, hl, hentry, -⟩ := content?_eq_some_iff.mp hcontent
  obtain rfl := Except.ok.inj (hthere.symm.trans hl)
  have hgoal := isEnd_of_file hentry
  have htaken := hsite.acquire_of_none hlock
  obtain ⟨locked, hacquire, hlocked⟩ := hsite.exists_locked htaken
  have hsame : locked.content? file = some c := by
    refine content?_of_touched hfile.splits.absolute hlocked.touched (fun m hm => ?_) hcontent
    obtain rfl := Except.ok.inj (hthere.symm.trans hm)
    simp [lockPlace]
  have hsaved : (d.saveTo fs file).2.2 = none := by
    refine saves_at_site hsite htaken hfile.splits hgoal.1 ?_
    rw [hacquire, isChangedOutside, hdisk, hsame]
    simp
  obtain ⟨-, hstored, -⟩ := saved_at_site hsite hsaved
  obtain ⟨hstored, hfinal⟩ :=
    hstored ((touched_put hgoal [] {}).alike.leads_iff.mp hsite.leads)
  have hread : (fs.stateAt (temporaryPlace dir name)).mayRead = true := by
    rw [stateAt_of_none htemporary]
  refine ⟨hsaved, hstored.content?_eq hfile.splits hfinal hread, fun m hm => ?_⟩
  have hne : m ≠ dir ++ [name] := by
    rintro rfl
    exact hm hplace
  rw [shownAt?, shownAt?]
  by_cases hlockPlace : m = lockPlace dir name
  · rw [hlockPlace, hstored.lock, hlock]
  · by_cases htemporaryPlace : m = temporaryPlace dir name
    · rw [htemporaryPlace, hstored.temporary, htemporary]
    · rw [hstored.other m hne hlockPlace htemporaryPlace, shown_unlock]

/-- A file that was just read, and that has no more beside it than a lock that is held: where a save
cannot be done it leaves all alone, and otherwise there was no lock, the text is in the file and
nothing else has changed. -/
theorem save_in_place (hfile : fs.Placed file dir name) (hplain : fs.isLink file = false)
    (htree : fs.IsTree) (hbeside : fs.FreeBeside file) {c : Octets}
    (hcontent : fs.content? file = some c) (hdisk : d.disk = some c) :
    ¬fs.Savable file ∧ (d.saveTo fs file).2.2 ≠ none ∧ LeftAlone fs (d.saveTo fs file).1 ∨
      fs.Savable file ∧ (d.saveTo fs file).2.2 = none ∧ fs.Vacant (lockPath file) ∧
        Rewritten fs (d.saveTo fs file).1 file (Utf8.encode d.text) := by
  have hacquired := acquired fs file
  rw [hfile.makeParents_eq] at hacquired
  cases hacquire : fs.acquire file with
  | mk locked failure =>
    rw [hacquire] at hacquired
    cases hacquired with
    | refused e =>
      rw [saveTo_of_refused (by rw [hacquire]), hacquire]
      exact .inl ⟨fun hsavable => by simpa [hacquire] using hsavable.lock, by simp, .refl fs⟩
    | @taken l content hl hmay =>
      have hlockAt := hbeside.locate_lock hfile hl
      have hnone : fs.entryAt? l = none := by
        by_contra hentry
        obtain ⟨e, he⟩ := Option.ne_none_iff_exists'.mp hentry
        rcases hbeside.lock l e hlockAt he with hdir | ⟨q, hheld⟩
        · exact (isEnd_of_mayLockAt hmay).not_isDirAt hdir
        · exact not_mayLockAt hheld hmay
      have hchange : fs.mayChangeAt l = true := by rwa [mayLockAt, hnone] at hmay
      have hlocked := locked_lockFile hmay (isSole_of_none hnone) content (lockPath file)
      by_cases hblocked : ∃ m, fs.locate (temporaryPath file) false = .ok m ∧ fs.isDirAt m = true
      · obtain ⟨m, hm, hblocked⟩ := hblocked
        exact .inl ⟨not_savable_of_directory (temporaryPath_splits hfile.splits).absolute hacquire
          hlocked.touched.alike hm hblocked,
          leftAlone_of_directory hfile hlockAt hnone hchange hacquire hlocked hm hblocked⟩
      · have hvacant : fs.Vacant (temporaryPath file) := by
          intro m hm
          by_contra hentry
          obtain ⟨e, he⟩ := Option.ne_none_iff_exists'.mp hentry
          exact hblocked ⟨m, hm, hbeside.temporary m e hm he⟩
        have hfreed : fs.Vacant (lockPath file) := by
          intro m hm
          obtain rfl := Except.ok.inj (hlockAt.symm.trans hm)
          exact hnone
        have hsole : Sole fs (lockPath file) := by
          refine ⟨isLink_eq_false_iff.mpr fun m hm => by simp [hfreed m hm], fun m hm => ?_⟩
          obtain rfl := Except.ok.inj (hl.symm.trans hm)
          exact isSole_of_none hnone
        obtain ⟨dir', hsite, rfl⟩ := hfile.beside.exists_site htree hl hmay hsole
          (fun m hm => by obtain rfl := Except.ok.inj (hlockAt.symm.trans hm); exact hchange)
          fun m hm => .inl (hvacant m hm)
        obtain rfl := hsite.leads.unique hfile.grounded.leads
        obtain ⟨hsaved, hrewritten⟩ := rewritten_at_site hfile hplain hcontent hdisk hsite hnone
          (hvacant _ hsite.locate_temporary)
        exact .inr ⟨savable_of_site hsite (hsite.acquire_of_none hnone) hfile.splits, hsaved, hfreed,
          hrewritten⟩

end

end Document

end SourceEdit
