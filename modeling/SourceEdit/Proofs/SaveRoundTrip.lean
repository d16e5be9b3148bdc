import SourceEdit.Proofs.SaveFrame
import SourceEdit.Proofs.SaveSteps
import SourceEdit.Proofs.TextRoundTrip

set_option autoImplicit false

namespace SourceEdit

open FileSystem (lockPath)
open SourceEdit.Path (Splits Straight)

namespace FileSystem

open Document (temporaryPath)

variable {fs fs' : FileSystem} {p above : Path} {name : Text} {dir : Location}

/-- The lock can be taken, and then the path of the temporary file could be written, and names could
be put into the directory of the file and taken away. -/
structure Savable [FileLock] (fs : FileSystem) (p : Path) : Prop where
  lock : (fs.acquire p).2 = none
  temporary : ((fs.acquire p).1.write (temporaryPath p) []).isOk = true
  directory : ∀ l, (fs.acquire p).1.locate p false = .ok l → (fs.acquire p).1.mayChangeAt l = true

/-- A save can be done, and the path itself could be written. -/
structure Writable [FileLock] (fs : FileSystem) (p : Path) : Prop extends Savable fs p where
  target : ((fs.acquire p).1.write p []).isOk = true

section
variable [FileLock]

instance (fs : FileSystem) (p : Path) : Decidable (fs.Savable p) :=
  decidable_of_iff ((fs.acquire p).2 = none ∧
      ((fs.acquire p).1.write (temporaryPath p) []).isOk = true ∧
      ∀ l, (fs.acquire p).1.locate p false = .ok l → (fs.acquire p).1.mayChangeAt l = true)
    ⟨fun ⟨lock, temporary, directory⟩ => ⟨lock, temporary, directory⟩,
      fun ⟨lock, temporary, directory⟩ => ⟨lock, temporary, directory⟩⟩

instance (fs : FileSystem) (p : Path) : Decidable (fs.Writable p) :=
  decidable_of_iff (fs.Savable p ∧ ((fs.acquire p).1.write p []).isOk = true)
    ⟨fun ⟨savable, target⟩ => ⟨savable, target⟩, fun ⟨savable, target⟩ => ⟨savable, target⟩⟩

end

theorem exists_of_isOk {content : Octets} (h : (fs.write p content).isOk = true) :
    ∃ l, fs.locate p true = .ok l ∧ fs.mayWriteAt l = true := by
  cases hwrite : fs.write p content with
  | ok fs' =>
    obtain ⟨l, hl, hmay, -⟩ := write_eq_ok_iff.mp hwrite
    exact ⟨l, hl, hmay⟩
  | error =>
    rw [hwrite] at h
    contradiction

/-- A path that leads to a file, or to where one could be, does not lead through itself. If there is
a link at its end, that leads to no directory, so it is not on the way. -/
theorem leads_put_of_locate (h : Splits p above name) (hdir : fs.Leads above dir) {x : Location}
    (hx : fs.locate p true = .ok x) (hend : fs.IsEnd x) :
    fs.isDirAt (dir ++ [name]) = false ∧
      (fs.put (dir ++ [name]) (.file [] {})).Leads above dir := by
  have hthere := locate_false_of_leads h hx hdir
  have hgoal : fs.isDirAt (dir ++ [name]) = false := by
    rw [← Bool.not_eq_true]
    intro hentry
    have hplace := locate_true_of_false hthere (not_link_of_isDirAt hentry)
    obtain rfl := Except.ok.inj (hx.symm.trans hplace)
    exact hend.not_isDirAt hentry
  refine ⟨hgoal, ?_⟩
  by_cases hlink : ∃ target, fs.entryAt? (dir ++ [name]) = some (.link target)
  · obtain ⟨target, hlink⟩ := hlink
    have hne : x ≠ dir := by
      rintro rfl
      exact hend.not_isDirAt hdir.isDirAt
    have haside := aside_of_locate h hthere hlink hx hend hne (not_link_of_isDirAt hdir.isDirAt)
    have hput : ∀ m, m ≠ dir ++ [name] →
        (fs.put (dir ++ [name]) (.file [] {})).entryAt? m = fs.entryAt? m := by
      intro m hm
      rw [entryAt?_put _ _ _ (by simp), if_neg (Ne.symm hm)]
    obtain ⟨n, hn, hwalk⟩ := hdir.walk
    obtain ⟨rights, hentry, hsearch⟩ := passable_iff.mp hdir.passable
    refine ⟨⟨n, hn, hwalk.transfer rooted_top (fun m r _ hm => ?_) (fun m t _ hm => ?_)
      fun hdirEnd => absurd hdir.isDirAt hdirEnd.not_isDirAt⟩,
      passable_iff.mpr ⟨rights, (hput dir (by simp)).trans hentry, hsearch⟩⟩
    · rw [hput m, hm]
      rintro rfl
      exact isDirAt_eq_false_iff.mp hgoal r hm
    · by_cases heq : m = dir ++ [name]
      · subst heq
        obtain rfl := Entry.link.inj (Option.some.inj (hm.symm.trans hlink))
        exact .inr haside
      · exact .inl (by rw [hput m heq, hm])
  · have hgoalEnd : fs.IsEnd (dir ++ [name]) := ⟨hgoal, fun target ht => hlink ⟨target, ht⟩⟩
    exact (touched_put hgoalEnd [] {}).alike.leads_iff.mp hdir

theorem Beside.splits_of_locate (h : Beside p above name) {x : Location}
    (hx : fs.locate p true = .ok x) (hend : fs.IsEnd x) : Splits p above name := by
  have hnotTop : ¬(p = ['/'] ∨ p = ['/', '/']) := by
    intro htop
    obtain rfl := Document.locate_top htop hx
    exact hend.ne_top rfl
  rcases h.target with htop | htop | hsplits
  · exact absurd (.inl htop) hnotTop
  · exact absurd (.inr htop) hnotTop
  · exact hsplits

section
variable [FileLock] [LawfulFileLock]

theorem alike_of_acquire {fs₁ : FileSystem} (hmake : fs.makeParents (lockPath p) = (fs₁, none)) :
    Alike fs₁ (fs.acquire p).1 ∧ SameNames fs₁ (fs.acquire p).1 := by
  rcases acquire_of_makeParents hmake with ⟨e, he⟩ | ⟨l, content, hl, hmay, he⟩
  · rw [he]
    exact ⟨.refl fs₁, fun _ => rfl⟩
  · rw [he]
    exact ⟨(touched_lockFile hmay content _).alike,
      sameNames_lockFile (isEnd_of_mayLockAt hmay).ne_top content _⟩

theorem Savable.exists_site (h : fs.Savable p) (hbeside : Beside p above name)
    (hsplits : Splits p above name) (htree : fs.IsTree)
    (hplain : ∀ q ∈ [lockPath p, temporaryPath p], Sole (fs.acquire p).1 q) :
    ∃ fs₁ dir, fs.makeParents (lockPath p) = (fs₁, none) ∧ Site fs₁ p above name dir := by
  have hmade := hbeside.made htree
  obtain ⟨fs₁, l, content, hmake, hl, hmay, he⟩ := exists_of_acquire h.lock
  obtain ⟨halike, hnames⟩ := alike_of_acquire hmake
  obtain ⟨-, htemporary, hdirectory⟩ := h
  rw [hmake] at hmade
  have hsole := (hplain _ (by simp)).of_alike hbeside.lock.absolute halike.symm
    fun m => (hnames m).symm
  have hsole' := (hplain (temporaryPath p) (by simp)).of_alike hbeside.temporary.absolute
    halike.symm fun m => (hnames m).symm
  have hchange : ∀ m, fs₁.locate (lockPath p) false = .ok m → fs₁.mayChangeAt m = true := by
    intro m hm
    obtain ⟨hp, hname, dir, hleads, rfl⟩ := (locate_false_iff hbeside.lock).mp hm
    have hshort : (Utf8.encode name).length ≤ longestName :=
      Nat.le_trans (Utf8.length_encode_le_of_prefix (List.prefix_append _ _)) hname.short
    have hgoal := (locate_false_iff hsplits).mpr ⟨hp.of_prefix (List.prefix_append _ _)
      (by simp [hsplits.eq]), ⟨hsplits.plain, hshort⟩, dir, hleads, rfl⟩
    have hmay := hdirectory _ ((halike.locate_iff hsplits.absolute).mp hgoal)
    rw [halike.mayChangeAt_eq, mayChangeAt, List.dropLast_concat] at hmay
    rwa [mayChangeAt, List.dropLast_concat]
  have hfits : ∀ m, fs₁.locate (temporaryPath p) false = .ok m →
      fs₁.entryAt? m = none ∨ fs₁.mayWriteAt m = true ∧ fs₁.IsSole m := by
    intro m hm
    have hplace := locate_true_of_false hm (isLink_eq_false_iff.mp hsole'.notLink m hm)
    refine .inr ⟨?_, hsole'.single m hplace⟩
    obtain ⟨x, hx, hmayWrite⟩ := exists_of_isOk htemporary
    obtain rfl := Except.ok.inj
      (hx.symm.trans ((halike.locate_iff hbeside.temporary.absolute).mp hplace))
    rw [he] at hmayWrite
    exact mayWriteAt_of_lockFile hmay content _ (hsole'.single x hplace) hmayWrite
  obtain ⟨dir, hsite, -⟩ := hbeside.exists_site hmade.extended.tree hl hmay hsole hchange hfits
  exact ⟨fs₁, dir, hmake, hsite⟩

end

end FileSystem

namespace Document

open FileSystem

variable {fs : FileSystem} {d : Document}

theorem load_of_content? {p : Path} {c : Octets}
    (h : fs.content? (Path.absolute fs.workDir p) = some c) :
    ∃ r, d.load fs p = .ok r ∧ r.text = Text.unifyNewlines (Utf8.decodeLossy c) ∧
      r.saved = r.text ∧ r.fileName = some (Path.absolute fs.workDir p) ∧ r.disk = some c := by
  have hread : fs.read (Path.absolute fs.workDir p) = .ok c := by
    unfold FileSystem.content? at h
    cases hr : fs.read (Path.absolute fs.workDir p) with
    | ok content =>
      rw [hr] at h
      rw [Option.some.inj h]
    | error => rw [hr] at h; contradiction
  unfold load
  simp only [hread, bind, Except.bind]
  exact ⟨_, rfl, rfl, rfl, rfl, rfl⟩

section
variable [FileLock] [LawfulFileLock]

theorem saves_again {p above : Path} {name : Text} {dir : Location} {fs₀ : FileSystem}
    {content : Octets} (hsite : Site fs p above name dir) (hsplits : Splits p above name)
    (hstored : Stored fs₀ fs p name dir content) (hcontent : fs.content? p = some content)
    (hdisk : d.disk = some content) : (d.saveTo fs p).2.2 = none := by
  obtain ⟨state, hfile, -⟩ := hstored.goal
  have hthere := hstored.locate_eq hsplits hsite
  have htaken := hsite.acquire_of_none hstored.lock
  refine saves_at_site hsite htaken hsplits (isEnd_of_file hfile).1 ?_
  obtain ⟨locked, hacquire, hlocked⟩ := hsite.exists_locked htaken
  have hapart : ∀ m, fs.locate p true = .ok m → m ≠ lockPlace dir name := by
    intro m hm
    obtain rfl := Except.ok.inj (hthere.symm.trans hm)
    simp [lockPlace]
  have hsame := content?_of_touched hsplits.absolute hlocked.touched hapart hcontent
  rw [hacquire, isChangedOutside, hdisk, hsame]
  simp

/-- For every document and every path that can be written, where the lock and the temporary file are
no links and have no other names and the temporary file may be read if it is there, and unless the
document knows the file there with another content: it is saved, and what is loaded from there has
each pair of carriage return and newline and then each other carriage return replaced by a newline.
So it is the same text exactly if there are no carriage returns. What was loaded has no changes, and
it can be saved again. -/
theorem save_load_round_trip (hworkDir : Path.isAbsolute fs.workDir = true) (htree : fs.IsTree)
    {q : Option Path} {p : Path} (htarget : d.target? fs q = some (Path.absolute fs.workDir p))
    (hwritable : fs.Writable (Path.absolute fs.workDir p))
    (hplain : ∀ beside ∈ [lockPath (Path.absolute fs.workDir p),
      temporaryPath (Path.absolute fs.workDir p)],
      Sole (fs.acquire (Path.absolute fs.workDir p)).1 beside)
    (hread : Readable (fs.acquire (Path.absolute fs.workDir p)).1
      (temporaryPath (Path.absolute fs.workDir p)))
    (hknown : d.isChangedOutside (fs.acquire (Path.absolute fs.workDir p)).1
      (Path.absolute fs.workDir p) = false) :
    ∃ fs' d', d.save fs q = (fs', d', none) ∧ ∀ reader : Document, ∃ r, reader.load fs' p = .ok r ∧
      r.text = Text.replaceChar '\r' '\n' (Text.joinPairs d.text) ∧
      (r.text = d.text ↔ '\r' ∉ d.text) ∧ r.hasChanges = false ∧ (r.save fs' none).2.2 = none := by
  obtain ⟨q', hq', heq⟩ := Path.absolute_eq_normalize hworkDir p
  have hstraight : Straight (Path.absolute fs.workDir p) := heq ▸ Path.straight_normalize hq'
  obtain ⟨target, htargetPath⟩ : ∃ target, Path.absolute fs.workDir p = target := ⟨_, rfl⟩
  rw [htargetPath] at htarget hwritable hplain hread hknown hstraight
  obtain ⟨above, name, hbeside⟩ := exists_beside hstraight
  obtain ⟨x, hx, hmay⟩ := exists_of_isOk hwritable.target
  have hend := isEnd_of_mayWriteAt hmay
  have hsplits := hbeside.splits_of_locate hx hend
  obtain ⟨fs₁, dir, hmake, hsite⟩ := hwritable.exists_site hbeside hsplits htree hplain
  obtain ⟨halike, -⟩ := alike_of_acquire hmake
  obtain ⟨hgoal, hway⟩ := leads_put_of_locate hsplits hsite.leads
    ((halike.locate_iff hsplits.absolute).mpr hx) (halike.symm.isEnd hend)
  obtain ⟨hacquire, hsave⟩ := saveTo_of_made (d := d) hmake hsite
  have htaken : (fs₁.acquire target).2 = none := by rw [hacquire, hwritable.lock]
  have hsaved : (d.saveTo fs₁ target).2.2 = none :=
    saves_at_site hsite htaken hsplits hgoal (by rwa [hacquire])
  have hreadable : (fs₁.stateAt (temporaryPlace dir name)).mayRead = true := by
    have hmayRead := hread _ ((halike.locate_iff hbeside.temporary.absolute).mp
      hsite.locate_temporary)
    obtain ⟨locked, hlock, hlocked⟩ := hsite.exists_locked htaken
    rw [← hacquire, hlock] at hmayRead
    rwa [stateAt, hlocked.touched.same lockPlace_ne_temporaryPlace.symm, ← stateAt] at hmayRead
  obtain ⟨-, hstored, -⟩ := saved_at_site hsite hsaved
  obtain ⟨hstored, hfinal⟩ := hstored hway
  have hworkDir' := workDir_saveTo d fs target
  rw [hsave] at hsaved hstored hfinal
  obtain ⟨fs', d', hresult⟩ : ∃ fs' d', d.saveTo fs target = (fs', d', none) :=
    ⟨_, _, by rw [← hsaved]⟩
  rw [hresult] at hworkDir' hstored hfinal
  dsimp only at hworkDir' hstored hfinal
  have hcontent := hstored.content?_eq hsplits hfinal hreadable
  have hloaded : Path.absolute fs'.workDir p = target := by rw [hworkDir', htargetPath]
  refine ⟨fs', d', by rw [save_eq_saveTo htarget, hresult], fun reader => ?_⟩
  obtain ⟨r, hload, htext, hunchanged, hname, hdisk⟩ :=
    load_of_content? (d := reader) (p := p) (by rw [hloaded]; exact hcontent)
  rw [Utf8.decodeLossy_encode] at htext
  rw [hloaded] at hname
  have hagain : r.target? fs' none = some target := hname
  refine ⟨r, hload, htext.trans (Text.unifyNewlines_eq _), ?_, ?_, ?_⟩
  · rw [htext]
    exact Text.unifyNewlines_eq_self_iff
  · simp [hasChanges, hunchanged]
  · rw [save_eq_saveTo hagain]
    exact saves_again hfinal hsplits hstored hcontent hdisk

end

def leftovers : FileSystem where
  entries := [([['f']], .link ['g']), ([['g']], .file [0x31] {}),
    (["f.lock".toList], .file [] {}), (["f.tmp".toList], .file [0x32] {})]
  workDir := ['/']
  home := ['/']

theorem save_load_round_trip_line_ends :
    let d := Document.new .text ['\ufeff', 'a', '\r', '\r', '\n', '\x00', '𝄞', '\r'] none
    ∃ fs' d' r, d.save leftovers (some ['f']) = (fs', d', none) ∧ d'.load fs' ['f'] = .ok r ∧
      r.text = ['\ufeff', 'a', '\n', '\n', '\x00', '𝄞', '\n'] ∧ r.hasChanges = false ∧
      (r.save fs' none).2.2 = none := by
  intro d
  obtain ⟨fs', d', hsave, hreads⟩ := @save_load_round_trip leftovers d _ _ rfl (by decide +kernel)
    (some ['f']) ['f'] rfl (by decide +kernel) (by decide +kernel) (by decide +kernel)
    (by decide +kernel)
  obtain ⟨r, hload, htext, -, hchanges, hagain⟩ := hreads d'
  exact ⟨fs', d', r, hsave, hload, htext, hchanges, hagain⟩

/-- Through a link at the path of the temporary file the text is written to the file itself, and then
the link takes its place. -/
theorem save_lost_through_link :
    let fs : FileSystem :=
      ⟨[([['a']], .file [0x31] {}), (["a.tmp".toList], .link ['a'])], ['/'], ['/']⟩
    let r := (Document.new .text ['x'] none).save fs (some ['a'])
    fs.IsTree ∧ fs.Writable ['/', 'a'] ∧ r.2.2 = none ∧
      r.2.1.load r.1 ['a'] = .error ⟨.tooManyLinks, ['/', 'a'], none⟩ := by
  decide +kernel

end Document

end SourceEdit
