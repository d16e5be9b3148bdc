import SourceEdit.Proofs.MadeDirectories
import SourceEdit.Proofs.Saving

/-!
The steps of a save, place by place. The lock and the temporary file stand beside the file, in a
directory to which the path of the file leads; each step says what it leaves at these three places,
and that it leaves everything else alone.
-/

set_option autoImplicit false

namespace SourceEdit

open FileSystem (lockPath)
open SourceEdit.Path (Splits Straight)

namespace FileSystem

open Document (temporaryPath cleaned)

variable {fs fs' : FileSystem} {p above : Path} {name : Text} {dir : Location}

theorem length_encode_append (a b : Text) :
    (Utf8.encode (a ++ b)).length = (Utf8.encode a).length + (Utf8.encode b).length := by
  rw [Utf8.encode, List.flatMap_append, List.length_append]
  rfl

theorem usable_temporaryPath (h : Usable (lockPath p)) : Usable (temporaryPath p) where
  noNul := by
    have hnul := h.noNul
    simp only [lockPath, temporaryPath, List.mem_append, not_or] at hnul ⊢
    exact ⟨hnul.1, by decide⟩
  filled := List.append_ne_nil_of_right_ne_nil p (by decide)
  short := by
    have hshort := h.short
    have hlock : (Utf8.encode ".lock".toList).length = 5 := by decide
    have htemporary : (Utf8.encode ".tmp".toList).length = 4 := by decide
    rw [lockPath, length_encode_append, hlock] at hshort
    rw [temporaryPath, length_encode_append, htemporary]
    omega

theorem shortName_temporary (h : ShortName (name ++ ".lock".toList)) :
    ShortName (name ++ ".tmp".toList) where
  toPlain := Path.plain_of_length (by simp)
  short := by
    have hshort := h.short
    have hlock : (Utf8.encode ".lock".toList).length = 5 := by decide
    have htemporary : (Utf8.encode ".tmp".toList).length = 4 := by decide
    rw [length_encode_append, hlock] at hshort
    rw [length_encode_append, htemporary]
    omega

def lockPlace (dir : Location) (name : Text) : Location := dir ++ [name ++ ".lock".toList]

def temporaryPlace (dir : Location) (name : Text) : Location := dir ++ [name ++ ".tmp".toList]

theorem lockPlace_ne_temporaryPlace : lockPlace dir name ≠ temporaryPlace dir name := by
  simp [lockPlace, temporaryPlace]

/-- The paths beside a file. -/
structure Beside (p above : Path) (name : Text) : Prop where
  target : p = ['/'] ∨ p = ['/', '/'] ∨ Splits p above name
  lock : Splits (lockPath p) above (name ++ ".lock".toList)
  temporary : Splits (temporaryPath p) above (name ++ ".tmp".toList)
  straight : Straight (Path.dirName (lockPath p))

theorem exists_beside (h : Straight p) : ∃ above name, Beside p above name := by
  obtain ⟨above, name, hbeside, htarget⟩ := h.exists_beside
  obtain ⟨hlock, hstraight⟩ := hbeside ".lock".toList (by decide) (by decide)
  obtain ⟨htemporary, -⟩ := hbeside ".tmp".toList (by decide) (by decide)
  exact ⟨above, name, htarget, hlock, htemporary, hstraight⟩

theorem Beside.made (h : Beside p above name) (htree : fs.IsTree) :
    Made fs (Path.dirName (lockPath p)) (fs.makeParents (lockPath p)) :=
  made_makeParents htree h.straight (Nat.le_of_lt h.lock.length_dirName_lt)

/-- Where a save takes place: a directory in which names may be put and taken away, with places in it
for the lock and for the temporary file that nothing else is at. -/
structure Site (fs : FileSystem) (p above : Path) (name : Text) (dir : Location) : Prop
    extends Beside p above name where
  usable : Usable (lockPath p)
  short : ShortName (name ++ ".lock".toList)
  leads : fs.Leads above dir
  tree : fs.IsTree
  change : (fs.rightsAt dir).write = true
  lockEnd : fs.IsEnd (lockPlace dir name)
  lockSole : fs.IsSole (lockPlace dir name)
  writable : fs.mayWriteAt (temporaryPlace dir name) = true
  temporarySole : fs.IsSole (temporaryPlace dir name)

theorem mayWriteAt_of_file {l : Location} {content : Octets} {state : FileState}
    (h : fs.entryAt? l = some (.file content state)) (hmay : state.mayWrite = true) :
    fs.mayWriteAt l = true := mayWriteAt_iff.mpr (.inr ⟨content, state, h, hmay⟩)

theorem mayWrite_of_mayWriteAt {l : Location} (h : fs.mayWriteAt l = true) :
    (fs.stateAt l).mayWrite = true := by
  rcases mayWriteAt_iff.mp h with ⟨hnone, -⟩ | ⟨content, state, hentry, hmay⟩
  · rw [stateAt_of_none hnone]
  · rw [stateAt_of_file hentry, hmay]

theorem isSole_unlocked {l : Location} {q : Path}
    (h : fs'.entryAt? l = (fs.entryAt? l).map (Entry.unlock q)) : fs'.IsSole l ↔ fs.IsSole l := by
  rw [IsSole, IsSole, ← shared?_eq, ← shared?_eq, h]
  cases fs.entryAt? l with
  | none => rfl
  | some e => cases e <;> rfl

namespace Site

theorem temporaryEnd (h : Site fs p above name dir) : fs.IsEnd (temporaryPlace dir name) :=
  isEnd_of_mayWriteAt h.writable

theorem mayChangeAt (h : Site fs p above name dir) (x : Text) :
    fs.mayChangeAt (dir ++ [x]) = true := by
  rw [FileSystem.mayChangeAt, List.dropLast_concat]
  exact h.change

theorem of_alike (h : Site fs p above name dir) (halike : Alike fs fs') (htree : fs'.IsTree)
    (hlock : fs'.IsSole (lockPlace dir name))
    (hwritable : fs'.mayWriteAt (temporaryPlace dir name) = true)
    (htemporary : fs'.IsSole (temporaryPlace dir name)) : Site fs' p above name dir :=
  { h with
    leads := halike.leads_iff.mp h.leads
    tree := htree
    change := by rw [halike.rightsAt_eq, h.change]
    lockEnd := halike.isEnd h.lockEnd
    lockSole := hlock
    writable := hwritable
    temporarySole := htemporary }

theorem isTree_of_touched (h : Site fs p above name dir) {x : Text}
    (htouched : Touched fs fs' (· = dir ++ [x])) : fs'.IsTree := by
  refine .of_alike htouched.alike fun m hm => ?_
  by_cases hl : m = dir ++ [x]
  · exact hl ▸ (h.leads.rooted x).housed
  · exact h.tree m (by rwa [htouched.same hl] at hm)

theorem of_touched_lock (h : Site fs p above name dir)
    (htouched : Touched fs fs' (· = lockPlace dir name)) (hsole : fs'.IsSole (lockPlace dir name)) :
    Site fs' p above name dir := by
  have hsame := htouched.same (Ne.symm lockPlace_ne_temporaryPlace)
  refine h.of_alike htouched.alike (h.isTree_of_touched htouched) hsole ?_ ?_
  · rw [mayWriteAt, hsame, htouched.alike.mayChangeAt_eq]
    exact h.writable
  · rw [IsSole, stateAt, hsame]
    exact h.temporarySole

theorem of_touched_temporary (h : Site fs p above name dir)
    (htouched : Touched fs fs' (· = temporaryPlace dir name))
    (hwritable : fs'.mayWriteAt (temporaryPlace dir name) = true)
    (hsole : fs'.IsSole (temporaryPlace dir name)) : Site fs' p above name dir := by
  refine h.of_alike htouched.alike (h.isTree_of_touched htouched) ?_ hwritable hsole
  rw [IsSole, stateAt, htouched.same lockPlace_ne_temporaryPlace]
  exact h.lockSole

theorem locate_lock (h : Site fs p above name dir) {followLast : Bool} :
    fs.locate (lockPath p) followLast = .ok (lockPlace dir name) := by
  have hthere := (locate_false_iff h.lock).mpr ⟨h.usable, h.short, dir, h.leads, rfl⟩
  cases followLast with
  | false => exact hthere
  | true => exact locate_true_of_false hthere h.lockEnd.2

theorem locate_temporary (h : Site fs p above name dir) {followLast : Bool} :
    fs.locate (temporaryPath p) followLast = .ok (temporaryPlace dir name) := by
  have hthere := (locate_false_iff h.temporary).mpr
    ⟨usable_temporaryPath h.usable, shortName_temporary h.short, dir, h.leads, rfl⟩
  cases followLast with
  | false => exact hthere
  | true => exact locate_true_of_false hthere h.temporaryEnd.2

end Site

theorem Beside.exists_site (h : Beside p above name) (htree : fs.IsTree) {l : Location}
    (hl : fs.locate (lockPath p) true = .ok l) (hmay : fs.mayLockAt l = true)
    (hlock : Sole fs (lockPath p))
    (hchange : ∀ m, fs.locate (lockPath p) false = .ok m → fs.mayChangeAt m = true)
    (htemporary : ∀ m, fs.locate (temporaryPath p) false = .ok m →
      fs.entryAt? m = none ∨ fs.mayWriteAt m = true ∧ fs.IsSole m) :
    ∃ dir, Site fs p above name dir ∧ l = lockPlace dir name := by
  obtain ⟨hp, hname, dir, hleads⟩ := leads_of_locate h.lock hl
  have hthere := locate_false_of_leads h.lock hl hleads
  have hlink := isLink_eq_false_iff.mp hlock.notLink _ hthere
  obtain rfl := Except.ok.inj (hl.symm.trans (locate_true_of_false hthere hlink))
  have hbeside := (locate_false_iff h.temporary).mpr
    ⟨usable_temporaryPath hp, shortName_temporary hname, dir, hleads, rfl⟩
  have hwrite := hchange _ hthere
  rw [mayChangeAt, List.dropLast_concat] at hwrite
  obtain ⟨hwritable, hsole⟩ : fs.mayWriteAt (temporaryPlace dir name) = true ∧
      fs.IsSole (temporaryPlace dir name) := by
    rcases htemporary _ hbeside with hnone | hfits
    · refine ⟨mayWriteAt_iff.mpr (.inl ⟨hnone, ?_⟩), isSole_of_none hnone⟩
      rwa [temporaryPlace, mayChangeAt, List.dropLast_concat]
    · exact hfits
  exact ⟨dir, { h with
    usable := hp
    short := hname
    leads := hleads
    tree := htree
    change := hwrite
    lockEnd := isEnd_of_mayLockAt hmay
    lockSole := hlock.single _ hl
    writable := hwritable
    temporarySole := hsole }, rfl⟩

theorem Site.makeParents_eq (h : Site fs p above name dir) :
    fs.makeParents (lockPath p) = (fs, none) :=
  makeParents_of_leads h.lock (usable_dirName h.lock h.usable) h.leads

theorem touched_putFile_of_sole {l : Location} (hend : fs.IsEnd l) (hsole : fs.IsSole l)
    (content : Octets) {state : FileState} (hs : state.shared = none) :
    Touched fs (fs.putFile l content state) (· = l) :=
  (touched_putFile hend content (hs.trans hsole.symm)).mono fun _ hone => hone.eq hsole

theorem lockAt?_eq_some_iff {l : Location} {q : Path} : fs.lockAt? l = some q ↔
    ∃ c state, fs.entryAt? l = some (.file c state) ∧ state.lockedFor = some q := by
  unfold lockAt? stateAt
  cases fs.entryAt? l with
  | none => simp
  | some e => cases e <;> simp

theorem lockAt?_eq_none {l : Location} (h : fs.entryAt? l = none) : fs.lockAt? l = none := by
  rw [lockAt?, stateAt_of_none h]

theorem not_mayLockAt {l : Location} {q : Path} (h : fs.lockAt? l = some q) :
    ¬fs.mayLockAt l = true := by
  obtain ⟨c, state, hentry, hheld⟩ := lockAt?_eq_some_iff.mp h
  rw [mayLockAt, hentry]
  simp [hheld]

structure Locked (fs locked : FileSystem) (l : Location) : Prop where
  touched : Touched fs locked (· = l)
  entry : ∃ content state, locked.entryAt? l = some (.file content state)
  sole : locked.IsSole l

theorem locked_lockFile {l : Location} (hmay : fs.mayLockAt l = true) (hsole : fs.IsSole l)
    (content : Octets) (q : Path) : Locked fs (fs.lockFile l content q) l where
  touched := touched_putFile_of_sole (isEnd_of_mayLockAt hmay) hsole content hsole
  entry := ⟨content, _, entryAt?_putFile_self (isEnd_of_mayLockAt hmay).ne_top _ _⟩
  sole := (sameNames_lockFile (isEnd_of_mayLockAt hmay).ne_top content q).isSole_iff.mpr hsole

/-- How an attempt to take the lock ends, once the directories on the way are made. -/
inductive Acquired (fs : FileSystem) (p : Path) : FileSystem × Option LockError → Prop where
  | refused (e : LockError) : Acquired fs p (fs, some e)
  | taken {l : Location} {content : Octets} (hl : fs.locate (lockPath p) true = .ok l)
      (hmay : fs.mayLockAt l = true) : Acquired fs p (fs.lockFile l content (lockPath p), none)

section
variable [FileLock] [LawfulFileLock]

theorem acquired (fs : FileSystem) (p : Path) :
    Acquired (fs.makeParents (lockPath p)).1 p (fs.acquire p) := by
  cases hmake : fs.makeParents (lockPath p) with
  | mk fs₁ failure =>
    cases failure with
    | some cause =>
      unfold acquire
      rw [hmake]
      cases cause <;> exact .refused _
    | none =>
      rcases acquire_of_makeParents hmake with ⟨e, he⟩ | ⟨l, content, hl, hmay, he⟩
      · exact he ▸ .refused e
      · exact he ▸ .taken hl hmay

theorem exists_of_acquire (h : (fs.acquire p).2 = none) :
    ∃ fs₁ l content, fs.makeParents (lockPath p) = (fs₁, none) ∧
      fs₁.locate (lockPath p) true = .ok l ∧ fs₁.mayLockAt l = true ∧
      fs.acquire p = (fs₁.lockFile l content (lockPath p), none) := by
  obtain ⟨fs₁, hmake⟩ := makeParents_of_acquire h
  rcases acquire_of_makeParents hmake with ⟨e, he⟩ | ⟨l, content, hl, hmay, he⟩
  · rw [he] at h
    contradiction
  · exact ⟨fs₁, l, content, hmake, hl, hmay, he⟩

omit [FileLock] [LawfulFileLock] in
theorem Locked.site {locked : FileSystem} (h : Site fs p above name dir)
    (hlocked : Locked fs locked (lockPlace dir name)) : Site locked p above name dir :=
  h.of_touched_lock hlocked.touched hlocked.sole

theorem Site.exists_locked (h : Site fs p above name dir) (htaken : (fs.acquire p).2 = none) :
    ∃ locked, fs.acquire p = (locked, none) ∧ Locked fs locked (lockPlace dir name) := by
  obtain ⟨fs₁, l, content, hmake, hl, hmay, he⟩ := exists_of_acquire htaken
  obtain rfl := (Prod.mk.inj (h.makeParents_eq.symm.trans hmake)).1
  obtain rfl := Except.ok.inj (h.locate_lock.symm.trans hl)
  exact ⟨_, he, locked_lockFile hmay h.lockSole content _⟩

theorem Site.acquire_of_none (h : Site fs p above name dir)
    (hnone : fs.entryAt? (lockPlace dir name) = none) : (fs.acquire p).2 = none := by
  have hmay : fs.mayLockAt (lockPlace dir name) = true :=
    mayLockAt_iff.mpr (.inl ⟨hnone, h.mayChangeAt _⟩)
  have hstate := stateAt_of_none hnone
  have htake := LawfulFileLock.take_isOk h.locate_lock hmay (by rw [hstate]) (by rw [hstate])
  unfold acquire
  rw [h.makeParents_eq]
  dsimp only
  cases htaken : FileLock.take fs (lockPath p) with
  | ok entries => rfl
  | error e =>
    rw [htaken] at htake
    contradiction

omit [FileLock] [LawfulFileLock] in
theorem isTree_unlocked (h : fs.IsTree) (q : Path) : (fs.unlocked q).IsTree := by
  refine .of_alike (alike_unlocked fs q) fun l hl => h l fun hnone => hl ?_
  rw [entryAt?_unlocked, hnone]
  rfl

theorem release_eq (hp : Path.isAbsolute (lockPath p) = true) {l : Location}
    (hl : fs.locate (lockPath p) false = .ok l) (hmay : fs.mayChangeAt l = true)
    {content : Octets} {state : FileState} (hentry : fs.entryAt? l = some (.file content state)) :
    fs.release p = (fs.unlocked (lockPath p)).erase l := by
  have halike := alike_unlocked fs (lockPath p)
  have hunlocked := (halike.locate_iff hp).mp hl
  obtain ⟨state', hfile⟩ : ∃ state',
      (fs.unlocked (lockPath p)).entryAt? l = some (.file content state') := by
    rw [entryAt?_unlocked, hentry]
    exact ⟨_, rfl⟩
  have hend := isEnd_of_file hfile
  have hthere : (fs.unlocked (lockPath p)).hasPath (lockPath p) = true :=
    hasPath_iff.mpr ⟨_, _, locate_true_of_false hunlocked hend.2, hfile⟩
  have hremove := remove_eq hunlocked (by simp [hfile]) hend.1
    ((halike.mayChangeAt_eq l).trans hmay)
  unfold FileSystem.release
  dsimp only
  rw [giveBack_eq, if_pos hthere, hremove]

/-- What the tree holds once the lock is given back. -/
structure Released (fs fs' : FileSystem) (p : Path) (l : Location) : Prop where
  lock : fs'.entryAt? l = none
  other : ∀ m, m ≠ l → fs'.entryAt? m = (fs.entryAt? m).map (Entry.unlock (lockPath p))

theorem Site.released (h : Site fs p above name dir) {content : Octets} {state : FileState}
    (hentry : fs.entryAt? (lockPlace dir name) = some (.file content state)) :
    Released fs (fs.release p) p (lockPlace dir name) ∧ Site (fs.release p) p above name dir := by
  have halike := alike_unlocked fs (lockPath p)
  have hunlocked := entryAt?_unlocked fs (lockPath p)
  have hsite : Site (fs.unlocked (lockPath p)) p above name dir := by
    refine h.of_alike halike (isTree_unlocked h.tree _) ((isSole_unlocked (hunlocked _)).mpr h.lockSole)
      ?_ ((isSole_unlocked (hunlocked _)).mpr h.temporarySole)
    have hwritable := h.writable
    rw [mayWriteAt, halike.mayChangeAt_eq, hunlocked]
    rw [mayWriteAt] at hwritable
    cases hthere : fs.entryAt? (temporaryPlace dir name) with
    | none => rwa [hthere] at hwritable
    | some e => cases e <;> rwa [hthere] at hwritable
  rw [release_eq h.lock.absolute h.locate_lock (h.mayChangeAt _) hentry]
  have herased := touched_erase hsite.lockEnd
  have hnone : ((fs.unlocked (lockPath p)).erase (lockPlace dir name)).entryAt?
      (lockPlace dir name) = none := by
    rw [entryAt?_erase _ _ hsite.lockEnd.ne_top, if_pos rfl]
  refine ⟨⟨hnone, fun m hm => ?_⟩, hsite.of_touched_lock herased (isSole_of_none hnone)⟩
  rw [herased.same hm, hunlocked]

end

/-- The tree with the temporary file written. -/
def written (fs : FileSystem) (dir : Location) (name : Text) (content : Octets) : FileSystem :=
  fs.putFile (temporaryPlace dir name) content (fs.stateAt (temporaryPlace dir name))

namespace Site

theorem write_temporary (h : Site fs p above name dir) (content : Octets) :
    fs.write (temporaryPath p) content = .ok (fs.written dir name content) :=
  write_eq_ok_iff.mpr ⟨_, h.locate_temporary, h.writable, rfl⟩

theorem touched_written (h : Site fs p above name dir) (content : Octets) :
    Touched fs (fs.written dir name content) (· = temporaryPlace dir name) :=
  touched_putFile_of_sole h.temporaryEnd h.temporarySole content h.temporarySole

theorem entryAt?_written (h : Site fs p above name dir) (content : Octets) :
    (fs.written dir name content).entryAt? (temporaryPlace dir name) =
      some (.file content (fs.stateAt (temporaryPlace dir name))) :=
  entryAt?_putFile_self h.temporaryEnd.ne_top _ _

theorem written (h : Site fs p above name dir) (content : Octets) :
    Site (fs.written dir name content) p above name dir := by
  have hentry := h.entryAt?_written content
  refine h.of_touched_temporary (h.touched_written content)
    (mayWriteAt_of_file hentry (mayWrite_of_mayWriteAt h.writable)) ?_
  rw [IsSole, stateAt_of_file hentry]
  exact h.temporarySole

theorem cleaned_written (h : Site fs p above name dir) {content : Octets} {state : FileState}
    (hentry : fs.entryAt? (temporaryPlace dir name) = some (.file content state))
    (failure : Option FileError) :
    cleaned fs p failure = (fs.erase (temporaryPlace dir name), failure) := by
  have hthere : fs.hasPath (temporaryPath p) = true :=
    hasPath_iff.mpr ⟨_, _, h.locate_temporary, hentry⟩
  have hremove := remove_eq h.locate_temporary (by simp [hentry]) h.temporaryEnd.1
    (h.mayChangeAt _)
  rw [cleaned, if_pos hthere, hremove]

theorem splits_of_move (h : Site fs p above name dir) {written moved : FileSystem}
    (hmove : written.move (temporaryPath p) p = .ok moved) : Splits p above name := by
  obtain ⟨l, l', -, hl, hl', -⟩ := exists_of_move hmove
  obtain ⟨-, -, dir', -, rfl⟩ := (locate_false_iff h.temporary).mp hl
  have htop : p = ['/'] ∨ p = ['/', '/'] → False := by
    intro htop
    obtain rfl := Document.locate_top htop hl'
    exact locate_ne_top_of_move hmove hl (by simp) hl'
  rcases h.target with htarget | htarget | hsplits
  · exact absurd (.inl htarget) htop
  · exact absurd (.inr htarget) htop
  · exact hsplits

end Site

/-- A file that is moved within a directory. -/
structure Replaced (fs fs' : FileSystem) (dir : Location) (name : Text) (content : Octets) : Prop
    where
  goal : fs'.entryAt? (dir ++ [name]) =
    some (.file content (fs.stateAt (temporaryPlace dir name)))
  temporary : fs'.entryAt? (temporaryPlace dir name) = none
  other : ∀ m, m ≠ dir ++ [name] → m ≠ temporaryPlace dir name → fs'.entryAt? m = fs.entryAt? m

theorem Site.replaced_of_move (h : Site fs p above name dir) {content : Octets}
    {moved : FileSystem}
    (hmove : (fs.written dir name content).move (temporaryPath p) p = .ok moved) :
    fs.isDirAt (dir ++ [name]) = false ∧ Replaced fs moved dir name content := by
  have hsplits := h.splits_of_move hmove
  have htouched := h.touched_written content
  have hwritten := h.written content
  have hfile := h.entryAt?_written content
  have hne : dir ++ [name] ≠ temporaryPlace dir name := by simp [temporaryPlace]
  obtain ⟨heq, -, hgoal⟩ := (Document.moved_of_move hsplits hmove hwritten.leads).resolve_left
    fun hone => hne (hone.1.eq hwritten.temporarySole)
  have hdir := hgoal (isEnd_of_file hfile).1
  rw [htouched.alike.isDirAt_eq] at hdir
  have hmoved : ∀ m, moved.entryAt? m = if dir ++ [name] <+: m then
      (fs.written dir name content).entryAt?
        (temporaryPlace dir name ++ m.drop (dir ++ [name]).length)
      else if temporaryPlace dir name <+: m then none
      else (fs.written dir name content).entryAt? m := by
    rw [heq]
    exact entryAt?_moveEntries_eq h.temporaryEnd.ne_top (by simp)
  have hapart : ¬dir ++ [name] <+: temporaryPlace dir name :=
    Document.not_prefix_of_ne (by simp)
  refine ⟨hdir, ?_, ?_, fun m hm hm' => ?_⟩
  · rw [hmoved, if_pos List.prefix_rfl, List.drop_length, List.append_nil, hfile]
  · rw [hmoved, if_neg hapart, if_pos List.prefix_rfl]
  · rw [hmoved]
    split
    · next hbelow =>
      have hnone := h.tree.none_below hdir hbelow (Ne.symm hm)
      obtain ⟨rest, rfl⟩ := hbelow
      have hrest : temporaryPlace dir name ++ rest ≠ temporaryPlace dir name := by
        intro heq
        obtain rfl := List.append_right_eq_self.mp heq
        exact hm (List.append_nil _)
      rw [List.drop_left, htouched.same hrest, hnone,
        h.tree.none_below h.temporaryEnd.1 (List.prefix_append _ rest) hrest.symm]
    · split
      · next hbelow => rw [h.tree.none_below h.temporaryEnd.1 hbelow (Ne.symm hm')]
      · rw [htouched.same hm']

namespace Replaced

variable {content : Octets}

theorem leads_iff (h : Site fs p above name dir) (hmoved : Replaced fs fs' dir name content)
    {dir' : Location} : fs'.Leads above dir' ↔
      (fs.put (dir ++ [name]) (.file [] {})).Leads above dir' := by
  have hput : ∀ m, (fs.put (dir ++ [name]) (.file [] {})).entryAt? m =
      if dir ++ [name] = m then some (.file [] {}) else fs.entryAt? m :=
    fun m => entryAt?_put fs m _ (by simp)
  have hne : dir ++ [name] ≠ temporaryPlace dir name := by simp [temporaryPlace]
  have halike : Alike fs' (fs.put (dir ++ [name]) (.file [] {})) := by
    refine alike_of_ends fun m => ?_
    by_cases hm : m = dir ++ [name]
    · have hfile := hput (dir ++ [name])
      rw [if_pos rfl] at hfile
      rw [hm]
      exact .inr ⟨isEnd_of_file hmoved.goal, isEnd_of_file hfile⟩
    · by_cases hm' : m = temporaryPlace dir name
      · rw [hm']
        refine .inr ⟨isEnd_of_none hmoved.temporary, ?_⟩
        exact (isEnd_congr (by rw [hput, if_neg hne])).mpr h.temporaryEnd
      · exact .inl (by rw [hput, if_neg (Ne.symm hm), hmoved.other m hm hm'])
  exact halike.leads_iff

theorem leads_before (hmoved : Replaced fs fs' dir name content) {dir' : Location}
    (hdir : fs'.Leads above dir') : fs.Leads above dir' := by
  have hbefore : ∀ m e, (∀ c state, e ≠ .file c state) → fs'.entryAt? m = some e →
      fs.entryAt? m = some e := by
    intro m e hfile he
    have hm : m ≠ dir ++ [name] := by
      rintro rfl
      exact hfile _ _ (Option.some.inj (he.symm.trans hmoved.goal))
    have hm' : m ≠ temporaryPlace dir name := by
      rintro rfl
      rw [hmoved.temporary] at he
      contradiction
    rwa [← hmoved.other m hm hm']
  obtain ⟨n, hn, hwalk⟩ := hdir.walk
  obtain ⟨rights, hentry, hsearch⟩ := passable_iff.mp hdir.passable
  exact ⟨⟨n, hn, hwalk.transfer rooted_top (fun m _ _ => hbefore m _ (by simp))
    (fun m _ _ hm => .inl (hbefore m _ (by simp) hm)) fun hend => absurd hdir.isDirAt hend.not_isDirAt⟩,
    passable_iff.mpr ⟨rights, hbefore _ _ (by simp) hentry, hsearch⟩⟩

theorem site (h : Site fs p above name dir) (hgoal : fs.isDirAt (dir ++ [name]) = false)
    (hmoved : Replaced fs fs' dir name content) (hleads : fs'.Leads above dir) :
    Site fs' p above name dir := by
  have hdirectory : ∀ m r, fs.entryAt? m = some (.dir r) → fs'.entryAt? m = some (.dir r) := by
    intro m r hm
    rw [hmoved.other, hm]
    · rintro rfl
      exact isDirAt_eq_false_iff.mp hgoal r hm
    · rintro rfl
      exact isDirAt_eq_false_iff.mp h.temporaryEnd.1 r hm
  have hisDir : ∀ m, fs.isDirAt m = true → fs'.isDirAt m = true := by
    intro m hm
    obtain ⟨r, hr⟩ := isDirAt_iff.mp hm
    exact isDirAt_iff.mpr ⟨r, hdirectory m r hr⟩
  have hchange : (fs'.rightsAt dir).write = true := by
    obtain ⟨r, hr⟩ := isDirAt_iff.mp h.leads.isDirAt
    have hwrite := h.change
    rw [rightsAt, hr] at hwrite
    rwa [rightsAt, hdirectory dir r hr]
  have hother : fs'.entryAt? (lockPlace dir name) = fs.entryAt? (lockPlace dir name) :=
    hmoved.other _ (by simp [lockPlace]) lockPlace_ne_temporaryPlace
  refine
    { h with
      leads := hleads
      tree := fun m hm a ha hne => hisDir a ?_
      change := hchange
      lockEnd := (isEnd_congr hother).mpr h.lockEnd
      lockSole := by
        rw [IsSole, stateAt, hother]
        exact h.lockSole
      writable := mayWriteAt_iff.mpr (.inl ⟨hmoved.temporary, ?_⟩)
      temporarySole := isSole_of_none hmoved.temporary }
  · by_cases hm' : m = dir ++ [name]
    · subst hm'
      exact (h.leads.rooted name).housed a ha hne
    · refine h.tree m ?_ a ha hne
      rwa [hmoved.other m hm'] at hm
      rintro rfl
      exact hm hmoved.temporary
  · rw [temporaryPlace, mayChangeAt, List.dropLast_concat]
    exact hchange

end Replaced

theorem Site.locate_target (h : Site fs p above name dir) (hsplits : Splits p above name) :
    fs.locate p false = .ok (dir ++ [name]) := by
  have hshort : (Utf8.encode name).length ≤ longestName :=
    Nat.le_trans (Utf8.length_encode_le_of_prefix (List.prefix_append _ _)) h.short.short
  exact (locate_false_iff hsplits).mpr ⟨h.usable.of_prefix (List.prefix_append _ _)
    (by simp [hsplits.eq]), ⟨hsplits.plain, hshort⟩, dir, h.leads, rfl⟩

theorem Site.exists_moved (h : Site fs p above name dir) (hsplits : Splits p above name)
    (hgoal : fs.isDirAt (dir ++ [name]) = false) {content : Octets} {state : FileState}
    (hfile : fs.entryAt? (temporaryPlace dir name) = some (.file content state)) :
    ∃ moved, fs.move (temporaryPath p) p = .ok moved := by
  have hne : temporaryPlace dir name ≠ dir ++ [name] := by simp [temporaryPlace]
  have hbelow : (temporaryPlace dir name).isPrefixOf (dir ++ [name]) = false := by
    rw [← Bool.not_eq_true, List.isPrefixOf_iff_prefix]
    exact Document.not_prefix_of_ne (by simp)
  have habove : (dir ++ [name]).isPrefixOf (temporaryPlace dir name) = false := by
    rw [← Bool.not_eq_true, List.isPrefixOf_iff_prefix]
    exact Document.not_prefix_of_ne (by simp)
  have hone : fs.areOneFile (temporaryPlace dir name) (dir ++ [name]) = false := by
    rw [← Bool.not_eq_true]
    exact fun hone => hne (OneFile.eq (.inr hone) h.temporarySole).symm
  have hmay : fs.mayChangeAt (temporaryPlace dir name) = true := h.mayChangeAt _
  refine ⟨fs.moveEntries (temporaryPlace dir name) (dir ++ [name]), ?_⟩
  unfold move
  simp only [h.locate_temporary, h.locate_target hsplits, hfile, if_neg hne, hbelow, habove, hone,
    hmay, h.mayChangeAt name, Bool.and_self, Bool.not_true, Bool.false_eq_true, if_false]
  split
  · contradiction
  · contradiction
  · next r hdir _ => exact absurd hdir (isDirAt_eq_false_iff.mp hgoal r)
  · rfl

/-- What a replacement of the file comes to. -/
inductive Outcome (fs : FileSystem) (p above : Path) (name : Text) (dir : Location)
    (content : Octets) : FileSystem × Option FileError → Prop where
  | undone {fs' : FileSystem} (e : FileError)
      (htouched : Touched fs fs' (· = temporaryPlace dir name))
      (hgone : fs'.entryAt? (temporaryPlace dir name) = none)
      (hrefused : Splits p above name → fs.isDirAt (dir ++ [name]) = true) :
      Outcome fs p above name dir content (fs', some e)
  | replaced {fs' : FileSystem} (hsplits : Splits p above name)
      (hgoal : fs.isDirAt (dir ++ [name]) = false) (hmoved : Replaced fs fs' dir name content) :
      Outcome fs p above name dir content (fs', none)

theorem Site.outcome (h : Site fs p above name dir) (content : Octets) :
    Outcome fs p above name dir content (Document.replaceFile fs p content) := by
  have hwrite := h.write_temporary content
  have htouched := h.touched_written content
  have hsite := h.written content
  have hfile := h.entryAt?_written content
  cases hmove : (fs.written dir name content).move (temporaryPath p) p with
  | error e =>
    have heq : Document.replaceFile fs p content =
        cleaned (fs.written dir name content) p (some e) := by
      simp only [Document.replaceFile, hwrite, hmove]
      rfl
    rw [heq, hsite.cleaned_written hfile]
    refine .undone e (htouched.trans (touched_erase hsite.temporaryEnd)) ?_ fun hsplits => ?_
    · rw [entryAt?_erase _ _ h.temporaryEnd.ne_top, if_pos rfl]
    · by_contra hgoal
      have hgoal := (htouched.alike.isDirAt_eq _).trans (Bool.eq_false_iff.mpr hgoal)
      obtain ⟨moved, hmoved⟩ := hsite.exists_moved hsplits hgoal hfile
      rw [hmove] at hmoved
      contradiction
  | ok moved =>
    have heq : Document.replaceFile fs p content = cleaned moved p none := by
      simp only [Document.replaceFile, hwrite, hmove]
      rfl
    obtain ⟨hgoal, hmoved⟩ := h.replaced_of_move hmove
    -- where the way is still there the temporary file is not
    have hgone : moved.hasPath (temporaryPath p) = false := by
      rw [← Bool.not_eq_true, hasPath_iff]
      rintro ⟨l, e, hl, he⟩
      obtain ⟨-, -, dir', hdir'⟩ := leads_of_locate h.temporary hl
      obtain rfl := h.leads.unique (hmoved.leads_before hdir')
      have hthere := locate_false_of_leads h.temporary hl hdir'
      have hnone : moved.entryAt? (dir ++ [name ++ ".tmp".toList]) = none := hmoved.temporary
      have hplace := locate_true_of_false hthere (isEnd_of_none hnone).2
      obtain rfl := Except.ok.inj (hl.symm.trans hplace)
      rw [hnone] at he
      contradiction
    rw [heq, cleaned, if_neg (by simp [hgone])]
    exact .replaced (h.splits_of_move hmove) hgoal hmoved

end FileSystem

namespace Document

open FileSystem

variable {fs fs' : FileSystem} {p above : Path} {name : Text} {dir : Location} {d : Document}

/-- After a save that failed: the lock and the temporary file are gone. -/
structure RolledBack (fs fs' : FileSystem) (p : Path) (name : Text) (dir : Location) : Prop where
  lock : fs'.entryAt? (lockPlace dir name) = none
  temporary : fs'.entryAt? (temporaryPlace dir name) = none ∨
    fs'.entryAt? (temporaryPlace dir name) =
      (fs.entryAt? (temporaryPlace dir name)).map (Entry.unlock (lockPath p))
  other : ∀ m, m ≠ lockPlace dir name → m ≠ temporaryPlace dir name →
    fs'.entryAt? m = (fs.entryAt? m).map (Entry.unlock (lockPath p))

/-- After a save: they are gone as well, and the file is there. -/
structure Stored (fs fs' : FileSystem) (p : Path) (name : Text) (dir : Location)
    (content : Octets) : Prop where
  goal : ∃ state, fs'.entryAt? (dir ++ [name]) = some (.file content state) ∧
    state.mayRead = (fs.stateAt (temporaryPlace dir name)).mayRead
  lock : fs'.entryAt? (lockPlace dir name) = none
  temporary : fs'.entryAt? (temporaryPlace dir name) = none
  other : ∀ m, m ≠ dir ++ [name] → m ≠ lockPlace dir name → m ≠ temporaryPlace dir name →
    fs'.entryAt? m = (fs.entryAt? m).map (Entry.unlock (lockPath p))

namespace Stored

variable {content : Octets}

theorem locate_eq (hstored : Stored fs fs' p name dir content) (hsplits : Splits p above name)
    (h : Site fs' p above name dir) : fs'.locate p true = .ok (dir ++ [name]) := by
  obtain ⟨state, hfile, -⟩ := hstored.goal
  exact locate_true_of_false (h.locate_target hsplits) (isEnd_of_file hfile).2

theorem octets?_eq (hstored : Stored fs fs' p name dir content) (hsplits : Splits p above name)
    (h : Site fs' p above name dir) : fs'.octets? p = some content := by
  obtain ⟨state, hfile, -⟩ := hstored.goal
  exact octets?_eq_some_iff.mpr ⟨_, state, hstored.locate_eq hsplits h, hfile⟩

theorem content?_eq (hstored : Stored fs fs' p name dir content) (hsplits : Splits p above name)
    (h : Site fs' p above name dir)
    (hread : (fs.stateAt (temporaryPlace dir name)).mayRead = true) :
    fs'.content? p = some content := by
  obtain ⟨state, hfile, hstate⟩ := hstored.goal
  exact content?_eq_some_iff.mpr
    ⟨_, state, hstored.locate_eq hsplits h, hfile, hstate.trans hread⟩

end Stored

variable [FileLock]

theorem saveTo_of_made {fs₁ : FileSystem} (hmake : fs.makeParents (lockPath p) = (fs₁, none))
    (h : Site fs₁ p above name dir) :
    fs₁.acquire p = fs.acquire p ∧ d.saveTo fs₁ p = d.saveTo fs p := by
  have hacquire : fs₁.acquire p = fs.acquire p := by
    unfold FileSystem.acquire
    rw [hmake, h.makeParents_eq]
  exact ⟨hacquire, by rw [saveTo, saveTo, hacquire]⟩

theorem saveTo_of_acquire {locked : FileSystem} (h : fs.acquire p = (locked, none)) :
    d.saveTo fs p = ((d.saveLocked locked p).1.release p, (d.saveLocked locked p).2) := by
  rw [saveTo, h]

theorem acquire_of_saved (h : (d.saveTo fs p).2.2 = none) : (fs.acquire p).2 = none := by
  unfold saveTo at h
  split at h
  · contradiction
  · next hacquire => rw [hacquire]

variable [LawfulFileLock]

theorem failed_at_site (h : Site fs p above name dir) (htaken : (fs.acquire p).2 = none)
    (hfailed : (d.saveTo fs p).2.2 ≠ none) :
    RolledBack fs (d.saveTo fs p).1 p name dir ∧ Site (d.saveTo fs p).1 p above name dir := by
  obtain ⟨locked, hacquire, hlocked⟩ := h.exists_locked htaken
  have hsite := hlocked.site h
  rw [saveTo_of_acquire hacquire] at hfailed ⊢
  have hrest : (d.saveLocked locked p).1 = locked ∨
      Touched locked (d.saveLocked locked p).1 (· = temporaryPlace dir name) ∧
        (d.saveLocked locked p).1.entryAt? (temporaryPlace dir name) = none := by
    unfold saveLocked at hfailed ⊢
    split
    · exact .inl rfl
    · next hsame =>
      rw [if_neg hsame] at hfailed
      have houtcome := hsite.outcome (Utf8.encode d.text)
      split
      · next hreplace =>
        rw [hreplace] at houtcome
        cases houtcome with
        | undone _ htouched hgone _ => exact .inr ⟨htouched, hgone⟩
      · next hreplace =>
        rw [hreplace] at hfailed
        exact absurd rfl hfailed
  generalize (d.saveLocked locked p).1 = rest at hrest ⊢
  have hrestSite : Site rest p above name dir := by
    rcases hrest with rfl | ⟨htouched, hgone⟩
    · exact hsite
    · refine hsite.of_touched_temporary htouched (mayWriteAt_iff.mpr (.inl ⟨hgone, ?_⟩))
        (isSole_of_none hgone)
      rw [htouched.alike.mayChangeAt_eq]
      exact hsite.mayChangeAt _
  have hsame : ∀ m, m ≠ temporaryPlace dir name → rest.entryAt? m = locked.entryAt? m := by
    intro m hm
    rcases hrest with rfl | ⟨htouched, -⟩
    · rfl
    · exact htouched.same hm
  obtain ⟨content, state, hentry⟩ := hlocked.entry
  have hheld := (hsame _ lockPlace_ne_temporaryPlace).trans hentry
  obtain ⟨hreleased, hfinal⟩ := hrestSite.released hheld
  refine ⟨⟨hreleased.lock, ?_, fun m hm hm' => ?_⟩, hfinal⟩
  · rw [hreleased.other _ lockPlace_ne_temporaryPlace.symm]
    rcases hrest with rfl | ⟨-, hgone⟩
    · rw [hlocked.touched.same lockPlace_ne_temporaryPlace.symm]
      exact .inr rfl
    · rw [hgone]
      exact .inl rfl
  · rw [hreleased.other m hm, hsame m hm', hlocked.touched.same hm]

theorem octets?_release_eq_none (h : Splits p above name) {lockName : Text}
    (hlock : Splits (lockPath p) above lockName) (hlost : ∀ dir, ¬fs.Leads above dir) :
    (fs.release p).octets? p = none := by
  have hunlocked : ∀ dir, ¬(fs.unlocked (lockPath p)).Leads above dir := fun dir hdir =>
    hlost dir ((alike_unlocked fs _).leads_iff.mpr hdir)
  have hrelease : fs.release p = fs.unlocked (lockPath p) := by
    refine (release_cases fs p).resolve_right ?_
    rintro ⟨l, -, -, hl, -⟩
    obtain ⟨-, -, dir, hdir⟩ := leads_of_locate hlock hl
    exact hunlocked dir hdir
  rw [hrelease]
  by_contra hcontent
  obtain ⟨c, hc⟩ := Option.ne_none_iff_exists'.mp hcontent
  obtain ⟨l, -, hl, -⟩ := octets?_eq_some_iff.mp hc
  obtain ⟨-, -, dir, hdir⟩ := leads_of_locate h hl
  exact hunlocked dir hdir

theorem saved_at_site (h : Site fs p above name dir) (hsaved : (d.saveTo fs p).2.2 = none) :
    Splits p above name ∧
    ((fs.put (dir ++ [name]) (.file [] {})).Leads above dir →
      Stored fs (d.saveTo fs p).1 p name dir (Utf8.encode d.text) ∧
        Site (d.saveTo fs p).1 p above name dir) ∧
    (¬(fs.put (dir ++ [name]) (.file [] {})).Leads above dir →
      (d.saveTo fs p).1.octets? p = none) := by
  obtain ⟨locked, hacquire, hlocked⟩ := h.exists_locked (acquire_of_saved hsaved)
  have hsite := hlocked.site h
  rw [saveTo_of_acquire hacquire] at hsaved ⊢
  obtain ⟨hsplits, hgoal, hmoved⟩ : Splits p above name ∧
      locked.isDirAt (dir ++ [name]) = false ∧
      Replaced locked (d.saveLocked locked p).1 dir name (Utf8.encode d.text) := by
    unfold saveLocked at hsaved ⊢
    split
    · next hchanged =>
      rw [if_pos hchanged] at hsaved
      contradiction
    · next hsame =>
      rw [if_neg hsame] at hsaved
      have houtcome := hsite.outcome (Utf8.encode d.text)
      split
      · next hreplace =>
        rw [hreplace] at hsaved
        contradiction
      · next hreplace =>
        rw [hreplace] at houtcome
        cases houtcome with
        | replaced hsplits hgoal hmoved => exact ⟨hsplits, hgoal, hmoved⟩
  generalize (d.saveLocked locked p).1 = moved at hmoved ⊢
  have hway : ∀ dir', moved.Leads above dir' ↔
      (fs.put (dir ++ [name]) (.file [] {})).Leads above dir' := fun dir' =>
    (hmoved.leads_iff hsite).trans (hlocked.touched.alike.put (by simp) _).leads_iff.symm
  refine ⟨hsplits, fun hleads => ?_, fun hlost => ?_⟩
  · have hmovedSite := hmoved.site hsite hgoal ((hway dir).mpr hleads)
    have hapart : lockPlace dir name ≠ dir ++ [name] := by simp [lockPlace]
    obtain ⟨content, state, hentry⟩ := hlocked.entry
    have hheld := (hmoved.other _ hapart lockPlace_ne_temporaryPlace).trans hentry
    obtain ⟨hreleased, hfinal⟩ := hmovedSite.released hheld
    refine ⟨⟨?_, hreleased.lock, ?_, fun m hm hm' hm'' => ?_⟩, hfinal⟩
    · rw [hreleased.other _ hapart.symm, hmoved.goal, stateAt,
        hlocked.touched.same lockPlace_ne_temporaryPlace.symm, ← stateAt]
      exact ⟨_, rfl, rfl⟩
    · rw [hreleased.other _ lockPlace_ne_temporaryPlace.symm, hmoved.temporary]
      rfl
    · rw [hreleased.other m hm', hmoved.other m hm hm'', hlocked.touched.same hm']
  · refine octets?_release_eq_none hsplits h.lock fun dir' hdir' => hlost ?_
    obtain rfl := hsite.leads.unique (hmoved.leads_before hdir')
    exact (hway dir).mp hdir'

/-- With the lock a save fails only over a directory or over what others have written. -/
theorem saves_at_site (h : Site fs p above name dir) (htaken : (fs.acquire p).2 = none)
    (hsplits : Splits p above name) (hgoal : fs.isDirAt (dir ++ [name]) = false)
    (hsame : d.isChangedOutside (fs.acquire p).1 p = false) : (d.saveTo fs p).2.2 = none := by
  obtain ⟨locked, hacquire, hlocked⟩ := h.exists_locked htaken
  rw [hacquire] at hsame
  rw [saveTo_of_acquire hacquire, saveLocked, if_neg (by simp [hsame])]
  have houtcome := (hlocked.site h).outcome (Utf8.encode d.text)
  split
  · next hreplace =>
    rw [hreplace] at houtcome
    cases houtcome with
    | undone _ _ _ hrefused =>
      have hdir := hrefused hsplits
      rw [hlocked.touched.alike.isDirAt_eq, hgoal] at hdir
      contradiction
  · rfl

end Document

end SourceEdit
