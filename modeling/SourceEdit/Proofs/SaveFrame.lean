import SourceEdit.Proofs.Saving

/-!
What a save may change. For a file whose path goes down from the top without a link, the file, its
lock and its temporary file are in one directory; a save changes nothing elsewhere but what the paths
of the lock and the temporary file lead to as links.
-/

set_option autoImplicit false

namespace SourceEdit

open FileSystem (lockPath)
open SourceEdit.Path (Splits)

/-- What an entry is and holds. That a file is locked does not show. -/
def Entry.shown : Entry → Entry
  | .file content state => .file content { state with lockedFor := none }
  | e => e

namespace FileSystem

open Document (temporaryPath temporaryPath_splits replaceFile replaceFile_cases moved_of_move)

variable {fs fs' : FileSystem} {p above : Path} {name : Text} {dir : Location}

def shownAt? (fs : FileSystem) (l : Location) : Option Entry := (fs.entryAt? l).map Entry.shown

/-- Elsewhere the trees show the same. -/
def SameOutside (places : Location → Prop) (fs fs' : FileSystem) : Prop :=
  ∀ l, ¬places l → fs'.shownAt? l = fs.shownAt? l

namespace SameOutside

variable {places : Location → Prop}

theorem refl (fs : FileSystem) : SameOutside places fs fs := fun _ _ => rfl

theorem trans {fs'' : FileSystem} (h : SameOutside places fs fs') (h' : SameOutside places fs' fs'') :
    SameOutside places fs fs'' := fun l hl => (h' l hl).trans (h l hl)

theorem mono {places' : Location → Prop} (h : SameOutside places fs fs')
    (hle : ∀ l, places l → places' l) : SameOutside places' fs fs' :=
  fun l hl => h l fun hin => hl (hle l hin)

theorem of_entryAt? (h : ∀ l, ¬places l → fs'.entryAt? l = fs.entryAt? l) :
    SameOutside places fs fs' := fun l hl => by rw [shownAt?, shownAt?, h l hl]

theorem of_touched {places' : Location → Prop} (h : Touched fs fs' places')
    (hle : ∀ l, places' l → places l) : SameOutside places fs fs' :=
  of_entryAt? fun l hl => h.same fun hin => hl (hle l hin)

end SameOutside

theorem sameOutside_unlocked (places : Location → Prop) (fs : FileSystem) (p : Path) :
    SameOutside places fs (fs.unlocked p) := by
  intro l _
  rw [shownAt?, shownAt?, entryAt?_unlocked]
  cases fs.entryAt? l with
  | none => rfl
  | some e => cases e <;> rfl

theorem shownAt?_dir_iff {l : Location} {rights : Rights} :
    fs.shownAt? l = some (.dir rights) ↔ fs.entryAt? l = some (.dir rights) := by
  rw [shownAt?]
  cases fs.entryAt? l with
  | none => rfl
  | some e => cases e <;> simp [Entry.shown]

theorem Passable.of_shown {l : Location} (h : fs.Passable l) (hsame : fs'.shownAt? l = fs.shownAt? l) :
    fs'.Passable l := by
  obtain ⟨rights, hentry, hsearch⟩ := passable_iff.mp h
  refine passable_iff.mpr ⟨rights, ?_, hsearch⟩
  rw [← shownAt?_dir_iff, hsame, shownAt?_dir_iff, hentry]

theorem walk_down {names : List Text} {here : Location} (hshort : ∀ name ∈ names, ShortName name)
    (hdirs : ∀ m, m <+: names → fs.Passable (here ++ m)) :
    Walk fs true 0 names here (here ++ names) := by
  induction names generalizing here with
  | nil =>
    rw [List.append_nil]
    exact .nil
  | cons name names ih =>
    have hhere := hdirs [] List.nil_prefix
    rw [List.append_nil] at hhere
    have hrest : Walk fs true 0 names (here ++ [name]) (here ++ [name] ++ names) := by
      refine ih (fun n hn => hshort n (.tail _ hn)) fun m hm => ?_
      rw [List.append_assoc]
      exact hdirs _ (List.prefix_cons_inj name |>.mpr hm)
    rw [List.append_assoc] at hrest
    exact .enter hhere (hshort name List.mem_cons_self)
      (hdirs [name] (List.prefix_cons_inj name |>.mpr List.nil_prefix)).isDirAt hrest

def Below (dir l : Location) : Prop := ∃ name, dir ++ [name] <+: l

theorem not_below {m : Location} (h : m <+: dir) : ¬Below dir m := by
  rintro ⟨name, hbelow⟩
  have hle := (hbelow.trans h).length_le
  rw [List.length_append, List.length_singleton] at hle
  omega

/-- The names of the path are those of the directory. -/
structure Grounded (fs : FileSystem) (above : Path) (dir : Location) : Prop where
  names : Text.filledFields '/' above = dir
  short : ∀ name ∈ dir, ShortName name
  passable : ∀ m, m <+: dir → fs.Passable m

namespace Grounded

theorem leads (h : Grounded fs above dir) : fs.Leads above dir where
  walk := by
    have hwalk : Walk fs true 0 dir [] ([] ++ dir) := walk_down h.short h.passable
    exact ⟨0, Nat.zero_le _, h.names ▸ hwalk⟩
  passable := h.passable dir List.prefix_rfl

theorem of_same (h : Grounded fs above dir) (hsame : SameOutside (Below dir) fs fs') :
    Grounded fs' above dir where
  names := h.names
  short := h.short
  passable := fun m hm => (h.passable m hm).of_shown (hsame m (not_below hm))

theorem of_alike (h : Grounded fs above dir) (halike : Alike fs fs') : Grounded fs' above dir :=
  ⟨h.names, h.short, fun m hm => halike.passable_iff.mp (h.passable m hm)⟩

end Grounded

/-- Where a save to a path in this directory may change the tree: in the directory, and at the
names of the files of the lock and of the temporary file, if a link leads to them or they have other
names. -/
def Reached (fs : FileSystem) (p : Path) (dir l : Location) : Prop :=
  Below dir l ∨ ∃ q ∈ [lockPath p, temporaryPath p], ∃ x, fs.locate q true = .ok x ∧
    fs.OneFile x l ∧ (fs.isLink q = true ∨ x ≠ l)

theorem absolute_of_beside (h : Splits p above name) {q : Path}
    (hq : q ∈ [lockPath p, temporaryPath p]) : Path.isAbsolute q = true := by
  rcases List.mem_pair.mp hq with rfl | rfl
  · exact (lockPath_splits h).absolute
  · exact (temporaryPath_splits h).absolute

theorem Reached.of_alike (h : Splits p above name) (halike : Alike fs fs')
    (hnames : SameNames fs fs') {l : Location} (hl : fs'.Reached p dir l) : fs.Reached p dir l := by
  refine hl.imp_right ?_
  rintro ⟨q, hq, x, hlocate, hsame, hother⟩
  have habsolute := absolute_of_beside h hq
  exact ⟨q, hq, x, (halike.locate_iff habsolute).mpr hlocate, hnames.oneFile_iff.mp hsame,
    hother.imp_left (halike.symm.isLink habsolute)⟩

theorem Grounded.reached (hdir : Grounded fs above dir) {q : Path} {x : Text}
    (hq : q ∈ [lockPath p, temporaryPath p]) (h : Splits q above x) {l m : Location}
    (hl : fs.locate q true = .ok l) (hsame : fs.OneFile l m) : fs.Reached p dir m := by
  by_cases hother : fs.isLink q = true ∨ l ≠ m
  · exact .inr ⟨q, hq, l, hl, hsame, hother⟩
  · obtain ⟨hlink, heq⟩ := not_or.mp hother
    obtain rfl := not_not.mp heq
    have hthere := locate_false_of_leads h hl hdir.leads
    have hnot := isLink_eq_false_iff.mp (Bool.eq_false_iff.mpr hlink) _ hthere
    obtain rfl := Except.ok.inj (hl.symm.trans (locate_true_of_false hthere hnot))
    exact .inl ⟨x, List.prefix_rfl⟩

theorem sameOutside_erase (hdir : Grounded fs above dir) {q : Path} {x : Text}
    (h : Splits q above x) {l : Location} (hl : fs.locate q false = .ok l) :
    SameOutside (Below dir) fs (fs.erase l) := by
  obtain rfl := Except.ok.inj (hl.symm.trans (locate_false_of_leads h hl hdir.leads))
  refine .of_entryAt? fun m hm => ?_
  have hne : dir ++ [x] ≠ m := fun heq => hm ⟨x, heq ▸ List.prefix_refl _⟩
  rw [entryAt?_erase fs m (by simp), if_neg hne]

theorem sameOutside_moveEntries (fs : FileSystem) (dir : Location) (a b : Text) :
    SameOutside (Below dir) fs (fs.moveEntries (dir ++ [a]) (dir ++ [b])) :=
  .of_entryAt? fun _ hl =>
    entryAt?_moveEntries (fun hbelow => hl ⟨a, hbelow⟩) fun hbelow => hl ⟨b, hbelow⟩

theorem sameOutside_replaceFile (h : Splits p above name) (hdir : Grounded fs above dir)
    (content : Octets) : SameOutside (fs.Reached p dir) fs (replaceFile fs p content).1 ∧
      Grounded (replaceFile fs p content).1 above dir := by
  have htemporary := temporaryPath_splits h
  obtain ⟨stopped, hsteps, hremoved⟩ := replaceFile_cases fs p content
  have hwritten : ∀ written, fs.write (temporaryPath p) content = .ok written →
      SameOutside (fs.Reached p dir) fs written ∧ Grounded written above dir := by
    intro written hwrite
    obtain ⟨l, hl, -, htouched, -⟩ := touched_of_write hwrite
    exact ⟨.of_touched htouched fun m => hdir.reached (by simp) htemporary hl,
      hdir.of_alike htouched.alike⟩
  have hstopped : SameOutside (fs.Reached p dir) fs stopped ∧ Grounded stopped above dir := by
    rcases hsteps with ⟨rfl, -⟩ | ⟨hwrite, -⟩ | ⟨written, hwrite, hmove⟩
    · exact ⟨.refl stopped, hdir⟩
    · exact hwritten stopped hwrite
    · obtain ⟨hsame, hground⟩ := hwritten written hwrite
      rcases moved_of_move h hmove hground.leads with ⟨-, rfl⟩ | ⟨rfl, -⟩
      · exact ⟨hsame, hground⟩
      · have hmoved := sameOutside_moveEntries written dir (name ++ ".tmp".toList) name
        exact ⟨hsame.trans (hmoved.mono fun _ => .inl), hground.of_same hmoved⟩
  rcases hremoved with hfinal | hremove
  · rwa [hfinal]
  · obtain ⟨hsame, hground⟩ := hstopped
    obtain ⟨l, -, hl, -, -, -, hfinal⟩ := exists_of_remove hremove
    have herased := sameOutside_erase hground htemporary hl
    rw [← hfinal] at herased
    exact ⟨hsame.trans (herased.mono fun _ => .inl), hground.of_same herased⟩

section
variable [FileLock] [LawfulFileLock]

theorem sameOutside_acquire (h : Splits p above name) (hp : Usable p)
    (hdir : Grounded fs above dir) : SameOutside (fs.Reached p dir) fs (fs.acquire p).1 ∧
      Alike fs (fs.acquire p).1 ∧ SameNames fs (fs.acquire p).1 := by
  have hlock := lockPath_splits h
  have hparent : Usable (Path.dirName (lockPath p)) := by
    rw [hlock.dirName_eq, ← h.dirName_eq]
    exact usable_dirName h hp
  rcases acquire_of_makeParents (makeParents_of_leads hlock hparent hdir.leads) with
    ⟨e, he⟩ | ⟨l, content, hl, hmay, he⟩
  · rw [he]
    exact ⟨.refl fs, .refl fs, fun _ => rfl⟩
  · rw [he]
    have htouched := touched_lockFile hmay content (lockPath p)
    exact ⟨.of_touched htouched fun m => hdir.reached (by simp) hlock hl, htouched.alike,
      sameNames_lockFile (isEnd_of_mayLockAt hmay).ne_top content _⟩

theorem sameOutside_release (h : Splits p above name) (hdir : Grounded fs above dir) :
    SameOutside (Below dir) fs (fs.release p) := by
  have hunlocked := sameOutside_unlocked (Below dir) fs (lockPath p)
  rcases release_cases fs p with hrelease | ⟨l, -, -, hl, -, -, hrelease⟩
  · rwa [hrelease]
  · rw [hrelease]
    exact hunlocked.trans
      (sameOutside_erase (hdir.of_same hunlocked) (lockPath_splits h) hl)

end

end FileSystem

namespace Document

open FileSystem

variable {fs : FileSystem} {p above : Path} {name : Text} {dir : Location}

/-- A save changes the tree in the directory of the file and through links beside the file. -/
theorem sameOutside_saveTo [FileLock] [LawfulFileLock] (h : Splits p above name) (hp : Usable p)
    (hdir : Grounded fs above dir) (d : Document) :
    SameOutside (fs.Reached p dir) fs (d.saveTo fs p).1 := by
  obtain ⟨hlocked, halike, hnames⟩ := sameOutside_acquire h hp hdir
  unfold saveTo
  split
  · next hacquire => rwa [hacquire] at hlocked
  · next fs₁ hacquire =>
    rw [hacquire] at hlocked halike hnames
    have hdir₁ := hdir.of_alike halike
    have hwritten : SameOutside (fs₁.Reached p dir) fs₁ (d.saveLocked fs₁ p).1 ∧
        Grounded (d.saveLocked fs₁ p).1 above dir := by
      have hreplaced := sameOutside_replaceFile h hdir₁ (Utf8.encode d.text)
      unfold saveLocked
      split
      · exact ⟨.refl fs₁, hdir₁⟩
      · split <;> next hreplace => rwa [hreplace] at hreplaced
    have hreleased := sameOutside_release h hwritten.2
    exact hlocked.trans ((hwritten.1.mono fun _ => Reached.of_alike h halike hnames).trans
      (hreleased.mono fun _ => .inl))

end Document

end SourceEdit
