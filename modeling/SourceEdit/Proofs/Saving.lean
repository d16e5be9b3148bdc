import SourceEdit.Document.Storage
import SourceEdit.Proofs.BlockSteps
import SourceEdit.Proofs.FileChanges

set_option autoImplicit false

namespace SourceEdit

open FileSystem (lockPath Leads Touched Alike)
open SourceEdit.Path (Splits)

namespace FileSystem

variable {fs fs' : FileSystem} {p above : Path} {name : Text}

def octets? (fs : FileSystem) (p : Path) : Option Octets :=
  match fs.find p true with
  | .ok (_, .file content _) => some content
  | _ => none

theorem octets?_eq_some_iff {c : Octets} : fs.octets? p = some c ↔
    ∃ l state, fs.locate p true = .ok l ∧ fs.entryAt? l = some (.file c state) := by
  unfold octets? find
  cases hl : fs.locate p true with
  | error => simp [bind, Except.bind]
  | ok l =>
    cases he : fs.entryAt? l with
    | none => simp [he, bind, Except.bind]
    | some e => cases e <;> simp [he, bind, Except.bind]

theorem content?_eq_some_iff {c : Octets} : fs.content? p = some c ↔ ∃ l state,
    fs.locate p true = .ok l ∧ fs.entryAt? l = some (.file c state) ∧ state.mayRead = true := by
  unfold content? read find
  cases hl : fs.locate p true with
  | error => simp [Except.toOption, bind, Except.bind]
  | ok l =>
    cases he : fs.entryAt? l with
    | none => simp [he, Except.toOption, bind, Except.bind]
    | some e =>
      cases e with
      | dir rights => cases hread : rights.read <;> simp [he, hread, Except.toOption, bind, Except.bind]
      | link => simp [he, Except.toOption, bind, Except.bind]
      | file content state =>
        cases hread : state.mayRead <;> simp [he, hread, Except.toOption, bind, Except.bind]

theorem octets?_of_content? {c : Octets} (h : fs.content? p = some c) : fs.octets? p = some c := by
  obtain ⟨l, state, hl, hentry, -⟩ := content?_eq_some_iff.mp h
  exact octets?_eq_some_iff.mpr ⟨l, state, hl, hentry⟩

theorem content?_of_touched (hp : Path.isAbsolute p = true) {places : Location → Prop} {c : Octets}
    (h : Touched fs fs' places) (hl : ∀ m, fs.locate p true = .ok m → ¬places m)
    (hc : fs.content? p = some c) : fs'.content? p = some c := by
  obtain ⟨m, state, hm, hentry, hread⟩ := content?_eq_some_iff.mp hc
  refine content?_eq_some_iff.mpr ⟨m, state, (h.alike.locate_iff hp).mp hm, ?_, hread⟩
  rw [h.same (hl m hm), hentry]

theorem content?_unlocked (hp : Path.isAbsolute p = true) {q : Path} {c : Octets}
    (hc : fs.content? p = some c) : (fs.unlocked q).content? p = some c := by
  obtain ⟨m, state, hm, hentry, hread⟩ := content?_eq_some_iff.mp hc
  have halike := alike_unlocked fs q
  refine content?_eq_some_iff.mpr ⟨m,
    { state with lockedFor := if state.lockedFor = some q then none else state.lockedFor },
    (halike.locate_iff hp).mp hm, ?_, hread⟩
  rw [entryAt?_unlocked, hentry]
  rfl

theorem hasPath_iff : fs.hasPath p = true ↔
    ∃ l e, fs.locate p true = .ok l ∧ fs.entryAt? l = some e := by
  simp only [← find_eq_ok_iff]
  unfold hasPath
  cases fs.find p true with
  | error => simp [Except.isOk, Except.toBool]
  | ok x => exact iff_of_true rfl ⟨x.1, x.2, rfl⟩

theorem isLink_iff : fs.isLink p = true ↔
    ∃ l target, fs.locate p false = .ok l ∧ fs.entryAt? l = some (.link target) := by
  simp only [← find_eq_ok_iff]
  unfold isLink
  cases fs.find p false with
  | error => simp
  | ok x =>
    obtain ⟨l, e⟩ := x
    cases e <;> simp

theorem isLink_eq_false_iff : fs.isLink p = false ↔
    ∀ l, fs.locate p false = .ok l → ∀ target, fs.entryAt? l ≠ some (.link target) := by
  rw [← Bool.not_eq_true, isLink_iff]
  simp

/-- The paths do not lead to one file. -/
def Apart (fs : FileSystem) (q p : Path) : Prop :=
  ∀ l, fs.locate q true = .ok l → ∀ m, fs.locate p true = .ok m → ¬fs.OneFile l m

instance (fs : FileSystem) (q p : Path) : Decidable (fs.Apart q p) :=
  inferInstanceAs (Decidable (∀ l, fs.locate q true = .ok l →
    ∀ m, fs.locate p true = .ok m → ¬fs.OneFile l m))

/-- No link stands at the path, and a file there has no other names. -/
structure Sole (fs : FileSystem) (p : Path) : Prop where
  notLink : fs.isLink p = false
  single : ∀ l, fs.locate p true = .ok l → fs.IsSole l

instance (fs : FileSystem) (p : Path) : Decidable (Sole fs p) :=
  decidable_of_iff (fs.isLink p = false ∧ ∀ l, fs.locate p true = .ok l → fs.IsSole l)
    ⟨fun ⟨h, h'⟩ => ⟨h, h'⟩, fun ⟨h, h'⟩ => ⟨h, h'⟩⟩

/-- If a file is there it may be read. -/
def Readable (fs : FileSystem) (p : Path) : Prop :=
  ∀ l, fs.locate p true = .ok l → (fs.stateAt l).mayRead = true

instance (fs : FileSystem) (p : Path) : Decidable (Readable fs p) :=
  inferInstanceAs (Decidable (∀ l, fs.locate p true = .ok l → _))

theorem Readable.content?_eq {c : Octets} (h : Readable fs p) (hc : fs.octets? p = some c) :
    fs.content? p = some c := by
  obtain ⟨l, state, hl, hentry⟩ := octets?_eq_some_iff.mp hc
  have hread := h l hl
  rw [stateAt_of_file hentry] at hread
  exact content?_eq_some_iff.mpr ⟨l, state, hl, hentry, hread⟩

/-- The same names of files. -/
def SameNames (fs fs' : FileSystem) : Prop :=
  ∀ m, (fs'.stateAt m).shared = (fs.stateAt m).shared

theorem SameNames.oneFile_iff (h : SameNames fs fs') {l m : Location} :
    fs'.OneFile l m ↔ fs.OneFile l m := by
  rw [OneFile, OneFile, areOneFile, areOneFile, h, h]

theorem SameNames.isSole_iff (h : SameNames fs fs') {l : Location} :
    fs'.IsSole l ↔ fs.IsSole l := by
  rw [IsSole, IsSole, h]

theorem Alike.isLink (h : Alike fs fs') (hp : Path.isAbsolute p = true)
    (hlink : fs.isLink p = true) : fs'.isLink p = true := by
  obtain ⟨l, target, hl, hentry⟩ := isLink_iff.mp hlink
  exact isLink_iff.mpr ⟨l, target, (h.locate_iff hp).mp hl, (h.link l target).mp hentry⟩

theorem Sole.of_alike (h : Sole fs p) (hp : Path.isAbsolute p = true) (halike : Alike fs fs')
    (hnames : SameNames fs fs') : Sole fs' p where
  notLink := by
    rw [← Bool.not_eq_true]
    intro hlink
    exact Bool.false_ne_true (h.notLink.symm.trans (halike.symm.isLink hp hlink))
  single := fun l hl => hnames.isSole_iff.mpr (h.single l ((halike.locate_iff hp).mpr hl))

theorem sameNames_putFile {l : Location} (hl : l ≠ []) (content : Octets) {state : FileState}
    (hs : state.shared = (fs.stateAt l).shared) : SameNames fs (fs.putFile l content state) := by
  intro m
  have hput := entryAt?_putFile hl content hs m
  by_cases hm : fs.OneFile l m
  · rw [if_pos hm] at hput
    rw [stateAt_of_file hput, hs]
    rcases hm with rfl | hm
    · rfl
    · simp only [areOneFile, Bool.and_eq_true, decide_eq_true_eq] at hm
      exact hm.2.symm
  · rw [if_neg hm] at hput
    rw [stateAt, hput, ← stateAt]

theorem sameNames_lockFile {l : Location} (hl : l ≠ []) (content : Octets) (q : Path) :
    SameNames fs (fs.lockFile l content q) := sameNames_putFile hl content rfl

theorem entryAt?_lockFile_of_sole {l : Location} (hl : l ≠ []) (content : Octets) (q : Path)
    {m : Location} (hm : fs.IsSole m) : (fs.lockFile l content q).entryAt? m =
      if m = l then some (.file content { fs.stateAt l with lockedFor := some q })
      else fs.entryAt? m := by
  rw [entryAt?_lockFile hl]
  by_cases heq : m = l
  · rw [if_pos (.inl heq), if_pos heq]
  · rw [if_neg fun hone => heq (hone.symm.eq hm).symm, if_neg heq]

theorem mayRead_lockFile {l : Location} (hl : l ≠ []) (content : Octets) (q : Path) {m : Location}
    (hm : fs.IsSole m) :
    ((fs.lockFile l content q).stateAt m).mayRead = (fs.stateAt m).mayRead := by
  have hput := entryAt?_lockFile_of_sole hl content q hm
  by_cases heq : m = l
  · rw [if_pos heq] at hput
    rw [stateAt_of_file hput, heq]
  · rw [if_neg heq] at hput
    rw [stateAt, hput, ← stateAt]

theorem mayWriteAt_of_lockFile {l : Location} (hmay : fs.mayLockAt l = true) (content : Octets)
    (q : Path) {m : Location} (hm : fs.IsSole m)
    (h : (fs.lockFile l content q).mayWriteAt m = true) : fs.mayWriteAt m = true := by
  have hput := entryAt?_lockFile_of_sole (isEnd_of_mayLockAt hmay).ne_top content q hm
  by_cases heq : m = l
  · rw [if_pos heq] at hput
    rw [mayWriteAt, hput] at h
    rw [heq, mayWriteAt_iff]
    refine (mayLockAt_iff.mp hmay).imp_right ?_
    rintro ⟨c, state, hentry, -⟩
    rw [stateAt_of_file hentry] at h
    exact ⟨c, state, hentry, h⟩
  · rw [if_neg heq] at hput
    rwa [mayWriteAt, hput, (touched_lockFile hmay content q).alike.mayChangeAt_eq] at h

theorem lockPath_splits (h : Splits p above name) :
    Splits (lockPath p) above (name ++ ".lock".toList) :=
  h.beside (by decide) (by decide)

theorem usable_dirName (h : Splits p above name) (hp : Usable p) : Usable (Path.dirName p) :=
  hp.of_prefix h.dirName_prefix h.dirName_ne_nil

theorem makeParents_of_octets? (h : Splits p above name) {c : Octets}
    (hc : fs.octets? p = some c) : fs.makeParents (lockPath p) = (fs, none) := by
  obtain ⟨l, state, hl, -⟩ := octets?_eq_some_iff.mp hc
  obtain ⟨hp, -, dir, hdir⟩ := leads_of_locate h hl
  refine makeParents_of_leads (lockPath_splits h) ?_ hdir
  rw [(lockPath_splits h).dirName_eq, ← h.dirName_eq]
  exact usable_dirName h hp

theorem content?_acquire [FileLock] [LawfulFileLock] (h : Splits p above name)
    (hapart : fs.Apart (lockPath p) p) {c : Octets} (hc : fs.content? p = some c) :
    (fs.acquire p).1.content? p = some c := by
  rcases touched_acquire (makeParents_of_octets? h (octets?_of_content? hc)) with
    he | ⟨l, hl, htouched⟩
  · rw [he]
    exact hc
  · exact content?_of_touched h.absolute htouched (hapart l hl) hc

theorem aside_of_locate (h : Splits p above name) {l x y : Location} {target : Path}
    (hl : fs.locate p false = .ok l) (hlink : fs.entryAt? l = some (.link target))
    (hx : fs.locate p true = .ok x) (hend : fs.IsEnd x) (hne : x ≠ y)
    (hy : ∀ target, fs.entryAt? y ≠ some (.link target)) : fs.Aside l target y := by
  obtain ⟨-, hname, dir, hdir, rfl⟩ := (locate_false_iff h).mp hl
  rw [locate_eq_ok_iff, start_of_absolute fs h.absolute, h.pathNames] at hx
  obtain ⟨-, n, -, hwalk⟩ := hx
  obtain ⟨n₁, n₂, dir', -, hwalk₁, hwalk₂⟩ := (walk_append_iff (by simp)).mp hwalk
  obtain ⟨k, -, hdirWalk⟩ := hdir.walk
  obtain ⟨-, rfl⟩ := hwalk₁.unique hdirWalk
  obtain ⟨-, k₁, k₂, mid, -, htarget, hnil⟩ :=
    ((walk_link_iff hdir.passable hname hlink).mp hwalk₂).resolve_left fun h =>
      Bool.false_ne_true h.2.1.symm
  obtain ⟨-, rfl⟩ := walk_nil_iff.mp hnil
  refine ⟨fun heq => hy target (heq ▸ hlink), fun m z hz => ?_⟩
  rw [List.dropLast_concat] at hz
  obtain ⟨-, rfl⟩ := hz.unique htarget
  exact ⟨hne, fun hpass => hend.not_isDirAt hpass.isDirAt⟩

theorem content?_erase_link (hp : Path.isAbsolute p = true) {l : Location} {target : Path}
    (hlink : fs.entryAt? l = some (.link target)) (hne : l ≠ [])
    (haside : ∀ x, fs.locate p true = .ok x → fs.Aside l target x) {c : Octets}
    (hc : fs.content? p = some c) : (fs.erase l).content? p = some c := by
  obtain ⟨x, state, hx, hentry, hread⟩ := content?_eq_some_iff.mp hc
  have hstays : ∀ m, m ≠ l → (fs.erase l).entryAt? m = fs.entryAt? m := fun m hm => by
    rw [entryAt?_erase fs m hne, if_neg (Ne.symm hm)]
  have hfile : (fs.erase l).entryAt? x = some (.file c state) := by
    rw [hstays x fun heq => (haside x hx).notEnd heq.symm, hentry]
  refine content?_eq_some_iff.mpr ⟨x, state, ?_, hfile, hread⟩
  have hway := hx
  rw [locate_eq_ok_iff, start_of_absolute _ hp] at hway ⊢
  obtain ⟨hp, n, hn, hwalk⟩ := hway
  refine ⟨hp, n, hn, hwalk.transfer rooted_top (fun m r _ hm => ?_) (fun m t _ hm => ?_) fun _ => ?_⟩
  · rw [hstays m, hm]
    rintro rfl
    rw [hlink] at hm
    exact Entry.noConfusion (Option.some.inj hm)
  · by_cases heq : m = l
    · rw [heq, hlink] at hm
      obtain rfl := Entry.link.inj (Option.some.inj hm)
      exact .inr (heq ▸ haside x hx)
    · exact .inl (by rw [hstays m heq, hm])
  · exact isEnd_of_file hfile

section
variable [FileLock] [LawfulFileLock]

theorem content?_release (h : Splits p above name)
    (hapart : ∀ l, fs.locate (lockPath p) true = .ok l → fs.locate p true ≠ .ok l)
    (hlock : ∀ l, fs.locate (lockPath p) true = .ok l → fs.IsEnd l) {c : Octets}
    (hc : fs.content? p = some c) : (fs.release p).content? p = some c := by
  have hunlocked := content?_unlocked (q := lockPath p) h.absolute hc
  have halike := alike_unlocked fs (lockPath p)
  have hlockPath := lockPath_splits h
  rcases release_cases fs p with hrelease | ⟨l, e, hthere, hl, hentry, hdir, hrelease⟩
  · rwa [hrelease]
  rw [hrelease]
  cases e with
  | dir rights => exact absurd hentry (isDirAt_eq_false_iff.mp hdir rights)
  | file content state =>
    have hend := isEnd_of_file hentry
    refine content?_of_touched h.absolute (touched_erase hend) (fun m hm heq => ?_) hunlocked
    exact hapart l ((halike.locate_iff hlockPath.absolute).mpr (locate_true_of_false hl hend.2))
      ((halike.locate_iff h.absolute).mpr (heq ▸ hm))
  | link target =>
    have hne : l ≠ [] := by rintro rfl; simp at hentry
    obtain ⟨x, -, hx, -⟩ := hasPath_iff.mp hthere
    have hxlock := (halike.locate_iff hlockPath.absolute).mpr hx
    refine content?_erase_link h.absolute hentry hne (fun y hy => ?_) hunlocked
    refine aside_of_locate hlockPath hl hentry hx (halike.isEnd (hlock x hxlock)) ?_
      (not_link_of_locate h.absolute hy)
    rintro rfl
    exact hapart x hxlock ((halike.locate_iff h.absolute).mpr hy)

theorem content?_release_of_acquire (h : Splits p above name) (hapart : fs.Apart (lockPath p) p)
    {c : Octets} (hc : fs.content? p = some c) (hacquire : fs.acquire p = (fs', none)) :
    (fs'.release p).content? p = some c := by
  have hlocked := content?_acquire h hapart hc
  rw [hacquire] at hlocked
  rcases acquire_of_makeParents (makeParents_of_octets? h (octets?_of_content? hc)) with
    ⟨e, he⟩ | ⟨l, content, hl, hmay, htaken⟩
  · rw [hacquire] at he
    exact absurd (Prod.mk.inj he).2 (by simp)
  · obtain rfl := (Prod.mk.inj (hacquire.symm.trans htaken)).1
    have hend := isEnd_of_mayLockAt hmay
    have halike := (touched_lockFile hmay content (lockPath p)).alike
    have hlockPath := (lockPath_splits h).absolute
    refine content?_release h (fun m hm heq => ?_) (fun m hm => ?_) hlocked
    · exact hapart m ((halike.locate_iff hlockPath).mpr hm) m
        ((halike.locate_iff h.absolute).mpr heq) (.inl rfl)
    · obtain rfl := Except.ok.inj (hl.symm.trans ((halike.locate_iff hlockPath).mpr hm))
      exact halike.isEnd hend

end

end FileSystem

namespace Document

open FileSystem

variable {fs fs' : FileSystem} {p above : Path} {name : Text}

/-- The same file, known with the same content. -/
structure SameFile (d d' : Document) : Prop where
  fileName : d'.fileName = d.fileName
  disk : d'.disk = d.disk

theorem SameFile.refl (d : Document) : SameFile d d := ⟨rfl, rfl⟩

theorem SameFile.trans {d d' d'' : Document} (h : SameFile d d') (h' : SameFile d' d'') :
    SameFile d d'' := ⟨h'.fileName.trans h.fileName, h'.disk.trans h.disk⟩

theorem BlockStep.sameFile {d d' : Document} (h : d.BlockStep d') : SameFile d d' := by
  cases h <;> exact ⟨rfl, rfl⟩

theorem sameFile_edit (d : Document) (edits : List Edit) (cursor : Option CursorRequest) :
    SameFile d (d.edit edits cursor).1 :=
  (blockStep_edit d edits cursor).sameFile

theorem temporaryPath_splits (h : Splits p above name) :
    Splits (temporaryPath p) above (name ++ ".tmp".toList) :=
  h.beside (by decide) (by decide)

/-- A path that goes on leading to its place once a file is there. -/
def WayApart (fs : FileSystem) (p : Path) : Prop :=
  ∀ l, fs.locate p false = .ok l → (fs.put l (.file [] {})).locate p false = .ok l

instance (fs : FileSystem) (p : Path) : Decidable (WayApart fs p) :=
  inferInstanceAs (Decidable (∀ l, fs.locate p false = .ok l → _))

/-- The temporary file removed, if it is there. -/
def cleaned (fs : FileSystem) (target : Path) (failure : Option FileError) :
    FileSystem × Option FileError :=
  if fs.hasPath (temporaryPath target) then
    match fs.remove (temporaryPath target) with
    | .ok fs => (fs, failure)
    | .error e => (fs, some e)
  else (fs, failure)

theorem cleaned_cases (fs : FileSystem) (target : Path) (failure : Option FileError) :
    (failure ≠ none → (cleaned fs target failure).2 ≠ none) ∧
      ((cleaned fs target failure).1 = fs ∨
        fs.remove (temporaryPath target) = .ok (cleaned fs target failure).1) := by
  unfold cleaned
  split
  · cases fs.remove (temporaryPath target) <;> simp
  · exact ⟨id, .inl rfl⟩

/-- What a replacement has done when it stops: nothing, the temporary file is written, or it is moved
as well. Then the temporary file is removed if it is still there. -/
theorem replaceFile_cases (fs : FileSystem) (target : Path) (content : Octets) :
    ∃ stopped, (stopped = fs ∧ (replaceFile fs target content).2 ≠ none ∨
        fs.write (temporaryPath target) content = .ok stopped ∧
          (replaceFile fs target content).2 ≠ none ∨
        ∃ written, fs.write (temporaryPath target) content = .ok written ∧
          written.move (temporaryPath target) target = .ok stopped) ∧
      ((replaceFile fs target content).1 = stopped ∨
        stopped.remove (temporaryPath target) = .ok (replaceFile fs target content).1) := by
  cases hwrite : fs.write (temporaryPath target) content with
  | error e =>
    have heq : replaceFile fs target content = cleaned fs target (some e) := by
      rw [replaceFile, hwrite]
      rfl
    obtain ⟨hfailed, hremoved⟩ := cleaned_cases fs target (some e)
    rw [heq]
    exact ⟨fs, .inl ⟨rfl, hfailed (by simp)⟩, hremoved⟩
  | ok written =>
    cases hmove : written.move (temporaryPath target) target with
    | error e =>
      have heq : replaceFile fs target content = cleaned written target (some e) := by
        simp only [replaceFile, hwrite, hmove]
        rfl
      obtain ⟨hfailed, hremoved⟩ := cleaned_cases written target (some e)
      rw [heq]
      exact ⟨written, .inr (.inl ⟨rfl, hfailed (by simp)⟩), hremoved⟩
    | ok moved =>
      have heq : replaceFile fs target content = cleaned moved target none := by
        simp only [replaceFile, hwrite, hmove]
        rfl
      rw [heq]
      exact ⟨moved, .inr (.inr ⟨written, rfl, hmove⟩), (cleaned_cases moved target none).2⟩

theorem not_prefix_of_ne {dir : Location} {a b : Text} (h : a ≠ b) : ¬dir ++ [a] <+: dir ++ [b] := by
  intro hprefix
  have heq := hprefix.eq_of_length (by simp)
  exact h (by simpa using heq)

theorem append_suffix_ne {name suffix : Text} (h : suffix ≠ []) : name ++ suffix ≠ name := by
  simpa using h

theorem moved_of_move {written moved : FileSystem} (h : Splits p above name)
    (hmove : written.move (temporaryPath p) p = .ok moved) {dir : Location}
    (hdir : written.Leads above dir) :
    written.OneFile (dir ++ [name ++ ".tmp".toList]) (dir ++ [name]) ∧ moved = written ∨
      moved = written.moveEntries (dir ++ [name ++ ".tmp".toList]) (dir ++ [name]) ∧
        written.mayChangeAt (dir ++ [name]) = true ∧
        (written.isDirAt (dir ++ [name ++ ".tmp".toList]) = false →
          written.isDirAt (dir ++ [name]) = false) := by
  have hsplits := temporaryPath_splits h
  obtain ⟨l, l', e, hl, hl', he, hmoved⟩ := exists_of_move hmove
  have hl := hl.symm.trans (locate_false_of_leads hsplits hl hdir)
  have hl' := hl'.symm.trans (locate_false_of_leads h hl' hdir)
  obtain rfl := Except.ok.inj hl
  obtain rfl := Except.ok.inj hl'
  rcases hmoved with hone | ⟨-, -, -, -, hmay, hgoal, rfl⟩
  · exact .inl hone
  · exact .inr ⟨rfl, hmay, hgoal⟩

theorem entryAt?_moveEntries_of_rooted {written : FileSystem} {dir m : Location} {a b : Text}
    (hne : a ≠ b) (ha : written.IsEnd (dir ++ [a]))
    (hroot : (written.put (dir ++ [b]) (.file [] {})).Rooted m)
    (hm : ¬(written.put (dir ++ [b]) (.file [] {})).IsEnd m) :
    (written.moveEntries (dir ++ [a]) (dir ++ [b])).entryAt? m =
      (written.put (dir ++ [b]) (.file [] {})).entryAt? m := by
  have hput : ∀ m, (written.put (dir ++ [b]) (.file [] {})).entryAt? m =
      if dir ++ [b] = m then some (.file [] {}) else written.entryAt? m :=
    fun m => entryAt?_put written m _ (by simp)
  have hb : dir ++ [b] ≠ m := by
    rintro rfl
    exact hm (isEnd_of_file (by rw [hput, if_pos rfl]))
  have hnot : ∀ c, (written.put (dir ++ [b]) (.file [] {})).IsEnd (dir ++ [c]) →
      ¬dir ++ [c] <+: m := by
    intro c hc hprefix
    by_cases heq : dir ++ [c] = m
    · exact hm (heq ▸ hc)
    · exact hc.not_isDirAt (hroot _ hprefix heq).isDirAt
  have hne' : dir ++ [b] ≠ dir ++ [a] := by simpa using Ne.symm hne
  rw [entryAt?_moveEntries (hnot a ?_) (hnot b ?_), hput, if_neg hb]
  · exact (isEnd_congr (by rw [hput, if_neg hne'])).mpr ha
  · exact isEnd_of_file (by rw [hput, if_pos rfl])

/-- The way to the directory stays when a file is moved within it, if it stays with a file at the
goal. -/
theorem leads_moveEntries {written : FileSystem} {dir : Location} {a b : Text} (hne : a ≠ b)
    (ha : written.IsEnd (dir ++ [a]))
    (hdir : (written.put (dir ++ [b]) (.file [] {})).Leads above dir) :
    (written.moveEntries (dir ++ [a]) (dir ++ [b])).Leads above dir := by
  have hstays := fun m => entryAt?_moveEntries_of_rooted (m := m) hne ha
  obtain ⟨n, hn, hwalk⟩ := hdir.walk
  have hdirs : ∀ m r, (written.put (dir ++ [b]) (.file [] {})).Rooted m →
      (written.put (dir ++ [b]) (.file [] {})).entryAt? m = some (.dir r) →
      (written.moveEntries (dir ++ [a]) (dir ++ [b])).entryAt? m = some (.dir r) := by
    intro m r hroot hm
    rw [hstays m hroot fun hend => isDirAt_eq_false_iff.mp hend.1 r hm, hm]
  refine ⟨⟨n, hn, hwalk.transfer rooted_top hdirs (fun m t hroot hm => .inl ?_)
    fun hend => absurd hdir.isDirAt hend.not_isDirAt⟩, ?_⟩
  · rw [hstays m hroot fun hend => hend.2 t hm, hm]
  · obtain ⟨rights, hentry, hsearch⟩ := passable_iff.mp hdir.passable
    exact passable_iff.mpr ⟨rights, hdirs dir rights (hwalk.rooted rooted_top) hentry, hsearch⟩

/-- The file holds afterwards what was written, if nothing else stands at the temporary path than a
file that can be read, under this name alone. -/
theorem content?_replaceFile (h : Splits p above name) {content : Octets}
    (htemporary : Sole fs (temporaryPath p)) (hread : Readable fs (temporaryPath p))
    (hway : WayApart fs p) (hsaved : (replaceFile fs p content).2 = none) :
    (replaceFile fs p content).1.content? p = some content := by
  have hsplits := temporaryPath_splits h
  obtain ⟨moved, hsteps, hremoved⟩ := replaceFile_cases fs p content
  simp only [hsaved, ne_eq, not_true, and_false, false_or] at hsteps
  obtain ⟨written, hwrite, hmove⟩ := hsteps
  obtain ⟨l, hl, hmay, htouched, hentry⟩ := touched_of_write hwrite
  obtain ⟨hp, hname, dir, hdir⟩ : Usable p ∧ ShortName name ∧ ∃ dir, fs.Leads above dir := by
    obtain ⟨-, l', -, -, hl', -⟩ := exists_of_move hmove
    exact leads_of_locate h ((htouched.alike.locate_iff h.absolute).mpr hl')
  have hsole := htemporary.single l hl
  have hread := hread l hl
  have hsource := locate_false_of_leads hsplits hl hdir
  have hlink := isLink_eq_false_iff.mp htemporary.notLink _ hsource
  obtain rfl := Except.ok.inj (hl.symm.trans (locate_true_of_false hsource hlink))
  have hend := htouched.alike.isEnd (isEnd_of_mayWriteAt hmay)
  have hne : name ++ ".tmp".toList ≠ name := append_suffix_ne (by decide)
  obtain ⟨hmoved, -⟩ : moved = written.moveEntries (dir ++ [name ++ ".tmp".toList]) (dir ++ [name]) ∧
      _ := by
    refine (moved_of_move h hmove (htouched.alike.leads_iff.mp hdir)).resolve_left fun hone => ?_
    have heq := hone.1.eq (by rw [IsSole, stateAt_of_file hentry]; exact hsole)
    exact hne (by simpa using heq.symm)
  have hgoal : moved.entryAt? (dir ++ [name]) =
      some (.file content (fs.stateAt (dir ++ [name ++ ".tmp".toList]))) := by
    rw [hmoved, entryAt?_moveEntries_goal (by simp) (by simp), hentry]
  have hgone : moved.entryAt? (dir ++ [name ++ ".tmp".toList]) = none := by
    rw [hmoved]
    exact entryAt?_moveEntries_source (by simp) (not_prefix_of_ne hne.symm)
  have hleads : moved.Leads above dir := by
    rw [hmoved]
    refine leads_moveEntries hne hend ?_
    have hfile := (locate_false_iff h).mpr ⟨hp, hname, dir, hdir, rfl⟩
    obtain ⟨-, -, dir', hdir', heq⟩ := (locate_false_iff h).mp (hway _ hfile)
    obtain rfl : dir = dir' := by simpa using heq
    exact (htouched.alike.put (by simp) _).leads_iff.mp hdir'
  have hcontent : moved.content? p = some content := by
    have hfile := (locate_false_iff h).mpr ⟨hp, hname, dir, hleads, rfl⟩
    exact content?_eq_some_iff.mpr ⟨_, _,
      locate_true_of_false hfile (isEnd_of_file hgoal).2, hgoal, hread⟩
  rcases hremoved with hfinal | hremove
  · rw [hfinal, hcontent]
  · obtain ⟨l, e, hl, he, -⟩ := exists_of_remove hremove
    obtain rfl := Except.ok.inj (hl.symm.trans (locate_false_of_leads hsplits hl hleads))
    rw [hgone] at he
    contradiction

/-- The tree around a file in which a save can be trusted: the lock is not taken on the file itself,
what stands at the temporary path stands there alone, the file's own name is not on the way to it,
and the files can be read. -/
structure Clear (fs : FileSystem) (p : Path) : Prop where
  lock : fs.Apart (lockPath p) p
  temporary : Sole fs (temporaryPath p)
  way : WayApart fs p
  readable : ∀ q ∈ [p, temporaryPath p], Readable fs q

instance (fs : FileSystem) (p : Path) : Decidable (Clear fs p) :=
  decidable_of_iff (fs.Apart (lockPath p) p ∧ Sole fs (temporaryPath p) ∧ WayApart fs p ∧
      ∀ q ∈ [p, temporaryPath p], Readable fs q)
    ⟨fun ⟨lock, temporary, way, readable⟩ => ⟨lock, temporary, way, readable⟩,
      fun ⟨lock, temporary, way, readable⟩ => ⟨lock, temporary, way, readable⟩⟩

theorem WayApart.of_alike (h : Splits p above name) (hway : WayApart fs p) (halike : Alike fs fs') :
    WayApart fs' p := by
  intro l hl
  have hne : l ≠ [] := by
    obtain ⟨-, -, dir, -, rfl⟩ := (locate_false_iff h).mp hl
    simp
  exact ((halike.put hne _).locate_iff h.absolute).mp
    (hway l ((halike.locate_iff h.absolute).mpr hl))

theorem saveLocked_failed {d : Document} (h : (d.saveLocked fs p).2.2 ≠ none) :
    (d.saveLocked fs p).2.1 = d := by
  unfold saveLocked at h ⊢
  split
  · rfl
  · next hsame =>
    rw [if_neg hsame] at h
    split at h
    · rfl
    · exact absurd rfl h

theorem saveLocked_saved {d : Document} (h : Splits p above name)
    (htemporary : Sole fs (temporaryPath p)) (hread : Readable fs (temporaryPath p))
    (hway : WayApart fs p) (hsaved : (d.saveLocked fs p).2.2 = none) :
    (d.saveLocked fs p).2.1.fileName = some p ∧
      (d.saveLocked fs p).2.1.disk = some (Utf8.encode d.text) := by
  unfold saveLocked at hsaved ⊢
  split
  · next hchanged =>
    rw [if_pos hchanged] at hsaved
    contradiction
  · next hsame =>
    rw [if_neg hsame] at hsaved
    split at hsaved
    · contradiction
    · next fs' hreplace =>
      have hcontent := content?_replaceFile h htemporary hread hway (by rw [hreplace])
      rw [hreplace] at hcontent
      exact ⟨rfl, hcontent⟩

theorem workDir_replaceFile (fs : FileSystem) (p : Path) (content : Octets) :
    (replaceFile fs p content).1.workDir = fs.workDir := by
  obtain ⟨stopped, hsteps, hremoved⟩ := replaceFile_cases fs p content
  have hstopped : stopped.workDir = fs.workDir := by
    rcases hsteps with ⟨rfl, -⟩ | ⟨hwrite, -⟩ | ⟨written, hwrite, hmove⟩
    · rfl
    · exact workDir_write hwrite
    · exact (workDir_move hmove).trans (workDir_write hwrite)
  rcases hremoved with h | h
  · rw [h, hstopped]
  · rw [workDir_remove h, hstopped]

def target? (d : Document) (fs : FileSystem) (p : Option Path) : Option Path :=
  match p.filter (!·.isEmpty) with
  | some p => some (Path.absolute fs.workDir p)
  | none => d.fileName

section
variable [FileLock]

/-- Saves to this path. -/
def saveTo (d : Document) (fs : FileSystem) (target : Path) :
    FileSystem × Document × Option Failure :=
  match fs.acquire target with
  | (fs, some e) => (fs, d, some (.lock e))
  | (fs, none) =>
    let (fs, d, failure) := d.saveLocked fs target
    (fs.release target, d, failure)

theorem save_eq_saveTo {d : Document} {q : Option Path} (h : d.target? fs q = some p) :
    d.save fs q = d.saveTo fs p := by
  unfold target? at h
  unfold save saveTo
  cases hq : q.filter (!·.isEmpty) with
  | none =>
    simp only [hq] at h ⊢
    generalize d.fileName = named at h ⊢
    subst h
    rfl
  | some q' =>
    simp only [hq] at h ⊢
    obtain rfl := Option.some.inj h
    rfl

theorem save_unnamed {d : Document} {q : Option Path} (h : d.target? fs q = none) :
    d.save fs q = (fs, d, some (.edit .unnamed)) := by
  unfold target? at h
  unfold save
  cases hq : q.filter (!·.isEmpty) with
  | none =>
    rw [hq] at h
    dsimp only at h ⊢
    rw [h]
  | some q' =>
    rw [hq] at h
    contradiction

theorem saveTo_failed {d : Document} (h : (d.saveTo fs p).2.2 ≠ none) :
    (d.saveTo fs p).2.1 = d := by
  unfold saveTo at h ⊢
  split at h
  · rfl
  · exact saveLocked_failed h

section
variable [LawfulFileLock]

theorem saveTo_saved {d : Document} (h : Splits p above name)
    (hclear : Clear (fs.makeParents (lockPath p)).1 p) (hsaved : (d.saveTo fs p).2.2 = none) :
    (d.saveTo fs p).2.1.fileName = some p ∧
      (d.saveTo fs p).2.1.disk = some (Utf8.encode d.text) := by
  unfold saveTo at hsaved ⊢
  split at hsaved
  · contradiction
  · next fs₁ hacquire =>
    obtain ⟨fs₀, hmake⟩ : ∃ fs₀, fs.makeParents (lockPath p) = (fs₀, none) :=
      makeParents_of_acquire (by rw [hacquire])
    rw [hmake] at hclear
    rcases acquire_of_makeParents hmake with ⟨e, he⟩ | ⟨l, content, hl, hmay, htaken⟩
    · rw [hacquire] at he
      exact absurd (Prod.mk.inj he).2 (by simp)
    obtain rfl := (Prod.mk.inj (hacquire.symm.trans htaken)).1
    have hne := (isEnd_of_mayLockAt hmay).ne_top
    have halike := (touched_lockFile hmay content (lockPath p)).alike
    have htemporary := (temporaryPath_splits h).absolute
    have hnames : SameNames fs₀ _ := sameNames_lockFile hne content (lockPath p)
    refine saveLocked_saved h (hclear.temporary.of_alike htemporary halike hnames) (fun m hm => ?_)
      (hclear.way.of_alike h halike) hsaved
    have hm := (halike.locate_iff htemporary).mpr hm
    rw [mayRead_lockFile hne _ _ (hclear.temporary.single m hm)]
    exact hclear.readable _ (by simp) m hm

theorem saveTo_refused {d : Document} (h : Splits p above name) (hname : d.fileName = some p)
    {known c : Octets} (hdisk : d.disk = some known) (hapart : fs.Apart (lockPath p) p)
    (hc : fs.content? p = some c) (hne : c ≠ known) :
    (d.saveTo fs p).2.2 ≠ none ∧ (d.saveTo fs p).1.content? p = some c := by
  have hlocked := content?_acquire h hapart hc
  unfold saveTo
  split
  · next hacquire =>
    rw [hacquire] at hlocked
    exact ⟨by simp, hlocked⟩
  · next fs₁ hacquire =>
    rw [hacquire] at hlocked
    have hchanged : d.isChangedOutside fs₁ p = true := by
      simp [isChangedOutside, hname, hdisk, hlocked, hne]
    have hrefused : d.saveLocked fs₁ p = (fs₁, d, some (.edit (.changedOutside p))) := by
      rw [saveLocked, if_pos hchanged]
    rw [hrefused]
    exact ⟨by simp, content?_release_of_acquire h hapart hc hacquire⟩

end

theorem workDir_saveTo (d : Document) (fs : FileSystem) (p : Path) :
    (d.saveTo fs p).1.workDir = fs.workDir := by
  have hacquired := workDir_acquire fs p
  unfold saveTo
  split
  · next hacquire => rwa [hacquire] at hacquired
  · next fs₁ hacquire =>
    rw [hacquire] at hacquired
    rw [← hacquired]
    refine (workDir_release _ _).trans ?_
    have hreplaced := workDir_replaceFile fs₁ p (Utf8.encode d.text)
    unfold saveLocked
    split
    · rfl
    · split <;> next hreplace => rwa [hreplace] at hreplaced

theorem exists_move_of_saved {d : Document} (hsaved : (d.saveTo fs p).2.2 = none) :
    ∃ written moved : FileSystem, written.move (temporaryPath p) p = .ok moved := by
  unfold saveTo saveLocked at hsaved
  split at hsaved
  · contradiction
  · next fs₁ _ =>
    dsimp only at hsaved
    split at hsaved
    · contradiction
    · split at hsaved
      · contradiction
      · next hreplace =>
        obtain ⟨moved, hsteps, -⟩ := replaceFile_cases fs₁ p (Utf8.encode d.text)
        simp only [hreplace, ne_eq, not_true, and_false, false_or] at hsteps
        obtain ⟨written, -, hmove⟩ := hsteps
        exact ⟨written, moved, hmove⟩

end

theorem locate_top (htop : p = ['/'] ∨ p = ['/', '/']) {followLast : Bool} {l : Location}
    (hl : fs.locate p followLast = .ok l) : l = [] := by
  have habsolute : Path.isAbsolute p = true := by rcases htop with rfl | rfl <;> rfl
  have hnames : pathNames p = [['.']] := by rcases htop with rfl | rfl <;> rfl
  rw [locate_eq_ok_iff, start_of_absolute _ habsolute, hnames] at hl
  obtain ⟨-, n, -, hwalk⟩ := hl
  exact (walk_nil_iff.mp ((walk_dot_iff (passable_top fs)).mp hwalk)).2

theorem splits_of_octets? {q : Path} (hq : Path.isAbsolute q = true) (hp : p = Path.normalize q)
    {c : Octets} (hc : fs.octets? p = some c) : ∃ above name, Splits p above name := by
  rcases Path.normalize_cases hq with ⟨-, htop⟩ | hsplits
  · obtain ⟨l, state, hl, hentry⟩ := octets?_eq_some_iff.mp hc
    rw [locate_top (hp ▸ htop) hl, entryAt?_top] at hentry
    exact Entry.noConfusion (Option.some.inj hentry)
  · rwa [hp]

theorem splits_of_saved [FileLock] {d : Document} {q : Path} (hq : Path.isAbsolute q = true)
    (hp : p = Path.normalize q) (hsaved : (d.saveTo fs p).2.2 = none) :
    ∃ above name, Splits p above name := by
  rcases Path.normalize_cases hq with ⟨-, htop⟩ | hsplits
  · exfalso
    rw [← hp] at htop
    obtain ⟨written, moved, hmove⟩ := exists_move_of_saved hsaved
    obtain ⟨l, l', -, hl, hl', -⟩ := exists_of_move hmove
    have hsource : ∃ above, Splits (temporaryPath p) above ".tmp".toList := by
      have hplain := Path.plain_of_length (show 2 < ".tmp".toList.length by decide)
      rcases htop with rfl | rfl
      · exact ⟨[], rfl, rfl, by decide, by decide, hplain⟩
      · exact ⟨['/'], rfl, rfl, by decide, by decide, hplain⟩
    obtain ⟨above, hsource⟩ := hsource
    obtain ⟨-, -, dir, -, rfl⟩ := (locate_false_iff hsource).mp hl
    obtain rfl := locate_top htop hl'
    exact locate_ne_top_of_move hmove hl (by simp) hl'
  · rwa [hp]

end Document

end SourceEdit
