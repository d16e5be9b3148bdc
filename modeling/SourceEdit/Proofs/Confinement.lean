import SourceEdit.Proofs.Operations
import SourceEdit.Proofs.RealPath
import SourceEdit.Proofs.SaveFrame
import SourceEdit.Server.Tools

set_option autoImplicit false

namespace SourceEdit

open FileSystem
open Document (temporaryPath SameFile locate_top)
open SourceEdit.Path (Splits)

namespace Path

theorem isAbsolute_absolute {workDir : Path} (h : isAbsolute workDir = true) (p : Path) :
    isAbsolute (absolute workDir p) = true := by
  obtain ⟨q, hq, heq⟩ := absolute_eq_normalize h p
  rw [heq]
  exact isAbsolute_normalize hq

theorem isWithin_of_below {d : Path} {dir l : Location} {name : Text} (hclean : '/' ∉ name)
    (hin : isWithin d (Location.toPath (dir ++ [name])) = true)
    (hne : Location.toPath (dir ++ [name]) ≠ d) (hl : Below dir l) : isWithin d l.toPath = true := by
  have hbelow : join d [] <+: Location.toPath (dir ++ [name]) := by
    simpa [isWithin, hne] using hin
  have hends : ∀ c, (join d []).getLast? = some c → c = '/' := by
    intro c
    rw [join, if_neg (by decide)]
    split
    · next h =>
      rw [List.append_nil]
      rcases Bool.or_eq_true .. |>.mp h with hnil | hlast
      · rw [List.isEmpty_iff.mp hnil]
        simp
      · simp [of_decide_eq_true hlast, eq_comm]
    · simp [eq_comm]
  have hfront : join d [] <+: dir.front ++ ['/'] := by
    have hwhole : dir.front ++ ['/'] <+: Location.toPath (dir ++ [name]) :=
      Location.front_prefix List.prefix_rfl
    rcases List.prefix_or_prefix_of_prefix hbelow hwhole with h | ⟨rest, hrest⟩
    · exact h
    · -- what would be longer ends in the name
      cases hlast : rest.getLast? with
      | none => simp [← hrest, List.getLast?_eq_none_iff.mp hlast]
      | some c =>
        obtain rfl := hends c (by rw [← hrest, List.getLast?_append, hlast]; rfl)
        have hin : rest <+: name := by
          rw [← hrest, Location.toPath_concat, List.append_assoc,
            List.prefix_append_right_inj] at hbelow
          exact (List.prefix_cons_inj '/').mp hbelow
        exact absurd (hin.subset (List.mem_of_getLast? hlast)) hclean
  obtain ⟨x, hx⟩ := hl
  have hprefix := hfront.trans (Location.front_prefix hx)
  rw [isWithin, List.isPrefixOf_iff_prefix.mpr hprefix, Bool.or_true]

end Path

namespace FileSystem

variable {fs : FileSystem}

/-- A file at its real path, with the directory that it is in. -/
structure Placed (fs : FileSystem) (file : Path) (dir : Location) (name : Text) : Prop where
  eq : file = Location.toPath (dir ++ [name])
  named : ∀ n ∈ dir ++ [name], Path.Name n
  usable : Usable file
  grounded : fs.Grounded dir.front dir

namespace Placed

variable {file : Path} {dir : Location} {name : Text}

theorem splits (h : fs.Placed file dir name) : Splits file dir.front name :=
  h.eq ▸ Location.splits_toPath dir (h.named name (by simp))

theorem absolute_eq (h : fs.Placed file dir name) (workDir : Path) :
    Path.absolute workDir file = file := by
  rw [Path.absolute, if_pos h.splits.absolute, h.eq]
  exact Location.normalize_toPath h.named

theorem within (h : fs.Placed file dir name) {allowed : List Path}
    (hin : Access.isWithinAny allowed file = true) (hnot : file ∉ allowed) {l : Location}
    (hl : Below dir l) : Access.isWithinAny allowed l.toPath = true := by
  obtain ⟨d, hd, hin⟩ := List.any_eq_true.mp hin
  have hne : Location.toPath (dir ++ [name]) ≠ d := by
    rw [← h.eq]
    rintro rfl
    exact hnot hd
  rw [h.eq] at hin
  exact List.any_eq_true.mpr ⟨d, hd, Path.isWithin_of_below h.splits.clean hin hne hl⟩

end Placed

theorem exists_realPath {p : Path} (hp : Path.isAbsolute p = true) (hthere : fs.hasPath p = true) :
    ∃ l, fs.locate p true = .ok l ∧ fs.Rooted l ∧ (∀ n ∈ l, Path.Name n ∧ ShortName n) ∧
      Path.normalize (fs.realPath p) = l.toPath := by
  obtain ⟨l, -, hl, -⟩ := hasPath_iff.mp hthere
  have hway := hl
  rw [locate_eq_ok_iff, start_of_absolute fs hp] at hway
  obtain ⟨-, n, -, hwalk⟩ := hway
  have hnames := hwalk.names (fun _ => mem_pathNames) (by simp)
  exact ⟨l, hl, hwalk.rooted rooted_top, hnames,
    by rw [realPath_of_locate hp hl, Location.normalize_toPath fun n hn => (hnames n hn).1]⟩

theorem exists_placed {p : Path} (hp : Path.isAbsolute p = true) (hthere : fs.hasPath p = true)
    (hfile : fs.isFile (Path.normalize (fs.realPath p)) = true) :
    ∃ dir name, fs.Placed (Path.normalize (fs.realPath p)) dir name := by
  obtain ⟨l, hl, hroot, hnames, heq⟩ := exists_realPath hp hthere
  rw [heq] at hfile ⊢
  obtain ⟨m, c, state, hm, hentry⟩ := isFile_iff.mp hfile
  rcases List.eq_nil_or_concat l with rfl | ⟨dir, name, rfl⟩
  · rw [locate_top (.inl rfl) hm] at hentry
    exact Entry.noConfusion (Option.some.inj hentry)
  · rw [List.concat_eq_append] at hnames hroot hm ⊢
    obtain ⟨hdir, -⟩ := List.forall_mem_append.mp hnames
    refine ⟨dir, name, rfl, fun n hn => (hnames n hn).1, (locate_eq_ok_iff.mp hm).1, ?_⟩
    refine ⟨Location.fields_front fun n hn => (hdir n hn).1, fun n hn => (hdir n hn).2, ?_⟩
    intro m hm
    refine hroot m (hm.trans (List.prefix_append _ _)) ?_
    rintro rfl
    exact not_below hm ⟨name, List.prefix_rfl⟩

theorem Placed.isLink_eq_false {p : Path} (hp : Path.isAbsolute p = true)
    (hthere : fs.hasPath p = true) {dir : Location} {name : Text}
    (h : fs.Placed (Path.normalize (fs.realPath p)) dir name) :
    fs.isLink (Path.normalize (fs.realPath p)) = false := by
  obtain ⟨l, hl, -, hnames, heq⟩ := exists_realPath hp hthere
  have hplace : l = dir ++ [name] := by
    rw [← Location.names_toPath fun n hn => (hnames n hn).1, ← Location.names_toPath h.named, ← heq,
      h.eq]
  refine isLink_eq_false_iff.mpr fun m hm => ?_
  obtain rfl := Except.ok.inj (hm.symm.trans (locate_false_of_leads h.splits hm h.grounded.leads))
  exact hplace ▸ not_link_of_locate hp hl

end FileSystem

theorem Access.exists_of_validate [Users] {fs : FileSystem} (hworkDir : Path.isAbsolute fs.workDir = true)
    {allowed : List Path} {requested file : Path} (h : validate fs allowed requested = .ok file)
    (hfile : fs.isFile file = true) : isWithinAny allowed file = true ∧
      ∃ p, Path.isAbsolute p = true ∧ fs.hasPath p = true ∧
        file = Path.normalize (fs.realPath p) := by
  unfold validate at h
  dsimp only at h
  split at h
  · contradiction
  split at h
  · contradiction
  split at h
  · contradiction
  split at h
  · next hthere =>
    split at h
    · next hin =>
      obtain rfl := Except.ok.inj h
      exact ⟨hin, _, Path.isAbsolute_absolute hworkDir _, hthere, rfl⟩
    · contradiction
  · next hmissing =>
    split at h
    · contradiction
    split at h
    · obtain rfl := Except.ok.inj h
      obtain ⟨l, c, state, hl, hentry⟩ := isFile_iff.mp hfile
      exact absurd (hasPath_iff.mpr ⟨l, _, hl, hentry⟩) hmissing
    · contradiction

theorem Access.placed_of_validate [Users] {fs : FileSystem} (hworkDir : Path.isAbsolute fs.workDir = true)
    {allowed : List Path} {requested file : Path} (h : validate fs allowed requested = .ok file)
    (hfile : fs.isFile file = true) :
    isWithinAny allowed file = true ∧ ∃ dir name, fs.Placed file dir name := by
  obtain ⟨hin, p, hp, hthere, rfl⟩ := exists_of_validate hworkDir h hfile
  exact ⟨hin, exists_placed hp hthere hfile⟩

namespace Document

/-- A document that was just read from a file with this content. -/
structure ReadFrom (d : Document) (file : Path) (content : Octets) : Prop where
  fileName : d.fileName = some file
  disk : d.disk = some content
  text : d.text = Text.unifyNewlines (Utf8.decodeLossy content)
  closed : d.block = none

theorem readFrom_of_ofFile {fs : FileSystem} {kind : DocumentKind} {p : Path} {d : Document}
    (h : ofFile kind fs p = .ok d) :
    ∃ content, fs.content? (Path.absolute fs.workDir p) = some content ∧
      d.ReadFrom (Path.absolute fs.workDir p) content := by
  unfold ofFile load at h
  cases hread : fs.read (Path.absolute fs.workDir p) with
  | error => simp [hread, bind, Except.bind] at h
  | ok content =>
    simp only [hread, bind, Except.bind, Except.ok.injEq] at h
    subst h
    exact ⟨content, by rw [FileSystem.content?, hread]; rfl, rfl, rfl, rfl, rfl⟩

theorem EditsOnce.sameFile {d : Document} {r : Document × Except EditError Bool}
    (h : d.EditsOnce r) : SameFile d r.1 := by
  cases h with
  | refused => exact .refl d
  | edited _ _ => exact (blockStep_editOrFail d _ none).sameFile

theorem sameFile_commentSelection (d : Document) : SameFile d d.commentSelection.1 := by
  obtain ⟨edits, cursor, hedit, -⟩ := d.commentSelection_eq_edit
  rw [hedit]
  exact sameFile_edit d edits cursor

end Document

namespace Server

open Document

theorem sameFile_commentEach (lines : List Nat) (d : Document) :
    SameFile d (commentEach lines d).1 := by
  induction lines generalizing d with
  | nil => exact .refl d
  | cons line lines ih =>
    have hmoved : SameFile d (d.setPosition (d.text.positionOfLine line) false) := ⟨rfl, rfl⟩
    have hline := hmoved.trans (sameFile_commentSelection _)
    rw [commentEach]
    split
    · next heq =>
      rw [heq] at hline
      exact hline.trans (ih _)
    · exact hline

theorem sameFile_commentRange (first last : Nat) (d : Document) :
    SameFile d (commentRange first last d).1 := by
  unfold commentRange
  dsimp only
  split
  · exact .refl d
  · have hlines := sameFile_commentEach
      ((List.range (min last d.text.lineCount + 1 - first)).map (first + ·)) d
    split <;> next heq => rwa [heq] at hlines

inductive EditCall where
  | addInclude (p : Path) (t : Text) (newGroup dryRun : Bool)
  | removeInclude (p : Path) (t : Text) (dryRun : Bool)
  | insertForwardDeclaration (p : Path) (t : Text) (dryRun : Bool)
  | commentLines (p : Path) (first last : Int) (dryRun : Bool)

def EditCall.path : EditCall → Path
  | .addInclude p _ _ _ => p
  | .removeInclude p _ _ => p
  | .insertForwardDeclaration p _ _ => p
  | .commentLines p _ _ _ => p

variable [FileLock] [Users]

def call (s : Server) : EditCall → Server × Answer
  | .addInclude p t newGroup dryRun => s.addInclude p t newGroup dryRun
  | .removeInclude p t dryRun => s.removeInclude p t dryRun
  | .insertForwardDeclaration p t dryRun => s.insertForwardDeclaration p t dryRun
  | .commentLines p first last dryRun => s.commentLines p first last dryRun

variable {s : Server} {p : Path}

/-- The tree is left alone, or the document of the path is saved to its own file. -/
inductive Effect (s : Server) (p : Path) (fs : FileSystem) : Prop where
  | none (h : fs = s.fs)
  | saved (d d' : Document) (hload : s.loadDocument p = .ok d) (hsame : SameFile d d')
      (h : fs = (d'.save s.fs none).1)

theorem effect_editFile (s : Server) (p : Path) {operation : Operation}
    (hoperation : ∀ d, SameFile d (operation d).1) (reason : Text) (dryRun : Bool) :
    s.Effect p (s.editFile p operation reason dryRun).1.fs := by
  unfold editFile
  split
  · exact .none rfl
  · next d hload =>
    have hsame := hoperation d
    split
    · exact .none rfl
    · exact .none rfl
    · next changed heq =>
      rw [heq] at hsame
      have hsaved : s.Effect p (changed.save s.fs none).1 := .saved d changed hload hsame rfl
      dsimp only
      split
      · exact .none rfl
      · split <;> exact hsaved

theorem effect_call (s : Server) (c : EditCall) : s.Effect c.path (s.call c).1.fs := by
  cases c with
  | addInclude p t newGroup dryRun =>
    exact effect_editFile s p (fun d => (d.editsOnce_insertInclude t newGroup).sameFile) _ dryRun
  | removeInclude p t dryRun =>
    exact effect_editFile s p (fun d => (d.editsOnce_removeInclude t).sameFile) _ dryRun
  | insertForwardDeclaration p t dryRun =>
    exact effect_editFile s p (fun d => (d.editsOnce_insertForwardDeclaration t).sameFile) _ dryRun
  | commentLines p first last dryRun =>
    show s.Effect p (s.commentLines p first last dryRun).1.fs
    unfold commentLines
    split
    · exact .none rfl
    · exact effect_editFile s p (sameFile_commentRange _ _) _ dryRun

omit [FileLock] in
theorem exists_of_resolvePath {file : Path} (h : s.resolvePath p = .ok file) :
    ∃ requested, Access.validate s.fs s.allowed requested = .ok file := by
  unfold resolvePath at h
  split at h
  · contradiction
  split at h
  · contradiction
  · dsimp only at h
    generalize hrequested : (if Path.isAbsolute (Path.expandHome s.fs.home p) = true then _ else _) =
      requested at h
    refine ⟨requested, ?_⟩
    cases hvalidate : Access.validate s.fs s.allowed requested with
    | error => simp [hvalidate, Except.mapError] at h
    | ok => simpa [hvalidate, Except.mapError] using h

omit [FileLock] in
theorem exists_read_of_loadDocument {d : Document} (h : s.loadDocument p = .ok d) :
    ∃ file content, s.resolvePath p = .ok file ∧ s.fs.isFile file = true ∧
      s.fs.content? (Path.absolute s.fs.workDir file) = some content ∧
      d.ReadFrom (Path.absolute s.fs.workDir file) content := by
  unfold loadDocument at h
  cases hfile : s.resolvePath p with
  | error => simp [hfile, bind, Except.bind] at h
  | ok file =>
    simp only [hfile, bind, Except.bind] at h
    split at h
    · next hthere =>
      cases hof : Document.ofFile .source s.fs file with
      | error => simp [hof, Except.mapError] at h
      | ok d' =>
        simp only [hof, Except.mapError, Except.ok.injEq] at h
        subst h
        obtain ⟨content, hcontent, hread⟩ := readFrom_of_ofFile hof
        exact ⟨file, content, rfl, hthere, hcontent, hread⟩
    · contradiction

omit [FileLock] in
theorem exists_of_loadDocument {d : Document} (h : s.loadDocument p = .ok d) :
    ∃ file, s.resolvePath p = .ok file ∧ s.fs.isFile file = true ∧
      d.fileName = some (Path.absolute s.fs.workDir file) := by
  obtain ⟨file, content, hresolve, hfile, -, hread⟩ := exists_read_of_loadDocument h
  exact ⟨file, hresolve, hfile, hread.fileName⟩

/-- For every server and tree and every call of an editing tool: what differs afterwards lies in an
allowed directory, unless the path of the lock or of the temporary file leads to the same file, by a
link or as another name of it, or a file has come in the place of an allowed directory and is edited
itself. -/
theorem changed_within_allowed [LawfulFileLock] (s : Server)
    (hworkDir : Path.isAbsolute s.fs.workDir = true) (c : EditCall) {l : Location}
    (hchanged : (s.call c).1.fs.shownAt? l ≠ s.fs.shownAt? l) :
    Access.isWithinAny s.allowed l.toPath = true ∨ ∃ file, s.resolvePath c.path = .ok file ∧
      (file ∈ s.allowed ∧ s.fs.isFile file = true ∨
        ∃ q ∈ [lockPath file, temporaryPath file], ∃ x, s.fs.locate q true = .ok x ∧
          s.fs.OneFile x l ∧ (s.fs.isLink q = true ∨ x ≠ l)) := by
  cases effect_call s c with
  | none h =>
    rw [h] at hchanged
    exact absurd rfl hchanged
  | saved d d' hload hsame h =>
    obtain ⟨file, hresolve, hfile, hname⟩ := exists_of_loadDocument hload
    obtain ⟨requested, hvalidate⟩ := exists_of_resolvePath hresolve
    obtain ⟨hin, dir, name, hplaced⟩ := Access.placed_of_validate hworkDir hvalidate hfile
    have htarget : d'.target? s.fs none = some file := by
      have hself : Path.absolute s.fs.workDir file = file := hplaced.absolute_eq _
      exact hsame.fileName.trans (hname.trans (by rw [hself]))
    have hreached : s.fs.Reached file dir l := by
      by_contra hnot
      refine hchanged ?_
      rw [h, save_eq_saveTo htarget]
      exact sameOutside_saveTo hplaced.splits hplaced.usable hplaced.grounded d' l hnot
    rcases hreached with hbelow | hother
    · by_cases hallowed : file ∈ s.allowed
      · exact .inr ⟨file, hresolve, .inl ⟨hallowed, hfile⟩⟩
      · exact .inl (hplaced.within hin hallowed hbelow)
    · exact .inr ⟨file, hresolve, .inr hother⟩

end Server

namespace Server

def sampleTree (linked : Bool) : FileSystem where
  entries := [(["in".toList], .directory), (["in".toList, ['a']], .file [] {}),
      (["out".toList], .file (Utf8.encode ['1']) {})] ++
    if linked then [(["in".toList, "a.tmp".toList], .link "../out".toList)] else []
  workDir := ['/']
  home := ['/']

def sampleServer (linked : Bool) : Server :=
  let s := new (sampleTree linked)
  match s.configure ["/in".toList] .standard with
  | .ok s => s
  | .error _ => s

theorem source_changed_within_allowed :
    let s := sampleServer false
    let c := EditCall.addInclude ['a'] "<b>".toList false false
    let l : Location := ["in".toList, ['a']]
    s.allowed = ["/in".toList] ∧ (s.call c).1.fs.shownAt? l ≠ s.fs.shownAt? l ∧
      Access.isWithinAny s.allowed l.toPath = true := by
  have hchanged : ((sampleServer false).call (.addInclude ['a'] "<b>".toList false false)).1.fs.shownAt?
      ["in".toList, ['a']] ≠ (sampleServer false).fs.shownAt? ["in".toList, ['a']] := by
    decide +kernel
  have hfile : (sampleServer false).resolvePath ['a'] = .ok "/in/a".toList := by decide +kernel
  refine ⟨by decide +kernel, hchanged, ?_⟩
  refine (changed_within_allowed (sampleServer false) (by decide +kernel) _ hchanged).resolve_right ?_
  rintro ⟨file, hresolve, hother⟩
  obtain rfl := Except.ok.inj (hfile.symm.trans hresolve)
  rcases hother with ⟨hallowed, -⟩ | ⟨q, hq, x, hx, hone, hother⟩
  · exact absurd hallowed (by decide +kernel)
  · have hplain : ∀ q ∈ [lockPath "/in/a".toList, temporaryPath "/in/a".toList],
        Sole (sampleServer false).fs q := by decide +kernel
    obtain ⟨hlink, hsole⟩ := hplain q hq
    rcases hother with h | h
    · exact Bool.false_ne_true (hlink.symm.trans h)
    · exact h (hone.eq (hsole x hx)).symm

theorem outside_changed_through_link :
    let s := sampleServer true
    let c := EditCall.addInclude ['a'] "<b>".toList false false
    let l : Location := ["out".toList]
    s.allowed = ["/in".toList] ∧ (s.call c).1.fs.shownAt? l ≠ s.fs.shownAt? l ∧
      Access.isWithinAny s.allowed l.toPath = false := by
  decide +kernel

end Server

end SourceEdit
