import SourceEdit.Proofs.Confinement

/-!
Where a path leads that passes the check. With its links followed it lies in an allowed directory,
with one exception: a link at its own place that leads nowhere is taken for a file that is not there
yet, and only its directory is looked at.
-/

set_option autoImplicit false

namespace SourceEdit

open SourceEdit.Path (Splits)

namespace Path

theorem isWithin_concat {d : Path} {l : Location} (h : isWithin d l.toPath = true) (name : Text) :
    isWithin d (Location.toPath (l ++ [name])) = true := by
  have hinside : join d [] <+: Location.toPath (l ++ [name]) := by
    rw [isWithin, Bool.or_eq_true, decide_eq_true_eq, List.isPrefixOf_iff_prefix] at h
    rcases h with rfl | hbelow
    · by_cases htop : l = []
      · rw [htop]
        exact ⟨name, rfl⟩
      · have hfront : l.front ++ ['/'] <+: Location.toPath (l ++ [name]) :=
          Location.front_prefix List.prefix_rfl
        rw [Location.front, if_neg htop] at hfront
        rw [join, if_neg (by decide)]
        split
        · rw [List.append_nil]
          exact Location.toPath_prefix_append l [name]
        · exact hfront
    · exact hbelow.trans (Location.toPath_prefix_append l [name])
  rw [isWithin, List.isPrefixOf_iff_prefix.mpr hinside, Bool.or_true]

theorem Splits.baseName {p above : Path} {name : Text} (h : Splits p above name) :
    Path.baseName p = name := by
  rw [h.eq, baseName_append_slash above h.clean]

end Path

namespace FileSystem

variable {fs : FileSystem}

theorem realNames_eq_of_no_link {opened : List Waypoint}
    {jump : List Waypoint → List Text → Waypoint → Except Path Waypoint} {names : List Text}
    {here : Location} (fromTop : Bool) (hnames : ∀ name ∈ names, Path.Name name)
    (hlink : ∀ m, m <+: here ++ names → ∀ target, fs.entryAt? m ≠ some (.link target)) :
    realNames fs opened jump names ⟨here, fromTop⟩ = .ok ⟨here ++ names, fromTop⟩ := by
  induction names generalizing here with
  | nil =>
    rw [List.append_nil]
    rfl
  | cons name rest ih =>
    obtain ⟨hname, hrest⟩ := List.forall_mem_cons.mp hnames
    rw [List.append_cons] at hlink ⊢
    rw [realNames_down hname.filled hname.plain (hlink _ (List.prefix_append _ _)),
      ih hrest hlink]

theorem realPath_toPath {l : Location} (hnames : ∀ name ∈ l, Path.Name name) (hroot : fs.Rooted l)
    (hlink : ∀ target, fs.entryAt? l ≠ some (.link target)) : fs.realPath l.toPath = l.toPath := by
  have hplain : ∀ m, m <+: l → ∀ target, fs.entryAt? m ≠ some (.link target) := by
    intro m hm target
    by_cases heq : m = l
    · exact heq ▸ hlink target
    · exact not_link_of_isDirAt (hroot m hm heq).isDirAt target
  have hreal : realLinks fs (2 * fs.entries.length + 1) [] (Text.fields '/' l.toPath) .top =
      .ok ⟨l, true⟩ := by
    rw [← realLinks_filledFields, Location.fields_toPath hnames, realLinks_eq]
    exact realNames_eq_of_no_link true hnames hplain
  exact realPath_of_realLinks (Location.isAbsolute_toPath l) hreal

theorem realPath_of_splits {p above : Path} {name : Text} (h : Splits p above name) {dir : Location}
    (hdir : fs.locate (Path.dirName p) true = .ok dir)
    (hlink : ∀ target, fs.entryAt? (dir ++ [name]) ≠ some (.link target)) :
    fs.realPath p = Location.toPath (dir ++ [name]) := by
  obtain ⟨fromTop, hreal⟩ := realLinks_of_locate h.isAbsolute_dirName hdir
  have hfields : Text.filledFields '/' p = Text.filledFields '/' (Path.dirName p) ++ [name] := by
    rw [h.filledFields_dirName, h.eq, Text.filledFields_append_cons,
      Text.filledFields_of_not_mem h.clean h.filled]
  have hnext : realLinks fs (2 * fs.entries.length + 1) [] (Text.fields '/' p) .top =
      .ok ⟨dir ++ [name], fromTop⟩ := by
    rw [← realLinks_filledFields, realLinks_eq] at hreal ⊢
    rw [hfields, realNames_append [name] hreal, realNames_down h.filled h.plain hlink, realNames]
  exact realPath_of_realLinks h.absolute hnext

theorem hasPath_of_slashes {p : Path} (h : p = ['/'] ∨ p = ['/', '/']) : fs.hasPath p = true := by
  have husable : Usable p := by
    rcases h with rfl | rfl <;> exact ⟨by decide, by decide, by decide⟩
  have hstart : fs.start p = [] ∧ pathNames p = [['.']] := by
    rcases h with rfl | rfl <;> exact ⟨rfl, rfl⟩
  have hwalk : Walk fs true 0 (pathNames p) (fs.start p) [] := by
    rw [hstart.1, hstart.2]
    exact .dot (passable_top fs) .nil
  exact hasPath_iff.mpr ⟨[], _, locate_eq_ok_iff.mpr ⟨husable, 0, Nat.zero_le _, hwalk⟩, rfl⟩

/-- The tree for somebody who may go through every directory. -/
def unguarded (fs : FileSystem) : FileSystem :=
  fs.mapEntries fun
    | .dir _ => .directory
    | e => e

theorem entryAt?_unguarded_eq_link_iff {l : Location} {target : Path} :
    fs.unguarded.entryAt? l = some (.link target) ↔ fs.entryAt? l = some (.link target) := by
  rw [unguarded, entryAt?_mapEntries _ rfl]
  cases fs.entryAt? l with
  | none => rfl
  | some e => cases e <;> simp

theorem passable_unguarded {l : Location} (h : fs.isDirAt l = true) : fs.unguarded.Passable l := by
  obtain ⟨rights, hentry⟩ := isDirAt_iff.mp h
  refine passable_iff.mpr ⟨.all, ?_, rfl⟩
  rw [unguarded, entryAt?_mapEntries _ rfl, hentry]
  rfl

theorem isEnd_unguarded {l : Location} (h : fs.IsEnd l) : fs.unguarded.IsEnd l := by
  refine ⟨?_, fun target hlink => h.2 target (entryAt?_unguarded_eq_link_iff.mp hlink)⟩
  have hdir := isDirAt_eq_false_iff.mp h.1
  rw [isDirAt_eq_false_iff, unguarded, entryAt?_mapEntries _ rfl]
  intro rights
  cases hentry : fs.entryAt? l with
  | none => simp
  | some e =>
    cases e with
    | dir r => exact absurd hentry (hdir r)
    | file | link => simp

theorem Walk.unguarded {followLast : Bool} {n : Nat} {names : List Text} {here l : Location}
    (h : Walk fs followLast n names here l) : Walk fs.unguarded followLast n names here l := by
  induction h with
  | nil => exact .nil
  | dot hhere _ ih => exact .dot (passable_unguarded hhere.isDirAt) ih
  | up hhere hname _ ih => exact .up (passable_unguarded hhere.isDirAt) hname ih
  | enter hhere hname hdir _ ih =>
    exact .enter (passable_unguarded hhere.isDirAt) hname (passable_unguarded hdir).isDirAt ih
  | last hhere hname hend hnil =>
    exact .last (passable_unguarded hhere.isDirAt) hname (isEnd_unguarded hend) hnil
  | lastLink hhere hname hlink hnil =>
    exact .lastLink (passable_unguarded hhere.isDirAt) hname
      (entryAt?_unguarded_eq_link_iff.mpr hlink) hnil
  | link hhere hname hlink hfollow _ _ ihTarget ih =>
    exact .link (passable_unguarded hhere.isDirAt) hname (entryAt?_unguarded_eq_link_iff.mpr hlink)
      hfollow ihTarget ih

theorem locate_unguarded {p : Path} {l : Location} {followLast : Bool}
    (h : fs.locate p followLast = .ok l) : fs.unguarded.locate p followLast = .ok l := by
  obtain ⟨hp, n, hn, hwalk⟩ := locate_eq_ok_iff.mp h
  exact locate_eq_ok_iff.mpr ⟨hp, n, hn, hwalk.unguarded⟩

end FileSystem

namespace Access

open FileSystem

variable {fs : FileSystem} {allowed : List Path}

theorem isWithinAny_concat {l : Location} (h : isWithinAny allowed l.toPath = true) (name : Text) :
    isWithinAny allowed (Location.toPath (l ++ [name])) = true := by
  obtain ⟨d, hd, hin⟩ := List.any_eq_true.mp h
  exact List.any_eq_true.mpr ⟨d, hd, Path.isWithin_concat hin name⟩

/-- For every tree with any links, all directories and all requests: the path that passes the check
is its own real path if it is there, and its real path lies in an allowed directory, also the real
path as somebody sees it who may go through every directory. The exception is a path that leads
nowhere while a link stands at its place; then only its directory is allowed. -/
theorem real_within_of_validate [Users] (hworkDir : Path.isAbsolute fs.workDir = true)
    {requested p : Path} (h : validate fs allowed requested = .ok p) :
    (fs.hasPath p = true → fs.realPath p = p) ∧
      ((∀ seen ∈ [fs, fs.unguarded], isWithinAny allowed (seen.realPath p) = true) ∨
        fs.hasPath p = false ∧ ∃ dir target, fs.locate (Path.dirName p) true = .ok dir ∧
          isWithinAny allowed dir.toPath = true ∧
          fs.entryAt? (dir ++ [Path.baseName p]) = some (.link target)) := by
  obtain ⟨q, hq, hrequested⟩ := Path.absolute_eq_normalize hworkDir (Path.expandHome fs.home requested)
  unfold validate at h
  dsimp only at h
  rw [hrequested] at h
  split at h
  · contradiction
  split at h
  · contradiction
  split at h
  · contradiction
  split at h
  · next hthere =>
    split at h
    · next hin =>
      obtain rfl := Except.ok.inj h
      have habsolute : Path.isAbsolute (Path.normalize q) = true := by
        rw [← hrequested]
        exact Path.isAbsolute_absolute hworkDir _
      obtain ⟨l, hl, hroot, hnames, heq⟩ := exists_realPath habsolute hthere
      have hlink := not_link_of_locate habsolute hl
      have hself := realPath_toPath (fun n hn => (hnames n hn).1) hroot hlink
      have hseen : fs.unguarded.realPath l.toPath = l.toPath :=
        realPath_toPath (fun n hn => (hnames n hn).1)
          (fun m hm hne => passable_unguarded (hroot m hm hne).isDirAt)
          fun target => mt entryAt?_unguarded_eq_link_iff.mp (hlink target)
      rw [heq] at hin ⊢
      refine ⟨fun _ => hself, .inl ?_⟩
      simp [hself, hseen, hin]
    · contradiction
  · next hmissing =>
    split at h
    · contradiction
    next hparent =>
    rw [Bool.not_eq_true', Bool.not_eq_false] at hparent
    split at h
    · next hin =>
      obtain rfl := Except.ok.inj h
      obtain ⟨above, name, hsplits⟩ : ∃ above name, Splits (Path.normalize q) above name := by
        rcases Path.normalize_cases hq with ⟨-, htop⟩ | hsplits
        · exact absurd (hasPath_of_slashes htop) hmissing
        · exact hsplits
      obtain ⟨dir, hdir, -, -, heq⟩ := exists_realPath hsplits.isAbsolute_dirName hparent
      rw [heq] at hin
      refine ⟨fun hthere => absurd hthere hmissing, ?_⟩
      by_cases hlink : ∃ target, fs.entryAt? (dir ++ [name]) = some (.link target)
      · obtain ⟨target, hlink⟩ := hlink
        refine .inr ⟨Bool.eq_false_iff.mpr hmissing, dir, target, hdir, hin, ?_⟩
        rw [hsplits.baseName, hlink]
      · rw [not_exists] at hlink
        have hself := realPath_of_splits hsplits hdir hlink
        have hseen := realPath_of_splits hsplits (locate_unguarded hdir)
          fun target => mt entryAt?_unguarded_eq_link_iff.mp (hlink target)
        refine .inl ?_
        simp [hself, hseen, isWithinAny_concat hin name]
    · contradiction

def linkedTree : FileSystem where
  entries := [(["in".toList], .directory), (["in".toList, "d".toList], .directory),
    (["in".toList, "e".toList], .link "d".toList), (["in".toList, "f".toList], .link "../out".toList)]
  workDir := ['/']
  home := ['/']

theorem real_within_of_validate_new_file :
    let p := "/in/e/new".toList
    Path.isAbsolute linkedTree.workDir = true ∧
      validate linkedTree ["/in".toList] "in/./e/new".toList = .ok p ∧
      linkedTree.realPath p = "/in/d/new".toList ∧
      isWithinAny ["/in".toList] (linkedTree.realPath p) = true := by
  have hvalid : validate linkedTree ["/in".toList] "in/./e/new".toList = .ok "/in/e/new".toList := by
    decide +kernel
  refine ⟨rfl, hvalid, by decide +kernel, ?_⟩
  refine (real_within_of_validate rfl hvalid).2.resolve_right ?_ linkedTree List.mem_cons_self
  rintro ⟨-, dir, target, hdir, -, hlink⟩
  have hplace : linkedTree.locate (Path.dirName "/in/e/new".toList) true =
      .ok ["in".toList, "d".toList] := by decide +kernel
  obtain rfl := Except.ok.inj (hplace.symm.trans hdir)
  have hnone : linkedTree.entryAt? (["in".toList, "d".toList] ++
      [Path.baseName "/in/e/new".toList]) = none := by decide +kernel
  exact Option.some_ne_none _ (hlink.symm.trans hnone)

theorem broken_link_leads_outside :
    validate linkedTree ["/in".toList] "/in/f".toList = .ok "/in/f".toList ∧
      linkedTree.realPath "/in/f".toList = "/out".toList ∧
      isWithinAny ["/in".toList] (linkedTree.realPath "/in/f".toList) = false := by
  decide +kernel

end Access

end SourceEdit
