import Mathlib.Data.List.Perm.Subperm
import SourceEdit.Proofs.PathNames

/-!
The real path of a file. Where the operations on files find a way, `realPath` finds the same one: a
way that ends never opens a link whose target it is still going through, so the search for loops does
not stop it, and there are not more open links than entries.
-/

set_option autoImplicit false

namespace SourceEdit

open SourceEdit.Path (Splits)

namespace Location

theorem isAbsolute_toPath (l : Location) : Path.isAbsolute l.toPath = true := rfl

theorem fields_toPath {l : Location} (hl : ∀ name ∈ l, Path.Name name) :
    Text.filledFields '/' l.toPath = l := by
  have hjoin : ∀ l : Location, (∀ name ∈ l, Path.Name name) →
      Text.filledFields '/' (Text.joinWith ['/'] l) = l := by
    intro l hl
    induction l with
    | nil => rfl
    | cons name l ih =>
      obtain ⟨hname, hl⟩ := List.forall_mem_cons.mp hl
      have hfirst := Text.filledFields_of_not_mem hname.clean hname.filled
      by_cases hnil : l = []
      · rw [hnil]
        exact hfirst
      · rw [Text.joinWith_cons _ _ hnil, List.append_assoc, List.singleton_append,
          Text.filledFields_append_cons, hfirst, ih hl]
        rfl
  exact (Text.filledFields_append_cons '/' [] _).trans (hjoin l hl)

def front (dir : Location) : Path := if dir = [] then [] else dir.toPath

theorem toPath_concat (dir : Location) (name : Text) :
    toPath (dir ++ [name]) = dir.front ++ '/' :: name := by
  rw [toPath, Path.joinWith_concat, front]
  split <;> rfl

theorem fields_front {dir : Location} (hdir : ∀ name ∈ dir, Path.Name name) :
    Text.filledFields '/' dir.front = dir := by
  rw [front]
  split
  · next hnil =>
    rw [hnil]
    rfl
  · exact fields_toPath hdir

theorem splits_toPath (dir : Location) {name : Text} (hname : Path.Name name) :
    Splits (toPath (dir ++ [name])) dir.front name :=
  ⟨toPath_concat dir name, rfl, hname.clean, hname.filled, hname.plain⟩

theorem toPath_prefix_append (l rest : Location) : l.toPath <+: toPath (l ++ rest) := by
  induction rest generalizing l with
  | nil => simp
  | cons name rest ih =>
    have hnext : l.toPath <+: toPath (l ++ [name]) := by
      rw [toPath_concat, front]
      split
      · next hnil =>
        rw [hnil]
        exact ⟨name, rfl⟩
      · exact List.prefix_append _ _
    rw [List.append_cons]
    exact hnext.trans (ih (l ++ [name]))

theorem front_prefix {dir l : Location} {name : Text} (h : dir ++ [name] <+: l) :
    dir.front ++ ['/'] <+: l.toPath := by
  obtain ⟨rest, rfl⟩ := h
  refine List.IsPrefix.trans ?_ (toPath_prefix_append (dir ++ [name]) rest)
  rw [toPath_concat]
  exact ⟨name, by simp⟩

theorem names_toPath {l : Location} (hl : ∀ name ∈ l, Path.Name name) : Path.names l.toPath = l := by
  have hskip : ∀ names ns : List Text, names.foldl (Path.pushName true) ns =
      (names.filter (!·.isEmpty)).foldl (Path.pushName true) ns := by
    intro names
    induction names with
    | nil => exact fun _ => rfl
    | cons name names ih =>
      intro ns
      cases name with
      | nil => exact ih ns
      | cons c cs => exact ih _
  have hpush : ∀ (names : List Text) (ns : List Text), (∀ name ∈ names, Path.Name name) →
      names.foldl (Path.pushName true) ns = names.reverse ++ ns := by
    intro names
    induction names with
    | nil => exact fun _ _ => rfl
    | cons name names ih =>
      intro ns hnames
      obtain ⟨hname, hnames⟩ := List.forall_mem_cons.mp hnames
      have hfirst : Path.pushName true ns name = name :: ns := by
        unfold Path.pushName
        rw [if_neg (by simp [hname.filled, hname.plain.notHere]),
          if_pos (by simp [hname.plain.notParent])]
      rw [List.foldl_cons, hfirst, ih _ hnames]
      simp
  have hfields : (Text.fields '/' l.toPath).filter (!·.isEmpty) = l := fields_toPath hl
  rw [Path.names, isAbsolute_toPath, hskip, hfields, hpush l [] hl]
  simp

theorem leadingSlashes_toPath {l : Location} (hl : ∀ name ∈ l, Path.Name name) :
    Path.leadingSlashes l.toPath = ['/'] ∧ Path.leadingSlashes ('/' :: l.toPath) = ['/', '/'] := by
  cases l with
  | nil => exact ⟨rfl, rfl⟩
  | cons name l =>
    have hname := hl name List.mem_cons_self
    cases name with
    | nil => exact absurd rfl hname.filled
    | cons c cs =>
      have hc : c ≠ '/' := fun heq => hname.clean (heq ▸ List.mem_cons_self)
      cases l <;> simp [toPath, Text.joinWith, Path.leadingSlashes, hc]

theorem normalize_toPath {l : Location} (hl : ∀ name ∈ l, Path.Name name) :
    Path.normalize l.toPath = l.toPath := by
  rw [Path.normalize, (leadingSlashes_toPath hl).1, names_toPath hl]
  rfl

theorem names_slash_toPath {l : Location} (hl : ∀ name ∈ l, Path.Name name) :
    Path.names ('/' :: l.toPath) = l :=
  (show Path.names ('/' :: l.toPath) = Path.names l.toPath from rfl).trans (names_toPath hl)

end Location

namespace Path

theorem parts_normalize {p : Path} (h : isAbsolute p = true) :
    leadingSlashes (normalize p) = leadingSlashes p ∧ names (normalize p) = names p := by
  have hnames := names_clean h
  obtain ⟨hone, htwo⟩ := Location.leadingSlashes_toPath hnames
  rcases leadingSlashes_of_absolute h with hslash | hslashes
  · have hplain : normalize p = Location.toPath (names p) := by
      rw [normalize, hslash]
      rfl
    rw [hplain, hslash]
    exact ⟨hone, Location.names_toPath hnames⟩
  · have hdouble : normalize p = '/' :: Location.toPath (names p) := by
      rw [normalize, hslashes]
      rfl
    rw [hdouble, hslashes]
    exact ⟨htwo, Location.names_slash_toPath hnames⟩

/-- Absolute paths are the same if they have the same slashes in front and the same names. -/
theorem normalize_eq_iff {p q : Path} (hp : isAbsolute p = true) (hq : isAbsolute q = true) :
    normalize p = normalize q ↔ leadingSlashes p = leadingSlashes q ∧ names p = names q := by
  constructor
  · intro h
    obtain ⟨hslashes, hnames⟩ := parts_normalize hp
    rw [← hslashes, ← hnames, h]
    exact parts_normalize hq
  · rintro ⟨hslashes, hnames⟩
    rw [normalize, normalize, hslashes, hnames]

theorem isAbsolute_normalize {p : Path} (h : isAbsolute p = true) :
    isAbsolute (normalize p) = true := by
  rcases normalize_cases h with ⟨-, htop | htop⟩ | ⟨above, name, hsplits⟩
  · rw [htop]
    rfl
  · rw [htop]
    rfl
  · exact hsplits.absolute

theorem normalize_normalize {p : Path} (h : isAbsolute p = true) :
    normalize (normalize p) = normalize p :=
  (normalize_eq_iff (isAbsolute_normalize h) h).mpr (parts_normalize h)

end Path

namespace FileSystem

variable {fs : FileSystem}

def keeps (name : Text) : Bool := !(name.isEmpty || name = ['.'])

theorem filter_keeps_filledFields (p : Path) :
    (Text.filledFields '/' p).filter keeps = (Text.fields '/' p).filter keeps := by
  rw [Text.filledFields, List.filter_filter]
  refine List.filter_congr fun name _ => ?_
  cases name <;> simp [keeps]

theorem filter_keeps_pathNames (p : Path) :
    (pathNames p).filter keeps = (Text.fields '/' p).filter keeps := by
  have hdots : ∀ b : Prop, [Decidable b] → (if b then [['.']] else []).filter keeps = [] := by
    intro b _
    split <;> rfl
  rw [pathNames_eq, List.filter_append, hdots, List.append_nil, filter_keeps_filledFields]

theorem realNames_eq_ok_iff (opened : List Waypoint)
    (jump : List Waypoint → List Text → Waypoint → Except Path Waypoint) (names : List Text)
    (here next : Waypoint) : realNames fs opened jump names here = .ok next ↔
      realNames fs opened jump (names.filter keeps) here = .ok next := by
  induction names generalizing here with
  | nil => rfl
  | cons name rest ih =>
    by_cases hname : name.isEmpty ∨ name = ['.']
    · have hdrop : keeps name = false := by
        rw [keeps, Bool.not_eq_false', Bool.or_eq_true, decide_eq_true_eq]
        exact hname
      rw [List.filter_cons_of_neg (by simp [hdrop]), realNames, if_pos hname]
      exact ih here
    · have hkeep : keeps name = true := by simpa [keeps] using hname
      rw [List.filter_cons_of_pos hkeep, realNames, realNames, if_neg hname, if_neg hname]
      split
      · exact ih _
      · dsimp only
        split
        · split
          · exact iff_of_false (by simp) (by simp)
          · split
            · exact ih _
            · exact iff_of_false (by simp) (by simp)
        · exact ih _

theorem realLinks_eq (links : Nat) (opened : List Waypoint) : realLinks fs links opened =
    realNames fs opened (match links with
      | 0 => fun _ _ w => .error w.location.toPath
      | links + 1 => realLinks fs links) := by
  cases links <;> rfl

theorem realLinks_pathNames {links : Nat} {opened : List Waypoint} {p : Path}
    {here next : Waypoint} : realLinks fs links opened (pathNames p) here = .ok next ↔
      realLinks fs links opened (Text.fields '/' p) here = .ok next := by
  rw [realLinks_eq, realNames_eq_ok_iff, filter_keeps_pathNames, ← realNames_eq_ok_iff]

theorem realLinks_filledFields {links : Nat} {opened : List Waypoint} {p : Path}
    {here next : Waypoint} : realLinks fs links opened (Text.filledFields '/' p) here = .ok next ↔
      realLinks fs links opened (Text.fields '/' p) here = .ok next := by
  rw [realLinks_eq, realNames_eq_ok_iff, filter_keeps_filledFields, ← realNames_eq_ok_iff]

theorem realNames_append {opened : List Waypoint}
    {jump : List Waypoint → List Text → Waypoint → Except Path Waypoint} {a : List Text}
    (b : List Text) {here next : Waypoint} (h : realNames fs opened jump a here = .ok next) :
    realNames fs opened jump (a ++ b) here = realNames fs opened jump b next := by
  induction a generalizing here with
  | nil =>
    obtain rfl := Except.ok.inj h
    rfl
  | cons name a ih =>
    rw [realNames] at h
    rw [List.cons_append, realNames]
    split at h
    · next hskip => rw [if_pos hskip, ih h]
    · next hskip =>
      rw [if_neg hskip]
      split at h
      · next hup => rw [if_pos hup, ih h]
      · next hup =>
        rw [if_neg hup]
        dsimp only at h ⊢
        split at h
        · split at h
          · contradiction
          · next hopened =>
            rw [if_neg hopened]
            split at h
            · exact ih h
            · contradiction
        · exact ih h

theorem linkAt?_eq_some_iff {l : Location} {target : Path} :
    fs.linkAt? l = some target ↔ fs.entryAt? l = some (.link target) ∧ fs.Rooted l := by
  have hroot : ((List.range l.length).all fun k => (fs.rightsAt (l.take k)).search) = true ↔
      fs.Rooted l := by
    simp only [List.all_eq_true, List.mem_range]
    constructor
    · intro h m hm hne
      have hlt : m.length < l.length :=
        lt_of_le_of_ne hm.length_le fun heq => hne (hm.eq_of_length heq)
      have hpass := h m.length hlt
      rwa [← List.prefix_iff_eq_take.mp hm] at hpass
    · intro h k hk
      refine h _ (List.take_prefix k l) fun heq => ?_
      have hlength := congrArg List.length heq
      rw [List.length_take] at hlength
      omega
  unfold linkAt?
  split
  · next t hentry =>
    simp only [hroot, Option.ite_none_right_eq_some, Option.some.injEq, hentry, Entry.link.injEq]
    exact and_comm
  · next hnot => exact iff_of_false (by simp) fun h => hnot target h.1

/-- A link stands here, and the way of its target follows this many links. -/
def Expands (fs : FileSystem) (w : Waypoint) (cost : Nat) : Prop :=
  ∃ target mid, fs.entryAt? w.location = some (.link target) ∧
    Walk fs true cost (pathNames target) (linkStart target w.location.dropLast) mid

theorem Expands.unique {w : Waypoint} {m n : Nat} (h : fs.Expands w m) (h' : fs.Expands w n) :
    m = n := by
  obtain ⟨target, mid, hlink, hwalk⟩ := h
  obtain ⟨target', mid', hlink', hwalk'⟩ := h'
  rw [hlink] at hlink'
  obtain rfl := Entry.link.inj (Option.some.inj hlink')
  exact (hwalk.unique hwalk').1

/-- Links that are open, none of them twice. Their ways follow this many links at least. -/
structure OpenLinks (fs : FileSystem) (n : Nat) (opened : List Waypoint) : Prop where
  nodup : opened.Nodup
  ways : ∀ w ∈ opened, ∃ cost, fs.Expands w cost ∧ n ≤ cost

namespace OpenLinks

variable {m n : Nat} {opened : List Waypoint} {w : Waypoint}

theorem mono (h : fs.OpenLinks n opened) (hle : m ≤ n) : fs.OpenLinks m opened :=
  ⟨h.nodup, fun w hw => (h.ways w hw).imp fun _ hcost => ⟨hcost.1, hle.trans hcost.2⟩⟩

theorem not_mem (h : fs.OpenLinks n opened) (hw : fs.Expands w m) (hlt : m < n) : w ∉ opened := by
  intro hmem
  obtain ⟨cost, hcost, hle⟩ := h.ways w hmem
  have := hw.unique hcost
  omega

theorem cons (h : fs.OpenLinks n opened) (hw : fs.Expands w m) (hlt : m < n) :
    fs.OpenLinks m (w :: opened) where
  nodup := List.nodup_cons.mpr ⟨h.not_mem hw hlt, h.nodup⟩
  ways := List.forall_mem_cons.mpr ⟨⟨m, hw, Nat.le_refl m⟩, (h.mono hlt.le).ways⟩

theorem length_le (h : fs.OpenLinks n opened) : opened.length ≤ 2 * fs.entries.length := by
  have hsub : opened ⊆ fs.entries.flatMap fun e => [⟨e.1, true⟩, ⟨e.1, false⟩] := by
    intro w hw
    obtain ⟨-, ⟨target, -, hlink, -⟩, -⟩ := h.ways w hw
    rw [entryAt?] at hlink
    split at hlink
    · exact Entry.noConfusion (Option.some.inj hlink)
    · refine List.mem_flatMap.mpr ⟨_, Table.mem_of_get? hlink, ?_⟩
      obtain ⟨location, fromTop⟩ := w
      cases fromTop <;> simp
  have hlength : ∀ entries : Table Location Entry,
      (entries.flatMap fun e => ([⟨e.1, true⟩, ⟨e.1, false⟩] : List Waypoint)).length =
        2 * entries.length := by
    intro entries
    induction entries with
    | nil => rfl
    | cons e rest ih =>
      rw [List.flatMap_cons, List.length_append, ih]
      simp only [List.length_cons, List.length_nil]
      omega
  rw [← hlength]
  exact (List.subperm_of_subset h.nodup hsub).length_le

end OpenLinks

theorem realNames_down {opened : List Waypoint}
    {jump : List Waypoint → List Text → Waypoint → Except Path Waypoint} {name : Text}
    {rest : List Text} {here : Location} {fromTop : Bool} (hfilled : name ≠ []) (hplain : Plain name)
    (hlink : ∀ target, fs.entryAt? (here ++ [name]) ≠ some (.link target)) :
    realNames fs opened jump (name :: rest) ⟨here, fromTop⟩ =
      realNames fs opened jump rest ⟨here ++ [name], fromTop⟩ := by
  have hname : ¬(name.isEmpty = true ∨ name = ['.']) := by
    simpa using ⟨hfilled, hplain.notHere⟩
  rw [realNames, if_neg hname, if_neg (by simp [hplain.notParent])]
  dsimp only [Waypoint.child]
  split
  · next target h => exact absurd (linkAt?_eq_some_iff.mp h).1 (hlink target)
  · rfl

theorem realNames_link {opened : List Waypoint}
    {jump : List Waypoint → List Text → Waypoint → Except Path Waypoint} {name : Text}
    {rest : List Text} {here : Location} {fromTop : Bool} (hfilled : name ≠ []) (hplain : Plain name)
    {target : Path} (hlink : fs.linkAt? (here ++ [name]) = some target)
    (hclosed : ⟨here ++ [name], fromTop⟩ ∉ opened) {next : Waypoint}
    (hjump : jump (⟨here ++ [name], fromTop⟩ :: opened) (Text.fields '/' target)
      (if Path.isAbsolute target then .top else ⟨here, fromTop⟩) = .ok next) :
    realNames fs opened jump (name :: rest) ⟨here, fromTop⟩ =
      realNames fs opened jump rest next := by
  have hname : ¬(name.isEmpty = true ∨ name = ['.']) := by
    simpa using ⟨hfilled, hplain.notHere⟩
  rw [realNames, if_neg hname, if_neg (by simp [hplain.notParent])]
  simp only [Waypoint.child, hlink, if_neg hclosed, hjump]

/-- A way that ends is found link by link. The links that are open have ways with as many links as
this one at least, so none of them is met again. -/
theorem realLinks_of_walk {n : Nat} {names : List Text} {here l : Location}
    (h : Walk fs true n names here l) (hroot : fs.Rooted here)
    (hnames : ∀ name ∈ names, name ≠ []) (links : Nat) (opened : List Waypoint) (fromTop : Bool)
    (hopened : fs.OpenLinks n opened)
    (hroom : 2 * fs.entries.length < links + opened.length) :
    ∃ fromTop', realLinks fs links opened names ⟨here, fromTop⟩ = .ok ⟨l, fromTop'⟩ := by
  generalize hfollow : true = followLast at h
  induction h generalizing links opened fromTop with
  | nil =>
    rw [realLinks_eq, realNames]
    exact ⟨fromTop, rfl⟩
  | dot hhere _ ih =>
    obtain ⟨fromTop', hrest⟩ :=
      ih hroot (List.forall_mem_cons.mp hnames).2 links opened fromTop hopened hroom hfollow
    rw [realLinks_eq] at hrest ⊢
    rw [realNames, if_pos (.inr rfl)]
    exact ⟨fromTop', hrest⟩
  | up hhere hname _ ih =>
    obtain ⟨fromTop', hrest⟩ :=
      ih hroot.dropLast (List.forall_mem_cons.mp hnames).2 links opened fromTop hopened hroom
        hfollow
    obtain rfl := of_decide_eq_true hname
    rw [realLinks_eq] at hrest ⊢
    rw [realNames, if_neg (by decide), if_pos hname]
    exact ⟨fromTop', hrest⟩
  | enter hhere hname hdir _ ih =>
    obtain ⟨hfilled, hnames⟩ := List.forall_mem_cons.mp hnames
    obtain ⟨fromTop', hrest⟩ := ih (rooted_concat.mpr ⟨hroot, hhere⟩) hnames links opened fromTop
      hopened hroom hfollow
    rw [realLinks_eq] at hrest ⊢
    rw [realNames_down hfilled hname.toPlain (not_link_of_isDirAt hdir)]
    exact ⟨fromTop', hrest⟩
  | last hhere hname hend hnil =>
    rw [realLinks_eq, realNames_down (hnames _ List.mem_cons_self) hname.toPlain hend.2, hnil,
      realNames]
    exact ⟨fromTop, rfl⟩
  | lastLink => contradiction
  | @link _ m n name rest here mid l target hhere hname hlink _ htarget _ ihTarget ih =>
    obtain ⟨hfilled, hnames⟩ := List.forall_mem_cons.mp hnames
    have hexpands : fs.Expands ⟨here ++ [name], fromTop⟩ m :=
      ⟨target, mid, hlink, by rwa [List.dropLast_concat]⟩
    have hinner := hopened.cons hexpands (by omega)
    have hlength := hinner.length_le
    rw [List.length_cons] at hlength
    obtain ⟨links, rfl⟩ : ∃ k, links = k + 1 := ⟨links - 1, by omega⟩
    have hstart : ∃ top, (if Path.isAbsolute target then .top else ⟨here, fromTop⟩ : Waypoint) =
        ⟨linkStart target here, top⟩ := by
      unfold linkStart
      split
      · exact ⟨true, rfl⟩
      · exact ⟨fromTop, rfl⟩
    obtain ⟨top, hstart⟩ := hstart
    have hthere := linkAt?_eq_some_iff.mpr ⟨hlink, rooted_concat.mpr ⟨hroot, hhere⟩⟩
    have htargetRoot := hroot.linkStart target
    obtain ⟨fromMid, hjump⟩ := ihTarget htargetRoot (fun name hname => (mem_pathNames hname).1) links
      (⟨here ++ [name], fromTop⟩ :: opened) top hinner (by rw [List.length_cons]; omega) rfl
    obtain ⟨fromTop', hrest⟩ :=
      ih (htarget.rooted htargetRoot) hnames (links + 1) opened fromMid (hopened.mono (by omega))
        hroom hfollow
    rw [realLinks_pathNames, ← hstart] at hjump
    rw [realLinks_eq] at hrest ⊢
    rw [realNames_link hfilled hname.toPlain hthere (hopened.not_mem hexpands (by omega)) hjump]
    exact ⟨fromTop', hrest⟩

theorem Walk.names {followLast : Bool} {n : Nat} {names : List Text} {here l : Location}
    (h : Walk fs followLast n names here l) (hnames : ∀ name ∈ names, name ≠ [] ∧ '/' ∉ name)
    (hhere : ∀ name ∈ here, Path.Name name ∧ ShortName name) :
    ∀ name ∈ l, Path.Name name ∧ ShortName name := by
  have hdown : ∀ {here : Location} {name : Text},
      (∀ name ∈ here, Path.Name name ∧ ShortName name) → name ≠ [] ∧ '/' ∉ name →
      ShortName name → ∀ n ∈ here ++ [name], Path.Name n ∧ ShortName n := by
    intro here name hhere hname hshort
    rw [List.forall_mem_append, List.forall_mem_singleton]
    exact ⟨hhere, ⟨hname.1, hname.2, hshort.toPlain⟩, hshort⟩
  induction h with
  | nil => exact hhere
  | dot _ _ ih => exact ih (List.forall_mem_cons.mp hnames).2 hhere
  | up _ _ _ ih =>
    exact ih (List.forall_mem_cons.mp hnames).2 fun n hn => hhere n (List.dropLast_subset _ hn)
  | enter _ hshort _ _ ih =>
    obtain ⟨hname, hnames⟩ := List.forall_mem_cons.mp hnames
    exact ih hnames (hdown hhere hname hshort)
  | last _ hshort | lastLink _ hshort =>
    exact hdown hhere (List.forall_mem_cons.mp hnames).1 hshort
  | link _ _ _ _ _ _ ihTarget ih =>
    refine ih (List.forall_mem_cons.mp hnames).2 (ihTarget (fun _ => mem_pathNames) ?_)
    rw [linkStart]
    split
    · simp
    · exact hhere

theorem realLinks_of_locate {p : Path} (hp : Path.isAbsolute p = true) {l : Location}
    (hl : fs.locate p true = .ok l) : ∃ fromTop,
      realLinks fs (2 * fs.entries.length + 1) [] (Text.fields '/' p) .top = .ok ⟨l, fromTop⟩ := by
  rw [locate_eq_ok_iff, start, if_pos hp] at hl
  obtain ⟨-, n, -, hwalk⟩ := hl
  obtain ⟨fromTop, hreal⟩ := realLinks_of_walk hwalk rooted_top
    (fun name hname => (mem_pathNames hname).1) (2 * fs.entries.length + 1) [] true
    ⟨List.nodup_nil, by simp⟩ (by simp)
  exact ⟨fromTop, realLinks_pathNames.mp hreal⟩

theorem realPath_of_realLinks {p : Path} (hp : Path.isAbsolute p = true) {next : Waypoint}
    (h : realLinks fs (2 * fs.entries.length + 1) [] (Text.fields '/' p) .top = .ok next) :
    fs.realPath p = next.location.toPath := by
  rw [realPath, start, if_pos hp, hp]
  rw [Waypoint.top] at h
  simp only [h]

/-- Where a path leads somewhere, its real path is the way down from the top. -/
theorem realPath_of_locate {p : Path} (hp : Path.isAbsolute p = true) {l : Location}
    (hl : fs.locate p true = .ok l) : fs.realPath p = l.toPath := by
  obtain ⟨fromTop, hreal⟩ := realLinks_of_locate hp hl
  exact realPath_of_realLinks hp hreal

end FileSystem

end SourceEdit
