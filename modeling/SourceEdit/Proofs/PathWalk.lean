import SourceEdit.FileSystem.Resolve

/-!
The way of a path through a file system, name by name, as a relation. It says what `locate` finds,
it is unique, and it depends on nothing but the directories and the links that it passes.
-/

set_option autoImplicit false

namespace SourceEdit

namespace FileSystem

/-- A name that leads down from a directory. -/
structure Plain (name : Text) : Prop where
  notHere : name ≠ ['.']
  notParent : Path.isParent name = false

structure ShortName (name : Text) : Prop extends Plain name where
  short : (Utf8.encode name).length ≤ longestName

def linkStart (target : Path) (here : Location) : Location :=
  if Path.isAbsolute target then [] else here

/-- A directory that may be searched. -/
def Passable (fs : FileSystem) (l : Location) : Prop := (fs.rightsAt l).search = true

/-- What stands here does not change the way: it is neither a directory nor a link. -/
def IsEnd (fs : FileSystem) (l : Location) : Prop :=
  fs.isDirAt l = false ∧ ∀ target, fs.entryAt? l ≠ some (.link target)

/-- The way of names from one location to another, with the number of links that it follows. -/
inductive Walk (fs : FileSystem) : (followLast : Bool) → Nat → List Text → Location → Location → Prop
  where
  | nil {followLast : Bool} {here : Location} : Walk fs followLast 0 [] here here
  | dot {followLast : Bool} {n : Nat} {rest : List Text} {here l : Location} :
      fs.Passable here → Walk fs followLast n rest here l →
      Walk fs followLast n (['.'] :: rest) here l
  | up {followLast : Bool} {n : Nat} {name : Text} {rest : List Text} {here l : Location} :
      fs.Passable here → Path.isParent name = true →
      Walk fs followLast n rest here.dropLast l → Walk fs followLast n (name :: rest) here l
  | enter {followLast : Bool} {n : Nat} {name : Text} {rest : List Text} {here l : Location} :
      fs.Passable here → ShortName name →
      fs.isDirAt (here ++ [name]) = true →
      Walk fs followLast n rest (here ++ [name]) l → Walk fs followLast n (name :: rest) here l
  | last {followLast : Bool} {name : Text} {rest : List Text} {here : Location} :
      fs.Passable here → ShortName name → fs.IsEnd (here ++ [name]) → rest = [] →
      Walk fs followLast 0 (name :: rest) here (here ++ [name])
  | lastLink {name : Text} {rest : List Text} {here : Location} {target : Path} :
      fs.Passable here → ShortName name →
      fs.entryAt? (here ++ [name]) = some (.link target) → rest = [] →
      Walk fs false 0 (name :: rest) here (here ++ [name])
  | link {followLast : Bool} {m n : Nat} {name : Text} {rest : List Text} {here mid l : Location}
      {target : Path} :
      fs.Passable here → ShortName name →
      fs.entryAt? (here ++ [name]) = some (.link target) → (rest = [] → followLast = true) →
      Walk fs true m (pathNames target) (linkStart target here) mid →
      Walk fs followLast n rest mid l → Walk fs followLast (m + n + 1) (name :: rest) here l

variable {fs : FileSystem}

theorem passable_iff {l : Location} :
    fs.Passable l ↔ ∃ rights, fs.entryAt? l = some (.dir rights) ∧ rights.search = true := by
  unfold Passable rightsAt
  cases fs.entryAt? l with
  | none => simp [Rights.none]
  | some e => cases e <;> simp [Rights.none]

theorem rightsAt_of_not_dir {l : Location} (h : fs.isDirAt l = false) : fs.rightsAt l = .none := by
  rw [rightsAt]
  split
  · next rights hentry => exact absurd hentry (isDirAt_eq_false_iff.mp h rights)
  · rfl

theorem Passable.isDirAt {l : Location} (h : fs.Passable l) : fs.isDirAt l = true := by
  obtain ⟨rights, hentry, -⟩ := passable_iff.mp h
  exact isDirAt_iff.mpr ⟨rights, hentry⟩

theorem passable_top (fs : FileSystem) : fs.Passable [] := rfl

theorem not_link_of_isDirAt {l : Location} (h : fs.isDirAt l = true) (target : Path) :
    fs.entryAt? l ≠ some (.link target) := by
  obtain ⟨rights, hentry⟩ := isDirAt_iff.mp h
  simp [hentry]

theorem IsEnd.not_isDirAt {l : Location} (h : fs.IsEnd l) : ¬fs.isDirAt l = true := by
  simp [h.1]

theorem isEnd_of_none {l : Location} (h : fs.entryAt? l = none) : fs.IsEnd l :=
  ⟨isDirAt_eq_false_iff.mpr (by simp [h]), by simp [h]⟩

theorem isEnd_of_file {l : Location} {content : Octets} {state : FileState}
    (h : fs.entryAt? l = some (.file content state)) : fs.IsEnd l :=
  ⟨isDirAt_eq_false_iff.mpr (by simp [h]), by simp [h]⟩

theorem Walk.passable {followLast : Bool} {n : Nat} {names : List Text} {here l : Location}
    (h : Walk fs followLast n names here l) (hnames : names ≠ []) :
    fs.Passable here := by
  cases h with
  | nil => exact absurd rfl hnames
  | dot hhere | up hhere | enter hhere | last hhere | lastLink hhere | link hhere => exact hhere

theorem walk_nil_iff {followLast : Bool} {n : Nat} {here l : Location} :
    Walk fs followLast n [] here l ↔ n = 0 ∧ l = here := by
  constructor
  · rintro ⟨⟩
    exact ⟨rfl, rfl⟩
  · rintro ⟨rfl, rfl⟩
    exact .nil

/-- Two ways one behind the other. The first of them is followed to its end, as the whole way has to
be if the second is empty. -/
theorem walk_append_iff {followLast : Bool} {n : Nat} {a b : List Text} {here l : Location}
    (hb : b = [] → followLast = true) : Walk fs followLast n (a ++ b) here l ↔
      ∃ n₁ n₂ mid, n = n₁ + n₂ ∧ Walk fs true n₁ a here mid ∧ Walk fs followLast n₂ b mid l := by
  constructor
  · intro h
    induction a generalizing n here with
    | nil => exact ⟨0, n, here, (Nat.zero_add n).symm, .nil, h⟩
    | cons name a ih =>
      cases h with
      | dot hhere h =>
        obtain ⟨n₁, n₂, mid, rfl, h₁, h₂⟩ := ih h
        exact ⟨n₁, n₂, mid, rfl, .dot hhere h₁, h₂⟩
      | up hhere hname h =>
        obtain ⟨n₁, n₂, mid, rfl, h₁, h₂⟩ := ih h
        exact ⟨n₁, n₂, mid, rfl, .up hhere hname h₁, h₂⟩
      | enter hhere hname hdir h =>
        obtain ⟨n₁, n₂, mid, rfl, h₁, h₂⟩ := ih h
        exact ⟨n₁, n₂, mid, rfl, .enter hhere hname hdir h₁, h₂⟩
      | last hhere hname hend hnil =>
        obtain ⟨rfl, rfl⟩ := List.append_eq_nil_iff.mp hnil
        exact ⟨0, 0, _, rfl, .last hhere hname hend rfl, .nil⟩
      | lastLink _ _ _ hnil =>
        exact absurd (hb (List.append_eq_nil_iff.mp hnil).2) Bool.false_ne_true
      | link hhere hname hlink _ htarget h =>
        obtain ⟨n₁, n₂, mid, rfl, h₁, h₂⟩ := ih h
        exact ⟨_, n₂, mid, by omega, .link hhere hname hlink (fun _ => rfl) htarget h₁, h₂⟩
  · rintro ⟨n₁, n₂, mid, rfl, h₁, h₂⟩
    generalize hfollow : true = follow₁ at h₁
    induction h₁ with
    | nil => rwa [Nat.zero_add]
    | dot hhere _ ih => exact .dot hhere (ih h₂ hfollow)
    | up hhere hname _ ih => exact .up hhere hname (ih h₂ hfollow)
    | enter hhere hname hdir _ ih => exact .enter hhere hname hdir (ih h₂ hfollow)
    | last hhere hname hend hnil =>
      by_cases hempty : b = []
      · rw [hempty] at h₂ ⊢
        obtain ⟨rfl, rfl⟩ := walk_nil_iff.mp h₂
        exact .last hhere hname hend (by rw [hnil]; rfl)
      · exact absurd (h₂.passable hempty).isDirAt hend.not_isDirAt
    | lastLink => contradiction
    | link hhere hname hlink _ htarget _ _ ih =>
      have hcost : ∀ m n : Nat, m + n + 1 + n₂ = m + (n + n₂) + 1 := by intro m n; omega
      rw [hcost]
      exact .link hhere hname hlink (fun hnil => hb (List.append_eq_nil_iff.mp hnil).2) htarget
        (ih h₂ hfollow)

section
variable {followLast : Bool} {n : Nat} {name : Text} {rest : List Text} {here l : Location}

theorem walk_dot_iff (hhere : fs.Passable here) :
    Walk fs followLast n (['.'] :: rest) here l ↔ Walk fs followLast n rest here l := by
  refine ⟨fun h => ?_, .dot hhere⟩
  cases h with
  | dot _ h => exact h
  | up _ hname => exact absurd hname (by decide)
  | enter _ hname | last _ hname | lastLink _ hname | link _ hname =>
    exact absurd rfl hname.notHere

theorem walk_up_iff (hhere : fs.Passable here)
    (hname : Path.isParent name = true) :
    Walk fs followLast n (name :: rest) here l ↔ Walk fs followLast n rest here.dropLast l := by
  refine ⟨fun h => ?_, .up hhere hname⟩
  cases h with
  | dot => exact absurd hname (by decide)
  | up _ _ h => exact h
  | enter _ hname' | last _ hname' | lastLink _ hname' | link _ hname' =>
    rw [hname'.notParent] at hname
    contradiction

theorem not_walk_long (hname : Plain name) (hlong : longestName < (Utf8.encode name).length) :
    ¬Walk fs followLast n (name :: rest) here l := by
  intro h
  cases h with
  | dot => exact hname.notHere rfl
  | up _ hparent => rw [hname.notParent] at hparent; contradiction
  | enter _ hname' | last _ hname' | lastLink _ hname' | link _ hname' =>
    exact Nat.not_lt.mpr hname'.short hlong

variable (hhere : fs.Passable here) (hname : ShortName name)
include hhere hname

theorem walk_enter_iff (hdir : fs.isDirAt (here ++ [name]) = true) :
    Walk fs followLast n (name :: rest) here l ↔ Walk fs followLast n rest (here ++ [name]) l := by
  refine ⟨fun h => ?_, .enter hhere hname hdir⟩
  cases h with
  | dot => exact absurd rfl hname.notHere
  | up _ hparent => rw [hname.notParent] at hparent; contradiction
  | enter _ _ _ h => exact h
  | last _ _ hend => exact absurd hdir hend.not_isDirAt
  | lastLink _ _ hlink | link _ _ hlink => exact absurd hlink (not_link_of_isDirAt hdir _)

theorem walk_last_iff (hend : fs.IsEnd (here ++ [name])) :
    Walk fs followLast n (name :: rest) here l ↔ n = 0 ∧ rest = [] ∧ l = here ++ [name] := by
  constructor
  · intro h
    cases h with
    | dot => exact absurd rfl hname.notHere
    | up _ hparent => rw [hname.notParent] at hparent; contradiction
    | enter _ _ hdir => exact absurd hdir hend.not_isDirAt
    | last _ _ _ hnil => exact ⟨rfl, hnil, rfl⟩
    | lastLink _ _ hlink | link _ _ hlink => exact absurd hlink (hend.2 _)
  · rintro ⟨rfl, hnil, rfl⟩
    exact .last hhere hname hend hnil

theorem walk_link_iff {target : Path} (hlink : fs.entryAt? (here ++ [name]) = some (.link target)) :
    Walk fs followLast n (name :: rest) here l ↔
      (rest = [] ∧ followLast = false ∧ n = 0 ∧ l = here ++ [name]) ∨
        ((rest = [] → followLast = true) ∧ ∃ n₁ n₂ mid, n = n₁ + n₂ + 1 ∧
          Walk fs true n₁ (pathNames target) (linkStart target here) mid ∧
          Walk fs followLast n₂ rest mid l) := by
  constructor
  · intro h
    cases h with
    | dot => exact absurd rfl hname.notHere
    | up _ hparent => rw [hname.notParent] at hparent; contradiction
    | enter _ _ hdir => exact absurd hlink (not_link_of_isDirAt hdir _)
    | last _ _ hend => exact absurd hlink (hend.2 _)
    | lastLink _ _ _ hnil => exact .inl ⟨hnil, rfl, rfl, rfl⟩
    | link _ _ hlink' hfollow htarget h =>
      rw [hlink] at hlink'
      obtain rfl := Entry.link.inj (Option.some.inj hlink')
      exact .inr ⟨hfollow, _, _, _, rfl, htarget, h⟩
  · rintro (⟨hnil, rfl, rfl, rfl⟩ | ⟨hfollow, n₁, n₂, mid, rfl, htarget, h⟩)
    · exact .lastLink hhere hname hlink hnil
    · exact .link hhere hname hlink hfollow htarget h

end

theorem Walk.unique {followLast : Bool} {n n' : Nat} {names : List Text} {here l l' : Location}
    (h : Walk fs followLast n names here l) (h' : Walk fs followLast n' names here l') :
    n = n' ∧ l = l' := by
  induction h generalizing n' l' with
  | nil =>
    cases h'
    exact ⟨rfl, rfl⟩
  | dot hhere _ ih => exact ih ((walk_dot_iff hhere).mp h')
  | up hhere hname _ ih => exact ih ((walk_up_iff hhere hname).mp h')
  | enter hhere hname hdir _ ih => exact ih ((walk_enter_iff hhere hname hdir).mp h')
  | last hhere hname hend _ =>
    obtain ⟨rfl, -, rfl⟩ := (walk_last_iff hhere hname hend).mp h'
    exact ⟨rfl, rfl⟩
  | lastLink hhere hname hlink hnil =>
    rcases (walk_link_iff hhere hname hlink).mp h' with ⟨-, -, rfl, rfl⟩ | ⟨hfollow, -⟩
    · exact ⟨rfl, rfl⟩
    · exact absurd (hfollow hnil) Bool.false_ne_true
  | link hhere hname hlink hfollow _ _ ihTarget ih =>
    rcases (walk_link_iff hhere hname hlink).mp h' with
      ⟨hnil, hnot, -⟩ | ⟨-, n₁, n₂, mid, rfl, htarget, h'⟩
    · rw [hfollow hnil] at hnot
      contradiction
    · obtain ⟨rfl, rfl⟩ := ihTarget htarget
      obtain ⟨rfl, rfl⟩ := ih h'
      exact ⟨rfl, rfl⟩

section
variable {followLast : Bool} {jump : List Text → Location → Except FileCause Location} {name : Text}
  {rest : List Text} {here l : Location} (hhere : fs.Passable here)
  (hname : ShortName name)
include hhere hname

theorem follow_enter (hdir : fs.isDirAt (here ++ [name]) = true) :
    follow fs followLast jump (name :: rest) here =
      follow fs followLast jump rest (here ++ [name]) := by
  obtain ⟨rights, hhere, hsearch⟩ := passable_iff.mp hhere
  obtain ⟨rights', hdir⟩ := isDirAt_iff.mp hdir
  rw [follow]
  simp only [hhere, hsearch, hdir, Bool.not_true, if_neg hname.notHere, hname.notParent,
    Bool.false_eq_true, if_false, if_neg (Nat.not_lt.mpr hname.short)]

theorem follow_link {target : Path} (hlink : fs.entryAt? (here ++ [name]) = some (.link target)) :
    follow fs followLast jump (name :: rest) here =
      if rest.isEmpty && !followLast then .ok (here ++ [name])
      else jump (pathNames target ++ rest) (linkStart target here) := by
  obtain ⟨rights, hhere, hsearch⟩ := passable_iff.mp hhere
  rw [follow]
  simp only [hhere, hsearch, hlink, Bool.not_true, if_neg hname.notHere, hname.notParent,
    Bool.false_eq_true, if_false, if_neg (Nat.not_lt.mpr hname.short)]
  rfl

theorem follow_end (hend : fs.IsEnd (here ++ [name])) :
    follow fs followLast jump (name :: rest) here = .ok l ↔ rest = [] ∧ l = here ++ [name] := by
  obtain ⟨rights, hhere, hsearch⟩ := passable_iff.mp hhere
  rw [follow]
  simp only [hhere, hsearch, Bool.not_true, if_neg hname.notHere, hname.notParent,
    Bool.false_eq_true, if_false, if_neg (Nat.not_lt.mpr hname.short)]
  cases hthere : fs.entryAt? (here ++ [name]) with
  | none => cases rest <;> simp [eq_comm]
  | some entry =>
    cases entry with
    | dir rights => exact absurd (isDirAt_iff.mpr ⟨rights, hthere⟩) hend.not_isDirAt
    | link target => exact absurd hthere (hend.2 target)
    | file content state =>
      cases rest with
      | nil => simp [follow, eq_comm]
      | cons name rest => simp [follow, hthere]

end

theorem exists_walk_link_iff {followLast : Bool} {links : Nat} {name : Text} {rest : List Text}
    {here l : Location} (hhere : fs.Passable here) (hname : ShortName name)
    {target : Path} (hlink : fs.entryAt? (here ++ [name]) = some (.link target)) :
    (∃ n ≤ links, Walk fs followLast n (name :: rest) here l) ↔
      if rest = [] ∧ followLast = false then l = here ++ [name]
      else ∃ n < links, Walk fs followLast n (pathNames target ++ rest) (linkStart target here) l := by
  simp only [walk_link_iff hhere hname hlink]
  split
  · next hstop =>
    constructor
    · rintro ⟨n, -, ⟨-, -, -, rfl⟩ | ⟨hgo, -⟩⟩
      · rfl
      · rw [hgo hstop.1] at hstop
        exact absurd hstop.2 (by decide)
    · rintro rfl
      exact ⟨0, Nat.zero_le _, .inl ⟨hstop.1, hstop.2, rfl, rfl⟩⟩
  · next hgo =>
    have hgo : rest = [] → followLast = true := by simpa using hgo
    simp only [walk_append_iff hgo]
    constructor
    · rintro ⟨n, hn, ⟨hnil, hstop, -⟩ | ⟨-, n₁, n₂, mid, rfl, h₁, h₂⟩⟩
      · rw [hgo hnil] at hstop
        contradiction
      · exact ⟨_, hn, n₁, n₂, mid, rfl, h₁, h₂⟩
    · rintro ⟨n, hn, n₁, n₂, mid, rfl, h₁, h₂⟩
      exact ⟨_, hn, .inr ⟨hgo, n₁, n₂, mid, rfl, h₁, h₂⟩⟩

/-- A function that goes on behind a link finds what the ways with one link less find, so `follow`
finds what the ways find. -/
theorem follow_eq_ok_iff {followLast : Bool} {links : Nat}
    {jump : List Text → Location → Except FileCause Location}
    (hjump : ∀ names here l, jump names here = .ok l ↔
      ∃ n < links, Walk fs followLast n names here l)
    {names : List Text} {here l : Location} : follow fs followLast jump names here = .ok l ↔
      ∃ n ≤ links, Walk fs followLast n names here l := by
  induction names generalizing here with
  | nil =>
    rw [follow, Except.ok.injEq]
    constructor
    · rintro rfl
      exact ⟨0, Nat.zero_le _, .nil⟩
    · rintro ⟨n, -, ⟨⟩⟩
      rfl
  | cons name rest ih =>
    by_cases hhere : fs.Passable here
    case neg =>
      refine iff_of_false (fun h => ?_) fun ⟨n, _, h⟩ => hhere (h.passable (List.cons_ne_nil _ _))
      rw [follow] at h
      split at h
      · contradiction
      · contradiction
      · contradiction
      · next rights hdir =>
        split at h
        · contradiction
        · next hsearch => exact hhere (passable_iff.mpr ⟨rights, hdir, by simpa using hsearch⟩)
    obtain ⟨rights, hentry, hsearch⟩ := passable_iff.mp hhere
    by_cases hdot : name = ['.']
    · subst hdot
      rw [follow]
      simp only [hentry, hsearch, Bool.not_true, Bool.false_eq_true, if_false, if_true,
        walk_dot_iff hhere, ih]
    by_cases hparent : Path.isParent name = true
    · rw [follow]
      simp only [hentry, hsearch, Bool.not_true, Bool.false_eq_true, if_false, if_neg hdot,
        if_pos hparent, walk_up_iff hhere hparent, ih]
    have hplain : Plain name := ⟨hdot, by simpa using hparent⟩
    by_cases hlong : longestName < (Utf8.encode name).length
    · refine iff_of_false (fun h => ?_) fun ⟨n, _, h⟩ => not_walk_long hplain hlong h
      rw [follow] at h
      simp only [hentry, hsearch, Bool.not_true, Bool.false_eq_true, if_false, if_neg hdot,
        if_neg hparent, if_pos hlong] at h
      contradiction
    have hname : ShortName name := ⟨hplain, Nat.not_lt.mp hlong⟩
    by_cases hdir : fs.isDirAt (here ++ [name]) = true
    · rw [follow_enter hhere hname hdir]
      simp only [walk_enter_iff hhere hname hdir, ih]
    by_cases hlink : ∃ target, fs.entryAt? (here ++ [name]) = some (.link target)
    · obtain ⟨target, hlink⟩ := hlink
      rw [follow_link hhere hname hlink, exists_walk_link_iff hhere hname hlink]
      by_cases hstop : rest = [] ∧ followLast = false
      · rw [if_pos hstop, if_pos (by simp [hstop]), Except.ok.injEq, eq_comm]
      · have hgo : (rest.isEmpty && !followLast) = false := by simpa using hstop
        rw [if_neg hstop, hgo, if_neg Bool.false_ne_true, hjump]
    · have hend : fs.IsEnd (here ++ [name]) := ⟨by simpa using hdir, fun target h => hlink ⟨target, h⟩⟩
      rw [follow_end hhere hname hend]
      simp only [walk_last_iff hhere hname hend]
      exact ⟨fun h => ⟨0, Nat.zero_le _, rfl, h⟩, fun ⟨_, _, _, h⟩ => h⟩

theorem followLinks_eq_ok_iff {followLast : Bool} {links : Nat} {names : List Text}
    {here l : Location} : followLinks fs followLast links names here = .ok l ↔
      ∃ n ≤ links, Walk fs followLast n names here l := by
  induction links generalizing names here l with
  | zero => exact follow_eq_ok_iff (by simp)
  | succ links ih => exact follow_eq_ok_iff fun _ _ _ => by simp only [ih, Nat.lt_succ_iff]

/-- A path that can be looked up at all. -/
structure Usable (p : Path) : Prop where
  noNul : '\x00' ∉ p
  filled : p ≠ []
  short : (Utf8.encode p).length ≤ longestPath

theorem locate_eq_ok_iff {p : Path} {followLast : Bool} {l : Location} :
    fs.locate p followLast = .ok l ↔
      Usable p ∧ ∃ n ≤ mostLinks, Walk fs followLast n (pathNames p) (fs.start p) l := by
  rw [locate]
  split
  · next h => exact iff_of_false (by simp) fun hp => hp.1.noNul h
  · next hnul =>
    split
    · next h => exact iff_of_false (by simp) fun hp => hp.1.filled (List.isEmpty_iff.mp h)
    · next hfilled =>
      split
      · next h => exact iff_of_false (by simp) fun hp => Nat.not_lt.mpr hp.1.short h
      · next hshort =>
        rw [followLinks_eq_ok_iff]
        have hp : Usable p := ⟨hnul, by simpa using hfilled, Nat.not_lt.mp hshort⟩
        exact (and_iff_right hp).symm

/-- All that is above this place are directories that may be searched. -/
def Rooted (fs : FileSystem) (l : Location) : Prop := ∀ m, m <+: l → m ≠ l → fs.Passable m

theorem rooted_top : fs.Rooted [] := fun _ hm hne => absurd (List.prefix_nil.mp hm) hne

theorem forall_above_concat {P : Location → Prop} {l : Location} {name : Text} :
    (∀ m, m <+: l ++ [name] → m ≠ l ++ [name] → P m) ↔ (∀ m, m <+: l → m ≠ l → P m) ∧ P l := by
  constructor
  · intro h
    have hne : ∀ m, m <+: l → m ≠ l ++ [name] := by
      rintro m hm rfl
      have := hm.length_le
      rw [List.length_append, List.length_singleton] at this
      omega
    exact ⟨fun m hm _ => h m (hm.trans (List.prefix_append l _)) (hne m hm),
      h l (List.prefix_append l _) (hne l List.prefix_rfl)⟩
  · rintro ⟨habove, hl⟩ m hm hne
    rcases List.prefix_concat_iff.mp hm with rfl | hm
    · exact absurd rfl hne
    · by_cases h : m = l
      · exact h ▸ hl
      · exact habove m hm h

theorem rooted_concat {l : Location} {name : Text} :
    fs.Rooted (l ++ [name]) ↔ fs.Rooted l ∧ fs.Passable l := forall_above_concat

theorem Rooted.dropLast {l : Location} (h : fs.Rooted l) : fs.Rooted l.dropLast := by
  rcases List.eq_nil_or_concat l with rfl | ⟨l, name, rfl⟩
  · exact rooted_top
  · rw [List.concat_eq_append] at h ⊢
    rw [List.dropLast_concat]
    exact (rooted_concat.mp h).1

theorem Rooted.linkStart {here : Location} (h : fs.Rooted here) (target : Path) :
    fs.Rooted (linkStart target here) := by
  rw [FileSystem.linkStart]
  split
  · exact rooted_top
  · exact h

theorem Walk.rooted {followLast : Bool} {n : Nat} {names : List Text} {here l : Location}
    (h : Walk fs followLast n names here l) (hhere : fs.Rooted here) : fs.Rooted l := by
  induction h with
  | nil => exact hhere
  | dot _ _ ih => exact ih hhere
  | up _ _ _ ih => exact ih hhere.dropLast
  | enter hdir _ _ _ ih => exact ih (rooted_concat.mpr ⟨hhere, hdir⟩)
  | last hdir | lastLink hdir => exact rooted_concat.mpr ⟨hhere, hdir⟩
  | link _ _ _ _ _ _ ihTarget ih => exact ih (ihTarget (hhere.linkStart _))

theorem Walk.not_link {n : Nat} {names : List Text} {here l : Location}
    (h : Walk fs true n names here l) (hroot : fs.Rooted here)
    (hhere : ∀ target, fs.entryAt? here ≠ some (.link target)) :
    ∀ target, fs.entryAt? l ≠ some (.link target) := by
  generalize hfollow : true = followLast at h
  induction h with
  | nil => exact hhere
  | dot _ _ ih => exact ih hroot hhere hfollow
  | @up _ _ _ _ here _ hdir _ _ ih =>
    refine ih hroot.dropLast ?_ hfollow
    rcases List.eq_nil_or_concat here with rfl | ⟨above, name, rfl⟩
    · exact hhere
    · rw [List.concat_eq_append] at hroot ⊢
      rw [List.dropLast_concat]
      exact not_link_of_isDirAt (rooted_concat.mp hroot).2.isDirAt
  | enter hdir _ hthere _ ih =>
    exact ih (rooted_concat.mpr ⟨hroot, hdir⟩) (not_link_of_isDirAt hthere) hfollow
  | last _ _ hend _ => exact hend.2
  | lastLink => contradiction
  | link _ _ _ _ htarget _ ihTarget ih =>
    refine ih (htarget.rooted (hroot.linkStart _)) (ihTarget (hroot.linkStart _) ?_ rfl) hfollow
    rw [FileSystem.linkStart]
    split
    · simp
    · exact hhere

theorem Walk.follow {n : Nat} {names : List Text} {here l : Location}
    (h : Walk fs false n names here l) (hl : ∀ target, fs.entryAt? l ≠ some (.link target)) :
    Walk fs true n names here l := by
  generalize hfollow : false = followLast at h
  induction h with
  | nil => exact .nil
  | dot hhere _ ih => exact .dot hhere (ih hl hfollow)
  | up hhere hname _ ih => exact .up hhere hname (ih hl hfollow)
  | enter hhere hname hdir _ ih => exact .enter hhere hname hdir (ih hl hfollow)
  | last hhere hname hend hnil => exact .last hhere hname hend hnil
  | lastLink _ _ hlink _ => exact absurd hlink (hl _)
  | link hhere hname hlink _ htarget _ _ ih =>
    exact .link hhere hname hlink (fun _ => rfl) htarget (ih hl hfollow)

/-- What stands here leads neither to this end nor into a directory that may be searched. -/
structure Aside (fs : FileSystem) (m : Location) (target : Path) (l : Location) : Prop where
  notEnd : m ≠ l
  away : ∀ n mid, Walk fs true n (pathNames target) (linkStart target m.dropLast) mid →
    mid ≠ l ∧ ¬fs.Passable mid

/-- A way stays if the directories and the links that it can pass do, and its end is none of them as
before. Links that lead aside do not count. -/
theorem Walk.transfer {fs' : FileSystem} {followLast : Bool} {n : Nat} {names : List Text}
    {here l : Location} (h : Walk fs followLast n names here l) (hroot : fs.Rooted here)
    (hdir : ∀ m rights, fs.Rooted m → fs.entryAt? m = some (.dir rights) →
      fs'.entryAt? m = some (.dir rights))
    (hlink : ∀ m target, fs.Rooted m → fs.entryAt? m = some (.link target) →
      fs'.entryAt? m = some (.link target) ∨ fs.Aside m target l)
    (hend : fs.IsEnd l → fs'.IsEnd l) : Walk fs' followLast n names here l := by
  have hpass : ∀ m, fs.Rooted m → fs.Passable m → fs'.Passable m := by
    intro m hm h
    obtain ⟨rights, hentry, hsearch⟩ := passable_iff.mp h
    exact passable_iff.mpr ⟨rights, hdir m rights hm hentry, hsearch⟩
  induction h with
  | nil => exact .nil
  | dot hhere _ ih => exact .dot (hpass _ hroot hhere) (ih hroot hlink hend)
  | up hhere hname _ ih => exact .up (hpass _ hroot hhere) hname (ih hroot.dropLast hlink hend)
  | @enter _ _ name _ here _ hhere hname hthere _ ih =>
    have hbelow : fs.Rooted (here ++ [name]) := rooted_concat.mpr ⟨hroot, hhere⟩
    obtain ⟨rights, hthere⟩ := isDirAt_iff.mp hthere
    exact .enter (hpass _ hroot hhere) hname (isDirAt_iff.mpr ⟨rights, hdir _ _ hbelow hthere⟩)
      (ih hbelow hlink hend)
  | last hhere hname hthere hnil => exact .last (hpass _ hroot hhere) hname (hend hthere) hnil
  | lastLink hhere hname hthere hnil =>
    rcases hlink _ _ (rooted_concat.mpr ⟨hroot, hhere⟩) hthere with hthere' | haside
    · exact .lastLink (hpass _ hroot hhere) hname hthere' hnil
    · exact absurd rfl haside.notEnd
  | @link _ _ _ name rest here mid l target hhere hname hthere hfollow htarget h ihTarget ih =>
    have hmid : rest ≠ [] → fs.Passable mid := h.passable
    have hsame : rest = [] → mid = l := by
      rintro rfl
      exact (walk_nil_iff.mp h).2.symm
    have hthere' : fs'.entryAt? (here ++ [name]) = some (.link target) := by
      refine (hlink _ _ (rooted_concat.mpr ⟨hroot, hhere⟩) hthere).resolve_right fun haside => ?_
      have haway := haside.away
      rw [List.dropLast_concat] at haway
      obtain ⟨hne, hnot⟩ := haway _ _ htarget
      exact hnot (hmid fun hnil => hne (hsame hnil))
    refine .link (hpass _ hroot hhere) hname hthere' hfollow ?_
      (ih (htarget.rooted (hroot.linkStart _)) hlink hend)
    by_cases hnil : rest = []
    · exact ihTarget (hroot.linkStart _) (hsame hnil ▸ hlink) (hsame hnil ▸ hend)
    · -- behind the target the way goes on, so the target is a directory
      refine ihTarget (hroot.linkStart _) (fun m t hm hentry => ?_)
        fun hthere => absurd (hmid hnil).isDirAt hthere.not_isDirAt
      refine (hlink m t hm hentry).imp_right fun haside => ⟨?_, fun n x hx => ⟨?_, ?_⟩⟩
      · rintro rfl
        exact not_link_of_isDirAt (hmid hnil).isDirAt t hentry
      · rintro rfl
        exact (haside.away n _ hx).2 (hmid hnil)
      · exact (haside.away n x hx).2

end FileSystem

end SourceEdit
