import SourceEdit.FileSystem.Lock
import SourceEdit.Proofs.PathNames

set_option autoImplicit false

namespace SourceEdit

namespace Utf8

theorem length_encode_le_of_prefix {s t : Text} (h : s <+: t) :
    (encode s).length ≤ (encode t).length := by
  obtain ⟨rest, rfl⟩ := h
  rw [encode, encode, List.flatMap_append, List.length_append]
  exact Nat.le_add_right _ _

end Utf8

namespace FileSystem

open SourceEdit.Path (Splits)

instance decidableOk {ε α : Type} (x : Except ε α) (P : α → Prop) [DecidablePred P] :
    Decidable (∀ a, x = .ok a → P a) :=
  match x with
  | .ok a => decidable_of_iff (P a) ⟨fun h b hb => Except.ok.inj hb ▸ h, fun h => h a rfl⟩
  | .error _ => .isTrue fun _ h => by contradiction

theorem Usable.of_prefix {p q : Path} (h : Usable q) (hp : p <+: q) (hne : p ≠ []) : Usable p where
  noNul := fun hmem => h.noNul (hp.subset hmem)
  filled := hne
  short := Nat.le_trans (Utf8.length_encode_le_of_prefix hp) h.short

theorem start_of_absolute (fs : FileSystem) {p : Path} (h : Path.isAbsolute p = true) :
    fs.start p = [] := if_pos h

variable {fs fs' : FileSystem} {p above : Path} {name : Text}

/-- A path names this directory, whether or not it ends in slashes. -/
structure Leads (fs : FileSystem) (above : Path) (dir : Location) : Prop where
  walk : ∃ n ≤ mostLinks, Walk fs true n (Text.filledFields '/' above) [] dir
  passable : fs.Passable dir

theorem Leads.unique {dir dir' : Location} (h : fs.Leads above dir) (h' : fs.Leads above dir') :
    dir = dir' := by
  obtain ⟨n, -, hwalk⟩ := h.walk
  obtain ⟨n', -, hwalk'⟩ := h'.walk
  exact (hwalk.unique hwalk').2

theorem Leads.isDirAt {dir : Location} (h : fs.Leads above dir) : fs.isDirAt dir = true :=
  h.passable.isDirAt

theorem Leads.rooted {dir : Location} (h : fs.Leads above dir) (name : Text) :
    fs.Rooted (dir ++ [name]) := by
  obtain ⟨n, -, hwalk⟩ := h.walk
  exact rooted_concat.mpr ⟨hwalk.rooted rooted_top, h.passable⟩

theorem walk_name_iff {n : Nat} {here l : Location} (hplain : Plain name) :
    Walk fs false n [name] here l ↔ n = 0 ∧ fs.Passable here ∧ ShortName name ∧
      l = here ++ [name] := by
  constructor
  · intro h
    cases h with
    | dot => exact absurd rfl hplain.notHere
    | up _ hparent => rw [hplain.notParent] at hparent; contradiction
    | enter hhere hname _ h =>
      obtain ⟨rfl, rfl⟩ := walk_nil_iff.mp h
      exact ⟨rfl, hhere, hname, rfl⟩
    | last hhere hname | lastLink hhere hname => exact ⟨rfl, hhere, hname, rfl⟩
    | link _ _ _ hfollow => exact absurd (hfollow rfl) Bool.false_ne_true
  · rintro ⟨rfl, hhere, hname, rfl⟩
    cases hthere : fs.entryAt? (here ++ [name]) with
    | none => exact .last hhere hname (isEnd_of_none hthere) rfl
    | some e =>
      cases e with
      | file => exact .last hhere hname (isEnd_of_file hthere) rfl
      | dir rights => exact .enter hhere hname (isDirAt_iff.mpr ⟨rights, hthere⟩) .nil
      | link target => exact .lastLink hhere hname hthere rfl

theorem Walk.shortName {followLast : Bool} {n : Nat} {rest : List Text} {here l : Location}
    (h : Walk fs followLast n (name :: rest) here l) (hplain : Plain name) : ShortName name := by
  cases h with
  | dot => exact absurd rfl hplain.notHere
  | up _ hparent => rw [hplain.notParent] at hparent; contradiction
  | enter _ hname | last _ hname | lastLink _ hname | link _ hname => exact hname

theorem leads_of_locate (h : Splits p above name) {followLast : Bool} {l : Location}
    (hl : fs.locate p followLast = .ok l) :
    Usable p ∧ ShortName name ∧ ∃ dir, fs.Leads above dir := by
  rw [locate_eq_ok_iff, start_of_absolute fs h.absolute, h.pathNames] at hl
  obtain ⟨hp, n, hn, hwalk⟩ := hl
  obtain ⟨n₁, n₂, dir, rfl, hdir, hname⟩ := (walk_append_iff (by simp)).mp hwalk
  exact ⟨hp, hname.shortName h.plain, dir, ⟨n₁, by omega, hdir⟩, hname.passable (by simp)⟩

theorem locate_false_iff (h : Splits p above name) {l : Location} :
    fs.locate p false = .ok l ↔
      Usable p ∧ ShortName name ∧ ∃ dir, fs.Leads above dir ∧ l = dir ++ [name] := by
  have hname : ([name] : List Text) = [] → false = true := by simp
  rw [locate_eq_ok_iff, start_of_absolute fs h.absolute, h.pathNames]
  simp only [walk_append_iff hname, walk_name_iff h.plain]
  constructor
  · rintro ⟨hp, n, hn, n₁, n₂, dir, rfl, hwalk, rfl, hdir, hname, rfl⟩
    exact ⟨hp, hname, dir, ⟨⟨n₁, by omega, hwalk⟩, hdir⟩, rfl⟩
  · rintro ⟨hp, hname, dir, ⟨⟨n, hn, hwalk⟩, hdir⟩, rfl⟩
    exact ⟨hp, n, hn, n, 0, dir, rfl, hwalk, rfl, hdir, hname, rfl⟩

theorem locate_false_of_leads (h : Splits p above name) {followLast : Bool} {l dir : Location}
    (hl : fs.locate p followLast = .ok l) (hdir : fs.Leads above dir) :
    fs.locate p false = .ok (dir ++ [name]) := by
  obtain ⟨hp, hname, -⟩ := leads_of_locate h hl
  exact (locate_false_iff h).mpr ⟨hp, hname, dir, hdir, rfl⟩

theorem locate_true_of_false {l : Location} (h : fs.locate p false = .ok l)
    (hl : ∀ target, fs.entryAt? l ≠ some (.link target)) : fs.locate p true = .ok l := by
  rw [locate_eq_ok_iff] at h ⊢
  exact ⟨h.1, h.2.imp fun n hn => ⟨hn.1, hn.2.follow hl⟩⟩

theorem not_link_of_locate (h : Path.isAbsolute p = true) {l : Location}
    (hl : fs.locate p true = .ok l) (target : Path) : fs.entryAt? l ≠ some (.link target) := by
  rw [locate_eq_ok_iff, start_of_absolute fs h] at hl
  obtain ⟨-, n, -, hwalk⟩ := hl
  exact hwalk.not_link rooted_top (by simp) target

/-- The same directories and links. -/
structure Alike (fs fs' : FileSystem) : Prop where
  dir : ∀ l rights, fs.entryAt? l = some (.dir rights) ↔ fs'.entryAt? l = some (.dir rights)
  link : ∀ l target, fs.entryAt? l = some (.link target) ↔ fs'.entryAt? l = some (.link target)

namespace Alike

theorem refl (fs : FileSystem) : Alike fs fs := ⟨fun _ _ => .rfl, fun _ _ => .rfl⟩

theorem symm (h : Alike fs fs') : Alike fs' fs :=
  ⟨fun l r => (h.dir l r).symm, fun l t => (h.link l t).symm⟩

theorem trans {fs'' : FileSystem} (h : Alike fs fs') (h' : Alike fs' fs'') : Alike fs fs'' :=
  ⟨fun l r => (h.dir l r).trans (h'.dir l r), fun l t => (h.link l t).trans (h'.link l t)⟩

theorem isDirAt_eq (h : Alike fs fs') (l : Location) : fs'.isDirAt l = fs.isDirAt l := by
  rw [Bool.eq_iff_iff, isDirAt_iff, isDirAt_iff]
  exact exists_congr fun r => (h.dir l r).symm

theorem rightsAt_eq (h : Alike fs fs') (l : Location) : fs'.rightsAt l = fs.rightsAt l := by
  cases hdir : fs.isDirAt l with
  | true =>
    obtain ⟨r, hr⟩ := isDirAt_iff.mp hdir
    rw [rightsAt, rightsAt, hr, (h.dir l r).mp hr]
  | false =>
    have hdir' := (h.isDirAt_eq l).trans hdir
    rw [rightsAt_of_not_dir hdir, rightsAt_of_not_dir hdir']

theorem passable_iff (h : Alike fs fs') {l : Location} : fs.Passable l ↔ fs'.Passable l := by
  rw [Passable, Passable, h.rightsAt_eq]

theorem mayChangeAt_eq (h : Alike fs fs') (l : Location) : fs'.mayChangeAt l = fs.mayChangeAt l := by
  rw [mayChangeAt, mayChangeAt, h.rightsAt_eq]

theorem isEnd {l : Location} (h : Alike fs fs') (hl : fs.IsEnd l) : fs'.IsEnd l :=
  ⟨(h.isDirAt_eq l).trans hl.1, fun t hlink => hl.2 t ((h.link l t).mpr hlink)⟩

theorem walk {followLast : Bool} {n : Nat} {names : List Text} {l : Location}
    (h : Alike fs fs') (hwalk : Walk fs followLast n names [] l) :
    Walk fs' followLast n names [] l :=
  hwalk.transfer rooted_top (fun m r _ => (h.dir m r).mp)
    (fun m t _ hm => .inl ((h.link m t).mp hm)) h.isEnd

theorem leads_iff (h : Alike fs fs') {dir : Location} :
    fs.Leads above dir ↔ fs'.Leads above dir := by
  have himp : ∀ {fs fs' : FileSystem}, Alike fs fs' → fs.Leads above dir → fs'.Leads above dir :=
    fun h hdir => ⟨hdir.walk.imp fun n hn => ⟨hn.1, h.walk hn.2⟩, h.passable_iff.mp hdir.passable⟩
  exact ⟨himp h, himp h.symm⟩

theorem locate_iff (h : Alike fs fs') (hp : Path.isAbsolute p = true) {followLast : Bool}
    {l : Location} : fs.locate p followLast = .ok l ↔ fs'.locate p followLast = .ok l := by
  rw [locate_eq_ok_iff, locate_eq_ok_iff, start_of_absolute fs hp, start_of_absolute fs' hp]
  exact and_congr_right fun _ => ⟨fun hn => hn.imp fun n hn => ⟨hn.1, h.walk hn.2⟩,
    fun hn => hn.imp fun n hn => ⟨hn.1, h.symm.walk hn.2⟩⟩

theorem put (h : Alike fs fs') {l : Location} (hl : l ≠ []) (e : Entry) :
    Alike (fs.put l e) (fs'.put l e) := by
  constructor
  · intro m r
    rw [entryAt?_put fs m e hl, entryAt?_put fs' m e hl]
    split
    · rfl
    · exact h.dir m r
  · intro m target
    rw [entryAt?_put fs m e hl, entryAt?_put fs' m e hl]
    split
    · rfl
    · exact h.link m target

end Alike

theorem IsEnd.ne_top {l : Location} (h : fs.IsEnd l) : l ≠ [] := by
  rintro rfl
  exact absurd h.1 (by simp [isDirAt])

theorem isEnd_congr {l : Location} (h : fs'.entryAt? l = fs.entryAt? l) :
    fs'.IsEnd l ↔ fs.IsEnd l := by
  rw [IsEnd, IsEnd, isDirAt, isDirAt, h]

theorem alike_of_ends (h : ∀ m, fs'.entryAt? m = fs.entryAt? m ∨ fs.IsEnd m ∧ fs'.IsEnd m) :
    Alike fs fs' := by
  constructor
  · intro m r
    rcases h m with hsame | ⟨hbefore, hafter⟩
    · rw [hsame]
    · exact iff_of_false (isDirAt_eq_false_iff.mp hbefore.1 r) (isDirAt_eq_false_iff.mp hafter.1 r)
  · intro m target
    rcases h m with hsame | ⟨hbefore, hafter⟩
    · rw [hsame]
    · exact iff_of_false (hbefore.2 target) (hafter.2 target)

/-- They differ only at such places, and only where neither a directory nor a link stands. -/
def Touched (fs fs' : FileSystem) (places : Location → Prop) : Prop :=
  ∀ m, fs'.entryAt? m = fs.entryAt? m ∨ places m ∧ fs.IsEnd m ∧ fs'.IsEnd m

namespace Touched

variable {places : Location → Prop}

theorem same (h : Touched fs fs' places) {m : Location} (hm : ¬places m) :
    fs'.entryAt? m = fs.entryAt? m := (h m).resolve_right fun hin => hm hin.1

theorem alike (h : Touched fs fs' places) : Alike fs fs' :=
  alike_of_ends fun m => (h m).imp_right And.right

theorem mono {places' : Location → Prop} (h : Touched fs fs' places)
    (hle : ∀ m, places m → places' m) : Touched fs fs' places' :=
  fun m => (h m).imp_right fun hin => ⟨hle m hin.1, hin.2⟩

theorem trans {fs'' : FileSystem} (h : Touched fs fs' places) (h' : Touched fs' fs'' places) :
    Touched fs fs'' places := by
  intro m
  have halike := h.alike
  rcases h' m with hsame' | ⟨hin, hbefore, hafter⟩
  · rw [hsame', isEnd_congr hsame']
    exact h m
  · exact .inr ⟨hin, halike.symm.isEnd hbefore, hafter⟩

end Touched

/-- Two names of one file, or twice the same name. -/
def OneFile (fs : FileSystem) (l m : Location) : Prop := m = l ∨ fs.areOneFile l m = true

instance (fs : FileSystem) (l m : Location) : Decidable (fs.OneFile l m) :=
  inferInstanceAs (Decidable (_ ∨ _))

/-- A file without other names, or none at all. -/
def IsSole (fs : FileSystem) (l : Location) : Prop := (fs.stateAt l).shared = none

instance (fs : FileSystem) (l : Location) : Decidable (fs.IsSole l) :=
  inferInstanceAs (Decidable (_ = _))

theorem stateAt_of_file {l : Location} {content : Octets} {state : FileState}
    (h : fs.entryAt? l = some (.file content state)) : fs.stateAt l = state := by
  rw [stateAt, h]

theorem stateAt_of_none {l : Location} (h : fs.entryAt? l = none) : fs.stateAt l = {} := by
  rw [stateAt, h]

theorem isSole_of_none {l : Location} (h : fs.entryAt? l = none) : fs.IsSole l := by
  rw [IsSole, stateAt_of_none h]

theorem OneFile.symm {l m : Location} (h : fs.OneFile l m) : fs.OneFile m l := by
  rcases h with rfl | h
  · exact .inl rfl
  · simp only [areOneFile, Bool.and_eq_true, decide_eq_true_eq] at h
    obtain ⟨hshared, hsame⟩ := h
    exact .inr (by simp [areOneFile, hsame, hshared])

theorem OneFile.eq {l m : Location} (h : fs.OneFile l m) (hl : fs.IsSole l) : m = l := by
  refine h.resolve_right ?_
  rw [areOneFile, hl]
  simp

theorem shared?_eq (fs : FileSystem) (l : Location) :
    (fs.entryAt? l).bind Entry.shared? = (fs.stateAt l).shared := by
  rw [stateAt]
  cases fs.entryAt? l with
  | none => rfl
  | some e => cases e <;> rfl

theorem OneFile.isEnd {l m : Location} (h : fs.OneFile l m) (hl : fs.IsEnd l) : fs.IsEnd m := by
  rcases h with rfl | h
  · exact hl
  · simp only [areOneFile, Bool.and_eq_true, decide_eq_true_eq] at h
    obtain ⟨hshared, hsame⟩ := h
    rw [← hsame, ← shared?_eq] at hshared
    cases hentry : fs.entryAt? m with
    | none => exact isEnd_of_none hentry
    | some e =>
      rw [hentry] at hshared
      cases e with
      | file => exact isEnd_of_file hentry
      | dir | link => contradiction

theorem entryAt?_putFile {l : Location} (hl : l ≠ []) (content : Octets) {state : FileState}
    (hs : state.shared = (fs.stateAt l).shared) (m : Location) :
    (fs.putFile l content state).entryAt? m =
      if fs.OneFile l m then some (.file content state) else fs.entryAt? m := by
  have hdir : ¬(state.shared.isSome = true ∧ Entry.directory.shared? = state.shared) := by
    rintro ⟨hshared, hnone⟩
    rw [← hnone] at hshared
    contradiction
  rw [putFile, entryAt?_put _ _ _ hl, entryAt?_mapEntries]
  case hf => exact if_neg hdir
  by_cases hm : l = m
  · rw [if_pos hm, if_pos (.inl hm.symm)]
  rw [if_neg hm]
  have hsame : fs.OneFile l m ↔ state.shared.isSome = true ∧
      (fs.entryAt? m).bind Entry.shared? = state.shared := by
    rw [OneFile, or_iff_right (Ne.symm hm), areOneFile, shared?_eq, hs]
    simp
  cases hentry : fs.entryAt? m with
  | none =>
    rw [if_neg]
    · rfl
    · rw [hsame, hentry]
      rintro ⟨hshared, hnone⟩
      rw [← hnone] at hshared
      contradiction
  | some e =>
    rw [hentry, Option.bind_some] at hsame
    simp only [hsame, Option.map_some]
    split <;> rfl

theorem entryAt?_putFile_self {l : Location} (hl : l ≠ []) (content : Octets) (state : FileState) :
    (fs.putFile l content state).entryAt? l = some (.file content state) := by
  rw [putFile, entryAt?_put _ _ _ hl, if_pos rfl]

theorem touched_putFile {l : Location} (hl : fs.IsEnd l) (content : Octets) {state : FileState}
    (hs : state.shared = (fs.stateAt l).shared) :
    Touched fs (fs.putFile l content state) (fs.OneFile l) := by
  intro m
  have hput := entryAt?_putFile hl.ne_top content hs m
  by_cases hm : fs.OneFile l m
  · rw [if_pos hm] at hput
    exact .inr ⟨hm, hm.isEnd hl, isEnd_of_file hput⟩
  · rw [if_neg hm] at hput
    exact .inl hput

theorem touched_put {l : Location} (hl : fs.IsEnd l) (content : Octets) (state : FileState) :
    Touched fs (fs.put l (.file content state)) (· = l) := by
  intro m
  have hput := entryAt?_put fs m (.file content state) hl.ne_top
  by_cases hm : l = m
  · rw [if_pos hm] at hput
    exact .inr ⟨hm.symm, hm ▸ hl, isEnd_of_file hput⟩
  · rw [if_neg hm] at hput
    exact .inl hput

theorem touched_erase {l : Location} (hl : fs.IsEnd l) : Touched fs (fs.erase l) (· = l) := by
  intro m
  have herase := entryAt?_erase fs m hl.ne_top
  by_cases hm : l = m
  · rw [if_pos hm] at herase
    exact .inr ⟨hm.symm, hm ▸ hl, isEnd_of_none herase⟩
  · rw [if_neg hm] at herase
    exact .inl herase

theorem moveEntries_cons (e : Location × Entry) (es : Table Location Entry) (workDir home : Path)
    (l goal : Location) : (moveEntries ⟨e :: es, workDir, home⟩ l goal).entries =
      if l <+: e.1 then
        (goal ++ e.1.drop l.length, e.2) :: (moveEntries ⟨es, workDir, home⟩ l goal).entries
      else if goal <+: e.1 then (moveEntries ⟨es, workDir, home⟩ l goal).entries
      else e :: (moveEntries ⟨es, workDir, home⟩ l goal).entries := by
  by_cases hl : l <+: e.1
  · simp [moveEntries, isBelow, hl]
  · by_cases hgoal : goal <+: e.1
    · simp [moveEntries, isBelow, hl, hgoal]
    · have hapart : goal.isPrefixOf e.1 = false :=
        Bool.eq_false_iff.mpr fun h => hgoal (List.isPrefixOf_iff_prefix.mp h)
      simp [moveEntries, isBelow, hl, hgoal, hapart]

theorem get?_cons (k m : Location) (e : Entry) (es : Table Location Entry) :
    Table.get? ((k, e) :: es) m = if k = m then some e else es.get? m := rfl

/-- What stood at the source and below it stands at the goal and below it, in place of what was
there. -/
theorem entryAt?_moveEntries_eq {l goal : Location} (hl : l ≠ []) (hgoal : goal ≠ [])
    (m : Location) : (fs.moveEntries l goal).entryAt? m =
      if goal <+: m then fs.entryAt? (l ++ m.drop goal.length)
      else if l <+: m then none else fs.entryAt? m := by
  by_cases hm : m = []
  · subst hm
    simp [hl, hgoal]
  rw [entryAt?_of_ne_nil hm, entryAt?_of_ne_nil hm,
    entryAt?_of_ne_nil (List.append_ne_nil_of_left_ne_nil hl _)]
  obtain ⟨entries, workDir, home⟩ := fs
  induction entries with
  | nil => split <;> [rfl; split <;> rfl]
  | cons e es ih =>
    obtain ⟨k, e⟩ := e
    simp only [get?_cons] at ih ⊢
    rw [moveEntries_cons]
    by_cases hk : l <+: k
    · obtain ⟨rest, rfl⟩ := hk
      rw [if_pos (List.prefix_append l rest), List.drop_left, get?_cons, ih]
      by_cases hbelow : goal <+: m
      · obtain ⟨tail, rfl⟩ := hbelow
        simp
      · have hne : goal ++ rest ≠ m := fun h => hbelow ⟨rest, h⟩
        rw [if_neg hne, if_neg hbelow, if_neg hbelow]
        by_cases hsource : l <+: m
        · rw [if_pos hsource, if_pos hsource]
        · have hne : l ++ rest ≠ m := fun h => hsource ⟨rest, h⟩
          rw [if_neg hsource, if_neg hsource, if_neg hne]
    · have hmoved : k ≠ l ++ m.drop goal.length := fun h => hk ⟨_, h.symm⟩
      rw [if_neg hk, if_neg hmoved]
      split
      · next hgoal =>
        have hreplaced : ¬goal <+: m → k ≠ m := fun h heq => h (heq ▸ hgoal)
        rw [ih]
        split
        · rfl
        · next hm => rw [if_neg (hreplaced hm)]
      · next hnot =>
        rw [get?_cons, ih]
        split
        · next heq =>
          subst heq
          rw [if_neg hnot, if_neg hk]
        · rfl

theorem entryAt?_moveEntries {l goal m : Location} (hl : ¬l <+: m) (hgoal : ¬goal <+: m) :
    (fs.moveEntries l goal).entryAt? m = fs.entryAt? m := by
  have hne : ∀ k : Location, ¬k <+: m → k ≠ [] := fun k hk h => hk (h ▸ List.nil_prefix)
  rw [entryAt?_moveEntries_eq (hne l hl) (hne goal hgoal), if_neg hgoal, if_neg hl]

theorem entryAt?_moveEntries_source {l goal : Location} (hl : l ≠ []) (hgoal : ¬goal <+: l) :
    (fs.moveEntries l goal).entryAt? l = none := by
  have hne : goal ≠ [] := fun h => hgoal (h ▸ List.nil_prefix)
  rw [entryAt?_moveEntries_eq hl hne, if_neg hgoal, if_pos List.prefix_rfl]

theorem entryAt?_moveEntries_goal {l goal : Location} (hl : l ≠ []) (hgoal : goal ≠ []) :
    (fs.moveEntries l goal).entryAt? goal = fs.entryAt? l := by
  rw [entryAt?_moveEntries_eq hl hgoal, if_pos List.prefix_rfl, List.drop_length, List.append_nil]

/-- The path of the lock on the file at a place. -/
def lockAt? (fs : FileSystem) (l : Location) : Option Path := (fs.stateAt l).lockedFor

theorem mayWriteAt_iff {l : Location} : fs.mayWriteAt l = true ↔
    fs.entryAt? l = none ∧ fs.mayChangeAt l = true ∨
      ∃ content state, fs.entryAt? l = some (.file content state) ∧ state.mayWrite = true := by
  unfold mayWriteAt
  cases hl : fs.entryAt? l with
  | none => simp
  | some e => cases e <;> simp

theorem mayLockAt_iff {l : Location} : fs.mayLockAt l = true ↔
    fs.entryAt? l = none ∧ fs.mayChangeAt l = true ∨
      ∃ content state, fs.entryAt? l = some (.file content state) ∧ state.lockedFor = none := by
  unfold mayLockAt
  cases hl : fs.entryAt? l with
  | none => simp
  | some e => cases e <;> simp

theorem isEnd_of_mayWriteAt {l : Location} (h : fs.mayWriteAt l = true) : fs.IsEnd l := by
  rcases mayWriteAt_iff.mp h with ⟨hnone, -⟩ | ⟨_, _, hfile, -⟩
  · exact isEnd_of_none hnone
  · exact isEnd_of_file hfile

theorem isEnd_of_mayLockAt {l : Location} (h : fs.mayLockAt l = true) : fs.IsEnd l := by
  rcases mayLockAt_iff.mp h with ⟨hnone, -⟩ | ⟨_, _, hfile, -⟩
  · exact isEnd_of_none hnone
  · exact isEnd_of_file hfile

theorem write_eq_ok_iff {content : Octets} : fs.write p content = .ok fs' ↔
    ∃ l, fs.locate p true = .ok l ∧ fs.mayWriteAt l = true ∧
      fs' = fs.putFile l content (fs.stateAt l) := by
  unfold write
  cases hl : fs.locate p true with
  | error cause => simp [failed, Except.mapError, bind, Except.bind]
  | ok l =>
    have hplace : ∀ {P : Location → Prop}, (∃ m, Except.ok l = (.ok m : Except FileCause Location) ∧
        P m) ↔ P l := by simp
    simp only [failed, Except.mapError, bind, Except.bind, hplace]
    split
    · next r hdir =>
      refine iff_of_false (by simp) fun h => ?_
      exact isDirAt_eq_false_iff.mp (isEnd_of_mayWriteAt h.1).1 r hdir
    · next t hlink => exact iff_of_false (by simp) fun h => (isEnd_of_mayWriteAt h.1).2 t hlink
    · split
      · next hmay => rw [Except.ok.injEq, and_iff_right hmay, eq_comm]
      · next hmay => exact iff_of_false (by simp) fun h => hmay h.1

theorem touched_of_write {content : Octets} (h : fs.write p content = .ok fs') :
    ∃ l, fs.locate p true = .ok l ∧ fs.mayWriteAt l = true ∧ Touched fs fs' (fs.OneFile l) ∧
      fs'.entryAt? l = some (.file content (fs.stateAt l)) := by
  obtain ⟨l, hl, hmay, rfl⟩ := write_eq_ok_iff.mp h
  have hend := isEnd_of_mayWriteAt hmay
  exact ⟨l, hl, hmay, touched_putFile hend content rfl, entryAt?_putFile_self hend.ne_top _ _⟩

theorem exists_of_move {goal : Path} (h : fs.move p goal = .ok fs') :
    ∃ l l' e, fs.locate p false = .ok l ∧ fs.locate goal false = .ok l' ∧ fs.entryAt? l = some e ∧
      (fs.OneFile l l' ∧ fs' = fs ∨ ¬l <+: l' ∧ ¬l' <+: l ∧ ¬fs.OneFile l l' ∧
        fs.mayChangeAt l = true ∧ fs.mayChangeAt l' = true ∧
        (fs.isDirAt l = false → fs.isDirAt l' = false) ∧ fs' = fs.moveEntries l l') := by
  unfold move at h
  dsimp only at h
  split at h
  · contradiction
  · contradiction
  next l l' hl hl' =>
  split at h
  · contradiction
  next e he =>
  refine ⟨l, l', e, hl, hl', he, ?_⟩
  split at h
  · next heq => exact .inl ⟨.inl heq.symm, (Except.ok.inj h).symm⟩
  next hne =>
  split at h
  · contradiction
  next hbelow =>
  split at h
  · contradiction
  next habove =>
  split at h
  · next hone => exact .inl ⟨.inr hone, (Except.ok.inj h).symm⟩
  next hone =>
  split at h
  · contradiction
  next hmay =>
  have hbelow : ¬l <+: l' := fun h => hbelow (List.isPrefixOf_iff_prefix.mpr h)
  have habove : ¬l' <+: l := fun h => habove (List.isPrefixOf_iff_prefix.mpr h)
  have hdistinct : ¬fs.OneFile l l' := not_or.mpr ⟨fun h => hne h.symm, hone⟩
  simp only [Bool.not_eq_true', Bool.not_eq_false, Bool.and_eq_true] at hmay
  refine .inr ⟨hbelow, habove, hdistinct, hmay.1, hmay.2, ?_⟩
  split at h
  · next rights _ _ =>
    split at h
    · refine ⟨fun hdir => absurd he ?_, (Except.ok.inj h).symm⟩
      exact isDirAt_eq_false_iff.mp hdir rights
    · contradiction
  · contradiction
  · contradiction
  · next hdir _ _ =>
    exact ⟨fun _ => isDirAt_eq_false_iff.mpr fun r hr => hdir r hr, (Except.ok.inj h).symm⟩

theorem locate_ne_top_of_move {goal : Path} (h : fs.move p goal = .ok fs') {l : Location}
    (hl : fs.locate p false = .ok l) (hne : l ≠ []) : fs.locate goal false ≠ .ok [] := by
  intro htop
  obtain ⟨m, m', e, hm, hm', -, hmoved⟩ := exists_of_move h
  obtain rfl := Except.ok.inj (hl.symm.trans hm)
  obtain rfl := Except.ok.inj (htop.symm.trans hm')
  rcases hmoved with ⟨hone, -⟩ | ⟨-, habove, -⟩
  · have hsole : fs.IsSole [] := rfl
    exact hne (hone.symm.eq hsole)
  · exact habove List.nil_prefix

theorem exists_of_remove (h : fs.remove p = .ok fs') :
    ∃ l e, fs.locate p false = .ok l ∧ fs.entryAt? l = some e ∧ fs.isDirAt l = false ∧
      fs.mayChangeAt l = true ∧ fs' = fs.erase l := by
  unfold remove find at h
  cases hl : fs.locate p false with
  | error cause => simp [hl, failed, Except.mapError, bind, Except.bind] at h
  | ok l =>
    cases he : fs.entryAt? l with
    | none => simp [hl, he, failed, Except.mapError, bind, Except.bind] at h
    | some e =>
      simp only [hl, he, failed, Except.mapError, bind, Except.bind] at h
      split at h
      · contradiction
      next hmay =>
      split at h
      · contradiction
      · next hdir =>
        refine ⟨l, e, rfl, he, isDirAt_eq_false_iff.mpr fun r hr => ?_, by simpa using hmay,
          (Except.ok.inj h).symm⟩
        exact hdir r (Option.some.inj (he.symm.trans hr))

theorem remove_eq {l : Location} (hl : fs.locate p false = .ok l) (hthere : fs.entryAt? l ≠ none)
    (hdir : fs.isDirAt l = false) (hmay : fs.mayChangeAt l = true) :
    fs.remove p = .ok (fs.erase l) := by
  obtain ⟨e, he⟩ := Option.ne_none_iff_exists'.mp hthere
  cases e with
  | dir rights => exact absurd he (isDirAt_eq_false_iff.mp hdir rights)
  | file | link => simp [remove, find, hl, he, hmay, failed, Except.mapError, bind, Except.bind]

theorem Walk.unfollow {n : Nat} {names : List Text} {here l : Location}
    (h : Walk fs true n names here l) (hl : fs.entryAt? l ≠ none) :
    ∃ n' ≤ n, ∃ l', Walk fs false n' names here l' ∧ fs.entryAt? l' ≠ none := by
  generalize hfollow : true = followLast at h
  induction h with
  | nil => exact ⟨0, Nat.le_refl _, _, .nil, hl⟩
  | dot hhere _ ih =>
    obtain ⟨n', hn, l', hwalk, hl'⟩ := ih hl hfollow
    exact ⟨n', hn, l', .dot hhere hwalk, hl'⟩
  | up hhere hname _ ih =>
    obtain ⟨n', hn, l', hwalk, hl'⟩ := ih hl hfollow
    exact ⟨n', hn, l', .up hhere hname hwalk, hl'⟩
  | enter hhere hname hdir _ ih =>
    obtain ⟨n', hn, l', hwalk, hl'⟩ := ih hl hfollow
    exact ⟨n', hn, l', .enter hhere hname hdir hwalk, hl'⟩
  | last hhere hname hend hnil => exact ⟨0, Nat.le_refl _, _, .last hhere hname hend hnil, hl⟩
  | lastLink => contradiction
  | @link _ m n _ rest _ _ _ _ hhere hname hlink _ htarget _ _ ih =>
    by_cases hnil : rest = []
    · exact ⟨0, Nat.zero_le _, _, .lastLink hhere hname hlink hnil, by simp [hlink]⟩
    · obtain ⟨n', hn, l', hwalk, hl'⟩ := ih hl hfollow
      exact ⟨m + n' + 1, by omega, l', .link hhere hname hlink (fun h => absurd h hnil) htarget hwalk,
        hl'⟩

theorem locate_dirName (h : Splits p above name) (hp : Usable (Path.dirName p)) {dir : Location}
    (hdir : fs.Leads above dir) : fs.locate (Path.dirName p) true = .ok dir := by
  rw [locate_eq_ok_iff, start_of_absolute fs h.isAbsolute_dirName]
  obtain ⟨n, hn, hwalk⟩ := hdir.walk
  rcases h.pathNames_dirName with hnames | ⟨hnil, hnames⟩
  · exact ⟨hp, n, hn, hnames ▸ hwalk⟩
  · rw [hnil] at hwalk
    obtain ⟨rfl, rfl⟩ := walk_nil_iff.mp hwalk
    exact ⟨hp, 0, hn, hnames ▸ .dot (passable_top fs) .nil⟩

theorem isDirectory_iff : fs.isDirectory p = true ↔
    ∃ l, fs.locate p true = .ok l ∧ fs.isDirAt l = true := by
  unfold isDirectory find isDirAt
  cases hl : fs.locate p true with
  | error => simp [bind, Except.bind]
  | ok l =>
    cases he : fs.entryAt? l with
    | none => simp [he, bind, Except.bind]
    | some e => cases e <;> simp [he, bind, Except.bind]

theorem isFile_iff : fs.isFile p = true ↔
    ∃ l content state, fs.locate p true = .ok l ∧
      fs.entryAt? l = some (.file content state) := by
  unfold isFile find
  cases hl : fs.locate p true with
  | error => simp [bind, Except.bind]
  | ok l =>
    cases he : fs.entryAt? l with
    | none => simp [he, bind, Except.bind]
    | some e => cases e <;> simp [he, bind, Except.bind]

theorem makeParents_of_leads (h : Splits p above name) (hp : Usable (Path.dirName p))
    {dir : Location} (hdir : fs.Leads above dir) : fs.makeParents p = (fs, none) := by
  have hlocate := locate_dirName h hp hdir
  have hthere : fs.isDirectory (Path.dirName p) = true :=
    isDirectory_iff.mpr ⟨dir, hlocate, hdir.isDirAt⟩
  obtain ⟨l, hl, hentry⟩ : ∃ l, fs.locate (Path.dirName p) false = .ok l ∧ fs.entryAt? l ≠ none := by
    obtain ⟨-, n, hn, hwalk⟩ := locate_eq_ok_iff.mp hlocate
    obtain ⟨rights, hentry⟩ := isDirAt_iff.mp hdir.isDirAt
    obtain ⟨n', hn', l, hwalk', hl⟩ := hwalk.unfollow (by simp [hentry])
    exact ⟨l, locate_eq_ok_iff.mpr ⟨hp, n', by omega, hwalk'⟩, hl⟩
  have hmake : fs.makeDirectory (Path.dirName p) = .error .alreadyThere := by
    obtain ⟨e, he⟩ := Option.ne_none_iff_exists'.mp hentry
    simp [makeDirectory, hl, he, bind, Except.bind]
  rw [makeParents, makeDirectories]
  simp [hmake, hthere]

theorem entryAt?_unlocked (fs : FileSystem) (p : Path) (l : Location) :
    (fs.unlocked p).entryAt? l = (fs.entryAt? l).map (Entry.unlock p) :=
  entryAt?_mapEntries fs rfl l

theorem alike_unlocked (fs : FileSystem) (p : Path) : Alike fs (fs.unlocked p) := by
  constructor
  · intro l r
    rw [entryAt?_unlocked]
    cases fs.entryAt? l with
    | none => rfl
    | some e => cases e <;> simp [Entry.unlock]
  · intro l target
    rw [entryAt?_unlocked]
    cases fs.entryAt? l with
    | none => rfl
    | some e => cases e <;> simp [Entry.unlock]

theorem find_eq_ok_iff {followLast : Bool} {l : Location} {e : Entry} :
    fs.find p followLast = .ok (l, e) ↔ fs.locate p followLast = .ok l ∧ fs.entryAt? l = some e := by
  unfold find
  cases hl : fs.locate p followLast with
  | error => simp [bind, Except.bind]
  | ok m =>
    cases he : fs.entryAt? m with
    | none =>
      refine iff_of_false (by simp [he, bind, Except.bind]) fun h => ?_
      rw [← Except.ok.inj h.1, he] at h
      exact absurd h.2 (by simp)
    | some e' =>
      simp only [he, bind, Except.bind, Except.ok.injEq, Prod.mk.injEq]
      constructor
      · rintro ⟨rfl, rfl⟩
        exact ⟨rfl, he⟩
      · rintro ⟨rfl, h⟩
        exact ⟨rfl, Option.some.inj (he.symm.trans h)⟩

theorem touched_lockFile {l : Location} (h : fs.mayLockAt l = true) (content : Octets) (p : Path) :
    Touched fs (fs.lockFile l content p) (fs.OneFile l) :=
  touched_putFile (isEnd_of_mayLockAt h) content rfl

theorem entryAt?_lockFile {l : Location} (hl : l ≠ []) (content : Octets) (p : Path)
    (m : Location) : (fs.lockFile l content p).entryAt? m = if fs.OneFile l m then
      some (.file content { fs.stateAt l with lockedFor := some p }) else fs.entryAt? m := by
  rw [lockFile, entryAt?_putFile hl]
  rfl

instance : LawfulFileLock where
  take_touches := by
    intro fs p entries h
    simp only [FileLock.take] at h
    cases hl : fs.locate p true with
    | error cause => simp [hl] at h
    | ok l =>
      simp only [hl] at h
      refine ⟨l, [], rfl, ?_⟩
      split at h
      · next content state hentry =>
        split at h
        · contradiction
        next hfree =>
        split at h
        · have hnone : state.lockedFor = none := by simpa using hfree
          exact ⟨mayLockAt_iff.mpr (.inr ⟨_, _, hentry, hnone⟩), (Except.ok.inj h).symm⟩
        · contradiction
      · contradiction
      · next hnone =>
        split at h
        · next hmay => exact ⟨mayLockAt_iff.mpr (.inl ⟨hnone, hmay⟩), (Except.ok.inj h).symm⟩
        · contradiction
  take_isOk := by
    intro fs p l hthere hlock hread hwrite
    have hl := locate_true_of_false hthere (isEnd_of_mayLockAt hlock).2
    simp only [FileLock.take, hl]
    rcases mayLockAt_iff.mp hlock with ⟨hnone, hmay⟩ | ⟨content, state, hentry, hfree⟩
    · simp [hnone, hmay, Except.isOk, Except.toBool]
    · rw [stateAt_of_file hentry] at hread hwrite
      simp [hentry, hfree, hread, hwrite, Except.isOk, Except.toBool]
  giveBack_eq := fun _ _ => rfl

section
variable [FileLock]

theorem makeParents_of_acquire (h : (fs.acquire p).2 = none) :
    ∃ fs', fs.makeParents (lockPath p) = (fs', none) := by
  unfold acquire at h
  split at h
  · contradiction
  · contradiction
  · next fs' hmake => exact ⟨fs', hmake⟩

variable [LawfulFileLock]

theorem acquire_of_makeParents (hmake : fs.makeParents (lockPath p) = (fs', none)) :
    (∃ e, fs.acquire p = (fs', some e)) ∨
      ∃ l content, fs'.locate (lockPath p) true = .ok l ∧ fs'.mayLockAt l = true ∧
        fs.acquire p = (fs'.lockFile l content (lockPath p), none) := by
  unfold acquire
  rw [hmake]
  dsimp only
  cases htake : FileLock.take fs' (lockPath p) with
  | error e => cases e <;> exact .inl ⟨_, rfl⟩
  | ok entries =>
    obtain ⟨l, content, hl, hmay, rfl⟩ := LawfulFileLock.take_touches htake
    exact .inr ⟨l, content, hl, hmay, rfl⟩

theorem touched_acquire (hmake : fs.makeParents (lockPath p) = (fs', none)) :
    fs.acquire p = (fs', (fs.acquire p).2) ∨ ∃ l, fs'.locate (lockPath p) true = .ok l ∧
      Touched fs' (fs.acquire p).1 (fs'.OneFile l) := by
  rcases acquire_of_makeParents hmake with ⟨e, h⟩ | ⟨l, content, hl, hmay, h⟩
  · exact .inl (by rw [h])
  · rw [h]
    exact .inr ⟨l, hl, touched_lockFile hmay content _⟩

theorem giveBack_eq (fs : FileSystem) (p : Path) :
    ({ fs with entries := FileLock.giveBack fs p } : FileSystem) = fs.unlocked p := by
  rw [LawfulFileLock.giveBack_eq]
  rfl

theorem release_cases (fs : FileSystem) (p : Path) :
    fs.release p = fs.unlocked (lockPath p) ∨
      ∃ l e, (fs.unlocked (lockPath p)).hasPath (lockPath p) = true ∧
        (fs.unlocked (lockPath p)).locate (lockPath p) false = .ok l ∧
        (fs.unlocked (lockPath p)).entryAt? l = some e ∧
        (fs.unlocked (lockPath p)).isDirAt l = false ∧
        fs.release p = (fs.unlocked (lockPath p)).erase l := by
  unfold release
  dsimp only
  rw [giveBack_eq]
  split
  · next hthere =>
    split
    · next fs' hremove =>
      obtain ⟨l, e, hl, he, hdir, -, rfl⟩ := exists_of_remove hremove
      exact .inr ⟨l, e, hthere, hl, he, hdir, rfl⟩
    · exact .inl rfl
  · exact .inl rfl

end

theorem workDir_makeDirectory (h : fs.makeDirectory p = .ok fs') : fs'.workDir = fs.workDir := by
  unfold makeDirectory at h
  cases hl : fs.locate p false with
  | error => simp [hl, bind, Except.bind] at h
  | ok l =>
    simp only [hl, bind, Except.bind] at h
    split at h
    · contradiction
    · split at h
      · obtain rfl := Except.ok.inj h
        rfl
      · contradiction

theorem workDir_makeDirectories (depth : Nat) (fs : FileSystem) (p : Path) :
    (makeDirectories depth fs p).1.workDir = fs.workDir := by
  induction depth generalizing fs p with
  | zero => rfl
  | succ depth ih =>
    rw [makeDirectories]
    dsimp only
    split
    · split
      · rfl
      · split
        · next fs' hmake =>
          have hparents := ih fs (Path.dirName p)
          rw [hmake] at hparents
          split
          · next hmade => exact (workDir_makeDirectory hmade).trans hparents
          · exact hparents
        · exact ih fs (Path.dirName p)
    · split
      · next hmade => exact workDir_makeDirectory hmade
      · rfl

theorem workDir_write {content : Octets} (h : fs.write p content = .ok fs') :
    fs'.workDir = fs.workDir := by
  obtain ⟨-, -, -, rfl⟩ := write_eq_ok_iff.mp h
  rfl

theorem workDir_move {goal : Path} (h : fs.move p goal = .ok fs') : fs'.workDir = fs.workDir := by
  obtain ⟨-, -, -, -, -, -, ⟨-, rfl⟩ | ⟨-, -, -, -, -, -, rfl⟩⟩ := exists_of_move h <;> rfl

theorem workDir_remove (h : fs.remove p = .ok fs') : fs'.workDir = fs.workDir := by
  obtain ⟨-, -, -, -, -, -, rfl⟩ := exists_of_remove h
  rfl

theorem workDir_acquire [FileLock] (fs : FileSystem) (p : Path) :
    (fs.acquire p).1.workDir = fs.workDir := by
  have hparents : (fs.makeParents (lockPath p)).1.workDir = fs.workDir :=
    workDir_makeDirectories _ _ _
  unfold acquire
  split
  · next hmake => rwa [hmake] at hparents
  · next hmake => rwa [hmake] at hparents
  · next hmake =>
    rw [hmake] at hparents
    split <;> exact hparents

theorem workDir_release [FileLock] (fs : FileSystem) (p : Path) :
    (fs.release p).workDir = fs.workDir := by
  unfold release
  dsimp only
  split
  · split
    · next hremove => exact (workDir_remove hremove :)
    · rfl
  · rfl

end FileSystem

end SourceEdit
