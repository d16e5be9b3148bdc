import Mathlib.Data.List.Induction
import SourceEdit.Proofs.FileChanges

set_option autoImplicit false

namespace SourceEdit

open SourceEdit.Path (Splits)

namespace Path

/-- The top directory, or a name below such a path. -/
inductive Straight : Path → Prop where
  | top {p : Path} (h : p = ['/'] ∨ p = ['/', '/']) : Straight p
  | down {p above : Path} {name : Text} (h : Splits p above name) (hdir : Straight (dirName p)) :
      Straight p

variable {p above : Path} {name : Text}

theorem Splits.length_dirName_lt (h : Splits p above name) : (dirName p).length < p.length := by
  have hhead : (dirName p).length ≤ (above ++ ['/']).length := by
    rw [h.dirName_eq]
    split
    · exact Nat.le_refl _
    · have hparts := Text.dropEndWhile_append_takeEndWhile (above ++ ['/']) (· = '/')
      have hlength := congrArg List.length hparts
      rw [List.length_append] at hlength
      omega
  have hname := List.length_pos_iff.mpr h.filled
  have hp := congrArg List.length h.eq
  simp only [List.length_append, List.length_cons, List.length_nil] at hhead hp
  omega

theorem Splits.dirName_eq_of (h : Splits p above name) {q : Path} {other : Text}
    (hq : Splits q above other) : dirName q = dirName p := by
  rw [h.dirName_eq, hq.dirName_eq]

theorem Straight.isAbsolute (h : Straight p) : isAbsolute p = true := by
  cases h with
  | top h => rcases h with rfl | rfl <;> rfl
  | down h => exact h.absolute

theorem dropEndWhile_slash {front name : Text} (hclean : '/' ∉ name) (hfilled : name ≠ []) :
    (front ++ name ++ ['/']).dropEndWhile (· = '/') = front ++ name := by
  obtain ⟨c, rest, hname⟩ : ∃ c rest, name.reverse = c :: rest :=
    List.exists_cons_of_ne_nil (by simpa using hfilled)
  have hc : c ≠ '/' := by
    rintro rfl
    exact hclean (List.mem_reverse.mp (by simp [hname]))
  have hback : (front ++ name ++ ['/']).reverse = '/' :: c :: (rest ++ front.reverse) := by
    simp [hname]
  have hfront : front ++ name = (c :: (rest ++ front.reverse)).reverse := by
    have hrev := congrArg List.reverse hname
    rw [List.reverse_reverse] at hrev
    simp [hrev]
  rw [Text.dropEndWhile, hback, hfront]
  simp [hc]

theorem straight_joined {slashes : Path} (hslashes : slashes = ['/'] ∨ slashes = ['/', '/'])
    {ns : List Text} (hns : ∀ n ∈ ns, Name n) : Straight (slashes ++ Text.joinWith ['/'] ns) := by
  induction ns using List.reverseRecOn with
  | nil => exact .top (by simpa [Text.joinWith] using hslashes)
  | append_singleton ns name ih =>
    have hname : Name name := hns name (by simp)
    have hbefore := ih fun n hn => hns n (by simp [hn])
    rw [joinWith_concat]
    split
    · next hnil =>
      have hsplits : Splits (slashes ++ name) slashes.dropLast name := by
        refine ⟨?_, ?_, hname.clean, hname.filled, hname.plain⟩ <;>
          rcases hslashes with rfl | rfl <;> simp [Path.isAbsolute]
      refine .down hsplits (.top ?_)
      rw [hsplits.dirName_eq]
      rcases hslashes with rfl | rfl <;> simp
    · next hne =>
      have hsplits : Splits (slashes ++ (Text.joinWith ['/'] ns ++ '/' :: name))
          (slashes ++ Text.joinWith ['/'] ns) name := by
        refine ⟨by simp, ?_, hname.clean, hname.filled, hname.plain⟩
        rcases hslashes with rfl | rfl <;> simp [Path.isAbsolute]
      refine .down hsplits ?_
      obtain ⟨front, last, hlast, heq⟩ : ∃ front last, Name last ∧
          slashes ++ Text.joinWith ['/'] ns = front ++ last := by
        obtain ⟨ns, last, rfl⟩ := List.eq_nil_or_concat ns |>.resolve_left hne
        rw [List.concat_eq_append] at hns ⊢
        refine ⟨slashes ++ if ns = [] then [] else Text.joinWith ['/'] ns ++ ['/'], last,
          hns last (by simp), ?_⟩
        rw [joinWith_concat]
        split <;> simp
      have hslash : ¬(slashes ++ Text.joinWith ['/'] ns ++ ['/']).all (· = '/') = true := by
        intro hall
        obtain ⟨c, hc⟩ := List.exists_mem_of_ne_nil _ hlast.filled
        rw [heq] at hall
        have hslash := List.all_eq_true.mp hall c (by simp [hc])
        simp only [decide_eq_true_eq] at hslash
        exact hlast.clean (hslash ▸ hc)
      rw [hsplits.dirName_eq, if_neg hslash, heq, dropEndWhile_slash hlast.clean hlast.filled, ← heq]
      exact hbefore

theorem straight_normalize (h : isAbsolute p = true) : Straight (normalize p) := by
  have hslashes := leadingSlashes_of_absolute h
  have hnormal : normalize p = leadingSlashes p ++ Text.joinWith ['/'] (names p) := by
    rw [normalize]
    rcases hslashes with hs | hs <;> simp [hs]
  rw [hnormal]
  exact straight_joined hslashes (names_clean h)

theorem Straight.exists_beside (h : Straight p) : ∃ above name,
    (∀ suffix : Text, '/' ∉ suffix → 2 < suffix.length →
      Splits (p ++ suffix) above (name ++ suffix) ∧ Straight (dirName (p ++ suffix))) ∧
    (p = ['/'] ∨ p = ['/', '/'] ∨ Splits p above name) := by
  cases h with
  | @down _ above name h hdir =>
    refine ⟨above, name, fun suffix hclean hlong => ?_, .inr (.inr h)⟩
    have hbeside := h.beside hclean hlong
    exact ⟨hbeside, by rwa [h.dirName_eq_of hbeside]⟩
  | top htop =>
    refine ⟨p.dropLast, [], fun suffix hclean hlong => ?_, htop.imp_right .inl⟩
    have hfilled : suffix ≠ [] := by
      rintro rfl
      simp at hlong
    have hbeside : Splits (p ++ suffix) p.dropLast ([] ++ suffix) := by
      refine ⟨?_, ?_, hclean, hfilled, plain_of_length hlong⟩ <;>
        rcases htop with rfl | rfl <;> simp [Path.isAbsolute]
    refine ⟨hbeside, .top ?_⟩
    rw [hbeside.dirName_eq]
    rcases htop with rfl | rfl <;> simp

end Path

namespace FileSystem

open SourceEdit.Path (Straight)

variable {fs fs' : FileSystem} {p above : Path} {name : Text}

/-- All that is above this place are directories. -/
def Housed (fs : FileSystem) (l : Location) : Prop := ∀ m, m <+: l → m ≠ l → fs.isDirAt m = true

theorem housed_concat {l : Location} {name : Text} :
    fs.Housed (l ++ [name]) ↔ fs.Housed l ∧ fs.isDirAt l = true := forall_above_concat

theorem Rooted.housed {l : Location} (h : fs.Rooted l) : fs.Housed l :=
  fun m hm hne => (h m hm hne).isDirAt

/-- What is there is in directories, up to the top. -/
def IsTree (fs : FileSystem) : Prop := ∀ l, fs.entryAt? l ≠ none → fs.Housed l

theorem IsTree.none_below (h : fs.IsTree) {l m : Location} (hl : fs.isDirAt l = false)
    (hm : l <+: m) (hne : l ≠ m) : fs.entryAt? m = none := by
  by_contra hentry
  rw [h m hentry l hm hne] at hl
  contradiction

theorem isTree_iff : fs.IsTree ↔
    ∀ x ∈ fs.entries, x.1 ≠ [] → fs.isDirAt x.1.dropLast = true := by
  constructor
  · intro h x hx hne
    have hthere : fs.entryAt? x.1 ≠ none := by
      rw [entryAt?_of_ne_nil hne]
      exact Table.get?_ne_none_of_mem hx
    refine h x.1 hthere _ (List.dropLast_prefix _) fun heq => ?_
    have hlength := congrArg List.length heq
    have hpos := List.length_pos_iff.mpr hne
    rw [List.length_dropLast] at hlength
    omega
  · intro h l
    induction l using List.reverseRecOn with
    | nil => exact fun _ m hm hne => absurd (List.prefix_nil.mp hm) hne
    | append_singleton dir name ih =>
      intro hthere
      rw [entryAt?_of_ne_nil (by simp)] at hthere
      obtain ⟨e, he⟩ := Option.ne_none_iff_exists'.mp hthere
      have hdir := h _ (Table.mem_of_get? he) (by simp)
      rw [List.dropLast_concat] at hdir
      obtain ⟨rights, hentry⟩ := isDirAt_iff.mp hdir
      exact housed_concat.mpr ⟨ih (by simp [hentry]), hdir⟩

instance (fs : FileSystem) : Decidable fs.IsTree := decidable_of_iff _ isTree_iff.symm

theorem IsTree.of_alike (h : Alike fs fs') (hroot : ∀ l, fs'.entryAt? l ≠ none → fs.Housed l) :
    fs'.IsTree := fun l hl m hm hne => (h.isDirAt_eq m).trans (hroot l hl m hm hne)

/-- New directories, and all else as before. -/
structure Extended (fs fs' : FileSystem) : Prop where
  tree : fs'.IsTree
  kept : ∀ l, fs.entryAt? l ≠ none → fs'.entryAt? l = fs.entryAt? l
  fresh : ∀ l, fs.entryAt? l = none → fs'.entryAt? l = none ∨ fs'.entryAt? l = some .directory

namespace Extended

theorem refl (h : fs.IsTree) : Extended fs fs := ⟨h, fun _ _ => rfl, fun _ hl => .inl hl⟩

theorem trans {fs'' : FileSystem} (h : Extended fs fs') (h' : Extended fs' fs'') :
    Extended fs fs'' where
  tree := h'.tree
  kept := fun l hl => (h'.kept l (by rwa [h.kept l hl])).trans (h.kept l hl)
  fresh := fun l hl => by
    rcases h.fresh l hl with hnone | hdir
    · exact h'.fresh l hnone
    · exact .inr (by rw [h'.kept l (by simp [hdir]), hdir])

theorem leads (h : Extended fs fs') {dir : Location} (hdir : fs.Leads above dir) :
    fs'.Leads above dir := by
  have hkept : ∀ m e, fs.entryAt? m = some e → fs'.entryAt? m = some e := fun m e he =>
    (h.kept m (by simp [he])).trans he
  obtain ⟨n, hn, hwalk⟩ := hdir.walk
  obtain ⟨rights, hentry, hsearch⟩ := passable_iff.mp hdir.passable
  exact ⟨⟨n, hn, hwalk.transfer rooted_top (fun m r _ => hkept m _)
    (fun m _ _ hm => .inl (hkept m _ hm)) fun hend => absurd hdir.isDirAt hend.not_isDirAt⟩,
    passable_iff.mpr ⟨rights, hkept dir _ hentry, hsearch⟩⟩

theorem put_directory (h : fs.IsTree) {l : Location} (hroot : fs.Housed l)
    (hl : fs.entryAt? l = none) : Extended fs (fs.put l .directory) := by
  have hne : l ≠ [] := by
    rintro rfl
    contradiction
  have hput : ∀ m, (fs.put l .directory).entryAt? m =
      if l = m then some .directory else fs.entryAt? m := fun m => entryAt?_put fs m _ hne
  have hkept : ∀ m, fs.entryAt? m ≠ none → (fs.put l .directory).entryAt? m = fs.entryAt? m := by
    intro m hm
    rw [hput, if_neg]
    rintro rfl
    exact hm hl
  refine ⟨fun m hm a ha hne => ?_, hkept, fun m hm => ?_⟩
  · have hdir : fs.isDirAt a = true := by
      rw [hput] at hm
      split at hm
      · next heq => exact hroot a (heq ▸ ha) (heq ▸ hne)
      · exact h m hm a ha hne
    obtain ⟨rights, hentry⟩ := isDirAt_iff.mp hdir
    exact isDirAt_iff.mpr ⟨rights, (hkept a (by simp [hentry])).trans hentry⟩
  · rw [hput]
    split
    · exact .inr rfl
    · exact .inl hm

end Extended

theorem exists_directory_of_locate (h : Splits p above name) {followLast : Bool} {l : Location}
    (hl : fs.locate p followLast = .ok l) : ∃ dir, fs.Leads above dir ∧
      fs.locate (Path.dirName p) true = .ok dir ∧ fs.locate p false = .ok (dir ++ [name]) := by
  obtain ⟨hp, -, dir, hdir⟩ := leads_of_locate h hl
  have hparent := hp.of_prefix h.dirName_prefix h.dirName_ne_nil
  exact ⟨dir, hdir, locate_dirName h hparent hdir, locate_false_of_leads h hl hdir⟩

theorem exists_of_makeDirectory (h : fs.makeDirectory p = .ok fs') :
    ∃ l, fs.locate p false = .ok l ∧ fs.entryAt? l = none ∧ fs' = fs.put l .directory := by
  unfold makeDirectory at h
  cases hl : fs.locate p false with
  | error => simp [hl, bind, Except.bind] at h
  | ok l =>
    simp only [hl, bind, Except.bind] at h
    split at h
    · contradiction
    next hentry =>
    split at h
    · exact ⟨l, rfl, hentry, (Except.ok.inj h).symm⟩
    · contradiction

/-- The path leads to a directory with nothing in it. -/
def IsFresh (fs : FileSystem) (p : Path) : Prop :=
  ∃ dir, fs.locate p true = .ok dir ∧ ∀ name, fs.entryAt? (dir ++ [name]) = none

theorem made_directory (htree : fs.IsTree) (hp : Straight p) (h : fs.makeDirectory p = .ok fs') :
    Extended fs fs' ∧ fs'.IsFresh p := by
  obtain ⟨l, hl, hentry, rfl⟩ := exists_of_makeDirectory h
  have hroot : fs.Rooted l := by
    rw [locate_eq_ok_iff, start_of_absolute _ hp.isAbsolute] at hl
    obtain ⟨-, n, -, hwalk⟩ := hl
    exact hwalk.rooted rooted_top
  have hextended := Extended.put_directory htree hroot.housed hentry
  cases hp with
  | top htop =>
    have hdots : pathNames p = [['.']] := by rcases htop with rfl | rfl <;> rfl
    rw [locate_eq_ok_iff, start_of_absolute _ (Straight.top htop).isAbsolute, hdots] at hl
    obtain ⟨-, n, -, hwalk⟩ := hl
    obtain ⟨-, rfl⟩ := walk_nil_iff.mp ((walk_dot_iff (passable_top fs)).mp hwalk)
    contradiction
  | @down _ above name hsplits hdir =>
    obtain ⟨hp, hname, dir, hleads, rfl⟩ := (locate_false_iff hsplits).mp hl
    have hput : ∀ m, (fs.put (dir ++ [name]) .directory).entryAt? m =
        if dir ++ [name] = m then some .directory else fs.entryAt? m :=
      fun m => entryAt?_put fs m _ (by simp)
    have hthere := (locate_false_iff hsplits).mpr
      ⟨hp, hname, dir, hextended.leads hleads, rfl⟩
    refine ⟨hextended, dir ++ [name], locate_true_of_false hthere (by simp [hput]), fun x => ?_⟩
    rw [hput, if_neg (by simp)]
    exact htree.none_below (isEnd_of_none hentry).1 (List.prefix_append _ _) (by simp)

theorem IsFresh.isDirectory_eq_false (h : Splits p above name)
    (hfresh : fs.IsFresh (Path.dirName p)) : fs.isDirectory p = false := by
  rw [← Bool.not_eq_true, isDirectory_iff]
  rintro ⟨l, hl, hentry⟩
  obtain ⟨dir, -, hdir, hthere⟩ := exists_directory_of_locate h hl
  obtain ⟨dir', hdir', hnone⟩ := hfresh
  obtain rfl := Except.ok.inj (hdir.symm.trans hdir')
  have hplace := locate_true_of_false hthere (by simp [hnone name])
  obtain rfl := Except.ok.inj (hl.symm.trans hplace)
  exact (isEnd_of_none (hnone name)).not_isDirAt hentry

/-- What has happened when directories were made: there are new ones, and the one asked for is as it
was, or new, or not there. -/
structure Made (fs : FileSystem) (p : Path) (r : FileSystem × Option FileCause) : Prop where
  extended : Extended fs r.1
  made : r.2 = none → r.1 = fs ∨ r.1.IsFresh p
  failed : r.2 ≠ none → r.1.isDirectory p = false

theorem Made.of_error {cause : FileCause} (hextended : Extended fs fs')
    (h : fs' = fs ∨ fs'.isDirectory p = false) :
    Made fs p (fs', if fs'.isDirectory p then none else some cause) := by
  refine ⟨hextended, fun hnone => .inl ?_, fun hsome => ?_⟩
  · refine h.resolve_right fun hdir => ?_
    simp [hdir] at hnone
  · simpa using hsome

theorem made_makeDirectories {depth : Nat} (htree : fs.IsTree) (hp : Straight p)
    (hdepth : p.length < depth) : Made fs p (makeDirectories depth fs p) := by
  induction depth generalizing p with
  | zero => contradiction
  | succ depth ih =>
    rw [makeDirectories]
    dsimp only
    split
    · next hmissing =>
      cases hp with
      | top htop =>
        have hthere : fs.makeDirectory p = .error .alreadyThere := by
          rcases htop with rfl | rfl <;> rfl
        rw [hthere, Except.error.injEq] at hmissing
        exact FileCause.noConfusion hmissing
      | @down _ above name hsplits hdir =>
        have hlength := hsplits.length_dirName_lt
        have hne : Path.dirName p ≠ p := fun heq => by rw [heq] at hlength; omega
        have hparents := ih hdir (by omega)
        rw [if_neg hne]
        split
        · next fs₁ hmake =>
          rw [hmake] at hparents
          cases hlast : fs₁.makeDirectory p with
          | ok fs₂ =>
            obtain ⟨hextended, hfresh⟩ :=
              made_directory hparents.extended.tree (.down hsplits hdir) hlast
            exact ⟨hparents.extended.trans hextended, fun _ => .inr hfresh, by simp⟩
          | error cause =>
            refine .of_error hparents.extended ((hparents.made rfl).imp_right fun hfresh => ?_)
            exact hfresh.isDirectory_eq_false hsplits
        · next hmake =>
          cases hr : makeDirectories depth fs (Path.dirName p) with
          | mk fs₁ failure =>
            cases failure with
            | none => exact absurd hr (hmake fs₁)
            | some cause =>
              rw [hr] at hparents
              have hfailed := hparents.failed (by simp)
              refine ⟨hparents.extended, by simp, fun _ => ?_⟩
              rw [← Bool.not_eq_true, isDirectory_iff] at hfailed ⊢
              rintro ⟨l, hl, -⟩
              obtain ⟨dir, hleads, hdir, -⟩ := exists_directory_of_locate hsplits hl
              exact hfailed ⟨dir, hdir, hleads.isDirAt⟩
    · cases hmake : fs.makeDirectory p with
      | ok fs₁ =>
        obtain ⟨hextended, hfresh⟩ := made_directory htree hp hmake
        exact ⟨hextended, fun _ => .inr hfresh, by simp⟩
      | error cause => exact .of_error (.refl htree) (.inl rfl)

theorem made_makeParents (htree : fs.IsTree) (h : Straight (Path.dirName p))
    (hshort : (Path.dirName p).length ≤ p.length) :
    Made fs (Path.dirName p) (fs.makeParents p) :=
  made_makeDirectories htree h (Nat.lt_succ_of_le hshort)

/-- Nothing is found at the path, not even a link. -/
def Vacant (fs : FileSystem) (p : Path) : Prop :=
  ∀ l, fs.locate p false = .ok l → fs.entryAt? l = none

instance (fs : FileSystem) (p : Path) : Decidable (fs.Vacant p) :=
  inferInstanceAs (Decidable (∀ l, fs.locate p false = .ok l → _))

theorem Vacant.makeParents (htree : fs.IsTree) (h : Splits p above name)
    (hstraight : Straight (Path.dirName p)) {q : Path} {other : Text} (hq : Splits q above other)
    (hvacant : fs.Vacant q) : (fs.makeParents p).1.Vacant q := by
  have hmade := made_makeParents htree hstraight (Nat.le_of_lt h.length_dirName_lt)
  intro l hl
  obtain ⟨dir, hleads, hdir, hthere⟩ := exists_directory_of_locate hq hl
  rw [h.dirName_eq_of hq] at hdir
  obtain rfl := Except.ok.inj (hl.symm.trans hthere)
  cases hfailure : (fs.makeParents p).2 with
  | some cause =>
    have hnot := hmade.failed (by simp [hfailure])
    rw [isDirectory_iff.mpr ⟨dir, hdir, hleads.isDirAt⟩] at hnot
    contradiction
  | none =>
    rcases hmade.made hfailure with hsame | ⟨dir', hdir', hnone⟩
    · rw [hsame] at hl ⊢
      exact hvacant _ hl
    · obtain rfl := Except.ok.inj (hdir.symm.trans hdir')
      exact hnone other

end FileSystem

end SourceEdit
