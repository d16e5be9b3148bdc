import Mathlib.Data.List.TakeWhile
import SourceEdit.Proofs.CommentScan
import SourceEdit.Proofs.PathWalk

set_option autoImplicit false

namespace SourceEdit

namespace Text

def filledFields (sep : Char) (t : Text) : List Text := (fields sep t).filter (!·.isEmpty)

theorem filledFields_append_cons (sep : Char) (a b : Text) :
    filledFields sep (a ++ sep :: b) = filledFields sep a ++ filledFields sep b := by
  rw [filledFields, fields_append_cons, List.filter_append]
  rfl

theorem filledFields_of_not_mem {sep : Char} {t : Text} (h : sep ∉ t) (ht : t ≠ []) :
    filledFields sep t = [t] := by
  rw [filledFields, fields_of_not_mem h]
  simp [ht]

theorem filledFields_append_seps {sep : Char} (a : Text) {b : Text} (hb : ∀ c ∈ b, c = sep) :
    filledFields sep (a ++ b) = filledFields sep a := by
  have hseps : ∀ t : Text, (∀ c ∈ t, c = sep) → filledFields sep t = [] := by
    intro t
    induction t with
    | nil => exact fun _ => rfl
    | cons c rest ih =>
      intro h
      rw [h c List.mem_cons_self]
      exact (filledFields_append_cons sep [] rest).trans (ih fun d hd => h d (.tail _ hd))
  cases b with
  | nil => rw [List.append_nil]
  | cons c rest =>
    rw [hb c List.mem_cons_self, filledFields_append_cons, hseps rest fun d hd => hb d (.tail _ hd),
      List.append_nil]

theorem mem_takeEndWhile_imp {t : Text} {p : Char → Bool} {c : Char} (h : c ∈ t.takeEndWhile p) :
    p c = true := by
  rw [takeEndWhile, List.mem_reverse] at h
  exact List.mem_takeWhile_imp h

theorem getLast?_dropEndWhile {t : Text} {p : Char → Bool} {c : Char}
    (h : (t.dropEndWhile p).getLast? = some c) : p c = false := by
  rw [dropEndWhile, List.getLast?_reverse] at h
  have hnot := List.head?_dropWhile_not p t.reverse
  rw [h] at hnot
  exact hnot

theorem takeEndWhile_append_cons (front : Text) {p : Char → Bool} {k : Char} {t : Text}
    (hk : p k = false) (ht : ∀ c ∈ t, p c = true) :
    (front ++ k :: t).takeEndWhile p = t := by
  have hback : (front ++ k :: t).reverse = t.reverse ++ k :: front.reverse := by simp
  rw [takeEndWhile, hback, List.takeWhile_append_of_pos (by simpa using ht)]
  simp [hk]

theorem dropEndWhile_append_cons (front : Text) {p : Char → Bool} {k : Char} {t : Text}
    (hk : p k = false) (ht : ∀ c ∈ t, p c = true) :
    (front ++ k :: t).dropEndWhile p = front ++ [k] := by
  have hwhole := dropEndWhile_append_takeEndWhile (front ++ k :: t) p
  rw [takeEndWhile_append_cons front hk ht] at hwhole
  exact List.append_cancel_right (hwhole.trans (List.append_cons front k t))

theorem forall_ne_of_not_mem {k : Char} {t : Text} (h : k ∉ t) :
    ∀ c ∈ t, decide (c ≠ k) = true := by
  intro c hc
  rw [decide_eq_true_eq]
  rintro rfl
  exact h hc

theorem exists_last_of_mem {k : Char} {t : Text} (h : k ∈ t) :
    ∃ a b, t = a ++ k :: b ∧ k ∉ b := by
  obtain ⟨back, front, hrev, hback⟩ := List.eq_append_cons_of_mem (List.mem_reverse.mpr h)
  refine ⟨front.reverse, back.reverse, ?_, fun hmem => hback (List.mem_reverse.mp hmem)⟩
  simpa using congrArg List.reverse hrev

theorem last_split_unique {k : Char} {a b s t : Text} (hs : k ∉ s) (ht : k ∉ t)
    (h : a ++ k :: s = b ++ k :: t) : a = b ∧ s = t := by
  have hk : decide (k ≠ k) = false := by simp
  have hfront := dropEndWhile_append_cons a hk (forall_ne_of_not_mem hs)
  rw [h, dropEndWhile_append_cons b hk (forall_ne_of_not_mem ht)] at hfront
  obtain rfl := (List.append_cancel_right hfront).symm
  exact ⟨rfl, (List.cons.inj (List.append_cancel_left h)).2⟩

end Text

namespace FileSystem

theorem pathNames_eq (p : Path) : pathNames p =
    Text.filledFields '/' p ++ if p.getLast? = some '/' then [['.']] else [] := by
  rw [pathNames]
  split
  · rfl
  · exact (List.append_nil _).symm

theorem mem_pathNames {p : Path} {name : Text} (h : name ∈ pathNames p) :
    name ≠ [] ∧ '/' ∉ name := by
  rw [pathNames_eq, List.mem_append] at h
  rcases h with h | h
  · rw [Text.filledFields, List.mem_filter] at h
    exact ⟨by simpa using h.2, Text.not_mem_of_mem_fields h.1⟩
  · split at h
    · rw [List.mem_singleton] at h
      rw [h]
      decide
    · contradiction

end FileSystem

namespace Path

open FileSystem (Plain)

theorem baseName_append (a : Path) {b : Path} (h : '/' ∉ b) :
    baseName (a ++ b) = baseName a ++ b := by
  have hb := Text.forall_ne_of_not_mem (mt List.mem_reverse.mp h)
  rw [baseName, baseName, Text.takeEndWhile, List.reverse_append,
    List.takeWhile_append_of_pos hb, List.reverse_append, List.reverse_reverse]
  rfl

theorem baseName_append_slash (a : Path) {b : Path} (h : '/' ∉ b) :
    baseName (a ++ '/' :: b) = b :=
  Text.takeEndWhile_append_cons a (by decide) (Text.forall_ne_of_not_mem h)

/-- An absolute path with a name at its end. -/
structure Splits (p above : Path) (name : Text) : Prop where
  eq : p = above ++ '/' :: name
  absolute : isAbsolute p = true
  clean : '/' ∉ name
  filled : name ≠ []
  plain : Plain name

variable {p above : Path} {name : Text}

theorem Splits.pathNames (h : Splits p above name) :
    FileSystem.pathNames p = Text.filledFields '/' above ++ [name] := by
  have hlast : p.getLast? ≠ some '/' := by
    intro hlast
    rw [h.eq, List.getLast?_append, List.getLast?_cons, Option.some_or, Option.some.injEq,
      List.getLast?_eq_some_getLast h.filled, Option.getD_some] at hlast
    exact h.clean (hlast ▸ List.getLast_mem h.filled)
  rw [FileSystem.pathNames_eq, if_neg hlast, List.append_nil, h.eq, Text.filledFields_append_cons,
    Text.filledFields_of_not_mem h.clean h.filled]

theorem plain_of_length {name : Text} (h : 2 < name.length) : Plain name := by
  refine ⟨?_, ?_⟩
  · rintro rfl
    simp at h
  · rw [isParent, decide_eq_false_iff_not]
    rintro rfl
    simp at h

theorem Splits.beside (h : Splits p above name) {suffix : Text} (hclean : '/' ∉ suffix)
    (hlong : 2 < suffix.length) : Splits (p ++ suffix) above (name ++ suffix) where
  eq := by rw [h.eq, List.append_assoc, List.cons_append]
  absolute := by
    have habsolute := h.absolute
    rw [isAbsolute, decide_eq_true_eq] at habsolute ⊢
    rw [List.head?_append, habsolute]
    rfl
  clean := by simpa using ⟨h.clean, hclean⟩
  filled := List.append_ne_nil_of_left_ne_nil h.filled suffix
  plain := plain_of_length (by rw [List.length_append]; omega)

theorem Splits.head_dirName (h : Splits p above name) :
    p.dropEndWhile (· ≠ '/') = above ++ ['/'] := by
  rw [h.eq]
  exact Text.dropEndWhile_append_cons above (by decide) (Text.forall_ne_of_not_mem h.clean)

theorem Splits.dirName_eq (h : Splits p above name) : dirName p =
    if (above ++ ['/']).all (· = '/') then above ++ ['/']
    else (above ++ ['/']).dropEndWhile (· = '/') := by
  rw [← h.head_dirName]
  rfl

theorem Splits.dirName_prefix (h : Splits p above name) : dirName p <+: p := by
  have hhead : above ++ ['/'] <+: p := by
    rw [h.eq]
    exact ⟨name, by simp⟩
  rw [h.dirName_eq]
  split
  · exact hhead
  · exact List.IsPrefix.trans ⟨_, Text.dropEndWhile_append_takeEndWhile _ _⟩ hhead

theorem Splits.filledFields_dirName (h : Splits p above name) :
    Text.filledFields '/' (dirName p) = Text.filledFields '/' above := by
  have habove : Text.filledFields '/' (above ++ ['/']) = Text.filledFields '/' above :=
    Text.filledFields_append_seps above (by simp)
  rw [← habove, h.dirName_eq]
  split
  · rfl
  · have hslashes : ∀ c ∈ (above ++ ['/']).takeEndWhile (· = '/'), c = '/' := by
      intro c hc
      simpa using Text.mem_takeEndWhile_imp hc
    rw [← Text.filledFields_append_seps _ hslashes, Text.dropEndWhile_append_takeEndWhile]

theorem Splits.pathNames_dirName (h : Splits p above name) :
    FileSystem.pathNames (dirName p) = Text.filledFields '/' above ∨
      Text.filledFields '/' above = [] ∧ FileSystem.pathNames (dirName p) = [['.']] := by
  rw [FileSystem.pathNames_eq, h.filledFields_dirName]
  by_cases hslashes : (above ++ ['/']).all (· = '/') = true
  · right
    have hnone : Text.filledFields '/' above = [] := by
      refine (Text.filledFields_append_seps [] (b := above) fun c hc => ?_)
      have := List.all_eq_true.mp hslashes c (List.mem_append_left _ hc)
      simpa using this
    rw [hnone, h.dirName_eq, if_pos hslashes, List.getLast?_concat]
    exact ⟨rfl, rfl⟩
  · left
    rw [h.dirName_eq, if_neg hslashes, if_neg, List.append_nil]
    intro hlast
    have := Text.getLast?_dropEndWhile hlast
    simp at this

theorem Splits.dirName_ne_nil (h : Splits p above name) : dirName p ≠ [] := by
  rw [h.dirName_eq]
  split
  · simp
  · next hslashes =>
    intro hnil
    have hall := Text.dropEndWhile_append_takeEndWhile (above ++ ['/']) (· = '/')
    rw [hnil, List.nil_append] at hall
    refine hslashes (List.all_eq_true.mpr fun c hc => ?_)
    rw [← hall] at hc
    exact Text.mem_takeEndWhile_imp hc

theorem Splits.isAbsolute_dirName (h : Splits p above name) : isAbsolute (dirName p) = true := by
  obtain ⟨rest, hrest⟩ := h.dirName_prefix
  have habsolute := h.absolute
  rw [isAbsolute, decide_eq_true_eq] at habsolute ⊢
  cases hdir : dirName p with
  | nil => exact absurd hdir h.dirName_ne_nil
  | cons c t =>
    rw [← hrest, hdir] at habsolute
    exact habsolute

/-- A name as it stands in a path without empty, current and parent components. -/
structure Name (name : Text) : Prop where
  filled : name ≠ []
  clean : '/' ∉ name
  plain : Plain name

theorem forall_pushName {ns : List Text} {name : Text} (hns : ∀ n ∈ ns, Name n)
    (hname : '/' ∉ name) : ∀ n ∈ pushName true ns name, Name n := by
  unfold pushName
  split
  · exact hns
  · next hfilled =>
    rw [not_or] at hfilled
    split
    · next hplain =>
      rw [Bool.not_eq_true'] at hplain
      intro n hn
      rcases List.mem_cons.mp hn with rfl | hn
      · exact ⟨hfilled.1, hname, hfilled.2, hplain⟩
      · exact hns n hn
    · cases ns with
      | nil => simp
      | cons last before =>
        have hlast := (hns last List.mem_cons_self).plain.notParent
        simp only [hlast, Bool.false_eq_true, if_false]
        exact fun n hn => hns n (.tail _ hn)

theorem names_clean (h : isAbsolute p = true) : ∀ n ∈ names p, Name n := by
  have hfold : ∀ fs ns : List Text, (∀ f ∈ fs, '/' ∉ f) → (∀ n ∈ ns, Name n) →
      ∀ n ∈ fs.foldl (pushName true) ns, Name n := by
    intro fs
    induction fs with
    | nil => exact fun _ _ hns => hns
    | cons f fs ih =>
      intro ns hfs hns
      exact ih _ (fun g hg => hfs g (.tail _ hg)) (forall_pushName hns (hfs f List.mem_cons_self))
  intro n hn
  rw [names, h, List.mem_reverse] at hn
  exact hfold _ [] (fun _ => Text.not_mem_of_mem_fields) (by simp) n hn

theorem leadingSlashes_of_absolute (h : isAbsolute p = true) :
    leadingSlashes p = ['/'] ∨ leadingSlashes p = ['/', '/'] := by
  rw [isAbsolute, decide_eq_true_eq] at h
  cases p with
  | nil => contradiction
  | cons c rest =>
    obtain rfl := Option.some.inj h
    unfold leadingSlashes
    split <;> simp_all

theorem joinWith_concat (ns : List Text) (name : Text) :
    Text.joinWith ['/'] (ns ++ [name]) =
      if ns = [] then name else Text.joinWith ['/'] ns ++ '/' :: name := by
  split
  · next hns => rw [hns]; rfl
  · next hns =>
    rw [Text.joinWith_append _ hns (List.cons_ne_nil name []), List.append_assoc]
    rfl

theorem normalize_cases (h : isAbsolute p = true) :
    names p = [] ∧ (normalize p = ['/'] ∨ normalize p = ['/', '/']) ∨
      ∃ above name, Splits (normalize p) above name := by
  have hslashes := leadingSlashes_of_absolute h
  have hnormal : normalize p = leadingSlashes p ++ Text.joinWith ['/'] (names p) := by
    rw [normalize]
    rcases hslashes with hs | hs <;> simp [hs]
  rw [hnormal]
  rcases List.eq_nil_or_concat (names p) with hnames | ⟨ns, name, hnames⟩
  · left
    rw [hnames]
    simpa [Text.joinWith] using hslashes
  · right
    rw [List.concat_eq_append] at hnames
    have hname : Name name := names_clean h name (by simp [hnames])
    rw [hnames, joinWith_concat]
    split
    · refine ⟨(leadingSlashes p).dropLast, name, ?_, ?_, hname.clean, hname.filled, hname.plain⟩ <;>
        rcases hslashes with hs | hs <;> simp [hs, isAbsolute]
    · refine ⟨leadingSlashes p ++ Text.joinWith ['/'] ns, name, by simp, ?_, hname.clean,
        hname.filled, hname.plain⟩
      rcases hslashes with hs | hs <;> simp [hs, isAbsolute]

theorem isAbsolute_join {workDir : Path} (h : isAbsolute workDir = true) (q : Path) :
    isAbsolute (join workDir q) = true := by
  rw [join]
  split
  · assumption
  · rw [isAbsolute, decide_eq_true_eq] at h ⊢
    split <;> rw [List.head?_append, h] <;> rfl

theorem absolute_eq_normalize {workDir : Path} (h : isAbsolute workDir = true) (p : Path) :
    ∃ q, isAbsolute q = true ∧ absolute workDir p = normalize q := by
  rw [absolute]
  split
  · next hp => exact ⟨p, hp, rfl⟩
  · exact ⟨_, isAbsolute_join h p, rfl⟩

end Path

end SourceEdit
