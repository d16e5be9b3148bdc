import SourceEdit.Proofs.InsertedLines
import SourceEdit.Proofs.Operations

set_option autoImplicit false

namespace SourceEdit

namespace Text

/-- The lines with those from `first` to `last` changed; the first line of all is number one. -/
def onLines (f : Text → Text) (first last : Nat) (ls : List Text) : List Text :=
  ls.mapIdx fun k l => if first ≤ k + 1 ∧ k + 1 ≤ last then f l else l

variable {f : Text → Text} {mark : Text}

theorem getElem?_onLines (f : Text → Text) (first last : Nat) (ls : List Text) (k : Nat) :
    (onLines f first last ls)[k]? =
      (ls[k]?).map fun l => if first ≤ k + 1 ∧ k + 1 ≤ last then f l else l := by
  rw [onLines, List.getElem?_mapIdx]

@[simp] theorem length_onLines (f : Text → Text) (first last : Nat) (ls : List Text) :
    (onLines f first last ls).length = ls.length := by
  rw [onLines, List.length_mapIdx]

theorem onLines_of_lt {first last : Nat} (h : last < first) (ls : List Text) :
    onLines f first last ls = ls := by
  refine List.ext_getElem? fun k => ?_
  rw [getElem?_onLines]
  cases ls[k]? with
  | none => rfl
  | some l => exact congrArg some (if_neg (by omega))

theorem onLines_congr {g : Text → Text} {first last : Nat} {ls : List Text}
    (h : ∀ k l, first ≤ k + 1 → k + 1 ≤ last → ls[k]? = some l → f l = g l) :
    onLines f first last ls = onLines g first last ls := by
  refine List.ext_getElem? fun k => ?_
  rw [getElem?_onLines, getElem?_onLines]
  cases hl : ls[k]? with
  | none => rfl
  | some l =>
    simp only [Option.map_some]
    split
    · next hk => rw [h k l hk.1 hk.2 hl]
    · rfl

theorem onLines_id (first last : Nat) (ls : List Text) : onLines id first last ls = ls := by
  refine List.ext_getElem? fun k => ?_
  simp [getElem?_onLines]

theorem onLines_cons (f : Text → Text) (n : Nat) (l : Text) (ls : List Text) :
    onLines f 1 (n + 1) (l :: ls) = f l :: onLines f 1 n ls := by
  simp [onLines, List.mapIdx_cons]

theorem onLines_onLines {first middle last : Nat} (hfirst : first ≤ middle + 1)
    (hlast : middle ≤ last) (ls : List Text) :
    onLines f (middle + 1) last (onLines f first middle ls) = onLines f first last ls := by
  refine List.ext_getElem? fun k => ?_
  simp only [getElem?_onLines, Option.map_map]
  congr 1
  funext l
  simp only [Function.comp_apply]
  split <;> split <;> split <;> first | rfl | omega

theorem onLines_drop (f : Text → Text) (k n : Nat) (ls : List Text) :
    onLines f (k + 1) (k + n) ls = ls.take k ++ onLines f 1 n (ls.drop k) := by
  refine List.ext_getElem? fun j => ?_
  rw [getElem?_onLines, List.getElem?_append, List.length_take, List.getElem?_take, getElem?_onLines,
    List.getElem?_drop]
  by_cases hj : j < k
  · by_cases hlength : j < ls.length
    · rw [if_pos (by omega), if_pos hj]
      cases ls[j]? with
      | none => rfl
      | some l => exact congrArg some (if_neg (by omega))
    · rw [List.getElem?_eq_none (by omega), if_neg (by omega), List.getElem?_eq_none (by omega)]
      rfl
  · by_cases hlength : k ≤ ls.length
    · rw [if_neg (by omega), Nat.min_eq_left hlength, Nat.add_sub_cancel' (by omega)]
      congr 1
      funext l
      congr 1
      rw [eq_iff_iff]
      omega
    · rw [List.getElem?_eq_none (by omega), if_neg (by omega), List.getElem?_eq_none (by omega)]
      rfl

theorem not_mem_onLines {c : Char} (hf : ∀ l, c ∉ l → c ∉ f l) {first last : Nat} {ls : List Text}
    (h : ∀ l ∈ ls, c ∉ l) : ∀ l ∈ onLines f first last ls, c ∉ l := by
  intro l hl
  obtain ⟨k, hk⟩ := List.mem_iff_getElem?.mp hl
  rw [getElem?_onLines] at hk
  obtain ⟨l', hl', rfl⟩ := Option.map_eq_some_iff.mp hk
  have hclean := h l' (List.mem_of_getElem? hl')
  split
  · exact hf l' hclean
  · exact hclean

theorem onLines_inverse {g : Text → Text} (h : ∀ l, g (f l) = l) (first last : Nat)
    (ls : List Text) : onLines g first last (onLines f first last ls) = ls := by
  refine List.ext_getElem? fun k => ?_
  simp only [getElem?_onLines, Option.map_map]
  cases ls[k]? with
  | none => rfl
  | some l =>
    simp only [Option.map_some, Function.comp_apply]
    split
    · rw [h]
    · rfl

theorem lines_joinWith {ls : List Text} (hne : ls ≠ []) (h : ∀ l ∈ ls, '\n' ∉ l) :
    lines (joinWith ['\n'] ls) = ls := by
  induction ls with
  | nil => exact absurd rfl hne
  | cons l ls ih =>
    obtain ⟨hl, hls⟩ := List.forall_mem_cons.mp h
    cases ls with
    | nil => exact lines_of_not_mem hl
    | cons l' ls =>
      rw [joinWith_cons _ _ (List.cons_ne_nil l' ls), List.append_assoc, List.singleton_append,
        lines_append, lines_of_not_mem hl, ih (List.cons_ne_nil l' ls) hls, List.singleton_append]

theorem lines_ne_nil (t : Text) : lines t ≠ [] := fields_ne_nil '\n' t

theorem lines_inj {a b : Text} : lines a = lines b ↔ a = b := by
  refine ⟨fun h => ?_, congrArg lines⟩
  rw [← joinWith_fields '\n' a, ← joinWith_fields '\n' b]
  exact congrArg (joinWith ['\n']) h

/-- The text with the first `n` of its lines changed. -/
def changeLines (f : Text → Text) (n : Nat) (t : Text) : Text :=
  joinWith ['\n'] (onLines f 1 n (lines t))

theorem lines_changeLines (hf : ∀ l, '\n' ∉ l → '\n' ∉ f l) (n : Nat) (t : Text) :
    lines (changeLines f n t) = onLines f 1 n (lines t) := by
  refine lines_joinWith (fun hnil => ?_) (not_mem_onLines hf fun l => not_mem_of_mem_fields)
  have hlength := congrArg List.length hnil
  rw [length_onLines, List.length_nil, List.length_eq_zero_iff] at hlength
  exact lines_ne_nil t hlength

theorem changeLines_zero (f : Text → Text) (t : Text) : changeLines f 0 t = t := by
  rw [changeLines, onLines_of_lt Nat.zero_lt_one, lines, joinWith_fields]

theorem changeLines_last {l : Text} (hl : '\n' ∉ l) (n : Nat) :
    changeLines f (n + 1) l = f l := by
  rw [changeLines, lines_of_not_mem hl, onLines_cons]
  rfl

theorem changeLines_more {l : Text} (hl : '\n' ∉ l) (n : Nat) (rest : Text) :
    changeLines f (n + 1) (l ++ '\n' :: rest) = f l ++ '\n' :: changeLines f n rest := by
  have hne : onLines f 1 n (lines rest) ≠ [] := by
    rw [Ne, ← List.length_eq_zero_iff, length_onLines, List.length_eq_zero_iff]
    exact lines_ne_nil rest
  rw [changeLines, lines_append, lines_of_not_mem hl, List.singleton_append, onLines_cons,
    joinWith_cons _ _ hne, List.append_assoc, List.singleton_append, changeLines]

theorem changeLines_one (mark t : Text) : changeLines (mark ++ ·) 1 t = mark ++ t := by
  induction t using line_induction with
  | last l hl => exact changeLines_last hl 0
  | more l rest hl _ => rw [changeLines_more hl, changeLines_zero, List.append_assoc]

theorem length_changeLines (mark : Text) {n : Nat} {t : Text} (h : n ≤ t.lineCount) :
    (changeLines (mark ++ ·) n t).length = t.length + n * mark.length := by
  induction t using line_induction generalizing n with
  | last l hl =>
    rw [lineCount, List.count_eq_zero.mpr hl] at h
    cases n with
    | zero => rw [changeLines_zero, Nat.zero_mul, Nat.add_zero]
    | succ n =>
      obtain rfl : n = 0 := by omega
      rw [changeLines_last hl, List.length_append]
      omega
  | more l rest hl ih =>
    cases n with
    | zero => rw [changeLines_zero, Nat.zero_mul, Nat.add_zero]
    | succ n =>
      rw [lineCount, List.count_append, List.count_eq_zero.mpr hl, List.count_cons_self] at h
      rw [changeLines_more hl, Nat.succ_mul]
      simp only [List.length_append, List.length_cons, ih (show n ≤ rest.lineCount by
        rw [lineCount]; omega)]
      omega

theorem lines_take_append_changeLines (hf : ∀ l, '\n' ∉ l → '\n' ∉ f l) {k : Nat} {t : Text}
    (h : k ≤ t.count '\n') (n : Nat) :
    lines (t.take (afterNewlines k t) ++ changeLines f n (t.drop (afterNewlines k t))) =
      onLines f (k + 1) (k + n) (lines t) := by
  rw [(startsLine_take_afterNewlines h).lines_append, (lines_cut h).1, lines_changeLines hf,
    (lines_cut h).2, onLines_drop]

theorem changeLines_append (mark : Text) {n : Nat} {a : Text} (h : n ≤ a.lineCount) (b : Text) :
    changeLines (mark ++ ·) n (a ++ b) = changeLines (mark ++ ·) n a ++ b := by
  induction a using line_induction generalizing n with
  | last l hl =>
    rw [lineCount, List.count_eq_zero.mpr hl] at h
    cases n with
    | zero => rw [changeLines_zero, changeLines_zero]
    | succ n =>
      obtain rfl : n = 0 := by omega
      rw [changeLines_one, changeLines_one, List.append_assoc]
  | more l rest hl ih =>
    cases n with
    | zero => rw [changeLines_zero, changeLines_zero]
    | succ n =>
      rw [lineCount, List.count_append, List.count_eq_zero.mpr hl, List.count_cons_self] at h
      have hrest : n ≤ rest.lineCount := by rw [lineCount]; omega
      rw [List.append_assoc, List.cons_append, changeLines_more hl, changeLines_more hl, ih hrest]
      simp only [List.append_assoc, List.cons_append]

theorem changeLines_inverse {g : Text → Text} (hf : ∀ l, '\n' ∉ l → '\n' ∉ f l)
    (h : ∀ l, g (f l) = l) (n : Nat) (t : Text) : changeLines g n (changeLines f n t) = t := by
  rw [changeLines, lines_changeLines hf, onLines_inverse h, lines, joinWith_fields]

def lineComment (l : Text) : Text := ['/', '/'] ++ l

theorem newline_not_mem_lineComment {l : Text} (h : '\n' ∉ l) : '\n' ∉ lineComment l := by
  simpa [lineComment] using h

theorem slice_append_drop {p q : Nat} (t : Text) (h : p ≤ q) : t.slice p q ++ t.drop q = t.drop p := by
  rw [slice, List.drop_take, ← Nat.add_sub_cancel' h, ← List.drop_drop, Nat.add_sub_cancel_left,
    List.take_append_drop]

theorem afterNewlines_add (k n : Nat) (t : Text) :
    afterNewlines (k + n) t =
      afterNewlines k t + afterNewlines n (t.drop (afterNewlines k t)) := by
  induction t generalizing k with
  | nil => cases k <;> cases n <;> rfl
  | cons c rest ih =>
    cases k with
    | zero => rw [afterNewlines_zero, Nat.zero_add, Nat.zero_add, List.drop_zero]
    | succ k =>
      rw [Nat.add_right_comm, afterNewlines, afterNewlines, Nat.add_comm 1, Nat.add_comm 1,
        List.drop_succ_cons]
      split
      · rw [ih k]
        omega
      · rw [show k + n + 1 = (k + 1) + n by omega, ih (k + 1)]
        omega

theorem afterNewlines_mono (t : Text) {m n : Nat} (h : m ≤ n) :
    afterNewlines m t ≤ afterNewlines n t := by
  induction h with
  | refl => exact Nat.le_refl _
  | step _ ih => exact Nat.le_trans ih (afterNewlines_le_succ _ t)

end Text

namespace Edit

open Text (changeLines)

/-- Marks at the beginning of the first lines of a text that stands at an offset. -/
def marks (mark : Text) (offset n : Nat) (t : Text) : List Edit :=
  (List.range n).map fun k => insertion (offset + t.afterNewlines k : Nat) mark

variable {mark t : Text} {offset n : Nat}

theorem exists_of_mem_marks {e : Edit} (h : e ∈ marks mark offset n t) :
    ∃ k < n, e = insertion (offset + t.afterNewlines k : Nat) mark := by
  obtain ⟨k, hk, rfl⟩ := List.mem_map.mp h
  exact ⟨k, List.mem_range.mp hk, rfl⟩

theorem pairwise_marks (mark : Text) (offset n : Nat) (t : Text) :
    (marks mark offset n t).Pairwise fun a b => a.stop ≤ b.start := by
  refine List.Pairwise.map _ (fun j k hjk => ?_) List.pairwise_lt_range
  have hmono := t.afterNewlines_mono (Nat.le_of_lt hjk)
  simp only [insertion]
  omega

theorem applyFrom_marks (h : n ≤ t.lineCount) :
    applyFrom offset t (marks mark offset n t) = changeLines (mark ++ ·) n t := by
  induction t using Text.line_induction generalizing offset n with
  | last l hl =>
    rw [Text.lineCount, List.count_eq_zero.mpr hl] at h
    cases n with
    | zero => exact (Text.changeLines_zero _ l).symm
    | succ n =>
      obtain rfl : n = 0 := by omega
      rw [Text.changeLines_last hl]
      simp [marks, insertion, applyFrom, Text.afterNewlines_zero]
  | more l rest hl ih =>
    cases n with
    | zero => exact (Text.changeLines_zero _ _).symm
    | succ n =>
      rw [Text.lineCount, List.count_append, List.count_eq_zero.mpr hl, List.count_cons_self] at h
      have hrest : applyFrom (offset + (l.length + 1)) rest
          (marks mark (offset + (l.length + 1)) n rest) = changeLines (mark ++ ·) n rest :=
        ih (by rw [Text.lineCount]; omega)
      have hmarks : marks mark offset (n + 1) (l ++ '\n' :: rest) =
          insertion offset mark :: marks mark (offset + (l.length + 1)) n rest := by
        rw [marks, List.range_succ_eq_map, List.map_cons, List.map_map, Text.afterNewlines_zero,
          Nat.add_zero, marks]
        congr 2
        funext k
        rw [Function.comp_apply, Text.afterNewlines_append hl, ← Nat.add_assoc]
      have hbelow : ∀ e ∈ marks mark (offset + (l.length + 1)) n rest,
          ((offset + (l.length + 1) : Nat) : Int) ≤ e.start ∧ e.start ≤ e.stop := by
        intro e he
        obtain ⟨k, -, rfl⟩ := exists_of_mem_marks he
        simp only [insertion]
        omega
      have htake : (l ++ '\n' :: rest).take (l.length + 1) = l ++ ['\n'] := by
        rw [← List.singleton_append, ← List.append_assoc]
        exact List.take_left' (by simp)
      have hdrop : (l ++ '\n' :: rest).drop (l.length + 1) = rest := by
        rw [← List.singleton_append, ← List.append_assoc]
        exact List.drop_left' (by simp)
      rw [hmarks, Text.changeLines_more hl, applyFrom]
      simp only [insertion, Int.toNat_natCast, Nat.sub_self, List.take_zero, List.drop_zero,
        List.nil_append]
      rw [applyFrom_of_le_start offset (offset + (l.length + 1)) _ _ (by omega) hbelow,
        Nat.add_sub_cancel_left, htake, hdrop, hrest]
      simp

theorem sort_marks (mark : Text) (offset n : Nat) (t : Text) :
    sort (marks mark offset n t) = marks mark offset n t := by
  refine sort_of_pairwise ((pairwise_marks mark offset n t).imp_of_mem fun ha hb hab => ?_)
  obtain ⟨j, -, rfl⟩ := exists_of_mem_marks ha
  obtain ⟨k, -, rfl⟩ := exists_of_mem_marks hb
  simp only [insertion] at hab
  rw [le_iff]
  simp only [insertion]
  omega

theorem fit_marks (h : offset ≤ t.length) : Fit t.length (marks mark offset n (t.drop offset)) := by
  refine fit_insertions fun e he => ?_
  obtain ⟨k, -, rfl⟩ := exists_of_mem_marks he
  have hk := Text.afterNewlines_le k (t.drop offset)
  rw [List.length_drop] at hk
  exact ⟨offset + Text.afterNewlines k (t.drop offset), mark, by omega, rfl⟩

theorem applyAll_marks {stop : Nat} (hle : offset ≤ stop)
    (hn : n ≤ (t.slice offset stop).lineCount) :
    applyAll t (sort (marks mark offset n (t.drop offset))) =
      t.take offset ++ (changeLines (mark ++ ·) n (t.slice offset stop) ++ t.drop stop) := by
  have hcut := t.slice_append_drop hle
  have hcount : n ≤ Text.lineCount (t.drop offset) := by
    refine Nat.le_trans hn (Nat.add_le_add_right ?_ 1)
    rw [← hcut, List.count_append]
    exact Nat.le_add_right _ _
  have hbehind : ∀ e ∈ marks mark offset n (t.drop offset),
      (offset : Int) ≤ e.start ∧ e.start ≤ e.stop := by
    intro e he
    obtain ⟨k, -, rfl⟩ := exists_of_mem_marks he
    simp only [insertion]
    omega
  rw [sort_marks, applyAll, applyFrom_of_le_start 0 offset _ _ (Nat.zero_le _) hbehind, Nat.sub_zero,
    applyFrom_marks hcount, ← Text.changeLines_append mark hn, hcut]

end Edit

end SourceEdit
