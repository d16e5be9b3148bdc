import SourceEdit.Proofs.CounterpartNames
import SourceEdit.Proofs.MadeDirectories
import SourceEdit.Proofs.RelativePaths

set_option autoImplicit false

namespace SourceEdit

namespace Path

variable {p : Path} {n : Text} {ns : List Text}

/-- The path of names one below the other. -/
def descend (p : Path) (ns : List Text) : Path := ns.foldl join p

theorem descend_nil (p : Path) : descend p [] = p := rfl

theorem descend_cons (p : Path) (n : Text) (ns : List Text) :
    descend p (n :: ns) = descend (join p n) ns := rfl

theorem descend_concat (p : Path) (ns : List Text) (n : Text) :
    descend p (ns ++ [n]) = join (descend p ns) n := List.foldl_append

theorem Name.isAbsolute_eq_false (hn : Name n) : isAbsolute n = false := by
  rw [isAbsolute, decide_eq_false_iff_not]
  intro hhead
  exact hn.clean (List.mem_of_mem_head? hhead)

theorem exists_splits_join (hp : isAbsolute p = true) (hn : Name n) : ∃ above,
    Splits (join p n) above n ∧ Text.filledFields '/' above = Text.filledFields '/' p := by
  obtain ⟨above, hjoin, habove⟩ := join_eq_append hp hn.isAbsolute_eq_false
  refine ⟨above, ⟨hjoin, isAbsolute_join hp n, hn.clean, hn.filled, hn.plain⟩, ?_⟩
  rcases habove with rfl | rfl
  · rfl
  · exact (Text.filledFields_append_seps above (by simp)).symm

theorem filledFields_join (hp : isAbsolute p = true) (hn : Name n) :
    Text.filledFields '/' (join p n) = Text.filledFields '/' p ++ [n] := by
  obtain ⟨above, hsplits, habove⟩ := exists_splits_join hp hn
  rw [hsplits.eq, Text.filledFields_append_cons, habove,
    Text.filledFields_of_not_mem hn.clean hn.filled]

theorem filledFields_descend (hp : isAbsolute p = true) (hns : ∀ n ∈ ns, Name n) :
    Text.filledFields '/' (descend p ns) = Text.filledFields '/' p ++ ns := by
  induction ns generalizing p with
  | nil => rw [descend_nil, List.append_nil]
  | cons n ns ih =>
    obtain ⟨hn, hns⟩ := List.forall_mem_cons.mp hns
    rw [descend_cons, ih (isAbsolute_join hp n) hns, filledFields_join hp hn, List.append_assoc]
    rfl

theorem descend_inj (hp : isAbsolute p = true) {ms : List Text} (hms : ∀ n ∈ ms, Name n)
    (hns : ∀ n ∈ ns, Name n) : descend p ms = descend p ns ↔ ms = ns := by
  refine ⟨fun h => ?_, congrArg _⟩
  have hfields := congrArg (Text.filledFields '/') h
  rw [filledFields_descend hp hms, filledFields_descend hp hns] at hfields
  exact List.append_cancel_left hfields

theorem join_eq_append_of_relative (p : Path) {q : Path} (hq : isAbsolute q = false) :
    join p q = join p [] ++ q := by
  have hnil : isAbsolute [] = false := rfl
  unfold join
  simp only [hq, hnil, Bool.false_eq_true, if_false]
  split <;> simp

theorem joinWith_filled (hns : ∀ n ∈ ns, Name n) (hne : ns ≠ []) :
    Text.joinWith ['/'] ns ≠ [] ∧ isAbsolute (Text.joinWith ['/'] ns) = false := by
  obtain ⟨n, ns, rfl⟩ := List.exists_cons_of_ne_nil hne
  have hn := hns n List.mem_cons_self
  obtain ⟨c, rest, rfl⟩ := List.exists_cons_of_ne_nil hn.filled
  have habsolute := hn.isAbsolute_eq_false
  cases ns with
  | nil => exact ⟨hn.filled, habsolute⟩
  | cons m ns => exact ⟨by simp [Text.joinWith], by simpa [Text.joinWith, isAbsolute] using habsolute⟩

theorem Splits.join_nil {above : Path} (h : Splits p above n) : join p [] = p ++ ['/'] := by
  have hlast : p.getLast? ≠ some '/' := by
    intro hlast
    rw [h.eq, List.getLast?_append, List.getLast?_cons, Option.some_or, Option.some.injEq,
      List.getLast?_eq_some_getLast h.filled, Option.getD_some] at hlast
    exact h.clean (hlast ▸ List.getLast_mem h.filled)
  have hfilled : p.isEmpty = false := by simp [h.eq]
  rw [join, if_neg (by decide), hfilled, Bool.false_or, if_neg (by simpa using hlast)]

theorem descend_eq_join (hp : isAbsolute p = true) (hns : ∀ n ∈ ns, Name n) (hne : ns ≠ []) :
    descend p ns = join p (Text.joinWith ['/'] ns) := by
  induction ns generalizing p with
  | nil => exact absurd rfl hne
  | cons n ns ih =>
    obtain ⟨hn, hrest⟩ := List.forall_mem_cons.mp hns
    by_cases hnil : ns = []
    · rw [hnil]
      rfl
    obtain ⟨above, hsplits, -⟩ := exists_splits_join hp hn
    rw [descend_cons, ih (isAbsolute_join hp n) hrest hnil,
      join_eq_append_of_relative _ (joinWith_filled hrest hnil).2, hsplits.join_nil,
      join_eq_append_of_relative p hn.isAbsolute_eq_false,
      join_eq_append_of_relative p (joinWith_filled hns hne).2, Text.joinWith_cons _ _ hnil]
    simp only [List.append_assoc]

theorem dropCommon_append (s t : List Text) : dropCommon s (s ++ t) = ([], t) := by
  induction s with
  | nil => cases t <;> rfl
  | cons n s ih => rw [List.cons_append, dropCommon, if_pos rfl, ih]

theorem relativeTo_descend (hp : isAbsolute p = true) (hns : ∀ n ∈ ns, Name n) (hne : ns ≠ []) :
    relativeTo p (descend p ns) = Text.joinWith ['/'] ns := by
  have hfields := filledFields_descend hp hns
  unfold Text.filledFields at hfields
  simp only [relativeTo, hfields, dropCommon_append, List.map_nil, List.nil_append]
  simp [(joinWith_filled hns hne).1]

theorem suffix_congr {q : Path} (h : baseName p = baseName q) : suffix p = suffix q := by
  rw [suffix, suffix, splitBase?, splitBase?, h]

theorem suffix_descend (hns : ∀ n ∈ ns, Name n) (hne : ns ≠ []) :
    suffix (descend p ns) = suffix (Text.joinWith ['/'] ns) := by
  obtain ⟨front, n, rfl⟩ := (List.eq_nil_or_concat ns).resolve_left hne
  rw [List.concat_eq_append] at hns ⊢
  have hn := hns n (by simp)
  refine suffix_congr ?_
  rw [descend_concat, baseName_join _ hn.clean, joinWith_concat]
  split
  · exact (baseName_eq_self hn.clean).symm
  · exact (baseName_append_slash _ hn.clean).symm

end Path

end SourceEdit
