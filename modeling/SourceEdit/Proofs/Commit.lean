import Mathlib.Data.List.Pairwise
import SourceEdit.Document.Basic

/-!
What the edits of a block do to a text. They are accepted exactly when they lie in the text and
stand apart, in whatever order they were recorded; then applying them together is applying them one
at a time from the last to the first.
-/

set_option autoImplicit false

namespace SourceEdit

namespace Edit

def Within (length : Nat) (e : Edit) : Prop := 0 ≤ e.start ∧ e.start ≤ e.stop ∧ e.stop ≤ length

instance (length : Nat) (e : Edit) : Decidable (e.Within length) :=
  inferInstanceAs (Decidable (_ ∧ _ ∧ _))

def Apart (a b : Edit) : Prop := a.stop ≤ b.start ∨ b.stop ≤ a.start

instance (a b : Edit) : Decidable (a.Apart b) := inferInstanceAs (Decidable (_ ∨ _))

/-- The edits lie in a text of this length, and no two of them overlap. -/
structure Fit (length : Nat) (edits : List Edit) : Prop where
  within : ∀ e ∈ edits, e.Within length
  apart : edits.Pairwise Apart

instance (length : Nat) (edits : List Edit) : Decidable (Fit length edits) :=
  decidable_of_iff ((∀ e ∈ edits, e.Within length) ∧ edits.Pairwise Apart)
    ⟨fun h => ⟨h.1, h.2⟩, fun h => ⟨h.within, h.apart⟩⟩

def apply (e : Edit) (t : Text) : Text := t.take e.start.toNat ++ e.text ++ t.drop e.stop.toNat

/-- The last edit is applied first, so it does not move the ranges of the others. -/
def applyFromLast (t : Text) (edits : List Edit) : Text := edits.reverse.foldl (fun t e => e.apply t) t

def withRange (start stop : Int) (edits : List Edit) : List Edit :=
  edits.filter fun e => e.start = start ∧ e.stop = stop

def insertionsAt (p : Int) (edits : List Edit) : List Edit := withRange p p edits

theorem le_iff {a b : Edit} :
    le a b = true ↔ a.start < b.start ∨ a.start = b.start ∧ a.stop ≤ b.stop := by
  simp [le]

theorem le_trans (a b c : Edit) (hab : le a b = true) (hbc : le b c = true) : le a c = true := by
  rw [le_iff] at *; omega

theorem le_total (a b : Edit) : (le a b || le b a) = true := by
  rw [Bool.or_eq_true, le_iff, le_iff]; omega

theorem pairwise_sort (edits : List Edit) : (sort edits).Pairwise (le · ·) :=
  List.pairwise_mergeSort le_trans le_total edits

theorem sort_perm (edits : List Edit) : (sort edits).Perm edits := List.mergeSort_perm edits le

theorem sort_of_pairwise {edits : List Edit} (h : edits.Pairwise (le · ·)) : sort edits = edits :=
  List.mergeSort_of_pairwise h

theorem withRange_sort (start stop : Int) (edits : List Edit) :
    withRange start stop (sort edits) = withRange start stop edits := by
  have hle : (withRange start stop edits).Pairwise (le · ·) := by
    refine List.pairwise_of_forall_mem_list fun a ha b hb => ?_
    simp only [withRange, List.mem_filter, decide_eq_true_eq] at ha hb
    rw [le_iff]; omega
  have hsub := List.sublist_mergeSort le_trans le_total hle List.filter_sublist
  have hfilter := hsub.filter fun e => e.start = start ∧ e.stop = stop
  rw [withRange, List.filter_filter] at hfilter
  simp only [Bool.and_self] at hfilter
  exact (hfilter.eq_of_length ((sort_perm edits).filter _).length_eq.symm).symm

theorem insertionsAt_sort (p : Int) (edits : List Edit) :
    insertionsAt p (sort edits) = insertionsAt p edits :=
  withRange_sort p p edits

theorem le_antisymm_range {a b : Edit} (hab : le a b = true) (hba : le b a = true) :
    b.start = a.start ∧ b.stop = a.stop := by
  rw [le_iff] at hab hba; omega

theorem mem_withRange {start stop : Int} {e : Edit} {edits : List Edit} :
    e ∈ withRange start stop edits ↔ e ∈ edits ∧ e.start = start ∧ e.stop = stop := by
  simp [withRange]

theorem eq_of_withRange_eq {xs ys : List Edit} (hx : xs.Pairwise (le · ·))
    (hy : ys.Pairwise (le · ·)) (h : ∀ s e, withRange s e xs = withRange s e ys) : xs = ys := by
  induction xs generalizing ys with
  | nil =>
    cases ys with
    | nil => rfl
    | cons b ys =>
      have hb : b ∈ withRange b.start b.stop [] := by rw [h, mem_withRange]; simp
      simp [mem_withRange] at hb
  | cons a xs ih =>
    have ha : a ∈ withRange a.start a.stop ys := by rw [← h, mem_withRange]; simp
    cases ys with
    | nil => simp [mem_withRange] at ha
    | cons b ys =>
      have hb : b ∈ withRange b.start b.stop (a :: xs) := by rw [h, mem_withRange]; simp
      rw [List.pairwise_cons] at hx hy
      have hab : le a b = true := by
        rcases List.mem_cons.mp (mem_withRange.mp hb).1 with rfl | hmem
        · rw [le_iff]; omega
        · exact hx.1 b hmem
      have hba : le b a = true := by
        rcases List.mem_cons.mp (mem_withRange.mp ha).1 with rfl | hmem
        · rw [le_iff]; omega
        · exact hy.1 a hmem
      obtain ⟨hstart, hstop⟩ := le_antisymm_range hab hba
      have hheads := h a.start a.stop
      simp only [withRange, List.filter_cons, hstart, hstop, and_self, decide_true, if_true,
        List.cons.injEq] at hheads
      obtain rfl := hheads.1
      congr 1
      refine ih hx.2 hy.2 fun s e => ?_
      have htails := h s e
      simp only [withRange, List.filter_cons] at htails ⊢
      split at htails
      · exact (List.cons.inj htails).2
      · exact htails

theorem Apart.symm {a b : Edit} (h : Apart a b) : Apart b a := Or.symm h

instance : Std.Symm Apart := ⟨fun _ _ => Apart.symm⟩

theorem Fit.perm {length : Nat} {xs ys : List Edit} (h : Fit length xs) (hp : xs.Perm ys) :
    Fit length ys :=
  ⟨fun e he => h.within e (hp.mem_iff.mpr he), (hp.pairwise_iff Apart.symm).mp h.apart⟩

theorem fit_single {length p q : Nat} (hpq : p ≤ q) (hq : q ≤ length) (t : Text) :
    Fit length [⟨p, q, t⟩] where
  within e he := by
    rw [List.mem_singleton.mp he]
    exact ⟨Int.natCast_nonneg p, Int.ofNat_le.mpr hpq, Int.ofNat_le.mpr hq⟩
  apart := List.pairwise_singleton _ _

theorem firstMisplaced?_eq_none_iff (length : Nat) (reached : Int) (edits : List Edit) :
    firstMisplaced? length reached edits = none ↔
      (∀ e ∈ edits, e.Within length ∧ reached ≤ e.start) ∧
        edits.Pairwise fun a b => a.stop ≤ b.start := by
  induction edits generalizing reached with
  | nil => simp [firstMisplaced?]
  | cons e es ih =>
    rw [firstMisplaced?, List.forall_mem_cons, List.pairwise_cons]
    split
    · next h =>
      simp only [reduceCtorEq, false_iff, Within]
      omega
    · next h =>
      rw [ih]
      have hw : e.Within length ∧ reached ≤ e.start := by rw [Within]; omega
      constructor
      · rintro ⟨hall, hpair⟩
        refine ⟨⟨hw, fun f hf => ⟨(hall f hf).1, ?_⟩⟩, fun f hf => (hall f hf).2, hpair⟩
        have hf := (hall f hf).2
        have he := hw.1.2.1
        omega
      · rintro ⟨⟨_, hall⟩, hbefore, hpair⟩
        exact ⟨fun f hf => ⟨(hall f hf).1, hbefore f hf⟩, hpair⟩

/-- In sorted order, edits that stand apart follow each other. Only two insertions at one offset
stand apart both ways. -/
theorem stop_le_start_of_apart {length : Nat} {a b : Edit} (hb : b.Within length)
    (hle : le a b = true) (h : Apart a b) : a.stop ≤ b.start := by
  rw [le_iff] at hle
  rw [Within] at hb
  rw [Apart] at h
  omega

theorem fit_iff_firstMisplaced? (length : Nat) (edits : List Edit) :
    Fit length edits ↔ firstMisplaced? length 0 (sort edits) = none := by
  rw [firstMisplaced?_eq_none_iff]
  constructor
  · intro h
    have hs := h.perm (sort_perm edits).symm
    refine ⟨fun e he => ⟨hs.within e he, (hs.within e he).1⟩, ?_⟩
    refine (hs.apart.and (pairwise_sort edits)).imp_of_mem fun _ hb hab => ?_
    exact stop_le_start_of_apart (hs.within _ hb) hab.2 hab.1
  · rintro ⟨hwithin, hpair⟩
    exact Fit.perm ⟨fun e he => (hwithin e he).1, hpair.imp Or.inl⟩ (sort_perm edits)

theorem mem_of_firstMisplaced? {length : Nat} {reached : Int} {edits : List Edit} {e : Edit}
    (h : firstMisplaced? length reached edits = some e) : e ∈ edits := by
  induction edits generalizing reached with
  | nil => simp [firstMisplaced?] at h
  | cons f fs ih =>
    rw [firstMisplaced?] at h
    split at h
    · rw [Option.some.inj h]; exact List.mem_cons_self
    · exact List.mem_cons_of_mem f (ih h)

theorem applyFromLast_cons (t : Text) (e : Edit) (es : List Edit) :
    applyFromLast t (e :: es) = e.apply (applyFromLast t es) := by
  simp [applyFromLast, List.foldl_append]

theorem take_append_applyFrom (t : Text) (offset : Nat) (edits : List Edit)
    (hfit : ∀ e ∈ edits, e.Within t.length ∧ offset ≤ e.start)
    (hpair : edits.Pairwise fun a b => a.stop ≤ b.start) :
    t.take offset ++ applyFrom offset (t.drop offset) edits = applyFromLast t edits := by
  induction edits generalizing offset with
  | nil => exact List.take_append_drop offset t
  | cons e es ih =>
    rw [List.forall_mem_cons] at hfit
    rw [List.pairwise_cons] at hpair
    obtain ⟨⟨⟨hstart, hle, hstop⟩, hoffset⟩, hes⟩ := hfit
    have hrest := ih e.stop.toNat
      (fun f hf => ⟨(hes f hf).1, by have := hpair.1 f hf; omega⟩) hpair.2
    have hlength : (t.take e.stop.toNat).length = e.stop.toNat := by
      rw [List.length_take]; omega
    have hahead : (applyFromLast t es).take e.start.toNat = t.take e.start.toNat := by
      rw [← hrest, List.take_append_of_le_length (by omega), List.take_take]
      congr 1; omega
    have hbehind : (applyFromLast t es).drop e.stop.toNat =
        applyFrom e.stop.toNat (t.drop e.stop.toNat) es := by
      rw [← hrest, List.drop_append_of_le_length (by omega)]
      simp
    have hjoin : t.take offset ++ (t.drop offset).take (e.start.toNat - offset) =
        t.take e.start.toNat := by
      rw [← List.take_add]; congr 1; omega
    rw [applyFromLast_cons, apply, hahead, hbehind, applyFrom, List.drop_drop]
    simp only [← List.append_assoc, hjoin]
    congr 3; omega

theorem applyAll_sort {t : Text} {edits : List Edit} (h : Fit t.length edits) :
    applyAll t (sort edits) = applyFromLast t (sort edits) := by
  have hs := (firstMisplaced?_eq_none_iff _ _ _).mp ((fit_iff_firstMisplaced? _ _).mp h)
  simpa [applyAll] using take_append_applyFrom t 0 (sort edits) hs.1 hs.2

theorem filter_append_filter_not {q : Edit → Bool} {edits : List Edit}
    (h : edits.Pairwise fun a b => q b = true → q a = true) :
    edits.filter q ++ edits.filter (fun e => !q e) = edits := by
  induction edits with
  | nil => rfl
  | cons e es ih =>
    rw [List.pairwise_cons] at h
    cases hq : q e with
    | true => simp [hq, ih h.2]
    | false =>
      have hes : ∀ f ∈ es, q f = false := fun f hf => by
        cases hf' : q f with
        | false => rfl
        | true => rw [h.1 f hf hf'] at hq; exact absurd hq (by decide)
      have hnone : es.filter q = [] := by
        rw [List.filter_eq_nil_iff]; intro f hf; simp [hes f hf]
      have hall : es.filter (fun f => !q f) = es := by
        rw [List.filter_eq_self]; intro f hf; simp [hes f hf]
      simp [hq, hnone, hall]

theorem applyFrom_of_le_start (offset p : Nat) (t : Text) (edits : List Edit) (ho : offset ≤ p)
    (hstart : ∀ e ∈ edits, p ≤ e.start ∧ e.start ≤ e.stop) :
    applyFrom offset t edits =
      t.take (p - offset) ++ applyFrom p (t.drop (p - offset)) edits := by
  cases edits with
  | nil => exact (List.take_append_drop _ t).symm
  | cons e es =>
    obtain ⟨hp, hle⟩ := hstart e List.mem_cons_self
    have htake : t.take (e.start.toNat - offset) =
        t.take (p - offset) ++ (t.drop (p - offset)).take (e.start.toNat - p) := by
      rw [← List.take_add]; congr 1; omega
    rw [applyFrom, applyFrom, htake, List.drop_drop]
    simp only [List.append_assoc]
    congr 5; omega

theorem applyFrom_append (offset p : Nat) (t : Text) (front back : List Edit) (ho : offset ≤ p)
    (hfront : ∀ e ∈ front, offset ≤ e.start ∧ e.start ≤ e.stop ∧ e.stop ≤ p)
    (hpair : front.Pairwise fun a b => a.stop ≤ b.start)
    (hback : ∀ e ∈ back, p ≤ e.start ∧ e.start ≤ e.stop) :
    applyFrom offset t (front ++ back) =
      applyFrom offset (t.take (p - offset)) front ++
        applyFrom p (t.drop (p - offset)) back := by
  induction front generalizing offset t with
  | nil => exact applyFrom_of_le_start offset p t back ho hback
  | cons e es ih =>
    rw [List.forall_mem_cons] at hfront
    rw [List.pairwise_cons] at hpair
    obtain ⟨⟨hoe, hle, hep⟩, hes⟩ := hfront
    have hrest := ih e.stop.toNat (t.drop (e.stop.toNat - offset)) (by omega)
      (fun f hf => ⟨by have := hpair.1 f hf; omega, (hes f hf).2⟩) hpair.2
    have htake : (t.take (p - offset)).take (e.start.toNat - offset) =
        t.take (e.start.toNat - offset) := by
      rw [List.take_take]; congr 1; omega
    have hdrop : (t.take (p - offset)).drop (e.stop.toNat - offset) =
        (t.drop (e.stop.toNat - offset)).take (p - e.stop.toNat) := by
      rw [List.drop_take]; congr 1; omega
    have hskip : (t.drop (e.stop.toNat - offset)).drop (p - e.stop.toNat) =
        t.drop (p - offset) := by
      rw [List.drop_drop]; congr 1; omega
    rw [List.cons_append, applyFrom, applyFrom, hrest, htake, hdrop, hskip]
    simp only [List.append_assoc]

theorem applyFrom_insertions (p : Nat) (edits : List Edit)
    (h : ∀ e ∈ edits, e.start = p ∧ e.stop = p) :
    applyFrom p [] edits = edits.flatMap (·.text) := by
  induction edits with
  | nil => rfl
  | cons e es ih =>
    rw [List.forall_mem_cons] at h
    have hp : e.stop.toNat = p := by omega
    rw [applyFrom, hp]
    simp [ih h.2]

theorem beside_insertion {edits : List Edit} (hpair : edits.Pairwise fun a b => a.stop ≤ b.start)
    {p : Int} {e i : Edit} (he : e ∈ edits) (hi : i ∈ insertionsAt p edits) :
    e.stop ≤ p ∨ p ≤ e.start := by
  obtain ⟨hi, hstart, hstop⟩ := mem_withRange.mp hi
  by_cases hei : e = i
  · subst hei; omega
  · have hapart : edits.Pairwise Apart := hpair.imp Or.inl
    have := hapart.forall he hi hei
    rwa [Apart, hstart, hstop] at this

theorem parts_at_insertions {edits : List Edit} (hle : ∀ e ∈ edits, e.start ≤ e.stop)
    (hpair : edits.Pairwise fun a b => a.stop ≤ b.start) {p : Int}
    (hp : insertionsAt p edits ≠ []) :
    (edits.filter fun e => e.start < p) ++
      (insertionsAt p edits ++ edits.filter fun e => p < e.stop) = edits := by
  obtain ⟨i, hi⟩ := List.exists_mem_of_ne_nil _ hp
  have hfront := filter_append_filter_not (q := fun e => e.start < p) <|
    hpair.imp_of_mem fun ha _ hab hb => by
      have := hle _ ha
      simp only [decide_eq_true_eq] at hb ⊢; omega
  have hback := filter_append_filter_not (q := fun e => e.stop ≤ p) <|
    (hpair.filter fun e => !decide (e.start < p)).imp_of_mem fun _ hb hab hstop => by
      have := hle _ (List.mem_filter.mp hb).1
      simp only [decide_eq_true_eq] at hstop ⊢; omega
  have hmiddle : (edits.filter fun e => !decide (e.start < p)).filter (fun e => e.stop ≤ p) =
      insertionsAt p edits := by
    rw [List.filter_filter, insertionsAt, withRange]
    refine List.filter_congr fun e he => ?_
    have := hle e he
    rw [Bool.eq_iff_iff]
    simp only [Bool.and_eq_true, Bool.not_eq_true', decide_eq_true_eq, decide_eq_false_iff_not]
    omega
  have hlast : (edits.filter fun e => !decide (e.start < p)).filter
      (fun e => !decide (e.stop ≤ p)) = edits.filter fun e => p < e.stop := by
    rw [List.filter_filter]
    refine List.filter_congr fun e he => ?_
    have := beside_insertion hpair he hi
    rw [Bool.eq_iff_iff]
    simp only [Bool.and_eq_true, Bool.not_eq_true', decide_eq_true_eq, decide_eq_false_iff_not]
    omega
  rw [← hmiddle, ← hlast, hback, hfront]

/-- Insertions at one offset appear there in the order in which they were recorded, behind what
the edits in front of it leave and before what those behind it leave. -/
theorem applyAll_at_insertions {t : Text} {edits : List Edit} (h : Fit t.length edits) {p : Nat}
    (hp : insertionsAt p edits ≠ []) :
    applyAll t (sort edits) =
      applyAll (t.take p) ((sort edits).filter fun e => e.start < p) ++
        (insertionsAt p edits).flatMap (·.text) ++
        applyFrom p (t.drop p) ((sort edits).filter fun e => (p : Int) < e.stop) := by
  obtain ⟨hall, hpair⟩ :=
    (firstMisplaced?_eq_none_iff _ _ _).mp ((fit_iff_firstMisplaced? _ _).mp h)
  rw [← insertionsAt_sort] at hp ⊢
  generalize sort edits = sorted at hall hpair hp
  obtain ⟨i, hi⟩ := List.exists_mem_of_ne_nil _ hp
  have hle : ∀ e ∈ sorted, e.start ≤ e.stop := fun e he => (hall e he).1.2.1
  have hin : ∀ e ∈ insertionsAt p sorted, e.start = p ∧ e.stop = p :=
    fun e he => (mem_withRange.mp he).2
  have hbehind : ∀ e ∈ sorted.filter fun e => (p : Int) < e.stop,
      (p : Int) ≤ e.start ∧ e.start ≤ e.stop := fun e he => by
    obtain ⟨he, hlt⟩ := List.mem_filter.mp he
    have := beside_insertion hpair he hi
    have := hle e he
    simp only [decide_eq_true_eq] at hlt
    omega
  have hfront := applyFrom_append 0 p t (sorted.filter fun e => e.start < p)
    (insertionsAt p sorted ++ sorted.filter fun e => (p : Int) < e.stop) p.zero_le
    (fun e he => by
      obtain ⟨he, hlt⟩ := List.mem_filter.mp he
      have := beside_insertion hpair he hi
      have := hle e he
      have := (hall e he).2
      simp only [decide_eq_true_eq] at hlt
      omega)
    (hpair.filter _)
    (fun e he => by
      rcases List.mem_append.mp he with he | he
      · have := hin e he; omega
      · exact hbehind e he)
  have hback := applyFrom_append p p (t.drop p) (insertionsAt p sorted)
    (sorted.filter fun e => (p : Int) < e.stop) p.le_refl
    (fun e he => by have := hin e he; omega) (hpair.filter _) hbehind
  rw [parts_at_insertions hle hpair hp, Nat.sub_zero] at hfront
  rw [Nat.sub_self, List.take_zero, List.drop_zero, applyFrom_insertions p _ hin] at hback
  rw [applyAll, hfront, hback, applyAll, List.append_assoc]

theorem withRange_length_le_one {length : Nat} {edits : List Edit} (h : Fit length edits)
    {start stop : Int} (hne : start ≠ stop) : (withRange start stop edits).length ≤ 1 := by
  have hpair := h.apart.filter fun e => e.start = start ∧ e.stop = stop
  match hr : withRange start stop edits with
  | [] => simp
  | [_] => simp
  | a :: b :: rest =>
    have ha := mem_withRange.mp (hr ▸ List.mem_cons_self : a ∈ withRange start stop edits)
    have hb := mem_withRange.mp (hr ▸ by simp : b ∈ withRange start stop edits)
    have hab : Apart a b := by
      rw [withRange] at hr
      rw [hr, List.pairwise_cons] at hpair
      exact hpair.1 b List.mem_cons_self
    have hle := (h.within a ha.1).2.1
    rw [Apart] at hab
    omega

/-- Only the order of insertions at one offset counts. -/
theorem sort_eq_of_perm {length : Nat} {xs ys : List Edit} (h : Fit length xs) (hp : ys.Perm xs)
    (hi : ∀ p, insertionsAt p ys = insertionsAt p xs) : sort ys = sort xs := by
  refine eq_of_withRange_eq (pairwise_sort ys) (pairwise_sort xs) fun start stop => ?_
  rw [withRange_sort, withRange_sort]
  by_cases hne : start = stop
  · rw [hne]; exact hi stop
  · have hfilter : (withRange start stop ys).Perm (withRange start stop xs) := hp.filter _
    have hlength := withRange_length_le_one h hne
    match hx : withRange start stop xs with
    | [] => rw [hx] at hfilter; exact hfilter.eq_nil
    | [e] => rw [hx] at hfilter; exact hfilter.eq_singleton
    | _ :: _ :: _ => rw [hx] at hlength; simp at hlength

end Edit

namespace Document

theorem commit_of_fit {d : Document} {edits : List Edit} (hne : edits ≠ [])
    (h : Edit.Fit d.text.length edits) (cursor : Option CursorRequest) :
    d.commit edits cursor = .ok (d.change (Edit.sort edits) cursor) := by
  rw [Edit.fit_iff_firstMisplaced?] at h
  cases edits with
  | nil => exact absurd rfl hne
  | cons e es => simp only [commit, h]

theorem commit_of_not_fit {d : Document} {edits : List Edit} (hne : edits ≠ [])
    (h : ¬Edit.Fit d.text.length edits) (cursor : Option CursorRequest) :
    ∃ e ∈ edits, d.commit edits cursor = .error (.misplaced e.start e.stop) := by
  rw [Edit.fit_iff_firstMisplaced?] at h
  obtain ⟨e, he⟩ := Option.ne_none_iff_exists'.mp h
  refine ⟨e, (Edit.sort_perm edits).mem_iff.mp (Edit.mem_of_firstMisplaced? he), ?_⟩
  cases edits with
  | nil => exact absurd rfl hne
  | cons _ _ => simp only [commit, he]

def recording (d : Document) (edits : List Edit) (cursor : Option CursorRequest) : Document :=
  { d with block := some ⟨1, edits, cursor⟩ }

theorem openBlock_of_closed {d : Document} (h : d.block = none) :
    d.openBlock = d.recording [] none := by
  simp [openBlock, recording, h]

theorem record_recording (d : Document) (edits : List Edit) (cursor : Option CursorRequest)
    (e : Edit) : (d.recording edits cursor).record e = d.recording (edits ++ [e]) cursor := rfl

theorem foldl_record_recording (d : Document) (recorded edits : List Edit)
    (cursor : Option CursorRequest) :
    edits.foldl record (d.recording recorded cursor) = d.recording (recorded ++ edits) cursor := by
  induction edits generalizing recorded with
  | nil => simp
  | cons e es ih => rw [List.foldl_cons, record_recording, ih, List.append_assoc]; rfl

theorem closeBlock_recording {d : Document} (h : d.block = none) (edits : List Edit)
    (cursor : Option CursorRequest) :
    (d.recording edits cursor).closeBlock false = match d.commit edits cursor with
      | .ok d' => (d', none)
      | .error e => (d, some e) := by
  have hd : { d.recording edits cursor with block := none } = d := by
    cases d; simp_all [recording]
  simp only [closeBlock, recording] at hd ⊢
  cases hcommit : d.commit edits cursor <;> simp [hd, hcommit]

theorem edit_eq_commit {d : Document} (h : d.block = none) (edits : List Edit)
    (cursor : Option CursorRequest) :
    d.edit edits cursor = match d.commit edits cursor with
      | .ok d' => (d', none)
      | .error e => (d, some e) := by
  rw [← closeBlock_recording h]
  unfold edit
  rw [openBlock_of_closed h, foldl_record_recording]
  cases cursor <;> rfl

structure Committed (d : Document) (edits : List Edit) (d' : Document) : Prop where
  text : d'.text = Edit.applyFromLast d.text (Edit.sort edits)
  insertions : ∀ p : Nat, Edit.insertionsAt p edits ≠ [] → d'.text =
    Edit.applyAll (d.text.take p) ((Edit.sort edits).filter fun e => e.start < p) ++
      (Edit.insertionsAt p edits).flatMap (·.text) ++
      Edit.applyFrom p (d.text.drop p) ((Edit.sort edits).filter fun e => (p : Int) < e.stop)
  undos : d'.undos = d.snapshot :: d.undos
  redos : d'.redos = []

theorem committed_change {d : Document} {edits : List Edit} (h : Edit.Fit d.text.length edits)
    (cursor : Option CursorRequest) : Committed d edits (d.change (Edit.sort edits) cursor) where
  text := Edit.applyAll_sort h
  insertions _ hp := Edit.applyAll_at_insertions h hp
  undos := rfl
  redos := rfl

/-- A block with edits is accepted exactly when its edits fit the text. Then the text is the one
that the edits give one by one from the last to the first, there is one more undo entry and nothing
to redo, and only insertions at one offset depend on the order of recording. A block that is not
accepted changes nothing. Either way the next block starts empty. -/
theorem edit_accepted_iff_fit {d : Document} (hclosed : d.block = none) {edits : List Edit}
    (hne : edits ≠ []) (cursor : Option CursorRequest) :
    ((d.edit edits cursor).2 = none ↔ Edit.Fit d.text.length edits) ∧
    (Edit.Fit d.text.length edits →
      Committed d edits (d.edit edits cursor).1 ∧
      ∀ others : List Edit, others.Perm edits →
        (∀ p, Edit.insertionsAt p others = Edit.insertionsAt p edits) →
        d.edit others cursor = d.edit edits cursor) ∧
    (¬Edit.Fit d.text.length edits →
      ∃ e ∈ edits, d.edit edits cursor = (d, some (.misplaced e.start e.stop))) ∧
    (d.edit edits cursor).1.openBlock.block = some ⟨1, [], none⟩ := by
  by_cases hfit : Edit.Fit d.text.length edits
  · have hedit : d.edit edits cursor = (d.change (Edit.sort edits) cursor, none) := by
      rw [edit_eq_commit hclosed, commit_of_fit hne hfit]
    rw [hedit]
    refine ⟨by simp [hfit], fun _ => ⟨committed_change hfit cursor, ?_⟩, by simp [hfit], ?_⟩
    · intro others hp hi
      have hothers : others ≠ [] := fun hnil => hne (by rw [hnil] at hp; exact hp.nil_eq.symm)
      rw [edit_eq_commit hclosed, commit_of_fit hothers (hfit.perm hp.symm),
        Edit.sort_eq_of_perm hfit hp hi]
    · rw [openBlock_of_closed (show (d.change _ _).block = none from hclosed)]; rfl
  · obtain ⟨e, he, hcommit⟩ := commit_of_not_fit hne hfit cursor
    have hedit : d.edit edits cursor = (d, some (.misplaced e.start e.stop)) := by
      rw [edit_eq_commit hclosed, hcommit]
    rw [hedit]
    refine ⟨by simp [hfit], fun h => absurd h hfit, fun _ => ⟨e, he, rfl⟩, ?_⟩
    rw [openBlock_of_closed hclosed]; rfl

theorem edit_accepted_at_borders :
    let d := new .text ['a', 'b', 'c'] none
    let edits := [Edit.insertion 1 ['x'], .removal 0 1, .insertion 1 ['y']]
    d.block = none ∧ edits ≠ [] ∧ (d.edit edits none).2 = none ∧
      (d.edit edits none).1.undos = [⟨['a', 'b', 'c'], 0, 0⟩] := by
  intro d edits
  have h := edit_accepted_iff_fit (show d.block = none from rfl) (show edits ≠ [] by decide) none
  have hfit : Edit.Fit d.text.length edits := by decide
  exact ⟨rfl, by decide, h.1.mpr hfit, (h.2.1 hfit).1.undos⟩

end Document

end SourceEdit
