import SourceEdit.Proofs.Commit

/-!
Where a position goes when edits are applied. It stays between the same edits: those that end in front
of it or at it are made in front of the new position, and all others behind it. Only from inside of a
replaced range it goes to the end of the replacement. No two positions change places.
-/

set_option autoImplicit false

namespace SourceEdit

namespace Edit

def totalGrowth : List Edit → Int
  | [] => 0
  | e :: es => e.growth + totalGrowth es

/-- The position lies inside of the range that is replaced, and at none of its two ends. -/
def Surrounds (e : Edit) (p : Int) : Prop := e.start < p ∧ p < e.stop

instance (e : Edit) (p : Int) : Decidable (e.Surrounds p) := inferInstanceAs (Decidable (_ ∧ _))

/-- The edits that end in front of a position or at it. -/
def upTo (p : Int) (edits : List Edit) : List Edit := edits.filter fun e => e.stop ≤ p

def beyond (p : Int) (edits : List Edit) : List Edit := edits.filter fun e => p < e.stop

/-- Edits that follow each other in a part of a text, which goes from one offset to another. -/
structure InOrder (start stop : Int) (edits : List Edit) : Prop where
  within : ∀ e ∈ edits, start ≤ e.start ∧ e.start ≤ e.stop ∧ e.stop ≤ stop
  apart : edits.Pairwise fun a b => a.stop ≤ b.start

theorem inOrder_of_accepted {t : Text} {edits : List Edit}
    (h : firstMisplaced? t.length 0 edits = none) : InOrder 0 t.length edits := by
  obtain ⟨hall, hpair⟩ := (firstMisplaced?_eq_none_iff _ _ _).mp h
  exact ⟨fun e he => (hall e he).1, hpair⟩

namespace InOrder

variable {start stop : Int} {edits : List Edit}

theorem of_append {front back : List Edit} (h : InOrder start stop (front ++ back)) :
    InOrder start stop front ∧ InOrder start stop back := by
  obtain ⟨hfront, hback⟩ := List.forall_mem_append.mp h.within
  obtain ⟨hpairFront, hpairBack, -⟩ := List.pairwise_append.mp h.apart
  exact ⟨⟨hfront, hpairFront⟩, ⟨hback, hpairBack⟩⟩

theorem tail {e : Edit} {es : List Edit} (h : InOrder start stop (e :: es)) :
    InOrder e.stop stop es := by
  obtain ⟨-, hes⟩ := List.forall_mem_cons.mp h.within
  obtain ⟨hbehind, hpair⟩ := List.pairwise_cons.mp h.apart
  exact ⟨fun f hf => ⟨hbehind f hf, (hes f hf).2⟩, hpair⟩

theorem upTo_append_beyond (h : InOrder start stop edits) (p : Int) :
    upTo p edits ++ beyond p edits = edits := by
  have hparts := filter_append_filter_not (q := fun e => e.stop ≤ p) <|
    h.apart.imp_of_mem fun _ hb hab hbp => by
      have hrange := (h.within _ hb).2.1
      simp only [decide_eq_true_eq] at hbp ⊢
      omega
  simpa only [upTo, beyond, ← decide_not, Int.not_le] using hparts

end InOrder

theorem length_applyFrom {offset : Nat} {t : Text} {edits : List Edit}
    (h : InOrder offset (offset + t.length) edits) :
    ((applyFrom offset t edits).length : Int) = t.length + totalGrowth edits := by
  induction edits generalizing offset t with
  | nil => exact (Int.add_zero _).symm
  | cons e es ih =>
    obtain ⟨⟨hstart, hle, hstop⟩, -⟩ := List.forall_mem_cons.mp h.within
    have hend : (e.stop.toNat : Int) + (t.drop (e.stop.toNat - offset)).length =
        offset + t.length := by
      rw [List.length_drop]
      omega
    have hes : InOrder e.stop.toNat (e.stop.toNat + (t.drop (e.stop.toNat - offset)).length) es := by
      have htail := h.tail
      rw [hend, Int.toNat_of_nonneg (by omega)]
      exact htail
    rw [applyFrom, totalGrowth, growth]
    simp only [List.length_append, List.length_take, Int.natCast_add, ih hes]
    omega

theorem applyAll_take {t : Text} {p : Nat} (hp : p ≤ t.length) {edits : List Edit}
    (h : InOrder 0 p edits) :
    applyAll (t.take p) edits = applyFromLast (t.take p) edits ∧
      ((applyAll (t.take p) edits).length : Int) = p + totalGrowth edits := by
  have hlength : (t.take p).length = p := List.length_take_of_le hp
  constructor
  · refine take_append_applyFrom (t.take p) 0 edits (fun e he => ?_) h.apart
    rw [hlength]
    exact ⟨h.within e he, (h.within e he).1⟩
  · rw [applyAll, length_applyFrom (by rw [hlength]; simpa using h), hlength]

theorem applyFrom_drop {t : Text} {p : Nat} (hp : p ≤ t.length) {edits : List Edit}
    (h : InOrder p t.length edits) :
    applyFrom p (t.drop p) edits = (applyFromLast t edits).drop p := by
  have hwhole := take_append_applyFrom t p edits
    (fun e he => by have := h.within e he; exact ⟨⟨by omega, this.2⟩, this.1⟩) h.apart
  rw [← hwhole, List.drop_left' (List.length_take_of_le hp)]

theorem mapPosition_append {p : Int} {front : List Edit} (h : ∀ e ∈ front, e.stop ≤ p)
    (shift : Int) (back : List Edit) :
    mapPosition p shift (front ++ back) = mapPosition p (shift + totalGrowth front) back := by
  induction front generalizing shift with
  | nil => rw [List.nil_append, totalGrowth, Int.add_zero]
  | cons e es ih =>
    obtain ⟨he, hes⟩ := List.forall_mem_cons.mp h
    rw [List.cons_append, mapPosition, if_pos he, ih hes, totalGrowth, Int.add_assoc]

theorem mapPosition_in_front {p : Int} {edits : List Edit}
    (h : ∀ e ∈ edits, ¬e.stop ≤ p ∧ p ≤ e.start) (shift : Int) :
    mapPosition p shift edits = p + shift := by
  cases edits with
  | nil => rfl
  | cons e es =>
    obtain ⟨hstop, hstart⟩ := h e List.mem_cons_self
    rw [mapPosition, if_neg hstop, if_neg (Int.not_lt.mpr hstart)]

/-- The parts of the changed text on the two sides of an offset. -/
structure Splits (t : Text) (edits : List Edit) (q : Nat) (front back : Text) : Prop where
  le_length : q ≤ (applyAll t edits).length
  take_eq : (applyAll t edits).take q = front
  drop_eq : (applyAll t edits).drop q = back

theorem Splits.of_append {t : Text} {edits : List Edit} {q : Nat} {front back : Text}
    (h : applyAll t edits = front ++ back) (hq : front.length = q) : Splits t edits q front back where
  le_length := by rw [h, List.length_append]; omega
  take_eq := by rw [h, List.take_left' hq]
  drop_eq := by rw [h, List.drop_left' hq]

theorem exists_of_append {t : Text} {edits : List Edit} {front back : Text} {q : Int}
    (h : applyAll t edits = front ++ back) (hq : (front.length : Int) = q) :
    ∃ n : Nat, q = n ∧ Splits t edits n front back :=
  ⟨front.length, hq.symm, .of_append h rfl⟩

section
variable {t : Text} {edits : List Edit} (h : InOrder 0 t.length edits) {p : Nat}
include h

theorem mapPosition_between (hp : p ≤ t.length) (hfree : ∀ e ∈ edits, ¬e.Surrounds p) :
    ∃ q : Nat, mapPosition p 0 edits = q ∧
      Splits t edits q (applyFromLast (t.take p) (upTo p edits))
        ((applyFromLast t (beyond p edits)).drop p) := by
  have hparts := h.upTo_append_beyond p
  have hends : ∀ e ∈ upTo p edits, e.stop ≤ p := fun e he => by
    simpa using (List.mem_filter.mp he).2
  have hstarts : ∀ e ∈ beyond p edits, ¬e.stop ≤ p ∧ (p : Int) ≤ e.start := fun e he => by
    obtain ⟨hmem, hstop⟩ := List.mem_filter.mp he
    have := hfree e hmem
    rw [Surrounds] at this
    simp only [decide_eq_true_eq] at hstop
    omega
  generalize upTo p edits = front at hparts hends ⊢
  generalize beyond p edits = back at hparts hstarts ⊢
  subst hparts
  obtain ⟨horderFront, horderBack⟩ := h.of_append
  have hbefore : InOrder 0 p front := ⟨fun e he =>
    ⟨(horderFront.within e he).1, (horderFront.within e he).2.1, hends e he⟩, horderFront.apart⟩
  have hbehind : InOrder p t.length back := ⟨fun e he =>
    ⟨(hstarts e he).2, (horderBack.within e he).2⟩, horderBack.apart⟩
  obtain ⟨hone, hlength⟩ := applyAll_take hp hbefore
  have hsplice := applyFrom_append 0 p t front back p.zero_le hbefore.within hbefore.apart
    fun e he => ⟨(hbehind.within e he).1, (hbehind.within e he).2.1⟩
  rw [Nat.sub_zero, applyFrom_drop hp hbehind, ← applyAll, ← applyAll, hone] at hsplice
  rw [mapPosition_append hends, mapPosition_in_front hstarts, Int.zero_add]
  exact exists_of_append hsplice (hone ▸ hlength)

theorem mapPosition_surrounded {e : Edit} (he : e ∈ edits) (hsurrounds : e.Surrounds p) :
    ∃ q : Nat, mapPosition p 0 edits = q ∧ ∃ front back, edits = front ++ e :: back ∧
      Splits t edits q (applyFromLast (t.take e.start.toNat) front ++ e.text)
        ((applyFromLast t back).drop e.stop.toNat) := by
  obtain ⟨hstart, hstop⟩ := hsurrounds
  obtain ⟨front, back, rfl⟩ := List.append_of_mem he
  obtain ⟨horderFront, horderBack⟩ := h.of_append
  obtain ⟨⟨hfirst, hrange, hlast⟩, -⟩ := List.forall_mem_cons.mp horderBack.within
  have hends : ∀ f ∈ front, f.stop ≤ e.start := fun f hf =>
    (List.pairwise_append.mp h.apart).2.2 f hf e List.mem_cons_self
  have hoffset : (e.start.toNat : Int) = e.start := Int.toNat_of_nonneg hfirst
  have hbefore : InOrder 0 e.start.toNat front := ⟨fun f hf =>
    ⟨(horderFront.within f hf).1, (horderFront.within f hf).2.1, hoffset ▸ hends f hf⟩,
    horderFront.apart⟩
  have hbehind : InOrder e.stop.toNat t.length back := by
    rw [Int.toNat_of_nonneg (by omega)]
    exact horderBack.tail
  obtain ⟨hone, hlength⟩ := applyAll_take (t := t) (show e.start.toNat ≤ t.length by omega) hbefore
  have hsplice := applyFrom_append 0 e.start.toNat t front (e :: back) (Nat.zero_le _)
    hbefore.within hbefore.apart (List.forall_mem_cons.mpr
      ⟨⟨Int.le_of_eq hoffset, hrange⟩, fun f hf => by have := hbehind.within f hf; omega⟩)
  rw [Nat.sub_zero, applyFrom, List.drop_drop, Nat.sub_self, List.take_zero, List.nil_append,
    Nat.add_sub_cancel' (by omega), applyFrom_drop (by omega) hbehind, ← applyAll, ← applyAll, hone,
    ← List.append_assoc] at hsplice
  rw [mapPosition_append (fun f hf => by have := hends f hf; omega), mapPosition, if_neg (by omega),
    if_pos hstart]
  obtain ⟨q, hq, hsplits⟩ := exists_of_append hsplice (q := e.start + (0 + totalGrowth front) +
    e.text.length) (by rw [List.length_append, ← hone]; omega)
  exact ⟨q, hq, front, back, rfl, hsplits⟩

end

theorem le_mapPosition {start stop p : Int} {edits : List Edit} (h : InOrder start stop edits)
    (hp : start ≤ p) (shift : Int) : start + shift ≤ mapPosition p shift edits := by
  induction edits generalizing start shift with
  | nil => exact Int.add_le_add_right hp shift
  | cons e es ih =>
    obtain ⟨⟨hstart, hle, -⟩, -⟩ := List.forall_mem_cons.mp h.within
    rw [mapPosition]
    split
    · next hstop =>
      have := ih h.tail hstop (shift + e.growth)
      rw [growth] at this ⊢
      omega
    · split <;> omega

theorem mapPosition_mono {start stop p p' : Int} {edits : List Edit} (h : InOrder start stop edits)
    (hp : p ≤ p') (shift : Int) : mapPosition p shift edits ≤ mapPosition p' shift edits := by
  induction edits generalizing start shift with
  | nil => exact Int.add_le_add_right hp shift
  | cons e es ih =>
    obtain ⟨⟨-, hle, -⟩, -⟩ := List.forall_mem_cons.mp h.within
    rw [mapPosition, mapPosition]
    by_cases hstop' : e.stop ≤ p'
    · rw [if_pos hstop']
      by_cases hstop : e.stop ≤ p
      · rw [if_pos hstop]
        exact ih h.tail (shift + e.growth)
      · -- the range ends between the two positions, and the first one goes behind it at most
        have := le_mapPosition h.tail hstop' (shift + e.growth)
        rw [if_neg hstop]
        rw [growth] at this ⊢
        split <;> omega
    · rw [if_neg hstop', if_neg (by omega)]
      split <;> split <;> omega

theorem exists_mapPosition_eq {t : Text} {edits : List Edit} (h : InOrder 0 t.length edits) {p : Nat}
    (hp : p ≤ t.length) :
    ∃ q : Nat, mapPosition p 0 edits = q ∧ q ≤ (applyAll t edits).length := by
  by_cases hfree : ∀ e ∈ edits, ¬e.Surrounds p
  · obtain ⟨q, hq, hsplits⟩ := mapPosition_between h hp hfree
    exact ⟨q, hq, hsplits.le_length⟩
  · simp only [not_forall, not_not] at hfree
    obtain ⟨e, he, hsurrounds⟩ := hfree
    obtain ⟨q, hq, _, _, _, hsplits⟩ := mapPosition_surrounded h he hsurrounds
    exact ⟨q, hq, hsplits.le_length⟩

theorem natCast_clamp {t : Text} {p : Int} {q : Nat} (hp : p = q) (hq : q ≤ t.length) :
    (t.clamp p : Int) = p := by
  rw [hp, Text.clamp, Int.toNat_natCast, Nat.min_eq_left hq]

/-- Edits that were accepted divide the new text at the goal of a position as the position divides the
old one: in front of it the edits are made that end there or before, behind it all others. If an edit
surrounds the position, the goal is the end of its replacement. The order of positions stays, so a
selection of the document never turns around. -/
theorem text_beside_mapPosition {t : Text} {edits : List Edit}
    (haccepted : firstMisplaced? t.length 0 edits = none) :
    (∀ p : Nat, p ≤ t.length → ∃ q : Nat, mapPosition p 0 edits = q ∧
      q ≤ (applyAll t edits).length ∧
      ((∀ e ∈ edits, ¬e.Surrounds p) →
        Splits t edits q (applyFromLast (t.take p) (upTo p edits))
          ((applyFromLast t (beyond p edits)).drop p)) ∧
      ∀ e ∈ edits, e.Surrounds p → ∃ front back, edits = front ++ e :: back ∧
        Splits t edits q (applyFromLast (t.take e.start.toNat) front ++ e.text)
          ((applyFromLast t back).drop e.stop.toNat)) ∧
    (∀ p p' : Int, p ≤ p' → mapPosition p 0 edits ≤ mapPosition p' 0 edits) ∧
    ∀ (d : Document) (recorded : List Edit), d.text = t → recorded ≠ [] → sort recorded = edits →
      d.position ≤ t.length → d.anchor ≤ t.length →
      ∃ d', d.commit recorded none = .ok d' ∧
        d'.position = mapPosition d.position 0 edits ∧ d'.anchor = mapPosition d.anchor 0 edits ∧
        (d.anchor ≤ d.position → d'.anchor ≤ d'.position) ∧
        (d.position ≤ d.anchor → d'.position ≤ d'.anchor) := by
  have horder := inOrder_of_accepted haccepted
  refine ⟨fun p hp => ?_, fun p p' hpp => mapPosition_mono horder hpp 0, ?_⟩
  · obtain ⟨q, hq, hle⟩ := exists_mapPosition_eq horder hp
    refine ⟨q, hq, hle, fun hfree => ?_, fun e he hsurrounds => ?_⟩
    · obtain ⟨n, hn, hsplits⟩ := mapPosition_between horder hp hfree
      rwa [show q = n by omega]
    · obtain ⟨n, hn, front, back, hedits, hsplits⟩ := mapPosition_surrounded horder he hsurrounds
      obtain rfl : q = n := by omega
      exact ⟨front, back, hedits, hsplits⟩
  · rintro d recorded rfl hne rfl hposition hanchor
    obtain ⟨q, hq, hqle⟩ := exists_mapPosition_eq horder hposition
    obtain ⟨a, ha, hale⟩ := exists_mapPosition_eq horder hanchor
    have hfit := (fit_iff_firstMisplaced? _ _).mpr haccepted
    let d' := d.change (sort recorded) none
    have hnewPosition : (d'.position : Int) = mapPosition d.position 0 (sort recorded) :=
      natCast_clamp hq hqle
    have hnewAnchor : (d'.anchor : Int) = mapPosition d.anchor 0 (sort recorded) :=
      natCast_clamp ha hale
    refine ⟨d', Document.commit_of_fit hne hfit none, hnewPosition, hnewAnchor, fun hturn => ?_,
      fun hturn => ?_⟩
    · have := mapPosition_mono horder (Int.ofNat_le.mpr hturn) 0
      omega
    · have := mapPosition_mono horder (Int.ofNat_le.mpr hturn) 0
      omega

theorem text_beside_mapPosition_touching :
    let t := ['a', 'b', 'c', 'd', 'e', 'f']
    let edits := [.removal 0 1, .insertion 2 ['1'], .insertion 2 ['2'], ⟨2, 5, ['x', 'y']⟩]
    firstMisplaced? t.length 0 edits = none ∧ applyAll t edits = ['b', '1', '2', 'x', 'y', 'f'] ∧
      (mapPosition 2 0 edits = 3 ∧ Splits t edits 3 (applyFromLast (t.take 2) (upTo 2 edits))
        ((applyFromLast t (beyond 2 edits)).drop 2)) ∧
      mapPosition 3 0 edits = 5 ∧ ∃ front back, edits = front ++ ⟨2, 5, ['x', 'y']⟩ :: back ∧
        Splits t edits 5 (applyFromLast (t.take 2) front ++ ['x', 'y'])
          ((applyFromLast t back).drop 5) := by
  intro t edits
  have haccepted : firstMisplaced? t.length 0 edits = none := by decide
  have hbefore : mapPosition 2 0 edits = 3 := by decide
  have hinside : mapPosition 3 0 edits = 5 := by decide
  obtain ⟨hgoals, -⟩ := text_beside_mapPosition haccepted
  obtain ⟨q, hq, -, hbetween, -⟩ := hgoals 2 (by decide)
  obtain ⟨n, hn, -, -, hbehind⟩ := hgoals 3 (by decide)
  obtain rfl : q = 3 := Int.ofNat_inj.mp (hq.symm.trans hbefore)
  obtain rfl : n = 5 := Int.ofNat_inj.mp (hn.symm.trans hinside)
  exact ⟨haccepted, by decide, ⟨hbefore, hbetween (by decide)⟩, hinside,
    hbehind _ (by decide) (by decide)⟩

end Edit

end SourceEdit
