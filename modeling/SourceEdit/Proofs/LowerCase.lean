import Mathlib.Data.List.Basic
import SourceEdit.Text.Case

set_option autoImplicit false

namespace SourceEdit.Text

theorem lowerRuns_bounds : ∀ r ∈ lowerRuns,
    r.last < 128 ∨ 128 ≤ r.first + r.shift ∨ r.first = r.last ∧ r.first + r.shift = 0x6b := by
  decide +kernel

theorem toNat_ofNat_cases (n : Nat) : (Char.ofNat n).toNat = n ∨ (Char.ofNat n).toNat = 0 := by
  by_cases h : n.isValidChar
  · rw [Char.ofNat, dif_pos h]
    exact .inl rfl
  · rw [Char.ofNat, dif_neg h]
    exact .inr rfl

/-- Of the ASCII characters only `i` and `k` are lower case of another one. -/
theorem toNat_of_mem_lowerChar {c d : Char} (hc : 128 ≤ c.toNat) (hd : d ∈ lowerChar c) :
    128 ≤ d.toNat ∨ d.toNat = 0 ∨ d.toNat = 0x69 ∨ d.toNat = 0x6b := by
  rw [lowerChar, if_neg (by omega), mapCase] at hd
  split at hd
  · next ns hlookup =>
    rw [lowerSequences, List.lookup_cons, List.lookup_nil] at hlookup
    split at hlookup
    · obtain rfl := Option.some.inj hlookup
      simp only [List.map_cons, List.map_nil, List.mem_cons, List.not_mem_nil, or_false] at hd
      rcases hd with rfl | rfl <;> decide
    · contradiction
  · split at hd
    · next n himage =>
      obtain ⟨r, hr, himage⟩ := List.exists_of_findSome?_eq_some himage
      rw [List.mem_singleton] at hd
      subst hd
      unfold CaseRun.image? at himage
      split at himage
      · next hin =>
        have hn := Option.some.inj himage
        have hbounds := lowerRuns_bounds r hr
        rcases toNat_ofNat_cases n with h | h <;> omega
      · contradiction
    · rw [List.mem_singleton] at hd
      exact .inl (hd ▸ hc)

/-- A dot or a slash. -/
def IsMark (c : Char) : Prop := c = '.' ∨ c = '/'

instance (c : Char) : Decidable (IsMark c) := inferInstanceAs (Decidable (_ ∨ _))

/-- What a character may become. -/
structure LowersTo (c : Char) (piece : Text) : Prop where
  filled : piece ≠ []
  mark : ∀ k ∈ piece, IsMark k → c = k
  ofMark : IsMark c → piece = [c]
  head : piece.head? = some 'h' ↔ c = 'h' ∨ c = 'H'

theorem toLower_ascii : ∀ n < 128, (IsMark (Char.ofNat n).toLower ∨ IsMark (Char.ofNat n) →
      (Char.ofNat n).toLower = Char.ofNat n) ∧
    ((Char.ofNat n).toLower = 'h' ↔ Char.ofNat n = 'h' ∨ Char.ofNat n = 'H') := by
  decide +kernel

theorem lowersTo_of_beyond {c : Char} {piece : Text} (hc : 128 ≤ c.toNat) (hfilled : piece ≠ [])
    (h : ∀ d ∈ piece, 128 ≤ d.toNat ∨ d.toNat = 0 ∨ d.toNat = 0x69 ∨ d.toNat = 0x6b) :
    LowersTo c piece where
  filled := hfilled
  mark k hk hmark := by
    have hbeyond := h k hk
    rcases hmark with rfl | rfl <;> exact absurd hbeyond (by decide)
  ofMark hmark := by
    rcases hmark with rfl | rfl <;> exact absurd hc (by decide)
  head := by
    refine iff_of_false (fun hhead => ?_) ?_
    · exact absurd (h 'h' (List.mem_of_head? hhead)) (by decide)
    · rintro (rfl | rfl) <;> exact absurd hc (by decide)

theorem lowerChar_ne_nil (c : Char) : lowerChar c ≠ [] := by
  unfold lowerChar mapCase
  split
  · simp
  · split
    · next ns hlookup =>
      rw [lowerSequences, List.lookup_cons, List.lookup_nil] at hlookup
      split at hlookup
      · rw [← Option.some.inj hlookup]
        simp
      · contradiction
    · split <;> simp

theorem lowersTo_lowerChar (c : Char) : LowersTo c (lowerChar c) := by
  by_cases hc : c.toNat < 128
  · obtain ⟨hmark, hhead⟩ := toLower_ascii c.toNat hc
    rw [Char.ofNat_toNat] at hmark hhead
    rw [lowerChar, if_pos hc]
    refine ⟨by simp, fun k hk hkmark => ?_, fun hcmark => ?_, ?_⟩
    · obtain rfl := List.mem_singleton.mp hk
      exact (hmark (.inl hkmark)).symm
    · rw [hmark (.inr hcmark)]
    · simpa using hhead
  · exact lowersTo_of_beyond (by omega) (lowerChar_ne_nil c) fun d hd =>
      toNat_of_mem_lowerChar (by omega) hd

/-- A text in lower case, piece by piece. Which form of a sigma stands where is left open. -/
inductive Lowered : Text → Text → Prop where
  | nil : Lowered [] []
  | cons {c : Char} {piece t u : Text} (hc : LowersTo c piece) (ht : Lowered t u) :
      Lowered (c :: t) (piece ++ u)

theorem lowered_lower (t : Text) : Lowered t (lower t) := by
  have hfrom : ∀ before, Lowered t (lowerFrom before t) := by
    induction t with
    | nil => exact fun _ => .nil
    | cons c rest ih =>
      intro before
      refine .cons ?_ (ih (c :: before))
      split
      · next hsigma =>
        subst hsigma
        refine lowersTo_of_beyond (by decide) (by simp) fun d hd => .inl ?_
        obtain rfl := List.mem_singleton.mp hd
        split <;> decide
      · exact lowersTo_lowerChar c
  exact hfrom []

theorem Lowered.mem_mark_iff {t u : Text} (h : Lowered t u) {k : Char} (hk : IsMark k) :
    k ∈ u ↔ k ∈ t := by
  induction h with
  | nil => exact Iff.rfl
  | @cons c piece t u hc ht ih =>
    rw [List.mem_append, List.mem_cons, ih]
    refine or_congr ⟨fun hmem => (hc.mark k hmem hk).symm, ?_⟩ Iff.rfl
    rintro rfl
    rw [hc.ofMark hk]
    exact List.mem_singleton_self k

theorem Lowered.head? {t u : Text} (h : Lowered t u) :
    u.head? = some 'h' ↔ t.head? = some 'h' ∨ t.head? = some 'H' := by
  cases h with
  | nil => simp
  | @cons c piece t u hc ht =>
    rw [List.head?_append_of_ne_nil piece hc.filled, hc.head]
    simp

theorem Lowered.mark_split {a b u : Text} {k : Char} (hk : IsMark k) (h : Lowered (a ++ k :: b) u) :
    ∃ v w, u = v ++ k :: w ∧ Lowered a v ∧ Lowered b w := by
  induction a generalizing u with
  | nil =>
    cases h with
    | @cons _ piece _ u hc ht =>
      rw [hc.ofMark hk]
      exact ⟨[], u, rfl, .nil, ht⟩
  | cons c a ih =>
    cases h with
    | @cons _ piece _ u hc ht =>
      obtain ⟨v, w, rfl, hv, hw⟩ := ih ht
      exact ⟨piece ++ v, w, (List.append_assoc ..).symm, .cons hc hv, hw⟩

theorem Lowered.split_mark {t v w : Text} {k : Char} (hk : IsMark k)
    (h : Lowered t (v ++ k :: w)) : ∃ a b, t = a ++ k :: b ∧ Lowered a v ∧ Lowered b w := by
  generalize hu : v ++ k :: w = u at h
  induction h generalizing v with
  | nil => simp at hu
  | @cons c piece t u hc ht ih =>
    have hbehind : ∀ v', v = piece ++ v' → v' ++ k :: w = u →
        ∃ a b, c :: t = a ++ k :: b ∧ Lowered a v ∧ Lowered b w := by
      rintro v' rfl hrest
      obtain ⟨a, b, rfl, ha, hb⟩ := ih hrest
      exact ⟨c :: a, b, rfl, .cons hc ha, hb⟩
    rcases List.append_eq_append_iff.mp hu with ⟨x, hpiece, hx⟩ | ⟨v', hv, hrest⟩
    · cases x with
      | nil => exact hbehind [] (by simp [hpiece]) hx
      | cons d x =>
        obtain ⟨rfl, rfl⟩ := List.cons.inj hx
        obtain rfl := hc.mark k (by simp [hpiece]) hk
        have hone := (hc.ofMark hk).symm.trans hpiece
        obtain ⟨rfl, rfl⟩ : v = [] ∧ x = [] := by
          cases v with
          | nil => simpa using hone
          | cons => simp at hone
        exact ⟨[], t, rfl, .nil, ht⟩
    · exact hbehind v' hv hrest.symm

theorem LowersTo.exists_ne_dot_iff {c : Char} {piece : Text} (h : LowersTo c piece) :
    (∃ d ∈ piece, d ≠ '.') ↔ c ≠ '.' := by
  constructor
  · rintro ⟨d, hd, hne⟩ rfl
    rw [h.ofMark (.inl rfl)] at hd
    exact hne (List.mem_singleton.mp hd)
  · intro hne
    obtain ⟨d, hd⟩ := List.exists_mem_of_ne_nil piece h.filled
    exact ⟨d, hd, fun hdot => hne (h.mark d hd (.inl hdot) ▸ hdot)⟩

/-- Dots become dots, and nothing else does. -/
theorem Lowered.exists_ne_dot_iff {t u : Text} (h : Lowered t u) :
    (∃ c ∈ u, c ≠ '.') ↔ ∃ c ∈ t, c ≠ '.' := by
  induction h with
  | nil => exact Iff.rfl
  | @cons c piece t u hc ht ih =>
    simp only [List.mem_append, List.mem_cons, or_and_right, exists_or, exists_eq_left,
      hc.exists_ne_dot_iff, ih]

end SourceEdit.Text
