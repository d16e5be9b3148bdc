import Mathlib.Tactic.IntervalCases
import SourceEdit.Text.Utf8

set_option autoImplicit false

namespace SourceEdit

namespace Utf8

theorem toNat_ofNat {n : Nat} (h : n < 256) : (UInt8.ofNat n).toNat = n := by
  simp [Nat.mod_eq_of_lt h]

theorem lead_single {n : Nat} (h : n < 0x80) : lead (UInt8.ofNat n) = .single (Char.ofNat n) := by
  have hle : UInt8.ofNat n ≤ 0x7f := by
    rw [UInt8.le_iff_toNat_le, toNat_ofNat (by omega)]
    exact Nat.le_of_lt_succ h
  rw [lead, if_pos hle, toNat_ofNat (by omega)]

theorem lead_two {m : Nat} (hlow : 2 ≤ m) (hhigh : m < 0x20) :
    lead (UInt8.ofNat (0xc0 + m)) = .lead ⟨1, 0x80, 0xbf, m⟩ := by
  interval_cases m <;> rfl

theorem lead_three {m : Nat} (h : m < 0x10) : ∃ low high : UInt8,
    lead (UInt8.ofNat (0xe0 + m)) = .lead ⟨2, low, high, m⟩ ∧
      low.toNat = (if m = 0 then 0xa0 else 0x80) ∧ high.toNat = if m = 0xd then 0x9f else 0xbf := by
  refine ⟨if m = 0 then 0xa0 else 0x80, if m = 0xd then 0x9f else 0xbf, ?_, ?_, ?_⟩
  · interval_cases m <;> rfl
  · split <;> rfl
  · split <;> rfl

theorem lead_four {m : Nat} (h : m ≤ 4) : ∃ low high : UInt8,
    lead (UInt8.ofNat (0xf0 + m)) = .lead ⟨3, low, high, m⟩ ∧
      low.toNat = (if m = 0 then 0x90 else 0x80) ∧ high.toNat = if m = 4 then 0x8f else 0xbf := by
  refine ⟨if m = 0 then 0x90 else 0x80, if m = 4 then 0x8f else 0xbf, ?_, ?_, ?_⟩
  · interval_cases m <;> rfl
  · split <;> rfl
  · split <;> rfl

theorem decodeFrom_single {b : UInt8} {c : Char} (h : lead b = .single c) (rest : Octets) :
    decodeFrom none (b :: rest) = c :: decodeFrom none rest := by
  simp [decodeFrom, h]

theorem decodeFrom_lead {b : UInt8} {u : Unfinished} (h : lead b = .lead u) (rest : Octets) :
    decodeFrom none (b :: rest) = decodeFrom (some u) rest := by
  simp [decodeFrom, h]

theorem decodeFrom_accepted {u : Unfinished} {b : UInt8} (h : u.accepts b = true) (rest : Octets) :
    decodeFrom (some u) (b :: rest) =
      match u.next b with
      | .inl c => c :: decodeFrom none rest
      | .inr v => decodeFrom (some v) rest := by
  rw [decodeFrom]
  simp only [h, if_true]
  cases u.next b <;> rfl

section
variable {low high : UInt8} {bits m : Nat} (hlow : low.toNat ≤ 0x80 + m % 0x40)
  (hhigh : 0x80 + m % 0x40 ≤ high.toNat)
include hlow hhigh

theorem next_tail (owed : Nat) :
    Unfinished.accepts ⟨owed, low, high, bits⟩ (UInt8.ofNat (0x80 + m % 0x40)) = true ∧
    Unfinished.next ⟨owed, low, high, bits⟩ (UInt8.ofNat (0x80 + m % 0x40)) =
      if owed ≤ 1 then .inl (Char.ofNat (bits * 0x40 + m % 0x40))
      else .inr ⟨owed - 1, 0x80, 0xbf, bits * 0x40 + m % 0x40⟩ := by
  have hoctet : (UInt8.ofNat (0x80 + m % 0x40)).toNat = 0x80 + m % 0x40 :=
    toNat_ofNat (by omega)
  constructor
  · rw [Unfinished.accepts, Bool.and_eq_true, decide_eq_true_eq, decide_eq_true_eq,
      UInt8.le_iff_toNat_le, UInt8.le_iff_toNat_le, hoctet]
    exact ⟨hlow, hhigh⟩
  · rw [Unfinished.next, hoctet, Nat.add_sub_cancel_left]

theorem decodeFrom_last (rest : Octets) :
    decodeFrom (some ⟨1, low, high, bits⟩) (UInt8.ofNat (0x80 + m % 0x40) :: rest) =
      Char.ofNat (bits * 0x40 + m % 0x40) :: decodeFrom none rest := by
  obtain ⟨haccepts, hnext⟩ := @next_tail low high bits m hlow hhigh 1
  rw [decodeFrom_accepted haccepts, hnext]
  rfl

theorem decodeFrom_more (owed : Nat) (rest : Octets) :
    decodeFrom (some ⟨owed + 2, low, high, bits⟩) (UInt8.ofNat (0x80 + m % 0x40) :: rest) =
      decodeFrom (some ⟨owed + 1, 0x80, 0xbf, bits * 0x40 + m % 0x40⟩) rest := by
  obtain ⟨haccepts, hnext⟩ := @next_tail low high bits m hlow hhigh (owed + 2)
  rw [decodeFrom_accepted haccepts, hnext, if_neg (by omega)]
  rfl

end

theorem toNat_bounds (c : Char) : c.toNat < 0xd800 ∨ 0xdfff < c.toNat ∧ c.toNat < 0x110000 :=
  c.valid

/-- The cases are the lengths that a character can have in UTF-8. -/
theorem decodeFrom_encodeChar (c : Char) (rest : Octets) :
    decodeFrom none (encodeChar c ++ rest) = c :: decodeFrom none rest := by
  have hbounds := toNat_bounds c
  have hc : ∀ m, m = c.toNat → Char.ofNat m = c := by
    intro m hm
    rw [hm, Char.ofNat_toNat]
  have hlow : ∀ k, (0x80 : UInt8).toNat ≤ 0x80 + k % 0x40 := fun k => Nat.le_add_right _ _
  have hhigh : ∀ k, 0x80 + k % 0x40 ≤ (0xbf : UInt8).toNat := by
    intro k
    have hoctet : (0xbf : UInt8).toNat = 0xbf := rfl
    omega
  unfold encodeChar
  dsimp only
  generalize c.toNat = n at hbounds hc
  split
  · next hone =>
    rw [List.singleton_append, decodeFrom_single (lead_single hone), hc n rfl]
  · split
    · next hone htwo =>
      have hlead := lead_two (m := n / 0x40) (by omega) (by omega)
      rw [List.cons_append, List.singleton_append, decodeFrom_lead hlead,
        decodeFrom_last (hlow n) (hhigh n), hc _ (by omega)]
    · split
      · next htwo hthree =>
        obtain ⟨low, high, hlead, hl, hh⟩ := lead_three (m := n / 0x1000) (by omega)
        have hl : low.toNat ≤ 0x80 + n / 0x40 % 0x40 := by
          rw [hl]
          split <;> omega
        have hh : 0x80 + n / 0x40 % 0x40 ≤ high.toNat := by
          rw [hh]
          split <;> omega
        rw [List.cons_append, List.cons_append, List.singleton_append, decodeFrom_lead hlead,
          decodeFrom_more hl hh 0, decodeFrom_last (hlow n) (hhigh n), hc _ (by omega)]
      · next hthree =>
        obtain ⟨low, high, hlead, hl, hh⟩ := lead_four (m := n / 0x40000) (by omega)
        have hl : low.toNat ≤ 0x80 + n / 0x1000 % 0x40 := by
          rw [hl]
          split <;> omega
        have hh : 0x80 + n / 0x1000 % 0x40 ≤ high.toNat := by
          rw [hh]
          split <;> omega
        rw [List.cons_append, List.cons_append, List.cons_append, List.singleton_append,
          decodeFrom_lead hlead, decodeFrom_more hl hh 1, decodeFrom_more (hlow _) (hhigh _) 0,
          decodeFrom_last (hlow n) (hhigh n), hc _ (by omega)]

theorem decodeLossy_encode (t : Text) : decodeLossy (encode t) = t := by
  induction t with
  | nil => rfl
  | cons c t ih =>
    rw [decodeLossy] at ih ⊢
    rw [encode, List.flatMap_cons, decodeFrom_encodeChar, ← encode, ih]

end Utf8

namespace Text

/-- Each pair of carriage return and newline becomes one newline. -/
def joinPairs : Text → Text
  | [] => []
  | '\r' :: '\n' :: rest => '\n' :: joinPairs rest
  | c :: rest => c :: joinPairs rest

/-- Pairs are joined first; each carriage return that is left becomes a newline. -/
theorem unifyNewlines_eq (t : Text) : unifyNewlines t = replaceChar '\r' '\n' (joinPairs t) := by
  fun_induction joinPairs t with
  | case1 => rfl
  | case2 rest ih =>
    rw [unifyNewlines, ih]
    rfl
  | case3 c rest hpair ih =>
    rw [unifyNewlines, ih]
    · rfl
    · exact hpair

theorem not_mem_unifyNewlines (t : Text) : '\r' ∉ unifyNewlines t := by
  rw [unifyNewlines_eq, replaceChar, List.mem_map]
  rintro ⟨c, -, hc⟩
  split at hc
  · contradiction
  · next hne => exact hne hc

theorem unifyNewlines_eq_self_iff {t : Text} : unifyNewlines t = t ↔ '\r' ∉ t := by
  constructor
  · intro h
    rw [← h]
    exact not_mem_unifyNewlines t
  · intro h
    induction t with
    | nil => rfl
    | cons c rest ih =>
      obtain ⟨hne, hrest⟩ : c ≠ '\r' ∧ '\r' ∉ rest := by simpa [eq_comm] using h
      rw [unifyNewlines, if_neg hne, ih hrest]
      intro _ heq
      exact absurd heq hne

end Text

end SourceEdit
