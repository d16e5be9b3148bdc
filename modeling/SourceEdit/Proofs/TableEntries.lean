import Mathlib.Data.List.Nodup
import SourceEdit.Table

set_option autoImplicit false

namespace SourceEdit.Table

variable {κ ν ι : Type} [DecidableEq κ] {t u : Table κ ν} {k : κ} {es : List (κ × ν)}

theorem ext_of_keys (hkeys : keys t = keys u) (hnodup : (keys t).Nodup)
    (hget : ∀ k ∈ keys t, get? t k = get? u k) : t = u := by
  induction t generalizing u with
  | nil => exact (List.map_eq_nil_iff.mp hkeys.symm).symm
  | cons e t ih =>
    obtain ⟨k, v⟩ := e
    have hfilled : u ≠ [] := by
      rintro rfl
      simp [keys] at hkeys
    obtain ⟨⟨k', w⟩, u, rfl⟩ := List.exists_cons_of_ne_nil hfilled
    obtain ⟨hk, htail⟩ := List.cons.inj hkeys
    obtain ⟨hnew, hrest⟩ := List.nodup_cons.mp hnodup
    obtain rfl : k = k' := hk
    have hv : v = w := by simpa [get?] using hget k List.mem_cons_self
    refine congrArg₂ _ (congrArg _ hv) (ih htail hrest fun l hl => ?_)
    have hne : k ≠ l := fun heq => hnew (heq ▸ hl)
    simpa [get?, hne] using hget l (.tail _ hl)

theorem keys_foldl_insert (es : List (κ × ν)) (t : Table κ ν) :
    keys (es.foldl (fun t e => insert t e.1 e.2) t) =
      (es.map (·.1)).foldl (fun ks k => if k ∈ ks then ks else ks ++ [k]) (keys t) := by
  induction es generalizing t with
  | nil => rfl
  | cons e es ih => rw [List.foldl_cons, ih, keys_insert, List.map_cons, List.foldl_cons]

theorem nodup_keys_foldl_insert (es : List (κ × ν)) (h : (keys t).Nodup) :
    (keys (es.foldl (fun t e => insert t e.1 e.2) t)).Nodup := by
  induction es generalizing t with
  | nil => exact h
  | cons e es ih =>
    refine ih ?_
    rw [keys_insert]
    split
    · exact h
    · next hnew =>
      exact List.Nodup.append h (List.nodup_singleton _) (List.disjoint_singleton.mpr hnew)

theorem mem_keys_foldl_insert : k ∈ keys (es.foldl (fun t e => insert t e.1 e.2) t) ↔
    k ∈ keys t ∨ k ∈ es.map (·.1) := by
  induction es generalizing t with
  | nil => simp
  | cons e es ih =>
    rw [List.foldl_cons, ih, keys_insert, List.map_cons, List.mem_cons]
    split
    · next hold =>
      rw [← or_assoc, or_iff_left_of_imp (fun heq : k = e.1 => heq ▸ hold)]
    · rw [List.mem_append, List.mem_singleton, or_assoc]

theorem get?_foldl_insert (h : k ∉ es.map (·.1)) :
    get? (es.foldl (fun t e => insert t e.1 e.2) t) k = get? t k := by
  induction es generalizing t with
  | nil => rfl
  | cons e es ih =>
    rw [List.map_cons, List.mem_cons, not_or] at h
    rw [List.foldl_cons, ih h.2, get?_insert, if_neg (Ne.symm h.1)]

theorem mem_keys_ofList : k ∈ keys (ofList es) ↔ k ∈ es.map (·.1) := by
  rw [ofList, mem_keys_foldl_insert]
  simp [keys]

theorem get?_ofList {front back : List (κ × ν)} {v : ν} (h : k ∉ back.map (·.1)) :
    get? (ofList (front ++ (k, v) :: back)) k = some v := by
  rw [ofList, List.foldl_append, List.foldl_cons, get?_foldl_insert h, get?_insert, if_pos rfl]

theorem exists_last {p : ι → Prop} {ls : List ι} (h : ∃ l ∈ ls, p l) :
    ∃ front l back, ls = front ++ l :: back ∧ p l ∧ ∀ m ∈ back, ¬p m := by
  induction ls with
  | nil =>
    obtain ⟨l, hl, -⟩ := h
    contradiction
  | cons x ls ih =>
    by_cases hlater : ∃ l ∈ ls, p l
    · obtain ⟨front, l, back, rfl, hl, hback⟩ := ih hlater
      exact ⟨x :: front, l, back, rfl, hl, hback⟩
    · obtain ⟨l, hl, hpl⟩ := h
      have hx : p x := by
        rcases List.mem_cons.mp hl with rfl | hl
        · exact hpl
        · exact absurd ⟨l, hl, hpl⟩ hlater
      exact ⟨[], x, ls, rfl, hx, fun m hm hpm => hlater ⟨m, hm, hpm⟩⟩

/-- Two tables with the same keys in the same order are one if they agree on the last entry of each.
-/
theorem ofList_map_eq_iff (ls : List ι) (key : ι → κ) (value value' : ι → ν) :
    ofList (ls.map fun l => (key l, value l)) = ofList (ls.map fun l => (key l, value' l)) ↔
      ∀ front l back, ls = front ++ l :: back → (∀ m ∈ back, key m ≠ key l) →
        value l = value' l := by
  have hvalue : ∀ (f : ι → ν) front l back, (∀ m ∈ back, key m ≠ key l) →
      get? (ofList ((front ++ l :: back).map fun l => (key l, f l))) (key l) = some (f l) := by
    intro f front l back hlast
    rw [List.map_append, List.map_cons]
    refine get?_ofList ?_
    simpa using hlast
  constructor
  · rintro h front l back rfl hlast
    have hget := hvalue value front l back hlast
    rw [h, hvalue value' front l back hlast] at hget
    exact (Option.some.inj hget).symm
  · intro h
    have hkeys : ∀ f : ι → ν, (ls.map fun l => (key l, f l)).map (·.1) = ls.map key := fun f => by
      rw [List.map_map]
      rfl
    refine ext_of_keys ?_ (nodup_keys_foldl_insert _ List.nodup_nil) fun k hk => ?_
    · rw [ofList, ofList, keys_foldl_insert, keys_foldl_insert, hkeys, hkeys]
    · rw [mem_keys_ofList, hkeys, List.mem_map] at hk
      obtain ⟨front, l, back, rfl, rfl, hlast⟩ := exists_last hk
      rw [hvalue value front l back hlast, hvalue value' front l back hlast, h front l back rfl hlast]

end SourceEdit.Table
