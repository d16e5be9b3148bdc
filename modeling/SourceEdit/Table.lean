/-!
Tables: keys with their values, in the order in which the keys first came. A key stands in a table
once; inserted again, it keeps its place and takes the new value.
-/

set_option autoImplicit false

namespace SourceEdit

abbrev Table (κ ν : Type) := List (κ × ν)

namespace Table

variable {κ ν : Type} [DecidableEq κ]

def get? : Table κ ν → κ → Option ν
  | [], _ => none
  | (k, v) :: rest, l => if k = l then some v else get? rest l

def insert : Table κ ν → κ → ν → Table κ ν
  | [], l, w => [(l, w)]
  | (k, v) :: rest, l, w => if k = l then (k, w) :: rest else (k, v) :: insert rest l w

def erase (t : Table κ ν) (l : κ) : Table κ ν := t.filter fun e => e.1 ≠ l

/-- The later of two entries with one key counts. -/
def ofList (entries : List (κ × ν)) : Table κ ν :=
  entries.foldl (fun t e => insert t e.1 e.2) []

def keys (t : Table κ ν) : List κ := t.map (·.1)

theorem get?_insert (t : Table κ ν) (l m : κ) (w : ν) :
    get? (insert t l w) m = if l = m then some w else get? t m := by
  induction t with
  | nil => rfl
  | cons e rest ih =>
    by_cases hk : e.1 = l <;> by_cases hm : l = m <;> simp_all [insert, get?]

theorem get?_erase (t : Table κ ν) (l m : κ) :
    get? (erase t l) m = if l = m then none else get? t m := by
  induction t with
  | nil => simp [erase, get?]
  | cons e rest ih =>
    unfold erase at ih ⊢
    by_cases hl : e.1 = l <;> by_cases hm : l = m <;> simp_all [get?]

theorem get?_mapValues (t : Table κ ν) (f : ν → ν) (l : κ) :
    get? (t.map fun (k, v) => (k, f v)) l = (get? t l).map f := by
  induction t with
  | nil => rfl
  | cons e rest ih =>
    rw [List.map_cons, get?, get?, ih]
    split <;> rfl

theorem mem_of_get? {t : Table κ ν} {l : κ} {v : ν} (h : t.get? l = some v) : (l, v) ∈ t := by
  induction t with
  | nil => contradiction
  | cons e rest ih =>
    obtain ⟨k, w⟩ := e
    rw [get?] at h
    split at h
    · next hk =>
      rw [hk, Option.some.inj h]
      exact List.mem_cons_self
    · exact .tail _ (ih h)

theorem get?_ne_none_of_mem {t : Table κ ν} {e : κ × ν} (h : e ∈ t) : t.get? e.1 ≠ none := by
  induction t with
  | nil => contradiction
  | cons x rest ih =>
    rw [get?]
    split
    · simp
    · next hk =>
      rcases List.mem_cons.mp h with rfl | h
      · exact absurd rfl hk
      · exact ih h

theorem keys_insert (t : Table κ ν) (l : κ) (w : ν) :
    keys (insert t l w) = if l ∈ keys t then keys t else keys t ++ [l] := by
  induction t with
  | nil => rfl
  | cons e rest ih =>
    by_cases hk : e.1 = l
    · simp [insert, keys, hk]
    · by_cases hl : l ∈ keys rest <;> simp_all [insert, keys, eq_comm]

end Table

end SourceEdit
