import SourceEdit.Counterpart.Resolver
import SourceEdit.Proofs.Runs

set_option autoImplicit false

namespace SourceEdit

theorem Table.get?_filter_key {κ ν : Type} [DecidableEq κ] (t : Table κ ν) (keep : κ → Bool)
    (l : κ) : Table.get? (t.filter fun e => keep e.1) l = if keep l then t.get? l else none := by
  induction t with
  | nil => simp [get?]
  | cons e rest ih =>
    by_cases hk : keep e.1 <;> by_cases hl : e.1 = l <;> simp_all [get?]

namespace CounterpartCache

def Symmetric (c : CounterpartCache) : Prop := ∀ p q, c.get? p = some q → c.get? q = some p

inductive Action where
  | resolve (fs : FileSystem) (settings : Settings) (index : List Text → List Path) (p : Path)
  | invalidate (p : Path)
  | rename (old new : Path)
  | fileCreated (p : Path)
  | clear

def act (c : CounterpartCache) : Action → CounterpartCache
  | .resolve fs settings index p => (Counterpart.resolve fs settings index c p).1
  | .invalidate p => c.invalidate p
  | .rename old new => c.rename old new
  | .fileCreated p => c.fileCreated p
  | .clear => empty

def run (c : CounterpartCache) : List Action → CounterpartCache
  | [] => c
  | a :: rest => (c.act a).run rest

theorem run_eq_foldl (c : CounterpartCache) (actions : List Action) :
    c.run actions = actions.foldl act c := by
  induction actions generalizing c with
  | nil => rfl
  | cons a rest ih => exact ih (c.act a)

/-- The path is in no pair with a path outside of the list. -/
def StaysIn (c : CounterpartCache) (paths : List Path) (p : Path) : Prop :=
  ∀ r, c.get? p = some r → r ∈ paths

/-- The action leaves no half of a pair behind: the two paths of a new pair are in no other pair,
nor is the new name of a file, and both sides of a pair have the base name of a new file or none. -/
def Fits (c : CounterpartCache) : Action → Prop
  | .resolve fs settings index p =>
    let p := Path.absolute fs.workDir p
    ∀ q, (c.get? p).filter (!·.isEmpty) = none → Counterpart.search? fs settings index p = some q →
      c.StaysIn [p, q] p ∧ c.StaysIn [p, q] q
  | .rename old new => ∀ q, c.get? old = some q → c.StaysIn [old, new, q] new
  | .fileCreated p =>
    ∀ r s, c.get? r = some s → (lowerStem r = lowerStem p ↔ lowerStem s = lowerStem p)
  | .invalidate _ => True
  | .clear => True

/-- Every action of a run fits the cache that it finds. -/
def FitsAll (c : CounterpartCache) : List Action → Prop
  | [] => True
  | a :: rest => c.Fits a ∧ (c.act a).FitsAll rest

theorem symmetric_empty : empty.Symmetric := by
  intro p q h
  simp at h

theorem get?_insert_pair (c : CounterpartCache) (p q r : Path) :
    (c.insert p q).get? r = if q = r then some p else if p = r then some q else c.get? r := by
  rw [insert, get?_put, get?_put]

theorem symmetric_insert_iff {c : CounterpartCache} (h : c.Symmetric) (p q : Path) :
    (c.insert p q).Symmetric ↔ c.StaysIn [p, q] p ∧ c.StaysIn [p, q] q := by
  constructor
  · intro hs
    -- a path outside of the new pair still leads into it, but is not what it leads to
    have hout : ∀ r s, s = p ∨ s = q → c.get? s = some r → r ∈ [p, q] := by
      intro r s hmem hr
      by_contra hne
      simp only [List.mem_cons, List.not_mem_nil, or_false, not_or] at hne
      have hback := hs r s
      rw [get?_insert_pair, if_neg (Ne.symm hne.2), if_neg (Ne.symm hne.1)] at hback
      have := hback (h s r hr)
      rw [get?_insert_pair] at this
      split at this
      · exact hne.1 (Option.some.inj this).symm
      · split at this
        · exact hne.2 (Option.some.inj this).symm
        · rcases hmem with rfl | rfl <;> contradiction
    exact ⟨fun r => hout r p (.inl rfl), fun r => hout r q (.inr rfl)⟩
  · rintro ⟨hp, hq⟩ r s hr
    rw [get?_insert_pair] at hr ⊢
    split at hr
    · next hqr =>
      obtain rfl := Option.some.inj hr
      split
      · next hqp => rw [← hqr, hqp]
      · rw [if_pos rfl, hqr]
    · split at hr
      · next hpr =>
        obtain rfl := Option.some.inj hr
        rw [if_pos rfl, hpr]
      · next hqr hpr =>
        have hback := h r s hr
        have hsq : q ≠ s := by
          rintro rfl
          rcases List.mem_pair.mp (hq r hback) with rfl | rfl <;> contradiction
        have hsp : p ≠ s := by
          rintro rfl
          rcases List.mem_pair.mp (hp r hback) with rfl | rfl <;> contradiction
        rw [if_neg hsq, if_neg hsp, hback]

theorem get?_rename {c : CounterpartCache} {old q : Path} (h : c.get? old = some q)
    (new r : Path) : (c.rename old new).get? r =
      if q = r then some new else if new = r then some q else if old = r then none
      else c.get? r := by
  simp only [rename, h, get?_put, get?_drop]

theorem symmetric_rename_iff {c : CounterpartCache} (h : c.Symmetric) (old new : Path) :
    (c.rename old new).Symmetric ↔ ∀ q, c.get? old = some q → c.StaysIn [old, new, q] new := by
  cases ho : c.get? old with
  | none => simp [rename, ho, h]
  | some q =>
    have hq := h old q ho
    constructor
    · rintro hs _ ⟨rfl⟩ r hr
      by_contra hne
      simp only [List.mem_cons, List.not_mem_nil, or_false, not_or] at hne
      have hback := hs r new
      rw [get?_rename ho, if_neg (Ne.symm hne.2.2), if_neg (Ne.symm hne.2.1),
        if_neg (Ne.symm hne.1)] at hback
      have := hback (h new r hr)
      rw [get?_rename ho] at this
      split at this
      · exact hne.2.1 (Option.some.inj this).symm
      · rw [if_pos rfl] at this
        exact hne.2.2 (Option.some.inj this).symm
    · intro hn r s hr
      have hn := hn q rfl
      rw [get?_rename ho] at hr ⊢
      split at hr
      · next hqr =>
        obtain rfl := Option.some.inj hr
        split
        · next hqn => rw [← hqr, hqn]
        · rw [if_pos rfl, hqr]
      · split at hr
        · next hnr =>
          obtain rfl := Option.some.inj hr
          rw [if_pos rfl, hnr]
        · split at hr
          · contradiction
          · next hqr hnr hor =>
            have hback := h r s hr
            have hsq : q ≠ s := by
              rintro rfl
              rw [hq] at hback
              exact hor (Option.some.inj hback)
            have hsn : new ≠ s := by
              rintro rfl
              have := hn r hback
              simp only [List.mem_cons, List.not_mem_nil, or_false] at this
              rcases this with rfl | rfl | rfl <;> contradiction
            have hso : old ≠ s := by
              rintro rfl
              rw [ho] at hback
              exact hqr (Option.some.inj hback)
            rw [if_neg hsq, if_neg hsn, if_neg hso, hback]

theorem get?_invalidate {c : CounterpartCache} (h : c.Symmetric) {p q : Path}
    (hp : c.get? p = some q) (r : Path) :
    (c.invalidate p).get? r = if p = r ∨ q = r then none else c.get? r := by
  simp only [invalidate, hp, get?_drop]
  by_cases hpq : p = q
  · subst hpq
    simp [get?_drop]
  · rw [if_neg hpq, if_pos (h p q hp), get?_drop, get?_drop]
    by_cases hqr : q = r <;> by_cases hpr : p = r <;> simp [hqr, hpr]

theorem symmetric_invalidate {c : CounterpartCache} (h : c.Symmetric) (p : Path) :
    (c.invalidate p).Symmetric := by
  cases hp : c.get? p with
  | none => simp only [invalidate, hp]; exact h
  | some q =>
    intro r s hr
    rw [get?_invalidate h hp] at hr ⊢
    split at hr
    · contradiction
    · next hout =>
      have hback := h r s hr
      rw [if_neg, hback]
      rintro (rfl | rfl)
      · exact hout (.inr (Option.some.inj (hp.symm.trans hback)))
      · exact hout (.inl (Option.some.inj ((h p q hp).symm.trans hback)))

theorem get?_fileCreated (c : CounterpartCache) (p r : Path) :
    (c.fileCreated p).get? r = if lowerStem r = lowerStem p then none else c.get? r := by
  have h := Table.get?_filter_key c.entries (fun k => decide (lowerStem k ≠ lowerStem p)) r
  simp only [decide_eq_true_eq, ite_not] at h
  exact h

theorem symmetric_fileCreated_iff {c : CounterpartCache} (h : c.Symmetric) (p : Path) :
    (c.fileCreated p).Symmetric ↔
      ∀ r s, c.get? r = some s → (lowerStem r = lowerStem p ↔ lowerStem s = lowerStem p) := by
  constructor
  · intro hs
    have hone : ∀ r s, c.get? r = some s → lowerStem s = lowerStem p →
        lowerStem r = lowerStem p := by
      intro r s hr hsp
      by_contra hrp
      have := hs r s (by rw [get?_fileCreated, if_neg hrp, hr])
      rw [get?_fileCreated, if_pos hsp] at this
      contradiction
    exact fun r s hr => ⟨hone s r (h r s hr), hone r s hr⟩
  · intro hside r s hr
    rw [get?_fileCreated] at hr ⊢
    split at hr
    · contradiction
    · next hrp => rw [if_neg (fun hsp => hrp ((hside r s hr).mpr hsp)), h r s hr]

theorem symmetric_resolve_iff {c : CounterpartCache} (h : c.Symmetric) (fs : FileSystem)
    (settings : Settings) (index : List Text → List Path) (p : Path) :
    (Counterpart.resolve fs settings index c p).1.Symmetric ↔
      c.Fits (.resolve fs settings index p) := by
  simp only [Counterpart.resolve, Fits]
  cases hc : (c.get? (Path.absolute fs.workDir p)).filter (!·.isEmpty) with
  | some q => simp [h]
  | none =>
    cases hs : Counterpart.search? fs settings index (Path.absolute fs.workDir p) with
    | none => simp [h]
    | some q => simp [symmetric_insert_iff h]

theorem symmetric_act_iff {c : CounterpartCache} (h : c.Symmetric) (a : Action) :
    (c.act a).Symmetric ↔ c.Fits a := by
  cases a with
  | resolve fs settings index p => exact symmetric_resolve_iff h fs settings index p
  | invalidate p => exact iff_of_true (symmetric_invalidate h p) trivial
  | rename old new => exact symmetric_rename_iff h old new
  | fileCreated p => exact symmetric_fileCreated_iff h p
  | clear => exact iff_of_true symmetric_empty trivial

theorem symmetric_states_iff {c : CounterpartCache} (h : c.Symmetric) (actions : List Action) :
    (∀ done, done <+: actions → (c.run done).Symmetric) ↔ c.FitsAll actions := by
  simp only [run_eq_foldl]
  exact forall_states_iff act (fun _ => True) Symmetric Fits FitsAll
    (fun _ => trivial) (fun _ _ _ => Iff.rfl) (fun _ _ _ _ => trivial)
    (fun _ a _ _ hs => symmetric_act_iff hs a) trivial h

/-- The states of a run from the empty cache lead back from every counterpart exactly as long as
every action fits the state in which it is done. -/
theorem states_symmetric_iff_fits (actions : List Action) :
    (∀ done, done <+: actions → (empty.run done).Symmetric) ↔ empty.FitsAll actions :=
  symmetric_states_iff symmetric_empty actions

theorem not_symmetric_shared_header :
    let fs : FileSystem := ⟨[([['a', '.', 'h']], .file [] {})], ['/'], ['/']⟩
    let resolve := Action.resolve fs .standard fun _ => []
    ¬(empty.run [resolve ['/', 'a', '.', 'c'], resolve ['/', 'a', '.', 'c', 'c']]).Symmetric := by
  intro fs resolve h
  have hpairs : let c := empty.run [resolve ['/', 'a', '.', 'c'], resolve ['/', 'a', '.', 'c', 'c']]
      c.get? ['/', 'a', '.', 'c'] = some ['/', 'a', '.', 'h'] ∧
        c.get? ['/', 'a', '.', 'h'] = some ['/', 'a', '.', 'c', 'c'] := by
    simp only [resolve, run, act, Counterpart.resolve, Counterpart.search?, Counterpart.candidates,
      Settings.oppositeSuffixes_standard]
    decide +kernel
  obtain ⟨hsource, hheader⟩ := hpairs
  have hback := h _ _ hsource
  rw [hheader] at hback
  exact absurd hback (by decide)

end CounterpartCache

end SourceEdit
