import Mathlib.Data.List.Basic

set_option autoImplicit false

namespace SourceEdit

theorem forall_states_iff {σ α : Type} (step : σ → α → σ) (Side Inv : σ → Prop)
    (Fits : σ → α → Prop) (FitsAll : σ → List α → Prop) (hnil : ∀ s, FitsAll s [])
    (hcons : ∀ s a as, FitsAll s (a :: as) ↔ Fits s a ∧ FitsAll (step s a) as) {s : σ}
    {events : List α} (hside : ∀ s, ∀ a ∈ events, Side s → Side (step s a))
    (hstep : ∀ s, ∀ a ∈ events, Side s → Inv s → (Inv (step s a) ↔ Fits s a)) (hs : Side s)
    (h : Inv s) : (∀ done, done <+: events → Inv (done.foldl step s)) ↔ FitsAll s events := by
  induction events generalizing s with
  | nil =>
    refine iff_of_true (fun done hdone => ?_) (hnil s)
    rwa [List.prefix_nil.mp hdone]
  | cons a rest ih =>
    have ih := fun {t} => ih (s := t) (fun s b hb => hside s b (.tail a hb)) fun s b hb =>
      hstep s b (.tail a hb)
    have hthis := hstep s a List.mem_cons_self hs h
    have hs' := hside s a List.mem_cons_self hs
    rw [hcons]
    constructor
    · intro hall
      have hnext : Inv (step s a) := hall [a] (by simp)
      refine ⟨hthis.mp hnext, (ih hs' hnext).mp fun done hdone => ?_⟩
      exact hall (a :: done) (by simpa using hdone)
    · rintro ⟨hfits, hrest⟩ done hdone
      rcases List.prefix_cons_iff.mp hdone with rfl | ⟨tail, rfl, htail⟩
      · exact h
      · exact (ih hs' (hthis.mpr hfits)).mpr hrest tail htail

end SourceEdit
