import SourceEdit.Proofs.GreedyRepetition
import SourceEdit.Proofs.LiteralPattern

set_option autoImplicit false

namespace SourceEdit

namespace Pattern

/-- The pattern reads the words of `L` and nothing else, and it closes no group. -/
structure Reads (pattern : Pattern) (L : Text → Prop) : Prop where
  sound : ∀ {α : Type} {k : Point → Option α} {p : Point} {x : α}, pattern.run k p = some x →
    ∃ t, L t ∧ t <+: p.ahead ∧ k (p.advance t.length) = some x
  complete : ∀ {α : Type} {k : Point → Option α} {p : Point} {t : Text}, L t → t <+: p.ahead →
    k (p.advance t.length) ≠ none → pattern.run k p ≠ none

variable {a b pattern : Pattern} {L M : Text → Prop}

theorem Reads.congr (h : Reads pattern L) (hwords : ∀ t, L t ↔ M t) : Reads pattern M :=
  (funext fun t => propext (hwords t) : L = M) ▸ h

theorem reads_ofText (s : Text) : Reads (.ofText s) (· = s) where
  sound {α k p x} h := by
    rw [(steps_ofText s).run, Point.past?_eq] at h
    split at h
    · next hs => exact ⟨s, rfl, hs, h⟩
    · contradiction
  complete {α k p t} hL hs hk := by
    subst hL
    rwa [(steps_ofText t).run, Point.past?_eq, if_pos hs]

theorem reads_char (c : Char) : Reads (.char c) (· = [c]) where
  sound h := (reads_ofText [c]).sound h
  complete := (reads_ofText [c]).complete

theorem reads_many {item : Pattern} {kind : Char → Bool} (hitem : Steps item (·.pastChar? kind)) :
    Reads (many item) fun t => ∀ c ∈ t, kind c = true where
  sound {α k p x} h := by
    rw [run_many hitem, longest_eq_some_iff] at h
    obtain ⟨n, hn, hk, -⟩ := h
    obtain ⟨hlength, hkind⟩ := Point.take_of_le_runLength hn
    exact ⟨p.ahead.take n, hkind, List.take_prefix n _, by rwa [hlength]⟩
  complete {α k p t} hL hs hk := by
    rw [run_many hitem, Ne, longest_eq_none_iff]
    exact fun h => hk (h _ (Point.le_runLength hs hL))

theorem Reads.seq (ha : Reads a L) (hb : Reads b M) :
    Reads (.seq a b) fun t => ∃ u v, L u ∧ M v ∧ t = u ++ v where
  sound {α k p x} h := by
    obtain ⟨u, hu, hahead, h⟩ := ha.sound h
    obtain ⟨v, hv, hbehind, h⟩ := hb.sound h
    obtain ⟨rest, hrest⟩ := hahead
    refine ⟨u ++ v, ⟨u, v, hu, hv, rfl⟩, ?_, ?_⟩
    · rw [Point.advance, ← hrest, List.drop_left] at hbehind
      rw [← hrest]
      exact (List.prefix_append_right_inj u).mpr hbehind
    · rwa [List.length_append, Point.advance_add]
  complete {α k p t} hL hs hk := by
    obtain ⟨u, v, hu, hv, rfl⟩ := hL
    have hahead : u <+: p.ahead := (List.prefix_append u v).trans hs
    refine ha.complete hu hahead (hb.complete hv ?_ ?_)
    · obtain ⟨rest, hrest⟩ := hs
      rw [Point.advance, ← hrest, List.append_assoc, List.drop_left]
      exact List.prefix_append v rest
    · rwa [← Point.advance_add, ← List.length_append]

end Pattern

end SourceEdit
