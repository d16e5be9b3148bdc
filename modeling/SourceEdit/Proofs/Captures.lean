import SourceEdit.Proofs.DirectiveSpans
import SourceEdit.Proofs.IncludePattern

set_option autoImplicit false

namespace SourceEdit

namespace Capture

def start (source : Text) (c : Capture) : Nat :=
  source.positionOfLine (c.startLine + 1 : Nat) + c.startColumn

def stop (source : Text) (c : Capture) : Nat :=
  source.positionOfLine (c.endLine + 1 : Nat) + c.endColumn

/-- The text of the capture is the one from its beginning to its end. -/
structure Addresses (source : Text) (c : Capture) : Prop where
  start_le : c.start source ≤ c.stop source
  stop_le : c.stop source ≤ source.length
  text_eq : c.text = source.slice (c.start source) (c.stop source)

end Capture

namespace LineIndex

theorem positionOfLine_lineCol (source : Text) (o : Nat) :
    source.positionOfLine
        ((((ofText (Comment.blankOut source)).lineCol o).1.toNat + 1 : Nat) : Int) +
      ((ofText (Comment.blankOut source)).lineCol o).2.toNat = o := by
  have hle := source.afterNewlines_count_take_le o
  rw [Comment.lineCol_blankOut, lineCol_line, lineCol_column, Int.toNat_natCast, Int.toNat_natCast,
    Text.positionOfLine_succ]
  omega

end LineIndex

namespace Query

def captured (source : Text) (g : Text × Span) : Capture :=
  capture (.ofText (Comment.blankOut source)) source g.1 g.2

theorem run_eq (q : Query) (source : Text) :
    q.run source = (q.spans (Comment.blankOut source)).map (captured source) := rfl

section
variable (source : Text) (g : Text × Span)

theorem start_captured : (captured source g).start source = g.2.start :=
  LineIndex.positionOfLine_lineCol source g.2.start

theorem stop_captured : (captured source g).stop source = g.2.stop :=
  LineIndex.positionOfLine_lineCol source g.2.stop

theorem startLine_captured :
    (captured source g).startLine = ((Comment.blankOut source).take g.2.start).count '\n' := by
  have hline := LineIndex.lineCol_line (Comment.blankOut source) g.2.start
  exact congrArg Int.toNat hline

theorem endLine_captured :
    (captured source g).endLine = ((Comment.blankOut source).take g.2.stop).count '\n' := by
  have hline := LineIndex.lineCol_line (Comment.blankOut source) g.2.stop
  exact congrArg Int.toNat hline

end

theorem addresses_captured {source : Text} {g : Text × Span}
    (h : g.2.Between 0 (Comment.blankOut source).length) :
    (captured source g).Addresses source where
  start_le := by
    rw [start_captured, stop_captured]
    exact h.start_le
  stop_le := by
    rw [stop_captured, ← Comment.length_blankOut]
    exact h.stop_le
  text_eq := by
    rw [start_captured, stop_captured]
    rfl

def spansByMatch : Query → Text → List (List (Text × Span))
  | .includeTargets, code =>
    (Directive.includeTargets code).map fun s => [(['p', 'a', 't', 'h'], s)]
  | .pragmaOnce, code => (Directive.onces code).map fun s => [(['v', 'a', 'l', 'u', 'e'], s)]
  | .headerGuard, code =>
    (Directive.headerGuards code).map fun (name, value) =>
      [(['n', 'a', 'm', 'e'], name), (['v', 'a', 'l', 'u', 'e'], value)]
  | .expression e, code => (e.pattern.allMatches code).map (groupSpans e.names)

theorem flatten_spansByMatch (q : Query) (code : Text) :
    (q.spansByMatch code).flatten = q.spans code := by
  cases q with
  | includeTargets => rw [spansByMatch, spans, ← List.flatMap_def, ← List.map_eq_flatMap]
  | pragmaOnce => rw [spansByMatch, spans, ← List.flatMap_def, ← List.map_eq_flatMap]
  | headerGuard => rw [spansByMatch, spans, ← List.flatMap_def]
  | expression e => rw [spansByMatch, spans, ← List.flatMap_def]

theorem mem_groups_of_mem_groupSpans {names : List (Text × Nat)} {m : Match} {g : Text × Span}
    (h : g ∈ groupSpans names m) : ∃ index, (index, g.2) ∈ m.groups := by
  obtain ⟨⟨name, index⟩, -, hg⟩ := List.mem_filterMap.mp h
  obtain ⟨s, hs, rfl⟩ := Option.map_eq_some_iff.mp hg
  obtain ⟨front, back, hsplit, -⟩ := List.lookup_eq_some_iff.mp hs
  exact ⟨index, by simp [hsplit]⟩

section
variable {find? : Text → Option Span} (hbounds : Directive.FindsParts find?) (name code : Text)
include hbounds

theorem between_of_mem_found {g : Text × Span}
    (h : g ∈ (Directive.onEachLine find? code).map fun s => (name, s)) :
    g.2.Between 0 code.length := by
  obtain ⟨s, hs, rfl⟩ := List.mem_map.mp h
  obtain ⟨k, hk⟩ := Directive.exists_onLine_of_mem_onEachLine hbounds hs
  exact hk.between

theorem pairwise_found : ((Directive.onEachLine find? code).map fun s => [(name, s)]).Pairwise
    fun a b => ∀ g ∈ a, ∀ g' ∈ b, g.2.stop ≤ g'.2.start := by
  refine List.pairwise_map.mpr ((Directive.pairwise_onEachLine hbounds code).imp fun h => ?_)
  simpa using h.stop_le_start

end

theorem between_of_mem_spans {q : Query} {code : Text} {g : Text × Span} (h : g ∈ q.spans code) :
    g.2.Between 0 code.length := by
  cases q with
  | includeTargets => exact between_of_mem_found Directive.includeTarget?_bounds _ code h
  | pragmaOnce => exact between_of_mem_found Directive.pragmaOnce?_bounds _ code h
  | headerGuard =>
    obtain ⟨⟨name, value⟩, hguard, hg⟩ := List.mem_flatMap.mp h
    obtain ⟨k, k', -, hname, hvalue⟩ :=
      Directive.above_of_mem_guards (Directive.pairwise_placed code) hguard
    rcases List.mem_pair.mp hg with rfl | rfl
    · exact hname.between
    · exact hvalue.between
  | expression e =>
    obtain ⟨m, hm, hg⟩ := List.mem_flatMap.mp h
    have hwithin := Pattern.within_of_mem_allMatches hm
    obtain ⟨index, hindex⟩ := mem_groups_of_mem_groupSpans hg
    exact (hwithin.groups _ hindex).mono (Nat.zero_le _) hwithin.span.stop_le

/-- Nothing that one match captures reaches into what a later one captures. -/
theorem pairwise_spansByMatch (q : Query) (code : Text) : (q.spansByMatch code).Pairwise
    fun a b => ∀ g ∈ a, ∀ g' ∈ b, g.2.stop ≤ g'.2.start := by
  cases q with
  | includeTargets => exact pairwise_found Directive.includeTarget?_bounds _ code
  | pragmaOnce => exact pairwise_found Directive.pragmaOnce?_bounds _ code
  | headerGuard =>
    have hplaced := Directive.pairwise_placed code
    refine List.pairwise_map.mpr
      ((Directive.pairwise_guards hplaced).imp_of_mem fun {a b} ha hb h => ?_)
    have hab := h.stop_le_start
    have hname := (Directive.above_of_mem_guards hplaced ha).stop_le_start
    have hvalue := (Directive.above_of_mem_guards hplaced hb).stop_le_start
    obtain ⟨k, k', -, hs, hs'⟩ := h
    have hstop := hs.between.start_le
    have hstart := hs'.between.start_le
    simp only [List.mem_cons, List.not_mem_nil, or_false]
    rintro _ (rfl | rfl) _ (rfl | rfl) <;> dsimp only <;> omega
  | expression e =>
    refine List.pairwise_map.mpr
      ((Pattern.pairwise_allMatches e.pattern code).imp_of_mem fun {m n} hm hn hmn => ?_)
    intro g hg g' hg'
    obtain ⟨i, hi⟩ := mem_groups_of_mem_groupSpans hg
    obtain ⟨j, hj⟩ := mem_groups_of_mem_groupSpans hg'
    calc g.2.stop
        ≤ m.span.stop := ((Pattern.within_of_mem_allMatches hm).groups _ hi).stop_le
      _ ≤ n.span.start := hmn
      _ ≤ g'.2.start := ((Pattern.within_of_mem_allMatches hn).groups _ hj).first_le

def runByMatch (q : Query) (source : Text) : List (List Capture) :=
  (q.spansByMatch (Comment.blankOut source)).map (List.map (captured source))

theorem flatten_runByMatch (q : Query) (source : Text) :
    (q.runByMatch source).flatten = q.run source := by
  rw [runByMatch, ← List.map_flatten, flatten_spansByMatch, run_eq]

/-- Every capture leads to its own text, and the captures of a match end where those of the next one
begin or before. -/
structure CapturesInOrder (q : Query) (source : Text) : Prop where
  flatten_eq : (q.runByMatch source).flatten = q.run source
  addresses : ∀ c ∈ q.run source, c.Addresses source
  pairwise : (q.runByMatch source).Pairwise
    fun a b => ∀ c ∈ a, ∀ d ∈ b, c.stop source ≤ d.start source

theorem capturesInOrder (q : Query) (source : Text) : q.CapturesInOrder source where
  flatten_eq := q.flatten_runByMatch source
  addresses c hc := by
    obtain ⟨g, hg, rfl⟩ := List.mem_map.mp (q.run_eq source ▸ hc)
    exact addresses_captured (between_of_mem_spans hg)
  pairwise := by
    refine List.pairwise_map.mpr ((q.pairwise_spansByMatch _).imp fun {a b} h => ?_)
    intro c hc d hd
    obtain ⟨g, hg, rfl⟩ := List.mem_map.mp hc
    obtain ⟨g', hg', rfl⟩ := List.mem_map.mp hd
    rw [stop_captured, start_captured]
    exact h g hg g' hg'

structure OnePerLine (q : Query) (source : Text) : Prop where
  endLine_eq : ∀ c ∈ q.run source, c.endLine = c.startLine
  pairwise : (q.run source).Pairwise (·.startLine < ·.startLine)

theorem onePerLine_of_spans {q : Query} {source name : Text} {find? : Text → Option Span}
    (hbounds : Directive.FindsParts find?)
    (hspans : ∀ code, q.spans code = (Directive.onEachLine find? code).map fun s => (name, s)) :
    q.OnePerLine source where
  endLine_eq c hc := by
    rw [run_eq, hspans, List.map_map] at hc
    obtain ⟨s, hs, rfl⟩ := List.mem_map.mp hc
    obtain ⟨k, hk⟩ := Directive.exists_onLine_of_mem_onEachLine hbounds hs
    have hle : s.start ≤ s.stop := hk.between.start_le
    rw [Function.comp_apply, endLine_captured, startLine_captured,
      hk.count_take hle (Nat.le_refl _), hk.count_take (Nat.le_refl _) hle]
  pairwise := by
    rw [run_eq, hspans, List.map_map]
    refine List.pairwise_map.mpr
      ((Directive.pairwise_onEachLine hbounds _).imp fun {s s'} h => ?_)
    obtain ⟨k, k', hlt, hs, hs'⟩ := h
    rw [Function.comp_apply, Function.comp_apply, startLine_captured, startLine_captured,
      hs.count_take (Nat.le_refl _) hs.between.start_le,
      hs'.count_take (Nat.le_refl _) hs'.between.start_le]
    exact hlt

theorem onePerLine_includeTargets (source : Text) : includeTargets.OnePerLine source :=
  onePerLine_of_spans Directive.includeTarget?_bounds fun _ => rfl

theorem onePerLine_pragmaOnce (source : Text) : pragmaOnce.OnePerLine source :=
  onePerLine_of_spans Directive.pragmaOnce?_bounds fun _ => rfl

/-- The query captures what the search for this expression captures. -/
def Expresses (q : Query) (expressionText : Text) : Prop :=
  ∃ e, Expression.parse expressionText = .ok e ∧
    ∀ source, (Query.expression e).run source = q.run source

/-- Captures as addresses of text, for every query there is. The targets of includes and the word of
`#pragma once` are what the expressions for them capture; each is on one line, and there is one on a
line at most. -/
theorem run_addresses_text :
    (∀ (q : Query) (source : Text), q.CapturesInOrder source) ∧
    (includeTargets.Expresses Directive.includeSyntax ∧
      ∀ source, includeTargets.OnePerLine source) ∧
    (pragmaOnce.Expresses Directive.pragmaSyntax ∧ ∀ source, pragmaOnce.OnePerLine source) :=
  ⟨capturesInOrder,
    ⟨⟨_, Directive.parse_includeSyntax, Directive.run_includeExpression⟩, onePerLine_includeTargets⟩,
    ⟨⟨_, Directive.parse_pragmaSyntax, Directive.run_pragmaExpression⟩, onePerLine_pragmaOnce⟩⟩

end Query

end SourceEdit
