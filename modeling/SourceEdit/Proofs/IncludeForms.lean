import Mathlib.Data.List.TakeDrop
import Mathlib.Data.List.TakeWhile
import SourceEdit.Include.Basic

set_option autoImplicit false

namespace SourceEdit

namespace Text

theorem strip_eq_self {t : Text} (hhead : ∀ c, t.head? = some c → isBlank c = false)
    (hlast : ∀ c, t.getLast? = some c → isBlank c = false) : strip t = t := by
  have hfront : dropBlank t = t := by
    cases t with
    | nil => rfl
    | cons c rest => simp [dropBlank, hhead c rfl]
  have hback : t.reverse.dropWhile isBlank = t.reverse := by
    cases hr : t.reverse with
    | nil => rfl
    | cons c rest =>
      have : t.getLast? = some c := by rw [← List.head?_reverse, hr]; rfl
      simp [hlast c this]
  rw [strip, hfront, dropEndWhile, hback, List.reverse_reverse]

theorem head?_strip {t : Text} {c : Char} (h : (strip t).head? = some c) : isBlank c = false := by
  have hprefix : strip t <+: dropBlank t := by
    have := dropEndWhile_append_takeEndWhile (dropBlank t) isBlank
    exact ⟨_, this⟩
  have hc : (dropBlank t).head? = some c := by
    obtain ⟨rest, hrest⟩ := hprefix
    rw [← hrest, List.head?_append, h]; rfl
  have hnot := List.head?_dropWhile_not isBlank t
  rw [dropBlank] at hc
  rw [hc] at hnot
  exact hnot

theorem getLast?_strip {t : Text} {c : Char} (h : (strip t).getLast? = some c) :
    isBlank c = false := by
  rw [strip, dropEndWhile, List.getLast?_reverse] at h
  have hnot := List.head?_dropWhile_not isBlank (dropBlank t).reverse
  rw [h] at hnot
  exact hnot

theorem mem_of_mem_strip {t : Text} {c : Char} (h : c ∈ strip t) : c ∈ t := by
  rw [strip, dropEndWhile, List.mem_reverse] at h
  have h := (List.dropWhile_sublist _).subset h
  rw [List.mem_reverse] at h
  exact (List.dropWhile_sublist _).subset h

theorem mem_replaceChar {old new c : Char} {t : Text} (h : c ∈ replaceChar old new t) :
    c = new ∨ c ∈ t ∧ c ≠ old := by
  rw [replaceChar, List.mem_map] at h
  obtain ⟨d, hd, rfl⟩ := h
  split
  · exact .inl rfl
  · next hne => exact .inr ⟨hd, hne⟩

theorem replaceChar_eq_self {old new : Char} {t : Text} (h : old ∉ t) :
    replaceChar old new t = t := by
  rw [replaceChar]
  conv_rhs => rw [← List.map_id t]
  refine List.map_congr_left fun c hc => ?_
  rw [if_neg, id]
  rintro rfl
  exact h hc

end Text

namespace Include

/-- A name as it can stand between delimiters: no delimiter and no newline in it, slashes for
separators, and no blank at either end. -/
structure Sound (i : Include) : Prop where
  filled : i.name ≠ []
  noDelimiter : ∀ c ∈ i.name, isDelimiter c = false
  noNewline : '\n' ∉ i.name
  noBackslash : '\\' ∉ i.name
  stripped : Text.strip i.name = i.name

theorem sound_of_named {raw : Text} {quoting : Quoting} {i : Include}
    (hdelimiter : ∀ c ∈ raw, isDelimiter c = false) (hnewline : '\n' ∉ raw)
    (h : named? raw quoting = some i) : i.Sound ∧ i.quoting = quoting := by
  simp only [named?] at h
  split at h
  · contradiction
  · next hfilled =>
    obtain rfl := Option.some.inj h
    have hmem : ∀ {c : Char}, c ∈ Text.replaceChar '\\' '/' (Text.strip raw) →
        c = '/' ∨ c ∈ raw ∧ c ≠ '\\' := fun hc =>
      (Text.mem_replaceChar hc).imp_right (And.imp_left Text.mem_of_mem_strip)
    have hsame : ∀ c : Char, Text.isBlank c = false →
        Text.isBlank (if c = '\\' then '/' else c) = false := by
      intro c hc
      split
      · decide
      · exact hc
    refine ⟨⟨?_, ?_, ?_, ?_, ?_⟩, rfl⟩
    · simpa using hfilled
    · intro c hc
      rcases hmem hc with rfl | hc
      · decide
      · exact hdelimiter c hc.1
    · intro hc
      rcases hmem hc with hc | hc
      · exact absurd hc (by decide)
      · exact hnewline hc.1
    · intro hc
      rcases hmem hc with hc | hc
      · exact absurd hc (by decide)
      · exact hc.2 rfl
    · refine Text.strip_eq_self (fun c hc => ?_) (fun c hc => ?_)
      · rw [Text.replaceChar, List.head?_map, Option.map_eq_some_iff] at hc
        obtain ⟨d, hd, rfl⟩ := hc
        exact hsame d (Text.head?_strip hd)
      · rw [Text.replaceChar, List.getLast?_map, Option.map_eq_some_iff] at hc
        obtain ⟨d, hd, rfl⟩ := hc
        exact hsame d (Text.getLast?_strip hd)

theorem delimited?_sound {close : Char} {body inner rest : Text}
    (h : delimited? close body = some (inner, rest)) :
    (∀ c ∈ inner, isDelimiter c = false) ∧ '\n' ∉ inner := by
  simp only [delimited?, List.span_eq_takeWhile_dropWhile] at h
  split at h
  · next inner' c rest' heq =>
    split at h
    · obtain ⟨rfl, rfl⟩ := Prod.mk.inj (Option.some.inj h)
      have hinner := (Prod.mk.inj heq).1
      constructor
      · intro c hc
        rw [← hinner] at hc
        have := List.mem_takeWhile_imp hc
        simp only [Bool.and_eq_true, Bool.not_eq_true', decide_eq_true_eq] at this
        exact this.1
      · intro hc
        rw [← hinner] at hc
        have := List.mem_takeWhile_imp hc
        simp at this
    · contradiction
  · contradiction

theorem leadingTarget?_sound {t name rest : Text} {quoting : Quoting}
    (h : leadingTarget? t = some (quoting, name, rest)) :
    (∀ c ∈ name, isDelimiter c = false) ∧ '\n' ∉ name := by
  unfold leadingTarget? at h
  split at h
  · obtain ⟨r, hr, he⟩ := Option.map_eq_some_iff.mp h
    obtain ⟨-, rfl⟩ := Prod.mk.inj he
    exact delimited?_sound hr
  · obtain ⟨r, hr, he⟩ := Option.map_eq_some_iff.mp h
    obtain ⟨-, rfl⟩ := Prod.mk.inj he
    exact delimited?_sound hr
  · contradiction

/-- Every include that is read has a sound name. -/
theorem sound_of_parse {t : Text} {i : Include} (h : parse? t = some i) : i.Sound := by
  simp only [parse?] at h
  split at h
  · next quoting name rest htarget =>
    split at h
    · obtain ⟨hdelimiter, hnewline⟩ := leadingTarget?_sound htarget
      exact (sound_of_named hdelimiter hnewline h).1
    · contradiction
  · simp only [ofBareName?] at h
    split at h
    · contradiction
    · next hclean =>
      rw [Bool.not_eq_true, List.any_eq_false] at hclean
      simp only [Bool.or_eq_true, not_or, Bool.not_eq_true] at hclean
      refine (sound_of_named (fun c hc => (hclean c hc).1) (fun hc => ?_) h).1
      exact absurd (hclean _ hc).2 (by decide)

def opening : Quoting → Char
  | .quoted => '"'
  | .angled => '<'

def closing : Quoting → Char
  | .quoted => '"'
  | .angled => '>'

theorem target_eq (i : Include) :
    i.target = opening i.quoting :: (i.name ++ [closing i.quoting]) := by
  unfold target
  cases i.quoting <;> rfl

theorem Sound.delimited? {i : Include} (h : i.Sound) :
    delimited? (closing i.quoting) (i.name ++ [closing i.quoting]) = some (i.name, []) := by
  have hinner : ∀ c ∈ i.name, (!isDelimiter c && decide (c ≠ '\n')) = true := by
    intro c hc
    have hne : c ≠ '\n' := by rintro rfl; exact h.noNewline hc
    simp [h.noDelimiter c hc, hne]
  have hclose : (!isDelimiter (closing i.quoting) && decide (closing i.quoting ≠ '\n')) = false := by
    cases i.quoting <;> decide
  simp only [Include.delimited?, List.span_eq_takeWhile_dropWhile,
    List.takeWhile_append_of_pos hinner, List.dropWhile_append_of_pos hinner,
    List.takeWhile_cons, List.dropWhile_cons, hclose]
  simp

theorem Sound.leadingTarget? {i : Include} (h : i.Sound) :
    leadingTarget? i.target = some (i.quoting, i.name, []) := by
  have hd := h.delimited?
  rw [target_eq]
  cases hq : i.quoting <;> rw [hq] at hd <;> simp only [closing] at hd <;>
    simp [Include.leadingTarget?, opening, closing, hd]

theorem strip_target (i : Include) : Text.strip i.target = i.target := by
  rw [target_eq]
  refine Text.strip_eq_self (fun c hc => ?_) (fun c hc => ?_)
  · obtain rfl := Option.some.inj hc
    cases i.quoting <;> decide
  · rw [← List.cons_append, List.getLast?_concat] at hc
    obtain rfl := Option.some.inj hc
    cases i.quoting <;> decide

theorem dropKeyword_target (i : Include) : dropKeyword i.target = i.target := by
  unfold target
  cases i.quoting <;> rfl

theorem Sound.named? {i : Include} (h : i.Sound) : named? i.name i.quoting = some i := by
  simp only [Include.named?, h.stripped, Text.replaceChar_eq_self h.noBackslash]
  simp [h.filled]

theorem Sound.parse?_target {i : Include} (h : i.Sound) : parse? i.target = some i := by
  simp only [parse?, strip_target, dropKeyword_target, h.leadingTarget?]
  exact h.named?

end Include

end SourceEdit
