import Mathlib.Data.List.DropRight
import SourceEdit.Proofs.RealPath

set_option autoImplicit false

namespace SourceEdit.Path

variable {dir dir' p : Path}

/-- How many directories a relative path climbs before it goes down. -/
def climbs (p : Path) : Nat := ((names p).takeWhile isParent).length

/-- The path leads to the same place from both directories: it is absolute, or what it leaves of
them when it climbs is the same. -/
def SameFrom (p dir dir' : Path) : Prop :=
  isAbsolute p = true ∨ leadingSlashes dir = leadingSlashes dir' ∧
    (names dir).rdrop (climbs p) = (names dir').rdrop (climbs p)

instance (p dir dir' : Path) : Decidable (SameFrom p dir dir') :=
  inferInstanceAs (Decidable (_ ∨ _))

/-- What a relative path has come to by itself, and what it has come to from a directory with these
names; both are kept from their ends. -/
def Follows (base alone behind : List Text) : Prop :=
  ∃ down k, (∀ n ∈ down, isParent n = false) ∧
    alone = down ++ List.replicate k ['.', '.'] ∧ behind = down ++ base.drop k

theorem Follows.push {base alone behind : List Text} (h : Follows base alone behind)
    (hbase : ∀ n ∈ base, isParent n = false) (name : Text) :
    Follows base (pushName false alone name) (pushName true behind name) := by
  obtain ⟨down, k, hdown, rfl, rfl⟩ := h
  unfold pushName
  split
  · exact ⟨down, k, hdown, rfl, rfl⟩
  · split
    · next hplain =>
      exact ⟨name :: down, k, List.forall_mem_cons.mpr ⟨by simpa using hplain, hdown⟩, rfl, rfl⟩
    · next hparent =>
      obtain rfl : name = ['.', '.'] := by simpa [isParent] using hparent
      cases down with
      | cons last down =>
        obtain ⟨hlast, hdown⟩ := List.forall_mem_cons.mp hdown
        simp only [List.cons_append, hlast, Bool.false_eq_true, if_false]
        exact ⟨down, k, hdown, rfl, rfl⟩
      | nil =>
        refine ⟨[], k + 1, by simp, ?_, ?_⟩
        · cases k <;> simp [List.replicate_succ, isParent]
        · simp only [List.nil_append]
          cases hbehind : base.drop k with
          | nil =>
            rw [List.drop_eq_nil_iff] at hbehind
            simp [List.drop_eq_nil_of_le (Nat.le_succ_of_le hbehind)]
          | cons last before =>
            have hlast := hbase last (List.mem_of_mem_drop (hbehind ▸ List.mem_cons_self))
            simp only [hlast, Bool.false_eq_true, if_false]
            rw [← List.tail_drop, hbehind]
            rfl

theorem Follows.foldl {base alone behind : List Text} (h : Follows base alone behind)
    (hbase : ∀ n ∈ base, isParent n = false) (fs : List Text) :
    Follows base (fs.foldl (pushName false) alone) (fs.foldl (pushName true) behind) := by
  induction fs generalizing alone behind with
  | nil => exact h
  | cons f fs ih => exact ih (h.push hbase f)

theorem join_eq_append (hdir : isAbsolute dir = true) (hp : isAbsolute p = false) :
    ∃ front, join dir p = front ++ '/' :: p ∧ (dir = front ∨ dir = front ++ ['/']) := by
  have hne : dir.isEmpty = false := by
    cases dir with
    | nil => contradiction
    | cons => rfl
  rw [join, if_neg (by simp [hp]), hne, Bool.false_or]
  split
  · next hlast =>
    obtain ⟨front, rfl⟩ := List.getLast?_eq_some_iff.mp (of_decide_eq_true hlast)
    exact ⟨front, by simp, .inr rfl⟩
  · exact ⟨dir, rfl, .inl rfl⟩

theorem names_join (hdir : isAbsolute dir = true) (hp : isAbsolute p = false) :
    names (join dir p) =
      ((Text.fields '/' p).foldl (pushName true) (names dir).reverse).reverse := by
  obtain ⟨front, hjoin, hfront⟩ := join_eq_append hdir hp
  have hfields : (names dir).reverse = (Text.fields '/' front).foldl (pushName true) [] := by
    rw [names, List.reverse_reverse, hdir]
    rcases hfront with rfl | rfl
    · rfl
    · rw [Text.fields_append_cons, List.foldl_append]
      rfl
  rw [hfields, ← List.foldl_append, ← Text.fields_append_cons, ← hjoin, names,
    isAbsolute_join hdir p]

theorem leadingSlashes_join (hdir : isAbsolute dir = true) (hp : isAbsolute p = false) :
    leadingSlashes (join dir p) = leadingSlashes dir := by
  obtain ⟨rest, rfl⟩ : ∃ rest, dir = '/' :: rest := by
    cases dir with
    | nil => contradiction
    | cons c rest => exact ⟨rest, by simpa [isAbsolute] using hdir⟩
  have hhead : ∀ q, p ≠ '/' :: q := by
    rintro q rfl
    contradiction
  rcases rest with _ | ⟨c, _ | ⟨d, rest⟩⟩
  · cases p <;> simp_all [join, leadingSlashes]
  · by_cases hc : c = '/' <;> cases p <;> simp_all [join, leadingSlashes]
  · have hfirst : ∀ u : Text, leadingSlashes ('/' :: c :: d :: rest ++ u) =
        leadingSlashes ('/' :: c :: d :: rest) := by
      intro u
      by_cases hc : c = '/' <;> by_cases hd : d = '/' <;> simp [leadingSlashes, hc, hd]
    rw [join, if_neg (by simp [hp])]
    split <;> exact hfirst _

theorem names_join_eq (hdir : isAbsolute dir = true) (hp : isAbsolute p = false) :
    names (join dir p) = (names dir).rdrop (climbs p) ++ (names p).drop (climbs p) := by
  have hbase : ∀ n ∈ (names dir).reverse, isParent n = false := fun n hn =>
    (names_clean hdir n (List.mem_reverse.mp hn)).plain.notParent
  have hstart : Follows (names dir).reverse [] (names dir).reverse := ⟨[], 0, by simp, rfl, rfl⟩
  obtain ⟨down, k, hdown, halone, hbehind⟩ := hstart.foldl hbase (Text.fields '/' p)
  have hnames : names p = List.replicate k ['.', '.'] ++ down.reverse := by
    rw [names, hp, halone, List.reverse_append, List.reverse_replicate]
  have hclimbs : climbs p = k := by
    have hnone : down.reverse.takeWhile isParent = [] := List.takeWhile_eq_nil_iff.mpr fun h =>
      ne_true_of_eq_false (hdown _ (List.mem_reverse.mp (List.getElem_mem h)))
    rw [climbs, hnames, List.takeWhile_append_of_pos (by simp [isParent]), hnone]
    simp
  rw [names_join hdir hp, hbehind, hclimbs, hnames, List.rdrop_eq_reverse_drop_reverse,
    List.reverse_append, List.drop_left' (List.length_replicate ..)]

/-- The place of a path seen from a directory is that seen from the working directory exactly if it
is the same from both. -/
theorem absolute_join_eq_iff {workDir root : Path} (hworkDir : isAbsolute workDir = true)
    (hroot : isAbsolute root = true) (p : Path) :
    absolute workDir p = absolute workDir (join root p) ↔ SameFrom p root workDir := by
  cases hp : isAbsolute p with
  | true =>
    have hjoin : join root p = p := by rw [join, if_pos hp]
    exact iff_of_true (by rw [hjoin]) (.inl hp)
  | false =>
    have hhere : absolute workDir p = normalize (join workDir p) := by
      rw [absolute, if_neg (by simp [hp])]
    have hthere : absolute workDir (join root p) = normalize (join root p) := by
      rw [absolute, if_pos (isAbsolute_join hroot p)]
    rw [hhere, hthere, normalize_eq_iff (isAbsolute_join hworkDir p) (isAbsolute_join hroot p),
      leadingSlashes_join hworkDir hp, leadingSlashes_join hroot hp, names_join_eq hworkDir hp,
      names_join_eq hroot hp, List.append_left_inj, SameFrom, hp]
    simp only [Bool.false_eq_true, false_or]
    exact and_congr eq_comm eq_comm

end SourceEdit.Path
